import HyperRpc.Compiler.Generated
import HyperRpc.Core.Services

/-!
# Generated stubs and generated services agree

A stub method passes a method descriptor, of which the names of the service and of the method
travel. The server looks the service up, then the method, makes messages of the prototypes and
calls `CallMethod` of the service object, which casts the messages and runs a handler. Here the
functions of the generated classes are followed through all of this, for every file that
compiles, in any state of the two processes.
-/
namespace HyperRpc

open Lib

variable {Msg : Type}

/-- The default instance of the class of a type has the type, for all types of a file. -/
structure MessageClasses.Lawful (messages : MessageClasses Msg) (env : RpcEnv Msg)
    (file : FileDescriptor) : Prop where
  input : ∀ md : MethodDescriptor, md.service ∈ file.services →
    env.typeOf (messages.defaultInstance (messages.className md.inputType)) = md.inputType
  output : ∀ md : MethodDescriptor, md.service ∈ file.services →
    env.typeOf (messages.defaultInstance (messages.className md.outputType)) = md.outputType

/-- A service object of a generated class: what it answers to the core is what the functions of
the class return. -/
structure Service.ObjectOf (svc : Service Msg) (messages : MessageClasses Msg) (code : FileCode)
    (findFileByName : Str → Option FileDescriptor) (cls : ServiceCode) : Prop where
  descriptor : ∀ g, code.Reached findFileByName g → ∀ g' d,
    cls.getDescriptor code findFileByName g = .ok (g', d) → d = some svc.descriptor
  requestPrototype : ∀ g, code.Reached findFileByName g → ∀ md g' msg,
    cls.getPrototype code findFileByName messages true md g = .ok (g', msg) →
      svc.requestPrototype md = msg
  responsePrototype : ∀ g, code.Reached findFileByName g → ∀ md g' msg,
    cls.getPrototype code findFileByName messages false md g = .ok (g', msg) →
      svc.responsePrototype md = msg

/-- What a service object with this descriptor is to answer. -/
def serviceObject (messages : MessageClasses Msg) (object : ℕ) (descriptor : ServiceDescriptor) :
    Service Msg where
  object := object
  descriptor := descriptor
  requestPrototype md := messages.defaultInstance (messages.className md.inputType)
  responsePrototype md := messages.defaultInstance (messages.className md.outputType)

/-- The code of a file, and that of one of its services. -/
abbrev MessageClasses.fileCode (messages : MessageClasses Msg) (file : FileDescriptor) : FileCode :=
  CppFileGenerator.generate messages.className file

abbrev MessageClasses.serviceCode (messages : MessageClasses Msg) (descriptor : ServiceDescriptor) :
    ServiceCode :=
  CppServiceGenerator.generate messages.className descriptor

variable {env : RpcEnv Msg} {messages : MessageClasses Msg} {file : FileDescriptor}
  {findFileByName : Str → Option FileDescriptor} {descriptor : ServiceDescriptor}
  {around : Surroundings}

/-- The classes of a file have such objects. -/
theorem serviceObject_objectOf (hfile : findFileByName file.name = some file)
    (hcompiles : (messages.fileCode file).compiles around = true) (object : ℕ)
    (hdescriptor : descriptor ∈ file.services) :
    (serviceObject messages object descriptor).ObjectOf messages (messages.fileCode file)
      findFileByName (messages.serviceCode descriptor) := by
  have hprototype : ∀ g, (messages.fileCode file).Reached findFileByName g →
      ∀ isRequest md g' msg, (messages.serviceCode descriptor).getPrototype
        (messages.fileCode file) findFileByName messages isRequest md g = .ok (g', msg) →
          messages.defaultInstance
            (messages.className (if isRequest then md.inputType else md.outputType)) = msg := by
    intro g hg isRequest md g' msg hmsg
    obtain ⟨g₁, -, -, hget⟩ := getDescriptor_spec hfile hcompiles hg
    have hsvc := service_of_getPrototype (hget descriptor hdescriptor) hmsg
    subst hsvc
    rw [getPrototype_eq (hget _ hdescriptor) (resolved_service hcompiles hdescriptor).prototype]
      at hmsg
    cases hmsg
    rfl
  refine ⟨fun g hg g' d hd => ?_, fun g hg md g' msg => hprototype g hg true md g' msg,
    fun g hg md g' msg => hprototype g hg false md g' msg⟩
  obtain ⟨g₁, -, -, hget⟩ := getDescriptor_spec hfile hcompiles hg
  rw [hget descriptor hdescriptor] at hd
  cases hd
  rfl

namespace Service.ObjectOf

variable {svc : Service Msg}

theorem descriptor_eq (hfile : findFileByName file.name = some file)
    (hcompiles : (messages.fileCode file).compiles around = true)
    (hdescriptor : descriptor ∈ file.services)
    (h : svc.ObjectOf messages (messages.fileCode file) findFileByName
      (messages.serviceCode descriptor)) : svc.descriptor = descriptor := by
  have hinitial : (messages.fileCode file).Reached findFileByName .initial := .initial
  obtain ⟨g', -, -, hget⟩ := getDescriptor_spec hfile hcompiles hinitial
  exact (Option.some.inj (h.descriptor _ hinitial _ _ (hget descriptor hdescriptor))).symm

/-- The prototypes are messages of the types of the method. -/
theorem typed (hfile : findFileByName file.name = some file)
    (hcompiles : (messages.fileCode file).compiles around = true)
    (hmessages : messages.Lawful env file)
    (hdescriptor : descriptor ∈ file.services)
    (h : svc.ObjectOf messages (messages.fileCode file) findFileByName
      (messages.serviceCode descriptor)) : svc.Typed env := by
  have hinitial : (messages.fileCode file).Reached findFileByName .initial := .initial
  obtain ⟨g', -, -, hget⟩ := getDescriptor_spec hfile hcompiles hinitial
  have hsvc := h.descriptor_eq hfile hcompiles hdescriptor
  subst hsvc
  constructor
  · intro md hmd
    rw [← hmd] at h hdescriptor
    rw [h.requestPrototype _ hinitial md _ _ (getPrototype_eq (hget _ hdescriptor)
      (resolved_service hcompiles hdescriptor).prototype true)]
    exact hmessages.input md hdescriptor
  · intro md hmd
    rw [← hmd] at h hdescriptor
    rw [h.responsePrototype _ hinitial md _ _ (getPrototype_eq (hget _ hdescriptor)
      (resolved_service hcompiles hdescriptor).prototype false)]
    exact hmessages.output md hdescriptor

end Service.ObjectOf

/-! ## On the server -/

section Server

variable {services : List (Service Msg)}

/-- If there is an object of a class, one of that class is found under the name of its service. -/
theorem exists_serviceMap (hfile : findFileByName file.name = some file)
    (hcompiles : (messages.fileCode file).compiles around = true)
    (hservices : ∀ s ∈ services, s.descriptor.name ∈ file.services.map ServiceDescriptor.name →
      ∃ d ∈ file.services, s.ObjectOf messages (messages.fileCode file) findFileByName
        (messages.serviceCode d))
    (hdescriptor : descriptor ∈ file.services) {svc : Service Msg} (hsvc : svc ∈ services)
    (h : svc.ObjectOf messages (messages.fileCode file) findFileByName
      (messages.serviceCode descriptor)) :
    ∃ svc' ∈ services, serviceMap services descriptor.name = some svc' ∧
      svc'.ObjectOf messages (messages.fileCode file) findFileByName
        (messages.serviceCode descriptor) := by
  have hname : svc.descriptor.name = descriptor.name := by
    rw [h.descriptor_eq hfile hcompiles hdescriptor]
  cases hfind : serviceMap services descriptor.name with
  | none =>
    rw [serviceMap_eq] at hfind
    have hnone := List.find?_eq_none.mp hfind svc (List.mem_reverse.mpr hsvc)
    exact absurd (decide_eq_true hname) hnone
  | some svc' =>
    obtain ⟨hmem, hname'⟩ := mem_of_serviceMap hfind
    obtain ⟨d, hd, h'⟩ := hservices svc' hmem (hname' ▸ List.mem_map_of_mem hdescriptor)
    rw [h'.descriptor_eq hfile hcompiles hd] at hname'
    obtain rfl := List.inj_on_of_nodup_map file.nodup hd hdescriptor hname'
    exact ⟨svc', hmem, rfl, h'⟩

/-- Whatever packet has led to the call of `CallMethod`, it casts no message to another type. -/
theorem runCallMethod_of_requests (hfile : findFileByName file.name = some file)
    (hcompiles : (messages.fileCode file).compiles around = true)
    (hlaw : LawfulProtobuf env) (hmessages : messages.Lawful env file)
    (hdescriptor : descriptor ∈ file.services) {svc : Service Msg}
    (h : svc.ObjectOf messages (messages.fileCode file) findFileByName
      (messages.serviceCode descriptor)) {buf body : List UInt8} {header : RpcHeader}
    {method : MethodDescriptor} {onFindService : Str → Option (Service Msg)}
    (hreqs : RpcCore.Requests env onFindService buf header body svc method) (addr : Addr)
    {g : Globals} (hg : (messages.fileCode file).Reached findFileByName g)
    (hassigned : g.assigned = true) (overrides : Str → Bool) :
    let ctx := RpcCore.contextOf env header body addr svc method
    (messages.serviceCode descriptor).runCallMethod (messages.fileCode file) messages env.typeOf
      overrides ctx.method ctx.request ctx.response g =
        .ok (ranHandler overrides method.name ctx.request ctx.response) := by
  obtain ⟨hmethod, -⟩ := ServiceDescriptor.findMethodByName_some hreqs.resolves
  have htyped := h.typed hfile hcompiles hmessages hdescriptor
  have hrequest : env.typeOf (RpcCore.contextOf env header body addr svc method).request =
      method.inputType := by
    rw [RpcCore.contextOf, hlaw.typeOf_parse, hlaw.typeOf_new, htyped.request method hmethod]
  have hresponse : env.typeOf (RpcCore.contextOf env header body addr svc method).response =
      method.outputType := by
    rw [RpcCore.contextOf, hlaw.typeOf_new, htyped.response method hmethod]
  rw [h.descriptor_eq hfile hcompiles hdescriptor] at hmethod
  subst hmethod
  intro ctx
  have hrun : (messages.serviceCode method.service).runCallMethod (messages.fileCode file) messages
      env.typeOf overrides method ctx.request ctx.response g = _ :=
    runCallMethod_eq (hg.descriptors hfile hassigned hdescriptor)
      (resolved_service hcompiles hdescriptor) overrides ctx.request ctx.response
  rw [ServiceCode.downCast, if_pos (congrArg _ hrequest), ok_bind, ServiceCode.downCast,
    if_pos (congrArg _ hresponse), ok_bind] at hrun
  exact hrun

end Server

/-! ## Agreement -/

/-- The functions that were generated for a method fit together, when `services` are registered
on the server. -/
structure Agreement (env : RpcEnv Msg) (messages : MessageClasses Msg) (code : FileCode)
    (findFileByName : Str → Option FileDescriptor) (services : List (Service Msg))
    (cls : ServiceCode) (stub : StubMethod) (md : MethodDescriptor) : Prop where
  name : stub.name = md.name
  /-- The stub method is declared with its types. -/
  signature : cls.stubSignatures[md.index.val]? =
    some ⟨false, stub.name, stub.inputType, stub.outputType, true⟩
  /-- Both of its functions pass the descriptor of the method. -/
  passes : ∀ g, code.Reached findFileByName g → ∃ g', ∀ sync,
    cls.callStub code findFileByName stub sync g = .ok (g', md)
  /-- The method is found again under the name that travels. -/
  resolves : md.service.findMethodByName md.name = some md
  /-- The prototypes are of the types of the stub method. -/
  prototypes : ∀ g, code.Reached findFileByName g → ∃ g', ∀ isRequest,
    cls.getPrototype code findFileByName messages isRequest md g =
      .ok (g', messages.defaultInstance (if isRequest then stub.inputType else stub.outputType))
  /-- `CallMethod` casts to the types of the stub method and runs the handler of its name. -/
  dispatches : ∀ g, code.Reached findFileByName g → g.assigned = true →
    ∀ overrides request response,
      cls.runCallMethod code messages env.typeOf overrides md request response g =
        (ServiceCode.downCast messages env.typeOf stub.inputType request >>= fun request =>
          ServiceCode.downCast messages env.typeOf stub.outputType response >>= fun response =>
            .ok (ranHandler overrides stub.name request response))
  /-- What is sent for the descriptor runs that handler of an object of the class, if there is
  one. -/
  served : ∀ svc ∈ services, svc.ObjectOf messages code findFileByName cls →
    ∀ rpcHeader request rpcId buf header body, env.typeOf request = md.inputType →
      (onOutgoingRpcSend env rpcHeader md request rpcId).2 = some buf →
      RpcCore.Carries env buf header body → ∀ c addr, ∃ svc' ∈ services, ∃ ctx,
        svc'.ObjectOf messages code findFileByName cls ∧
          RpcCore.onRecvPacket env (serviceMap services) c buf addr =
            some (0, .invoke svc' ctx) ∧
          ctx.method = md ∧ ctx.request = request ∧
          ∀ g, code.Reached findFileByName g → g.assigned = true → ∀ overrides,
            cls.runCallMethod code messages env.typeOf overrides ctx.method ctx.request
                ctx.response g = .ok (ranHandler overrides stub.name request ctx.response)

theorem agreement (hfile : findFileByName file.name = some file)
    (hcompiles : (messages.fileCode file).compiles around = true) (hlaw : LawfulProtobuf env)
    (hmessages : messages.Lawful env file) {services : List (Service Msg)}
    (hservices : ∀ s ∈ services, s.descriptor.name ∈ file.services.map ServiceDescriptor.name →
      ∃ d ∈ file.services, s.ObjectOf messages (messages.fileCode file) findFileByName
        (messages.serviceCode d))
    {md : MethodDescriptor} (hmd : md.service ∈ file.services) :
    Agreement env messages (messages.fileCode file) findFileByName services
      (messages.serviceCode md.service) (stubMethodOf messages.className md) md where
  name := rfl
  signature := getElem?_stubSignatures md
  passes g hg := by
    obtain ⟨g', -, -, hget⟩ := getDescriptor_spec hfile hcompiles hg
    have hstub : stubMethodOf messages.className md ∈
        (messages.serviceCode md.service).stubMethods :=
      List.mem_of_getElem? (getElem?_stubMethods md)
    exact ⟨g', fun sync => callStub_eq (hget _ hmd) sync
      ((resolved_service hcompiles hmd).stub _ hstub sync)⟩
  resolves := ServiceDescriptor.findMethodByName_name md
  prototypes g hg := by
    obtain ⟨g', -, -, hget⟩ := getDescriptor_spec hfile hcompiles hg
    refine ⟨g', fun isRequest => ?_⟩
    rw [getPrototype_eq (hget _ hmd) (resolved_service hcompiles hmd).prototype]
    cases isRequest <;> rfl
  dispatches g hg hassigned overrides request response :=
    runCallMethod_eq (hg.descriptors hfile hassigned hmd) (resolved_service hcompiles hmd) overrides
      request response
  served := by
    intro svc hsvc hobject rpcHeader request rpcId buf header body hrequest hsent hcarries c addr
    obtain ⟨svc', hmem, hfind, hobject'⟩ :=
      exists_serviceMap hfile hcompiles hservices hmd hsvc hobject
    have hmethod : md.service = svc'.descriptor := (hobject'.descriptor_eq hfile hcompiles hmd).symm
    rw [hmethod] at hfind
    obtain ⟨hreqs, -, hparsed⟩ := RpcCore.requests_of_sent hlaw
      (hobject'.typed hfile hcompiles hmessages hmd) hmethod hfind hrequest hsent hcarries
    refine ⟨svc', hmem, RpcCore.contextOf env header body addr svc' md, hobject', ?_, rfl, hparsed,
      fun g hg hassigned overrides => ?_⟩
    · rw [RpcCore.onRecvPacket_request hcarries hreqs.type,
        RpcCore.onRecvRequestMessage_of_requests hreqs]
    · rw [runCallMethod_of_requests hfile hcompiles hlaw hmessages hmd hobject' hreqs addr hg
        hassigned overrides]
      exact congrArg (fun r => Except.ok (ranHandler overrides md.name r _)) hparsed

/-- Two services, both with a method `p`, whose types differ. The second method of the second
service has the name of a member function of its class. -/
def sampleFile : FileDescriptor where
  name := [102]
  services :=
    [⟨[], [80], [⟨[112], [73], [79]⟩], by decide⟩,
      ⟨[], [81], [⟨[112], [74], [80]⟩, ⟨ascii "CallMethod", [79], [73]⟩], by decide⟩]
  nodup := by decide

/-- The class of a type has `::` before its name. -/
def sampleMessages : MessageClasses ValueMessage where
  className type := 58 :: 58 :: type
  defaultInstance cls := ⟨cls.drop 2, none⟩

theorem sampleMessages_lawful (file : FileDescriptor) : sampleMessages.Lawful (wireEnv 1) file :=
  ⟨fun _ _ => rfl, fun _ _ => rfl⟩

/-- Some keywords, and the classes of the message types. -/
def sampleAround : Surroundings where
  reserved name := [ascii "class", ascii "delete", ascii "NULL"].contains name
  declared name := [[73], [74], [79], [80, 66]].contains name

def sampleServices : List (Service ValueMessage) :=
  sampleFile.services.mapIdx (serviceObject sampleMessages)

/-- The second method of the second service. -/
def sampleStubbed : MethodDescriptor :=
  ⟨sampleFile.services.get ⟨1, by decide⟩, ⟨1, by decide⟩⟩

theorem sampleFile_compiles :
    (sampleMessages.fileCode sampleFile).compiles sampleAround = true := by
  decide +kernel

/-- A service with a method called `request`. -/
def hiddenFile : FileDescriptor where
  name := [102]
  services := [⟨[], [80], [⟨ascii "request", [73], [79]⟩], by decide⟩]
  nodup := by decide

def hiddenMethod : MethodDescriptor :=
  ⟨hiddenFile.services.get ⟨0, by decide⟩, ⟨0, by decide⟩⟩

end HyperRpc
