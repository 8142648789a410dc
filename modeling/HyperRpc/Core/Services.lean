import HyperRpc.Core.HeaderCodec
import HyperRpc.Core.Receive
import HyperRpc.Model.Process

/-!
# Addressing a service

A request carries the unqualified name of its service, and a server registers its services
under that name; of several services with one name the last one registered is found. What is
assumed of protobuf is in `LawfulProtobuf`, and what of generated service code in
`Service.Typed`; the codec of `HeaderCodec` has these properties.
-/
namespace HyperRpc

open Lib

variable {Msg : Type} {env : RpcEnv Msg}

/-- What the code relies on of protobuf: parsing undoes serialising, for headers short enough to
be sent and for messages of one type, and no operation changes the type of a message. -/
structure LawfulProtobuf (env : RpcEnv Msg) : Prop where
  header : ∀ h, (env.serializeHeader h).length < 2 ^ 16 →
    env.parseHeader (env.serializeHeader h) = some h
  message : ∀ old msg bytes, env.typeOf old = env.typeOf msg → env.serialize msg = some bytes →
    env.parseFromArray old bytes = (msg, true)
  typeOf_parse : ∀ old bytes, env.typeOf (env.parseFromArray old bytes).1 = env.typeOf old
  typeOf_new : ∀ msg, env.typeOf (env.new msg) = env.typeOf msg

theorem wireEnv_lawful (workerNum : ℕ) : LawfulProtobuf (wireEnv workerNum) where
  header _ h := RpcHeader.wireParse_wireSerialize (h.trans (by norm_num))
  message _ _ _ htype h := ValueMessage.wireParse_wireSerialize htype h
  typeOf_parse := ValueMessage.wireParse_type
  typeOf_new _ := rfl

/-- The prototypes of a service are messages of the types its descriptor names. -/
structure Service.Typed (env : RpcEnv Msg) (svc : Service Msg) : Prop where
  request : ∀ md : MethodDescriptor, md.service = svc.descriptor →
    env.typeOf (svc.requestPrototype md) = md.inputType
  response : ∀ md : MethodDescriptor, md.service = svc.descriptor →
    env.typeOf (svc.responsePrototype md) = md.outputType

/-! ## The service map -/

/-- The service registered last under a name is found. -/
theorem serviceMap_eq (services : List (Service Msg)) (name : Str) :
    serviceMap services name = services.reverse.find? fun svc => svc.descriptor.name = name := by
  induction services using List.reverseRecOn with
  | nil => rfl
  | append_singleton services svc ih =>
    rw [serviceMap, List.foldl_append, ← serviceMap, List.reverse_append]
    simp only [List.foldl_cons, List.foldl_nil, List.reverse_singleton, List.singleton_append]
    by_cases h : svc.descriptor.name = name
    · rw [List.find?_cons_of_pos (by simpa using h), ← h, Function.update_self]
    · rw [List.find?_cons_of_neg (by simpa using h), Function.update_of_ne (Ne.symm h), ih]

theorem mem_of_serviceMap {services : List (Service Msg)} {name : Str} {svc : Service Msg}
    (h : serviceMap services name = some svc) : svc ∈ services ∧ svc.descriptor.name = name := by
  rw [serviceMap_eq] at h
  exact ⟨List.mem_reverse.mp (List.mem_of_find?_eq_some h), by simpa using List.find?_some h⟩

theorem serviceMap_of_last (before : List (Service Msg)) {after : List (Service Msg)}
    {svc : Service Msg} (hlast : ∀ s ∈ after, s.descriptor.name ≠ svc.descriptor.name) :
    serviceMap (before ++ svc :: after) svc.descriptor.name = some svc := by
  have hafter : after.reverse.find? (fun s => s.descriptor.name = svc.descriptor.name) = none :=
    List.find?_eq_none.mpr fun s hs => by simpa using hlast s (List.mem_reverse.mp hs)
  rw [serviceMap_eq, List.reverse_append, List.reverse_cons, List.find?_append, List.find?_append,
    hafter]
  simp

/-! ## What a sent packet carries -/

theorem packetOf_inj {header body header' body' : List UInt8} (hfits : Fits header' body')
    (h : packetOf header body = packetOf header' body') : header = header' ∧ body = body' := by
  obtain ⟨l₁, l₀, b₃, b₂, b₁, b₀, hl, hb, hpkt⟩ := RpcCore.packetOf_eq header body
  obtain ⟨l₁', l₀', b₃', b₂', b₁', b₀', hl', hb', hpkt'⟩ :=
    RpcCore.packetOf_eq header' body'
  rw [hpkt, hpkt'] at h
  simp only [List.cons.injEq, true_and] at h
  obtain ⟨rfl, rfl, rfl, rfl, rfl, rfl, hrest⟩ := h
  have hheader : header.length % 256 ^ 2 = header'.length % 256 ^ 2 := by
    rw [← beNat_beBytes, hl, ← hl', beNat_beBytes]
  have hbody : body.length % 256 ^ 4 = body'.length % 256 ^ 4 := by
    rw [← beNat_beBytes, hb, ← hb', beNat_beBytes]
  have hlen := congrArg List.length hrest
  simp only [List.length_append] at hlen
  have hfh := hfits.header
  have hfb := hfits.body
  exact List.append_inj hrest (by omega)

/-- The lengths are cut to the width of their fields, as `packetOf` cuts them. -/
theorem sendMessage_eq_some {header : RpcHeader} {msg : Msg} {buf : List UInt8} :
    sendMessage env header msg = some buf ↔
      ∃ body, env.serialize msg = some body ∧ buf = packetOf (env.serializeHeader header) body := by
  have h₂ := beBytes_mod 2
  have h₄ := beBytes_mod 4
  norm_num only at h₂ h₄
  simp only [sendMessage, packetOf, RpcPacketHeader.encode, Option.map_eq_some_iff, h₂, h₄,
    Nat.reducePow]
  exact exists_congr fun body => and_congr_right fun _ => eq_comm

/-- A packet that is accepted carries what was sent in it. -/
theorem carried_of_sendMessage (hlaw : LawfulProtobuf env) {header header' : RpcHeader} {msg : Msg}
    {buf body : List UInt8} (hsent : sendMessage env header msg = some buf)
    (hcarries : RpcCore.Carries env buf header' body) :
    header' = header ∧ env.serialize msg = some body := by
  obtain ⟨bodyBytes, hbody, rfl⟩ := sendMessage_eq_some.mp hsent
  obtain ⟨headerBytes, hbuf, hfits, hparse⟩ := hcarries
  obtain ⟨rfl, rfl⟩ := packetOf_inj hfits hbuf
  rw [hlaw.header _ hfits.header] at hparse
  exact ⟨(Option.some.inj hparse).symm, hbody⟩

/-! ## Dispatch of a sent request -/

namespace RpcCore

/-- A request for a method of a typed service names it and has a body of its request type. -/
theorem requests_of_sent (hlaw : LawfulProtobuf env) {onFindService : Str → Option (Service Msg)}
    {svc : Service Msg} (htyped : svc.Typed env) {method : MethodDescriptor}
    (hmethod : method.service = svc.descriptor)
    (hfind : onFindService svc.descriptor.name = some svc) {request : Msg}
    (hrequest : env.typeOf request = method.inputType) {rpcHeader header : RpcHeader}
    {rpcId : UInt64} {buf body : List UInt8}
    (hsent : (onOutgoingRpcSend env rpcHeader method request rpcId).2 = some buf)
    (hcarries : Carries env buf header body) :
    Requests env onFindService buf header body svc method ∧ header.rpcId = rpcId ∧
      (env.parseFromArray (env.new (svc.requestPrototype method)) body).1 = request := by
  obtain ⟨rfl, hbody⟩ := carried_of_sendMessage hlaw hsent hcarries
  have htype : env.typeOf (env.new (svc.requestPrototype method)) = env.typeOf request := by
    rw [hlaw.typeOf_new, htyped.request method hmethod, hrequest]
  have hparse := hlaw.message _ _ _ htype hbody
  refine ⟨⟨hcarries, rfl, ?_, ?_, by rw [hparse]⟩, rfl, by rw [hparse]⟩
  · rw [← hfind, ← hmethod]
    rfl
  · rw [← hmethod]
    exact ServiceDescriptor.findMethodByName_name method

/-- A request for a method of a service goes to that service, with the method and the request it
was sent for, unless a service registered later has the same unqualified name. -/
theorem request_reaches_service (hlaw : LawfulProtobuf env) (before : List (Service Msg))
    {after : List (Service Msg)} {svc : Service Msg}
    (hlast : ∀ s ∈ after, s.descriptor.name ≠ svc.descriptor.name)
    (htyped : svc.Typed env) {method : MethodDescriptor}
    (hmethod : method.service = svc.descriptor) {request : Msg}
    (hrequest : env.typeOf request = method.inputType) {rpcHeader header : RpcHeader}
    {rpcId : UInt64} {buf body : List UInt8}
    (hsent : (onOutgoingRpcSend env rpcHeader method request rpcId).2 = some buf)
    (hcarries : Carries env buf header body) (c : ℕ) (addr : Addr) :
    (onRecvPacket env (serviceMap (before ++ svc :: after)) c buf addr).map Prod.snd =
        some (onRecvRequestMessage env (serviceMap (before ++ svc :: after)) header body addr) ∧
      (∃ ctx, onRecvRequestMessage env (serviceMap (before ++ svc :: after)) header body addr =
          .invoke svc ctx ∧ ctx.method = method ∧ ctx.request = request ∧ ctx.rpcId = rpcId ∧
        ctx.request = (env.parseFromArray (env.new (svc.requestPrototype method)) body).1 ∧
        env.typeOf (env.new (svc.requestPrototype method)) = method.inputType) ∧
      ∀ svc' ctx, onRecvRequestMessage env (serviceMap (before ++ svc :: after)) header body addr =
        .invoke svc' ctx → svc' = svc := by
  obtain ⟨hreqs, hid, hparsed⟩ := requests_of_sent hlaw htyped hmethod
    (serviceMap_of_last before hlast) hrequest hsent hcarries
  have hinvoke : onRecvRequestMessage env (serviceMap (before ++ svc :: after)) header body addr =
      .invoke svc (contextOf env header body addr svc method) :=
    onRecvRequestMessage_of_requests hreqs
  refine ⟨by rw [onRecvPacket_request hcarries hreqs.type]; rfl, ⟨_, hinvoke, rfl, hparsed, hid,
    rfl, ?_⟩, ?_⟩
  · rw [hlaw.typeOf_new, htyped.request method hmethod]
  · intro svc' ctx h
    rw [hinvoke, Received.invoke.injEq] at h
    exact h.1.symm

/-- A service `P` with one method `p`. -/
def sampleService (object : ℕ) (package inputType outputType : Str) : Service ValueMessage where
  object := object
  descriptor := ⟨package, [80], [⟨[112], inputType, outputType⟩], List.nodup_singleton _⟩
  requestPrototype md := ⟨md.inputType, none⟩
  responsePrototype md := ⟨md.outputType, none⟩

theorem sampleService_typed (workerNum object : ℕ) (package inputType outputType : Str) :
    (sampleService object package inputType outputType).Typed (wireEnv workerNum) :=
  ⟨fun _ _ => rfl, fun _ _ => rfl⟩

def sampleMethod (package inputType outputType : Str) : MethodDescriptor :=
  ⟨(sampleService 0 package inputType outputType).descriptor, ⟨0, Nat.one_pos⟩⟩

/-- The packet of a call of that method under the id 7, which does not tell the packages apart. -/
def sampleRequest : List UInt8 :=
  packetOf (RpcHeader.wireSerialize ⟨some .request, some [80], some [112], some 7, none⟩) [10, 1, 1]

theorem sampleRequest_fits :
    Fits (RpcHeader.wireSerialize ⟨some .request, some [80], some [112], some 7, none⟩)
      [10, 1, 1] :=
  ⟨by decide +kernel, by decide, by decide +kernel⟩

section

variable (workerNum object : ℕ) (package inputType outputType : Str)

theorem sampleRequest_sent : (onOutgoingRpcSend (wireEnv workerNum) .empty
    (sampleMethod package inputType outputType) ⟨inputType, some [1]⟩ 7).2 =
      some sampleRequest := by
  have hbody : (wireEnv workerNum).serialize ⟨inputType, some [1]⟩ = some [10, 1, 1] := by rfl
  exact sendMessage_eq_some.mpr ⟨_, hbody, rfl⟩

theorem sampleRequest_carries : Carries (wireEnv workerNum) sampleRequest
    (outgoingHeader .empty (sampleMethod package inputType outputType) 7) [10, 1, 1] :=
  ⟨_, rfl, sampleRequest_fits,
    RpcHeader.wireParse_wireSerialize (sampleRequest_fits.header.trans (by norm_num))⟩

theorem sampleRequest_requests (before : List (Service ValueMessage)) :
    Requests (wireEnv workerNum)
      (serviceMap (before ++ [sampleService object package inputType outputType])) sampleRequest
      (outgoingHeader .empty (sampleMethod package inputType outputType) 7) [10, 1, 1]
      (sampleService object package inputType outputType)
      (sampleMethod package inputType outputType) where
  carries := sampleRequest_carries workerNum package inputType outputType
  type := rfl
  service := serviceMap_of_last before (List.forall_mem_nil _)
  resolves := by rfl
  parses := by rfl

end

/-- A service `Q` of the package `a`, which has a method `p` as well, on messages of its own. -/
def queryService : Service ValueMessage where
  object := 3
  descriptor := ⟨[97], [81], [⟨[113], [75], [76]⟩, ⟨[112], [77], [78]⟩], by decide⟩
  requestPrototype md := ⟨md.inputType, none⟩
  responsePrototype md := ⟨md.outputType, none⟩

/-- A request for `a.P` on a server with `b.P`, `a.P` and `a.Q`, in this order. -/
theorem request_reaches_service_sample : ∃ before after : List (Service ValueMessage),
    ∃ svc buf header body ctx, before ≠ [] ∧ after ≠ [] ∧
      ((before ++ svc :: after).map fun s => s.descriptor.fullName).Nodup ∧
      (∀ s ∈ before, s.descriptor.name = svc.descriptor.name) ∧
      (onOutgoingRpcSend (wireEnv 1) .empty (sampleMethod [97] [73] [79]) ⟨[73], some [1]⟩ 7).2 =
        some buf ∧ Carries (wireEnv 1) buf header body ∧
      onRecvRequestMessage (wireEnv 1) (serviceMap (before ++ svc :: after)) header body ⟨1, 1⟩ =
        .invoke svc ctx ∧ svc.object = 1 ∧ ctx.method = sampleMethod [97] [73] [79] ∧
      ctx.request = ⟨[73], some [1]⟩ := by
  have hsent := sampleRequest_sent 1 [97] [73] [79]
  have hcarries := sampleRequest_carries 1 [97] [73] [79]
  have hlast : ∀ s ∈ [queryService],
      s.descriptor.name ≠ (sampleService 1 [97] [73] [79]).descriptor.name := by decide
  obtain ⟨-, ⟨ctx, hctx, hmethod, hreq, -⟩, -⟩ := request_reaches_service (wireEnv_lawful 1)
    [sampleService 2 [98] [74] [79]] hlast
    (sampleService_typed 1 1 [97] [73] [79]) rfl rfl hsent hcarries 0 ⟨1, 1⟩
  exact ⟨_, _, _, _, _, _, ctx, by decide, by decide, by decide, by decide, hsent, hcarries, hctx,
    rfl, hmethod, hreq⟩

/-- Two services of different packages with one unqualified name: a request for the one runs
the other, on a message of the wrong type. -/
theorem request_misses_service : ∃ (svc other : Service ValueMessage) (method : MethodDescriptor)
    (request : ValueMessage) (buf body : List UInt8) (header : RpcHeader)
    (ctx : IncomingRpcContext ValueMessage),
    svc.Typed (wireEnv 1) ∧ other.Typed (wireEnv 1) ∧
      ([svc, other].map fun s => s.descriptor.fullName).Nodup ∧ svc.object ≠ other.object ∧
      method.service = svc.descriptor ∧ (wireEnv 1).typeOf request = method.inputType ∧
      (onOutgoingRpcSend (wireEnv 1) .empty method request 7).2 = some buf ∧
      Carries (wireEnv 1) buf header body ∧
      onRecvRequestMessage (wireEnv 1) (serviceMap [svc, other]) header body ⟨1, 1⟩ =
        .invoke other ctx ∧
      ctx.method ≠ method ∧ (wireEnv 1).typeOf ctx.request ≠ method.inputType := by
  have hreqs := sampleRequest_requests 1 2 [98] [74] [79] [sampleService 1 [97] [73] [79]]
  exact ⟨_, _, sampleMethod [97] [73] [79], ⟨[73], some [1]⟩, _, _, _, _,
    sampleService_typed 1 1 [97] [73] [79], sampleService_typed 1 2 [98] [74] [79], by decide,
    by decide, rfl, rfl, sampleRequest_sent 1 [97] [73] [79],
    sampleRequest_carries 1 [97] [73] [79], onRecvRequestMessage_of_requests hreqs, by decide,
    by decide +kernel⟩

end RpcCore

end HyperRpc
