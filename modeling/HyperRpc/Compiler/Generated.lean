import HyperRpc.Compiler.Scoping

/-!
# What each generated function does

One lemma for each function of a generated file that compiles, in terms of the descriptors it was
generated from. The tables of a class come from loops of their own; what holds them together is
that every loop prints the number of a method as its index, and that names of services and of
methods are distinct.
-/
namespace HyperRpc

open Lib

theorem ServiceDescriptor.method_index (md : MethodDescriptor) :
    md.service.method md.index = .ok md := by
  rw [method, dif_pos md.index.isLt]

theorem MethodDescriptor.getElem?_index (md : MethodDescriptor) :
    md.service.methods[md.index.val]? = some md.proto :=
  List.getElem?_eq_getElem md.index.isLt

/-- What the names in the member functions of a class stand for. -/
structure ServiceCode.Resolved (cls : ServiceCode) (code : FileCode) : Prop where
  descriptor : cls.readsDescriptor code = true
  prototype : cls.prototypeResolves code = true
  callMethod : cls.callMethodResolves code = true
  handler : ∀ c ∈ cls.callMethod,
    cls.handlerResolves code c.name c.inputType c.outputType = true
  stub : ∀ stub ∈ cls.stubMethods, ∀ sync, cls.stubResolves code stub sync = true

theorem FileCode.resolved_of_compiles {around : Surroundings} {code : FileCode} {cls : ServiceCode}
    (h : code.compiles around = true) (hcls : cls ∈ code.services) : cls.Resolved code := by
  simp only [FileCode.compiles, Bool.and_eq_true, List.all_eq_true] at h
  have hclass := h.2 cls hcls
  simp only [ServiceCode.compiles, Bool.and_eq_true, List.all_eq_true] at hclass
  obtain ⟨⟨⟨⟨⟨-, hdescriptor⟩, hprototype⟩, hcallMethod⟩, hhandler⟩, hstub⟩ := hclass
  refine ⟨hdescriptor, hprototype, hcallMethod, hhandler, fun stub hmem sync => ?_⟩
  cases sync
  · exact (hstub stub hmem).2
  · exact (hstub stub hmem).1

variable {className : Str → Str} {file : FileDescriptor}
  {findFileByName : Str → Option FileDescriptor} {g : Globals} {svc : ServiceDescriptor}

/-- The classes of a file are those of its services. -/
theorem resolved_service {around : Surroundings}
    (h : (CppFileGenerator.generate className file).compiles around = true)
    (hsvc : svc ∈ file.services) : (CppServiceGenerator.generate className svc).Resolved
      (CppFileGenerator.generate className file) :=
  FileCode.resolved_of_compiles h (List.mem_map_of_mem hsvc)

/-! ## Descriptors -/

theorem map_fst_generateBuildDescriptors (file : FileDescriptor) :
    (CppFileGenerator.generateBuildDescriptors file).map Prod.fst =
      (file.services.map ServiceDescriptor.name).map descriptorVar := by
  apply List.ext_getElem
  · simp [CppFileGenerator.generateBuildDescriptors]
  · intro i hi hi'
    simp [CppFileGenerator.generateBuildDescriptors,
      CppServiceGenerator.generateDescriptorInitializer]

/-- Every variable gets the descriptor whose number its initializer shows. -/
theorem assignDescriptors_spec (hfile : findFileByName file.name = some file)
    (vars : Str → Option ServiceDescriptor) :
    ∃ vars', (CppFileGenerator.generate className file).assignDescriptors findFileByName vars =
        .ok vars' ∧
      ∀ svc ∈ file.services, vars' (descriptorVar svc.name) = some svc := by
  have hnodup : ((CppFileGenerator.generateBuildDescriptors file).map Prod.fst).Nodup := by
    rw [map_fst_generateBuildDescriptors]
    exact file.nodup.map descriptorVar_injective
  have hvalue : ∀ i (hi : i < file.services.length),
      (file.service i).map some = .ok (some file.services[i]) := by
    intro i hi
    rw [FileDescriptor.service, List.getElem?_eq_getElem hi]
    rfl
  have hinit : ∀ a ∈ CppFileGenerator.generateBuildDescriptors file,
      ∃ b, (file.service a.2).map some = .ok b := by
    intro a ha
    obtain ⟨i, hi, rfl⟩ := List.mem_mapIdx.mp ha
    exact ⟨_, hvalue i hi⟩
  obtain ⟨vars', hexec, hset, -⟩ :=
    exec_assign (f := fun index => (file.service index).map some) hnodup hinit vars
  refine ⟨vars', ?_, fun svc hsvc => ?_⟩
  · unfold FileCode.assignDescriptors CppFileGenerator.generate
    rw [hfile]
    exact hexec
  · obtain ⟨i, hi, rfl⟩ := List.getElem_of_mem hsvc
    have hvar := hset (descriptorVar file.services[i].name, i) (List.mem_mapIdx.mpr ⟨i, hi, rfl⟩)
    exact (Except.ok.inj ((hvalue i hi).symm.trans hvar)).symm

/-- Once the descriptors are assigned, every variable holds its own. -/
theorem FileCode.Reached.descriptors (hfile : findFileByName file.name = some file)
    (hg : (CppFileGenerator.generate className file).Reached findFileByName g)
    (hassigned : g.assigned = true) (hsvc : svc ∈ file.services) :
    g.descriptors (descriptorVar svc.name) = some svc := by
  induction hg with
  | initial => cases hassigned
  | @once g g' h hstep ih =>
    unfold assignDescriptorsOnce at hstep
    split_ifs at hstep with hdone
    · cases hstep
      exact ih hdone
    · obtain ⟨vars', hassign, hvars⟩ := assignDescriptors_spec hfile g.descriptors
      rw [hassign] at hstep
      cases hstep
      exact hvars svc hsvc

variable {around : Surroundings}

theorem getDescriptor_of_assigned (hfile : findFileByName file.name = some file)
    (hcompiles : (CppFileGenerator.generate className file).compiles around = true)
    (hg : (CppFileGenerator.generate className file).Reached findFileByName g)
    (hassigned : g.assigned = true) (hsvc : svc ∈ file.services) :
    (CppServiceGenerator.generate className svc).getDescriptor
      (CppFileGenerator.generate className file) findFileByName g = .ok (g, some svc) := by
  have hvar := hg.descriptors hfile hassigned hsvc
  rw [ServiceCode.getDescriptor, if_pos (resolved_service hcompiles hsvc).descriptor,
    FileCode.assignDescriptorsOnce, if_pos hassigned, ok_bind]
  exact congrArg (fun d => Except.ok (g, d)) hvar

/-- A service class refers to its own descriptor, at any time. -/
theorem getDescriptor_spec (hfile : findFileByName file.name = some file)
    (hcompiles : (CppFileGenerator.generate className file).compiles around = true)
    (hg : (CppFileGenerator.generate className file).Reached findFileByName g) :
    ∃ g', (CppFileGenerator.generate className file).Reached findFileByName g' ∧
      g'.assigned = true ∧ ∀ svc ∈ file.services,
        (CppServiceGenerator.generate className svc).getDescriptor
          (CppFileGenerator.generate className file) findFileByName g = .ok (g', some svc) := by
  by_cases hassigned : g.assigned = true
  · exact ⟨g, hg, hassigned, fun svc hsvc =>
      getDescriptor_of_assigned hfile hcompiles hg hassigned hsvc⟩
  · obtain ⟨vars', hassign, hvars⟩ := assignDescriptors_spec hfile g.descriptors
    have honce : (CppFileGenerator.generate className file).assignDescriptorsOnce findFileByName g =
        .ok ⟨true, vars'⟩ := by
      rw [FileCode.assignDescriptorsOnce, if_neg hassigned, hassign]
      rfl
    refine ⟨⟨true, vars'⟩, hg.once honce, rfl, fun svc hsvc => ?_⟩
    rw [ServiceCode.getDescriptor, if_pos (resolved_service hcompiles hsvc).descriptor, honce,
      ok_bind]
    exact congrArg (fun d => Except.ok (Globals.mk true vars', d)) (hvars svc hsvc)

/-! ## Stubs -/

/-- The stub method of a method, and the types of its signature. -/
def stubMethodOf (className : Str → Str) (md : MethodDescriptor) : StubMethod where
  name := md.name
  inputType := className md.inputType
  outputType := className md.outputType
  asyncIndex := md.index
  syncIndex := md.index

theorem getElem?_stubMethods (md : MethodDescriptor) :
    (CppServiceGenerator.generate className md.service).stubMethods[md.index.val]? =
      some (stubMethodOf className md) := by
  simp only [CppServiceGenerator.generate, CppServiceGenerator.generateStubMethods,
    List.getElem?_mapIdx, md.getElem?_index, Option.map_some]
  rfl

theorem getElem?_stubSignatures (md : MethodDescriptor) :
    (CppServiceGenerator.generate className md.service).stubSignatures[md.index.val]? =
      some ⟨false, md.name, className md.inputType, className md.outputType, true⟩ := by
  simp only [CppServiceGenerator.generate, CppServiceGenerator.generateMethodSignatures,
    List.getElem?_map, md.getElem?_index, Option.map_some]
  rfl

/-- Both functions of a stub method pass the descriptor of its method. -/
theorem callStub_eq {md : MethodDescriptor} {code : FileCode} {cls : ServiceCode} {g' : Globals}
    (hdescriptor : cls.getDescriptor code findFileByName g = .ok (g', some md.service))
    (sync : Bool) (hresolves : cls.stubResolves code (stubMethodOf className md) sync = true) :
    cls.callStub code findFileByName (stubMethodOf className md) sync g = .ok (g', md) := by
  have hindex : (if sync then (stubMethodOf className md).syncIndex
      else (stubMethodOf className md).asyncIndex) = md.index := ite_self _
  simp only [ServiceCode.callStub, hresolves, if_true, hdescriptor, ok_bind, ofPointer, hindex,
    ServiceDescriptor.method_index]
  rfl

/-! ## Prototypes and dispatch -/

section Messages

variable {Msg : Type} {messages : MessageClasses Msg} {typeOf : Msg → Str}

theorem lookup_prototypeCase (md : MethodDescriptor) (isRequest : Bool) :
    lookup PrototypeCase.index
        (CppServiceGenerator.generateGetPrototype className md.service isRequest) md.index =
      some ⟨md.index, className (if isRequest then md.inputType else md.outputType)⟩ := by
  rw [CppServiceGenerator.generateGetPrototype, lookup_mapIdx fun _ _ => rfl, md.getElem?_index]
  rfl

theorem lookup_callCase (md : MethodDescriptor) :
    lookup CallCase.index (CppServiceGenerator.generateCallMethod className md.service) md.index =
      some ⟨md.index, md.name, className md.inputType, className md.outputType⟩ := by
  rw [CppServiceGenerator.generateCallMethod, lookup_mapIdx fun _ _ => rfl, md.getElem?_index]
  rfl

/-- The prototypes of a method are default instances of the classes of its types. -/
theorem getPrototype_eq {md : MethodDescriptor} {code : FileCode} {g' : Globals}
    (hdescriptor : (CppServiceGenerator.generate messages.className md.service).getDescriptor code
      findFileByName g = .ok (g', some md.service))
    (hresolves : (CppServiceGenerator.generate messages.className md.service).prototypeResolves
      code = true) (isRequest : Bool) :
    (CppServiceGenerator.generate messages.className md.service).getPrototype code findFileByName
      messages isRequest md g = .ok (g', messages.defaultInstance
        (messages.className (if isRequest then md.inputType else md.outputType))) := by
  have hcases : (if isRequest then
      (CppServiceGenerator.generate messages.className md.service).requestPrototype
      else (CppServiceGenerator.generate messages.className md.service).responsePrototype) =
        CppServiceGenerator.generateGetPrototype messages.className md.service isRequest := by
    cases isRequest <;> rfl
  rw [ServiceCode.getPrototype, if_pos hresolves, hdescriptor, ok_bind, hcases]
  simp only [if_true, lookup_prototypeCase]
  rfl

/-- No prototype is returned for a method of another service. -/
theorem service_of_getPrototype {md : MethodDescriptor} {code : FileCode} {cls : ServiceCode}
    {g' g'' : Globals} {isRequest : Bool} {msg : Msg}
    (hdescriptor : cls.getDescriptor code findFileByName g = .ok (g', some svc))
    (hprototype : cls.getPrototype code findFileByName messages isRequest md g = .ok (g'', msg)) :
    md.service = svc := by
  rw [ServiceCode.getPrototype] at hprototype
  by_cases hresolves : cls.prototypeResolves code = true
  swap
  · rw [if_neg hresolves] at hprototype
    cases hprototype
  rw [if_pos hresolves, hdescriptor, ok_bind] at hprototype
  by_cases hsvc : some md.service = some svc
  · exact Option.some.inj hsvc
  · dsimp only at hprototype
    rw [if_neg hsvc] at hprototype
    cases hprototype

/-- The function that is called for a method runs the handler of that name. -/
def ranHandler (overrides : Str → Bool) (name : Str) (request response : Msg) : Ran Msg :=
  if overrides name then .handler name request response else .done .kNotImpl

theorem callHandler_eq {code : FileCode} (md : MethodDescriptor)
    (hresolved : (CppServiceGenerator.generate className md.service).Resolved code)
    (overrides : Str → Bool) (request response : Msg) :
    (CppServiceGenerator.generate className md.service).callHandler code overrides md.name
      (className md.inputType) (className md.outputType) request response =
        .ok (ranHandler overrides md.name request response) := by
  have hproto : md.proto ∈ md.service.methods := List.get_mem _ _
  have hhandler := hresolved.handler _ (lookup_eq_some (lookup_callCase md)).1
  have hnames : (CppServiceGenerator.generateNotImplementedMethods className md.service).map
      NotImplementedMethod.name = md.service.methods.map MethodProto.name := by
    rw [CppServiceGenerator.generateNotImplementedMethods, List.map_map]
    rfl
  have hlookup : lookup NotImplementedMethod.name
      (CppServiceGenerator.generateNotImplementedMethods className md.service) md.name =
        some ⟨md.name, className md.inputType, className md.outputType, .kNotImpl⟩ :=
    lookup_of_mem (hnames ▸ md.service.nodup) (List.mem_map.mpr ⟨md.proto, hproto, rfl⟩)
  rw [ServiceCode.callHandler, if_pos hhandler, ranHandler]
  split_ifs
  · rfl
  · rw [show (CppServiceGenerator.generate className md.service).notImplemented =
      CppServiceGenerator.generateNotImplementedMethods className md.service from rfl, hlookup]

/-- `CallMethod` for a method casts to the classes of its types and runs its handler. -/
theorem runCallMethod_eq {md : MethodDescriptor}
    (hdescriptor : g.descriptors (descriptorVar md.service.name) = some md.service)
    {code : FileCode}
    (hresolved : (CppServiceGenerator.generate messages.className md.service).Resolved code)
    (overrides : Str → Bool) (request response : Msg) :
    (CppServiceGenerator.generate messages.className md.service).runCallMethod code messages typeOf
      overrides md request response g =
        (ServiceCode.downCast messages typeOf (messages.className md.inputType) request >>=
          fun request =>
            ServiceCode.downCast messages typeOf (messages.className md.outputType) response >>=
              fun response => .ok (ranHandler overrides md.name request response)) := by
  have hvar : g.descriptors
      (CppServiceGenerator.generate messages.className md.service).descriptorVar =
        some md.service := hdescriptor
  have hcases : (CppServiceGenerator.generate messages.className md.service).callMethod =
      CppServiceGenerator.generateCallMethod messages.className md.service := rfl
  rw [ServiceCode.runCallMethod, if_pos hresolved.callMethod, if_pos hvar.symm, hcases,
    lookup_callCase]
  simp only [callHandler_eq md hresolved]

/-- No handler is run under a name that does not stand for one. -/
theorem runCallMethod_ne_ok {code : FileCode} {md : MethodDescriptor}
    (hhidden : (CppServiceGenerator.generate messages.className md.service).handlerResolves code
      md.name (messages.className md.inputType) (messages.className md.outputType) = false)
    (overrides : Str → Bool) (request response : Msg) (ran : Ran Msg) :
    (CppServiceGenerator.generate messages.className md.service).runCallMethod code messages typeOf
      overrides md request response g ≠ .ok ran := by
  have hcases : (CppServiceGenerator.generate messages.className md.service).callMethod =
      CppServiceGenerator.generateCallMethod messages.className md.service := rfl
  intro hrun
  rw [ServiceCode.runCallMethod] at hrun
  split_ifs at hrun
  rw [hcases, lookup_callCase] at hrun
  obtain ⟨request', -, hrun⟩ := bind_eq_ok.mp hrun
  obtain ⟨response', -, hrun⟩ := bind_eq_ok.mp hrun
  rw [ServiceCode.callHandler, hhidden] at hrun
  cases hrun

end Messages

end HyperRpc
