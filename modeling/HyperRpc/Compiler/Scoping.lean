import HyperRpc.Model.GeneratedCode

/-!
# What the printed names stand for

The names of services and methods are printed as they are. Some of them clash with what the
generated classes declare themselves, hide it, or are hidden by the parameters of `CallMethod`.
`FileDescriptor.Namable` lists them, and the printed code compiles exactly for the other names.
-/
namespace HyperRpc

open Lib

/-- The names of members that every service class has. -/
def memberNames : List Str :=
  [ascii "Stub", ascii "descriptor", ascii "GetDescriptor", ascii "CallMethod",
    ascii "GetRequestPrototype", ascii "GetResponsePrototype"]

/-- The names that no method of a service can have. -/
def ServiceDescriptor.takenNames (svc : ServiceDescriptor) : List Str :=
  [svc.name, stubName svc.name, descriptorVar svc.name, ascii "Stub", ascii "descriptor",
    ascii "hrpc_", ascii "hrpc_protobuf_AssignDescriptorsOnce", ascii "method", ascii "request",
    ascii "response", ascii "done"]

structure ServiceDescriptor.Namable (svc : ServiceDescriptor) : Prop where
  name : svc.name ∉ memberNames
  methods : ∀ method ∈ svc.methods, method.name ∉ svc.takenNames

/-- The names that a file declares in its namespace. -/
def FileDescriptor.namespaceNames (file : FileDescriptor) : List Str :=
  (file.services.flatMap fun svc => [stubName svc.name, svc.name]) ++
    file.services.map (fun svc => descriptorVar svc.name) ++
    [ascii "hrpc_protobuf_AssignDescriptors_once_", ascii "hrpc_protobuf_AssignDescriptorsOnce"]

/-- The names of the proto file can be printed as they are. -/
structure FileDescriptor.Namable (around : Surroundings) (file : FileDescriptor) : Prop where
  services : ∀ svc ∈ file.services, svc.Namable
  distinct : file.namespaceNames.Nodup
  free : ∀ name ∈ file.namespaceNames, around.declared name = false
  identifiers : ∀ svc ∈ file.services,
    ∀ name ∈ [svc.name, stubName svc.name, descriptorVar svc.name] ++
      svc.methods.map MethodProto.name, around.reserved name = false
  /-- `std::move` is in the functions of a stub. -/
  std : ∀ svc ∈ file.services, svc.methods ≠ [] → ∀ svc' ∈ file.services, svc'.name ≠ ascii "std"

variable {className : Str → Str} {file : FileDescriptor} {svc : ServiceDescriptor}
  {around : Surroundings} {n : Str} {e : Entity}

/-! ## The scopes of generated code -/

theorem descriptorVar_injective : Function.Injective descriptorVar :=
  fun _ _ h => List.append_cancel_right h

theorem descriptorVar_ne (h : ¬ ascii "_descriptor_" <:+ n) : descriptorVar svc.name ≠ n :=
  fun heq => h (heq ▸ List.suffix_append _ _)

theorem stubName_ne (h : ¬ ascii "_Stub" <:+ n) : stubName svc.name ≠ n :=
  fun heq => h (heq ▸ List.suffix_append _ _)

theorem descriptorVar_ne_name : descriptorVar svc.name ≠ svc.name := fun heq =>
  absurd (List.append_right_eq_self.mp heq) (by decide)

/-- The function that is declared in both classes for a method. -/
def handlerEntity (className : Str → Str) (method : MethodProto) : Entity :=
  .function [.pointer true (className method.inputType),
    .pointer false (className method.outputType), doneFunc]

def syncEntity (className : Str → Str) (method : MethodProto) : Entity :=
  .function [.constReference (className method.inputType),
    .pointer false (className method.outputType)]

theorem members_eq : (CppServiceGenerator.generate className svc).members =
    [(svc.name, .type), (ascii "Stub", .type), (ascii "descriptor", .function [])] ++
      svc.methods.map (fun method => (method.name, handlerEntity className method)) ++
        implementsService := by
  have hdeclares : (CppServiceGenerator.generateMethodSignatures className svc true).flatMap
      MethodSignature.declares = svc.methods.map fun method =>
        (method.name, handlerEntity className method) := by
    rw [CppServiceGenerator.generateMethodSignatures, List.flatMap_map, List.map_eq_flatMap]
    rfl
  rw [ServiceCode.members, ← hdeclares]
  rfl

theorem stubMembers_eq : (CppServiceGenerator.generate className svc).stubMembers =
    [(stubName svc.name, .type), (ascii "hrpc", .function [])] ++
      (svc.methods.flatMap fun method => [(method.name, handlerEntity className method),
        (method.name, syncEntity className method)]) ++
        [(ascii "hrpc_", .object hyperRpcPointer)] := by
  simp [ServiceCode.stubMembers, CppServiceGenerator.generate,
    CppServiceGenerator.generateMethodSignatures, List.flatMap_map, MethodSignature.declares,
    handlerEntity, syncEntity]

variable (className) in
theorem namespaceScope_fst :
    (CppFileGenerator.generate className file).namespaceScope.map Prod.fst =
      file.namespaceNames := by
  simp [FileCode.namespaceScope, CppFileGenerator.generate, FileDescriptor.namespaceNames,
    CppServiceGenerator.generate, List.map_flatMap, List.flatMap_map, Function.comp_def]

/-! ## Clashing declarations -/

theorem overloads_handlerEntity {method : MethodProto} {params : List CppType}
    (h : params.length ≠ 3) :
    (handlerEntity className method).overloads (.function params) = true ∧
      (Entity.function params).overloads (handlerEntity className method) = true := by
  constructor <;>
  · simp only [handlerEntity, Entity.overloads, ne_eq, decide_not, Bool.not_eq_true',
      decide_eq_false_iff_not]
    rintro rfl
    exact h rfl

theorem pairwise_name_ne (svc : ServiceDescriptor) :
    svc.methods.Pairwise fun method method' => method.name ≠ method'.name :=
  List.pairwise_map.mp svc.nodup

/-- The functions of a service class can be told apart, whatever the names of its methods. -/
theorem functions_distinguishable : Distinguishable Entity.overloads
    ((ascii "descriptor", .function []) ::
      (svc.methods.map (fun method => (method.name, handlerEntity className method)) ++
        implementsService)) := by
  refine List.pairwise_cons.mpr ⟨fun d hd heq => ?_, List.pairwise_append.mpr
    ⟨?_, by decide, fun d hd d' hd' _ => ?_⟩⟩
  · rcases List.mem_append.mp hd with hd | hd
    · obtain ⟨method, -, rfl⟩ := List.mem_map.mp hd
      exact (overloads_handlerEntity (by decide)).2
    · exact absurd heq ((by decide : ∀ d ∈ implementsService, ascii "descriptor" ≠ d.1) d hd)
  · exact List.pairwise_map.mpr ((pairwise_name_ne svc).imp fun hne heq => absurd heq hne)
  · obtain ⟨method, -, rfl⟩ := List.mem_map.mp hd
    simp only [implementsService, List.mem_cons, List.not_mem_nil, or_false] at hd'
    rcases hd' with rfl | rfl | rfl | rfl <;> exact (overloads_handlerEntity (by decide)).1

theorem members_distinguishable_iff :
    Distinguishable Entity.overloads (CppServiceGenerator.generate className svc).members ↔
      svc.name ∉ memberNames ∧
        ∀ method ∈ svc.methods, method.name ≠ svc.name ∧ method.name ≠ ascii "Stub" := by
  have hnames : (implementsService.map Prod.fst) = memberNames.drop 2 := by decide
  have hstub : ascii "Stub" ∉ ascii "descriptor" :: memberNames.drop 2 := by decide
  have hmethods : ∀ name : Str, (name ∉ (svc.methods.map (fun method =>
      (method.name, handlerEntity className method))).map Prod.fst) ↔
        ∀ method ∈ svc.methods, method.name ≠ name := by
    simp [List.mem_map]
  have hfixed : svc.name ∉ memberNames ↔ svc.name ≠ ascii "Stub" ∧
      svc.name ≠ ascii "descriptor" ∧ svc.name ∉ memberNames.drop 2 := by
    simp [memberNames]
  rw [members_eq, List.append_assoc, List.cons_append, List.cons_append, List.cons_append,
    List.nil_append, distinguishable_cons_of_alone fun _ => rfl,
    distinguishable_cons_of_alone fun _ => rfl, and_iff_left functions_distinguishable]
  simp only [List.map_cons, List.map_append, List.mem_cons, List.mem_append, not_or, hnames,
    hmethods, hfixed, forall_and] at hstub ⊢
  tauto

/-- The functions of a stub class can be told apart. -/
theorem stubFunctions_distinguishable : Distinguishable Entity.overloads
    ((ascii "hrpc", .function []) :: svc.methods.flatMap fun method =>
      [(method.name, handlerEntity className method),
        (method.name, syncEntity className method)]) := by
  refine List.pairwise_cons.mpr ⟨fun d hd _ => ?_, List.pairwise_flatMap.mpr ⟨?_, ?_⟩⟩
  · obtain ⟨method, -, hd⟩ := List.mem_flatMap.mp hd
    simp only [List.mem_cons, List.not_mem_nil, or_false] at hd
    rcases hd with rfl | rfl
    · exact (overloads_handlerEntity (by decide)).2
    · rfl
  · intro method _
    refine List.pairwise_pair.mpr fun _ => ?_
    exact (overloads_handlerEntity (by simp)).1
  · refine (pairwise_name_ne svc).imp fun hne d hd d' hd' heq => absurd ?_ hne
    simp only [List.mem_cons, List.not_mem_nil, or_false] at hd hd'
    rcases hd with rfl | rfl <;> rcases hd' with rfl | rfl <;> exact heq

theorem stubMembers_distinguishable_iff :
    Distinguishable Entity.overloads (CppServiceGenerator.generate className svc).stubMembers ↔
      ∀ method ∈ svc.methods, method.name ≠ stubName svc.name ∧ method.name ≠ ascii "hrpc_" := by
  have hhrpc : stubName svc.name ≠ ascii "hrpc" := stubName_ne (by decide)
  have hhrpc' : stubName svc.name ≠ ascii "hrpc_" := stubName_ne (by decide)
  have hmethods : ∀ name : Str, (name ∉ (svc.methods.flatMap fun method =>
      [(method.name, handlerEntity className method),
        (method.name, syncEntity className method)]).map Prod.fst) ↔
        ∀ method ∈ svc.methods, method.name ≠ name := by
    refine fun name => ⟨fun h method hmethod heq => h ?_, fun h hmem => ?_⟩
    · exact List.mem_map.mpr ⟨(method.name, handlerEntity className method),
        List.mem_flatMap.mpr ⟨method, hmethod, List.mem_cons_self⟩, heq⟩
    · obtain ⟨d, hd, rfl⟩ := List.mem_map.mp hmem
      obtain ⟨method, hmethod, hd⟩ := List.mem_flatMap.mp hd
      simp only [List.mem_cons, List.not_mem_nil, or_false] at hd
      rcases hd with rfl | rfl <;> exact h method hmethod rfl
  rw [stubMembers_eq, List.append_assoc, List.cons_append, List.cons_append,
    List.nil_append, distinguishable_cons_of_alone fun _ => rfl, ← List.cons_append,
    distinguishable_concat_of_alone fun e => by cases e <;> rfl,
    and_iff_left stubFunctions_distinguishable]
  simp only [List.map_cons, List.map_append, List.mem_cons, List.mem_append, not_or,
    hmethods, forall_and, List.map_nil, List.not_mem_nil, not_false_eq_true, and_true]
  tauto

/-! ## Names in the bodies -/

/-- What a class declares under a name. -/
theorem mem_members (h : (n, e) ∈ (CppServiceGenerator.generate className svc).members) :
    n = svc.name ∧ e = .type ∨ n = ascii "Stub" ∧ e = .type ∨
      (n, e) ∈ (ascii "descriptor", Entity.function []) :: implementsService ∨
      ∃ method ∈ svc.methods, n = method.name ∧ e = handlerEntity className method := by
  rw [members_eq] at h
  simp only [List.mem_append, List.mem_cons, List.not_mem_nil, or_false, List.mem_map,
    Prod.mk.injEq] at h ⊢
  rcases h with ((h | h | h) | ⟨method, hmethod, rfl, rfl⟩) | h
  · exact Or.inl h
  · exact Or.inr (Or.inl h)
  · exact Or.inr (Or.inr (Or.inl (Or.inl h)))
  · exact Or.inr (Or.inr (Or.inr ⟨method, hmethod, rfl, rfl⟩))
  · exact Or.inr (Or.inr (Or.inl (Or.inr h)))

theorem nullary_mem_members
    (h : (n, .function []) ∈ (CppServiceGenerator.generate className svc).members) :
    n = ascii "descriptor" ∨ n = ascii "GetDescriptor" := by
  rcases mem_members h with ⟨-, h⟩ | ⟨-, h⟩ | h | ⟨_, -, -, h⟩
  · cases h
  · cases h
  · simpa [implementsService] using h
  · cases h

variable (className) in
theorem handler_mem_members {method : MethodProto} (h : method ∈ svc.methods) :
    (method.name, handlerEntity className method) ∈
      (CppServiceGenerator.generate className svc).members := by
  rw [members_eq]
  exact List.mem_append_left _ (List.mem_append_right _ (List.mem_map_of_mem h))

theorem descriptor_mem_members :
    (ascii "descriptor", .function []) ∈ (CppServiceGenerator.generate className svc).members :=
  List.mem_append_left _ (List.mem_append_left _
    (List.mem_cons_of_mem _ (List.mem_cons_of_mem _ List.mem_cons_self)))

theorem mem_stubMembers (h : (n, e) ∈ (CppServiceGenerator.generate className svc).stubMembers) :
    n = stubName svc.name ∧ e = .type ∨ n = ascii "hrpc" ∧ e = .function [] ∨
      n = ascii "hrpc_" ∧ e = .object hyperRpcPointer ∨
      ∃ method ∈ svc.methods, n = method.name ∧
        (e = handlerEntity className method ∨ e = syncEntity className method) := by
  rw [stubMembers_eq] at h
  simp only [List.mem_append, List.mem_cons, List.not_mem_nil, or_false, List.mem_flatMap,
    Prod.mk.injEq] at h
  rcases h with ((h | h) | ⟨method, hmethod, ⟨rfl, h⟩ | ⟨rfl, h⟩⟩) | h
  · exact Or.inl h
  · exact Or.inr (Or.inl h)
  · exact Or.inr (Or.inr (Or.inr ⟨method, hmethod, rfl, Or.inl h⟩))
  · exact Or.inr (Or.inr (Or.inr ⟨method, hmethod, rfl, Or.inr h⟩))
  · exact Or.inr (Or.inr (Or.inl h))

theorem mem_namespaceScope
    (h : (n, e) ∈ (CppFileGenerator.generate className file).namespaceScope) :
    (∃ svc ∈ file.services, (n = stubName svc.name ∨ n = svc.name) ∧ e = .type) ∨
      (∃ type, e = .object type) ∨
      n = ascii "hrpc_protobuf_AssignDescriptorsOnce" ∧ e = .function [] := by
  simp only [FileCode.namespaceScope, CppFileGenerator.generate, CppServiceGenerator.generate,
    List.mem_append, List.mem_flatMap, List.mem_map, List.mem_cons, List.not_mem_nil, or_false,
    Prod.mk.injEq] at h
  rcases h with (⟨cls, ⟨svc, hsvc, rfl⟩, h⟩ | ⟨var, -, -, h⟩) | ⟨-, h⟩ | h
  · refine Or.inl ⟨svc, hsvc, ?_⟩
    rcases h with h | h
    · exact ⟨Or.inl h.1, h.2⟩
    · exact ⟨Or.inr h.1, h.2⟩
  · exact Or.inr (Or.inl ⟨_, h.symm⟩)
  · exact Or.inr (Or.inl ⟨_, h⟩)
  · exact Or.inr (Or.inr h)

theorem descriptorVar_mem_namespaceScope (hsvc : svc ∈ file.services) :
    (descriptorVar svc.name, .object descriptorPointer) ∈
      (CppFileGenerator.generate className file).namespaceScope :=
  List.mem_append_left _ (List.mem_append_right _
    (List.mem_map.mpr ⟨_, List.mem_map_of_mem hsvc, rfl⟩))

variable (className file) in
theorem assignOnce_mem_namespaceScope :
    (ascii "hrpc_protobuf_AssignDescriptorsOnce", .function []) ∈
      (CppFileGenerator.generate className file).namespaceScope :=
  List.mem_append_right _ (List.mem_cons_of_mem _ List.mem_cons_self)

/-- No two declarations of the namespace could share a name: there is but one function. -/
theorem namespaceScope_distinguishable_iff :
    Distinguishable Entity.overloads (CppFileGenerator.generate className file).namespaceScope ↔
      file.namespaceNames.Nodup := by
  rw [← namespaceScope_fst className]
  refine distinguishable_iff_nodup (List.pairwise_of_forall_mem_list ?_)
  rintro ⟨n, e⟩ hd ⟨n', e'⟩ hd'
  rcases mem_namespaceScope hd with ⟨_, -, -, rfl⟩ | ⟨_, rfl⟩ | ⟨-, rfl⟩
  · rfl
  · rfl
  · rcases mem_namespaceScope hd' with ⟨_, -, -, rfl⟩ | ⟨_, rfl⟩ | ⟨-, rfl⟩ <;> rfl

theorem name_ne_of_distinct (hdistinct : file.namespaceNames.Nodup) (hsvc : svc ∈ file.services) :
    svc.name ≠ ascii "hrpc_protobuf_AssignDescriptorsOnce" := by
  rw [FileDescriptor.namespaceNames, List.append_assoc] at hdistinct
  intro heq
  refine (List.nodup_append.mp hdistinct).2.2 svc.name ?_ _ ?_ heq
  · exact List.mem_flatMap.mpr ⟨svc, hsvc, List.mem_cons_of_mem _ List.mem_cons_self⟩
  · exact List.mem_append_right _ (List.mem_cons_of_mem _ List.mem_cons_self)

/-! ### Hiding -/

section

variable {scope : CppScope} {outer : List CppScope} {args : List CppType} {type : CppType}

theorem calls_of_undeclared (h : n ∉ scope.map Prod.fst) :
    calls (scope :: outer) n args = calls outer n args := by
  rw [calls, calls, resolve_of_undeclared fun e he => h (List.mem_map_of_mem he)]

theorem denotes_of_undeclared (h : n ∉ scope.map Prod.fst) :
    denotes (scope :: outer) n type = denotes outer n type := by
  rw [denotes, denotes, resolve_of_undeclared fun e he => h (List.mem_map_of_mem he)]

/-- A call that finds something in the innermost scope finds its function there. -/
theorem mem_of_calls (h : calls (scope :: outer) n args = true) (he : (n, e) ∈ scope) :
    e.isFunction = true ∧ (n, .function args) ∈ scope := by
  rw [calls, resolve_of_declared he, Bool.and_eq_true, List.all_eq_true,
    List.contains_iff_mem, mem_declared] at h
  exact ⟨h.1 e (mem_declared.mpr he), h.2⟩

theorem eq_of_denotes (h : denotes (scope :: outer) n type = true) (he : (n, e) ∈ scope) :
    e = .object type := by
  rw [denotes, resolve_of_declared he, decide_eq_true_eq] at h
  exact List.mem_singleton.mp (h ▸ mem_declared.mpr he)

theorem calls_of_mem (h : (n, .function args) ∈ scope)
    (hall : ∀ e, (n, e) ∈ scope → e.isFunction = true) :
    calls (scope :: outer) n args = true := by
  rw [calls, resolve_of_declared h, Bool.and_eq_true, List.all_eq_true, List.contains_iff_mem]
  exact ⟨fun e he => hall e (mem_declared.mp he), mem_declared.mpr h⟩

theorem denotes_of_nodup (hnodup : (scope.map Prod.fst).Nodup) (h : (n, .object type) ∈ scope) :
    denotes (scope :: outer) n type = true := by
  rw [denotes, resolve_of_declared h, declared_of_nodup hnodup h, decide_eq_true_eq]

end

/-! ### The checks of a class -/

section

variable (hsvc : svc ∈ file.services) (hdistinct : file.namespaceNames.Nodup)

/-- Nothing but the methods of a class declares a name that is none of its own. -/
theorem undeclared_members (hname : n ≠ svc.name) (hfixed : n ∉ memberNames)
    (hmethods : ∀ method ∈ svc.methods, method.name ≠ n) :
    n ∉ (CppServiceGenerator.generate className svc).members.map Prod.fst := by
  intro hmem
  obtain ⟨⟨n, e⟩, h, rfl⟩ := List.mem_map.mp hmem
  rcases mem_members h with ⟨h, -⟩ | ⟨h, -⟩ | h | ⟨method, hmethod, h, -⟩
  · exact hname h
  · exact hfixed (h ▸ List.mem_cons_self)
  · exact hfixed (List.mem_cons_of_mem _ (List.mem_map_of_mem h))
  · exact hmethods method hmethod h.symm

theorem undeclared_stubMembers (hname : n ≠ stubName svc.name) (hhrpc : n ≠ ascii "hrpc")
    (hhrpc' : n ≠ ascii "hrpc_") (hmethods : ∀ method ∈ svc.methods, method.name ≠ n) :
    n ∉ (CppServiceGenerator.generate className svc).stubMembers.map Prod.fst := by
  intro hmem
  obtain ⟨⟨n, e⟩, h, rfl⟩ := List.mem_map.mp hmem
  rcases mem_stubMembers h with ⟨h, -⟩ | ⟨h, -⟩ | ⟨h, -⟩ | ⟨method, hmethod, h, -⟩
  · exact hname h
  · exact hhrpc h
  · exact hhrpc' h
  · exact hmethods method hmethod h.symm

/-- A function of a class is found in it if neither the class nor its `typedef` has the name. -/
theorem calls_member {args : List CppType} {outer : List CppScope} (hname : n ≠ svc.name)
    (hstub : n ≠ ascii "Stub")
    (h : (n, .function args) ∈ (CppServiceGenerator.generate className svc).members) :
    calls ((CppServiceGenerator.generate className svc).members :: outer) n args = true := by
  refine calls_of_mem h fun e he => ?_
  rcases mem_members he with ⟨h, -⟩ | ⟨h, -⟩ | h | ⟨_, -, -, rfl⟩
  · exact absurd h hname
  · exact absurd h hstub
  · exact (by decide : ∀ d ∈ (ascii "descriptor", Entity.function []) :: implementsService,
      d.2.isFunction = true) _ h
  · rfl

include hsvc hdistinct

theorem denotes_descriptorVar (hmethods : ∀ method ∈ svc.methods,
    method.name ≠ descriptorVar svc.name) :
    denotes ((CppServiceGenerator.generate className svc).scopes
      (CppFileGenerator.generate className file)) (descriptorVar svc.name) descriptorPointer =
        true := by
  have hfixed : descriptorVar svc.name ∉ memberNames := fun hmem =>
    descriptorVar_ne ((by decide : ∀ n ∈ memberNames, ¬ ascii "_descriptor_" <:+ n) _ hmem) rfl
  have hbase : descriptorVar svc.name ∉ serviceMembers.map Prod.fst := fun hmem =>
    descriptorVar_ne ((by decide : ∀ n ∈ serviceMembers.map Prod.fst,
      ¬ ascii "_descriptor_" <:+ n) _ hmem) rfl
  rw [ServiceCode.scopes, denotes_of_undeclared
    (undeclared_members descriptorVar_ne_name hfixed hmethods), denotes_of_undeclared hbase]
  exact denotes_of_nodup (namespaceScope_fst className ▸ hdistinct)
    (descriptorVar_mem_namespaceScope hsvc)

theorem readsDescriptor_iff :
    (CppServiceGenerator.generate className svc).readsDescriptor
      (CppFileGenerator.generate className file) = true ↔
        ∀ method ∈ svc.methods, method.name ≠ ascii "hrpc_protobuf_AssignDescriptorsOnce" ∧
          method.name ≠ descriptorVar svc.name := by
  rw [ServiceCode.readsDescriptor, Bool.and_eq_true]
  constructor
  · rintro ⟨hcalls, hdenotes⟩ method hmethod
    have hmem := handler_mem_members className hmethod
    refine ⟨fun heq => ?_, fun heq => ?_⟩
    · rw [heq] at hmem
      rcases nullary_mem_members (mem_of_calls hcalls hmem).2 with h | h <;>
        exact absurd h (by decide)
    · rw [heq] at hmem
      exact absurd (eq_of_denotes hdenotes hmem) (by simp [handlerEntity])
  · intro hmethods
    refine ⟨?_, denotes_descriptorVar hsvc hdistinct fun method hm => (hmethods method hm).2⟩
    have hmembers : ascii "hrpc_protobuf_AssignDescriptorsOnce" ∉
        (CppServiceGenerator.generate className svc).members.map Prod.fst :=
      undeclared_members (name_ne_of_distinct hdistinct hsvc).symm (by decide)
        fun method hm => (hmethods method hm).1
    rw [ServiceCode.scopes, calls_of_undeclared hmembers, calls_of_undeclared (by decide)]
    have honce := declared_of_nodup (namespaceScope_fst className ▸ hdistinct)
      (assignOnce_mem_namespaceScope className file)
    refine calls_of_mem (assignOnce_mem_namespaceScope className file) fun e he => ?_
    have hdeclared := mem_declared.mpr he
    rw [honce] at hdeclared
    rw [List.mem_singleton.mp hdeclared]
    rfl

theorem callMethodResolves_of (hmethods : ∀ method ∈ svc.methods,
    method.name ≠ descriptorVar svc.name) :
    (CppServiceGenerator.generate className svc).callMethodResolves
      (CppFileGenerator.generate className file) = true := by
  have hparams : descriptorVar svc.name ∉ callMethodParams.map Prod.fst := fun hmem =>
    descriptorVar_ne ((by decide : ∀ n ∈ callMethodParams.map Prod.fst,
      ¬ ascii "_descriptor_" <:+ n) _ hmem) rfl
  refine (denotes_of_undeclared hparams).trans ?_
  exact denotes_descriptorVar hsvc hdistinct hmethods

end

theorem prototypeResolves_of (code : FileCode) (hname : svc.name ∉ memberNames) :
    (CppServiceGenerator.generate className svc).prototypeResolves code = true := by
  rw [ServiceCode.prototypeResolves, calls_of_undeclared (by decide)]
  refine calls_member (fun heq => hname (heq ▸ by decide)) (by decide) descriptor_mem_members

/-- A parameter of `CallMethod` hides a handler of the same name. -/
theorem handlerResolves_iff (code : FileCode) {method : MethodProto}
    (hmethod : method ∈ svc.methods) (hname : method.name ≠ svc.name)
    (hstub : method.name ≠ ascii "Stub") :
    (CppServiceGenerator.generate className svc).handlerResolves code method.name
        (className method.inputType) (className method.outputType) = true ↔
      method.name ∉ callMethodParams.map Prod.fst := by
  rw [ServiceCode.handlerResolves]
  constructor
  · intro h hmem
    obtain ⟨⟨n, e⟩, he, rfl⟩ := List.mem_map.mp hmem
    have hfunction := (mem_of_calls h he).1
    have hobject : ∀ d ∈ callMethodParams, d.2.isFunction = false := by decide
    exact absurd (hfunction.symm.trans (hobject _ he)) (by decide)
  · intro h
    rw [calls_of_undeclared h]
    exact calls_member hname hstub (handler_mem_members className hmethod)

theorem StubMethod.undeclared_params (stub : StubMethod) (sync : Bool)
    (h : n ∉ callMethodParams.map Prod.fst) : n ∉ (stub.params sync).map Prod.fst := by
  cases sync <;>
  · simp only [callMethodParams, params, List.map_cons, List.map_nil, List.mem_cons,
      List.not_mem_nil, or_false, not_or] at h ⊢
    simp [h]

theorem keepsStd_iff (hsvc : svc ∈ file.services) (stub : StubMethod) (sync : Bool) :
    keepsStd (stub.params sync :: (CppServiceGenerator.generate className svc).stubMembers ::
        (CppServiceGenerator.generate className svc).scopes
          (CppFileGenerator.generate className file)) = true ↔
      ∀ svc' ∈ file.services, svc'.name ≠ ascii "std" := by
  have hall : ∀ scopes, keepsStd scopes = true ↔
      ∀ scope ∈ scopes, (ascii "std", Entity.type) ∉ scope := by
    simp [keepsStd]
  have hstub : ∀ svc : ServiceDescriptor, stubName svc.name ≠ ascii "std" := fun _ =>
    stubName_ne (by decide)
  rw [hall]
  constructor
  · intro h svc' hsvc' heq
    refine h (CppFileGenerator.generate className file).namespaceScope
      (by simp [ServiceCode.scopes]) (List.mem_append_left _ (List.mem_append_left _ ?_))
    exact List.mem_flatMap.mpr ⟨_, List.mem_map_of_mem hsvc', heq ▸ by
      simp [CppServiceGenerator.generate]⟩
  · intro h scope hscope hmem
    simp only [ServiceCode.scopes, List.mem_cons, List.not_mem_nil, or_false] at hscope
    rcases hscope with rfl | rfl | rfl | rfl | rfl
    · exact absurd (List.mem_map_of_mem hmem) (stub.undeclared_params sync (by decide))
    · rcases mem_stubMembers hmem with ⟨heq, -⟩ | ⟨-, he⟩ | ⟨-, he⟩ | ⟨_, -, -, he | he⟩
      · exact hstub svc heq.symm
      all_goals cases he
    · rcases mem_members hmem with ⟨heq, -⟩ | ⟨heq, -⟩ | hfixed | ⟨_, -, -, he⟩
      · exact h svc hsvc heq.symm
      · exact absurd heq (by decide)
      · exact absurd hfixed (by decide)
      · cases he
    · exact absurd hmem (by decide)
    · rcases mem_namespaceScope hmem with ⟨svc', hsvc', heq | heq, -⟩ | ⟨_, he⟩ | ⟨-, he⟩
      · exact hstub svc' heq.symm
      · exact h svc' hsvc' heq.symm
      all_goals cases he

variable (className) in
theorem declared_hrpc (hhrpc : ∀ method ∈ svc.methods, method.name ≠ ascii "hrpc_") :
    declared (CppServiceGenerator.generate className svc).stubMembers (ascii "hrpc_") =
      [.object hyperRpcPointer] := by
  have hfront : declared ([(stubName svc.name, .type), (ascii "hrpc", .function [])] ++
      svc.methods.flatMap fun method => [(method.name, handlerEntity className method),
        (method.name, syncEntity className method)]) (ascii "hrpc_") = [] := by
    refine declared_eq_nil.mpr fun e he => ?_
    simp only [List.mem_append, List.mem_cons, List.not_mem_nil, or_false, List.mem_flatMap,
      Prod.mk.injEq] at he
    rcases he with (⟨heq, -⟩ | ⟨heq, -⟩) | ⟨method, hmethod, ⟨heq, -⟩ | ⟨heq, -⟩⟩
    · exact stubName_ne (by decide) heq.symm
    · exact absurd heq (by decide)
    all_goals exact hhrpc method hmethod heq.symm
  rw [stubMembers_eq, declared_append, hfront]
  rfl

/-- A method called `descriptor` hides `descriptor()` in the stub. -/
theorem stubResolves_iff (hsvc : svc ∈ file.services) (hname : svc.name ∉ memberNames)
    (hhrpc : ∀ method ∈ svc.methods, method.name ≠ ascii "hrpc_") (stub : StubMethod)
    (sync : Bool) :
    (CppServiceGenerator.generate className svc).stubResolves
        (CppFileGenerator.generate className file) stub sync = true ↔
      (∀ method ∈ svc.methods, method.name ≠ ascii "descriptor") ∧
        (sync = true ∨ ∀ svc' ∈ file.services, svc'.name ≠ ascii "std") := by
  have hobject : denotes (stub.params sync ::
      (CppServiceGenerator.generate className svc).stubMembers ::
        (CppServiceGenerator.generate className svc).scopes
          (CppFileGenerator.generate className file)) (ascii "hrpc_") hyperRpcPointer = true := by
    have hdeclared := declared_hrpc className hhrpc
    have hmem : (ascii "hrpc_", Entity.object hyperRpcPointer) ∈
        (CppServiceGenerator.generate className svc).stubMembers := by
      rw [← mem_declared, hdeclared]
      exact List.mem_cons_self
    rw [denotes_of_undeclared (stub.undeclared_params sync (by decide)), denotes,
      resolve_of_declared hmem, hdeclared, decide_eq_true_eq]
  rw [ServiceCode.stubResolves, hobject, Bool.true_and, Bool.and_eq_true, Bool.or_eq_true,
    keepsStd_iff hsvc, calls_of_undeclared (stub.undeclared_params sync (by decide))]
  refine and_congr_left' ⟨fun h method hmethod heq => ?_, fun h => ?_⟩
  · have hmem : (ascii "descriptor", handlerEntity className method) ∈
        (CppServiceGenerator.generate className svc).stubMembers := by
      rw [stubMembers_eq, ← heq]
      exact List.mem_append_left _ (List.mem_append_right _
        (List.mem_flatMap.mpr ⟨method, hmethod, List.mem_cons_self⟩))
    rcases mem_stubMembers (mem_of_calls h hmem).2 with ⟨-, he⟩ | ⟨hn, -⟩ | ⟨-, he⟩ |
      ⟨_, -, -, he | he⟩
    · cases he
    · exact absurd hn (by decide)
    all_goals cases he
  · rw [calls_of_undeclared (undeclared_stubMembers (stubName_ne (by decide)).symm (by decide)
      (by decide) h)]
    exact calls_member (fun heq => hname (heq ▸ by decide)) (by decide) descriptor_mem_members

/-! ## Files that compile -/

theorem not_mem_takenNames {name : Str} : name ∉ svc.takenNames ↔
    (name ≠ svc.name ∧ name ≠ ascii "Stub") ∧
      (name ≠ stubName svc.name ∧ name ≠ ascii "hrpc_") ∧
      (name ≠ ascii "hrpc_protobuf_AssignDescriptorsOnce" ∧ name ≠ descriptorVar svc.name) ∧
      name ≠ ascii "descriptor" ∧ name ∉ callMethodParams.map Prod.fst := by
  simp only [ServiceDescriptor.takenNames, callMethodParams, List.map_cons, List.map_nil,
    List.mem_cons, List.not_mem_nil, or_false, not_or]
  constructor
  · rintro ⟨hname, hstub, hvar, htypedef, hdescriptor, hhrpc, honce, hparams⟩
    exact ⟨⟨hname, htypedef⟩, ⟨hstub, hhrpc⟩, ⟨honce, hvar⟩, hdescriptor, hparams⟩
  · rintro ⟨⟨hname, htypedef⟩, ⟨hstub, hhrpc⟩, ⟨honce, hvar⟩, hdescriptor, hparams⟩
    exact ⟨hname, hstub, hvar, htypedef, hdescriptor, hhrpc, honce, hparams⟩

theorem forall_callCase {P : Str → Str → Str → Prop} :
    (∀ c ∈ (CppServiceGenerator.generate className svc).callMethod,
      P c.name c.inputType c.outputType) ↔
      ∀ method ∈ svc.methods,
        P method.name (className method.inputType) (className method.outputType) := by
  simp only [CppServiceGenerator.generate, CppServiceGenerator.generateCallMethod]
  constructor
  · intro h method hmethod
    obtain ⟨i, hi, rfl⟩ := List.getElem_of_mem hmethod
    exact h _ (List.mem_mapIdx.mpr ⟨i, hi, rfl⟩)
  · intro h c hc
    obtain ⟨i, hi, rfl⟩ := List.mem_mapIdx.mp hc
    exact h _ (List.getElem_mem hi)

variable (className) in
theorem exists_stubMethod_iff :
    (∃ stub, stub ∈ (CppServiceGenerator.generate className svc).stubMethods) ↔
      svc.methods ≠ [] := by
  have hnil : (CppServiceGenerator.generate className svc).stubMethods = [] ↔ svc.methods = [] :=
    List.mapIdx_eq_nil_iff
  rw [ne_eq, ← hnil]
  exact ⟨fun ⟨_, hmem⟩ => List.ne_nil_of_mem hmem, List.exists_mem_of_ne_nil _⟩

theorem compiles_service_iff (hsvc : svc ∈ file.services) (hdistinct : file.namespaceNames.Nodup) :
    (CppServiceGenerator.generate className svc).compiles
        (CppFileGenerator.generate className file) = true ↔
      svc.Namable ∧ (svc.methods ≠ [] → ∀ svc' ∈ file.services, svc'.name ≠ ascii "std") := by
  simp only [ServiceCode.compiles, Bool.and_eq_true, decide_eq_true_eq,
    members_distinguishable_iff, stubMembers_distinguishable_iff,
    readsDescriptor_iff hsvc hdistinct, List.all_eq_true, forall_callCase (P := fun n i o =>
      (CppServiceGenerator.generate className svc).handlerResolves
        (CppFileGenerator.generate className file) n i o = true)]
  constructor
  · rintro ⟨⟨⟨⟨⟨⟨⟨hname, hmembers⟩, hstub⟩, hreads⟩, -⟩, -⟩, hhandlers⟩, hstubs⟩
    have hresolved : svc.methods ≠ [] → (∀ method ∈ svc.methods,
        method.name ≠ ascii "descriptor") ∧ ∀ svc' ∈ file.services, svc'.name ≠ ascii "std" := by
      intro hne
      obtain ⟨stub, hmem⟩ := (exists_stubMethod_iff className).mpr hne
      obtain ⟨hdescriptor, hstd⟩ := (stubResolves_iff hsvc hname (fun method hmethod =>
        (hstub method hmethod).2) stub false).mp (hstubs stub hmem).2
      exact ⟨hdescriptor, hstd.resolve_left (by decide)⟩
    refine ⟨⟨hname, fun method hmethod => not_mem_takenNames.mpr ⟨hmembers method hmethod,
      hstub method hmethod, hreads method hmethod, ?_, ?_⟩⟩, fun hne => (hresolved hne).2⟩
    · exact (hresolved (List.ne_nil_of_mem hmethod)).1 method hmethod
    · exact (handlerResolves_iff _ hmethod (hmembers method hmethod).1
        (hmembers method hmethod).2).mp (hhandlers method hmethod)
  · rintro ⟨⟨hname, hmethods⟩, hstd⟩
    have hfree := fun method hmethod => not_mem_takenNames.mp (hmethods method hmethod)
    have hstubs : ∀ stub sync, (sync = true ∨ svc.methods ≠ []) →
        (CppServiceGenerator.generate className svc).stubResolves
          (CppFileGenerator.generate className file) stub sync = true := fun stub sync hsync =>
      (stubResolves_iff hsvc hname (fun method hmethod => (hfree method hmethod).2.1.2) stub
        sync).mpr ⟨fun method hmethod => (hfree method hmethod).2.2.2.1, hsync.imp_right hstd⟩
    refine ⟨⟨⟨⟨⟨⟨⟨hname, fun method hmethod => (hfree method hmethod).1⟩,
      fun method hmethod => (hfree method hmethod).2.1⟩,
      fun method hmethod => (hfree method hmethod).2.2.1⟩, prototypeResolves_of _ hname⟩,
      callMethodResolves_of hsvc hdistinct fun method hmethod =>
        (hfree method hmethod).2.2.1.2⟩, fun method hmethod => ?_⟩, fun stub hmem => ?_⟩
    · obtain ⟨⟨hne, hne'⟩, -, -, -, hparams⟩ := hfree method hmethod
      exact (handlerResolves_iff _ hmethod hne hne').mpr hparams
    · exact ⟨hstubs stub true (Or.inl rfl),
        hstubs stub false (Or.inr ((exists_stubMethod_iff className).mp ⟨stub, hmem⟩))⟩

theorem identifiers_eq : (CppFileGenerator.generate className file).identifiers =
    file.services.flatMap fun svc => [svc.name, stubName svc.name, descriptorVar svc.name] ++
      svc.methods.map MethodProto.name := by
  simp [FileCode.identifiers, CppFileGenerator.generate, CppServiceGenerator.generate,
    CppServiceGenerator.generateMethodSignatures, List.flatMap_map, Function.comp_def]

/-- The initializers set the variables of the namespace. -/
theorem initializers_resolve (hdistinct : file.namespaceNames.Nodup) :
    ∀ a ∈ (CppFileGenerator.generate className file).descriptorInitializers,
      denotes
        [[(ascii "file", .object (.pointer true (ascii "::google::protobuf::FileDescriptor")))],
          (CppFileGenerator.generate className file).namespaceScope] a.1 descriptorPointer =
            true := by
  intro a ha
  obtain ⟨i, hi, rfl⟩ := List.mem_mapIdx.mp ha
  have hfile : descriptorVar file.services[i].name ∉ [ascii "file"] := by
    rw [List.mem_singleton]
    exact descriptorVar_ne (by decide)
  refine (denotes_of_undeclared hfile).trans ?_
  exact denotes_of_nodup (namespaceScope_fst className ▸ hdistinct)
    (descriptorVar_mem_namespaceScope (List.getElem_mem hi))

/-- The printed code compiles exactly if the names of the proto file can be printed. -/
theorem compiles_iff :
    (CppFileGenerator.generate className file).compiles around = true ↔ file.Namable around := by
  have hservices : (CppFileGenerator.generate className file).services =
      file.services.map (CppServiceGenerator.generate className) := rfl
  simp only [FileCode.compiles, Bool.and_eq_true, decide_eq_true_eq, List.all_eq_true,
    namespaceScope_distinguishable_iff, Bool.not_eq_true', hservices, List.forall_mem_map]
  constructor
  · rintro ⟨⟨⟨⟨hids, hdistinct⟩, hfree⟩, -⟩, hcompiles⟩
    have hall := fun svc hsvc => (compiles_service_iff hsvc hdistinct).mp (hcompiles svc hsvc)
    refine ⟨fun svc hsvc => (hall svc hsvc).1, hdistinct, fun name hname => ?_,
      fun svc hsvc name hname => hids name ?_, fun svc hsvc => (hall svc hsvc).2⟩
    · rw [← namespaceScope_fst className] at hname
      obtain ⟨d, hd, rfl⟩ := List.mem_map.mp hname
      exact hfree d hd
    · rw [identifiers_eq]
      exact List.mem_flatMap.mpr ⟨svc, hsvc, hname⟩
  · intro h
    refine ⟨⟨⟨⟨fun name hname => ?_, h.distinct⟩, fun d hd => h.free d.1 ?_⟩,
      initializers_resolve h.distinct⟩, fun svc hsvc =>
        (compiles_service_iff hsvc h.distinct).mpr ⟨h.services svc hsvc, h.std svc hsvc⟩⟩
    · rw [identifiers_eq] at hname
      obtain ⟨svc, hsvc, hname⟩ := List.mem_flatMap.mp hname
      exact h.identifiers svc hsvc name hname
    · rw [← namespaceScope_fst className]
      exact List.mem_map_of_mem hd

end HyperRpc
