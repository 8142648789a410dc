import HyperRpc.Endpoints.Objects

/-!
# Programs over `EndpointList` objects refine programs over plain lists

The abstract level has a list for every name. `Refines` relates a store to it: every object
represents its list, and every live buffer belongs to exactly one object. The operations keep
this, and whole programs do by the simulation rule. It is what allows the model of the session
manager to hold plain lists of endpoints.
-/
namespace HyperRpc

open Lib EndpointList

/-- A plain list for every name that has an object. -/
abbrev PlainLists := ℕ → Option (List Addr)

namespace PlainLists

/-- What an operation does to the lists. It may be used when the names it reads or changes have
a list and the name of a new object has none. -/
def step (lists : PlainLists) : ListOp → Option PlainLists
  | .construct x => if (lists x).isNone then some (Function.update lists x (some [])) else none
  | .pushBack x endpoint =>
    (lists x).map fun l => Function.update lists x (some (l ++ [endpoint]))
  | .clear x => (lists x).map fun _ => Function.update lists x (some [])
  | .copyConstruct x y =>
    if (lists x).isNone then (lists y).map fun l => Function.update lists x (some l) else none
  | .moveConstruct x y =>
    if (lists x).isNone then
      (lists y).map fun l => Function.update (Function.update lists x (some l)) y (some [])
    else none
  | .destroy x => (lists x).map fun _ => Function.update lists x none
  | .copyAssign x y =>
    (lists x).bind fun _ => (lists y).map fun l => Function.update lists x (some l)
  | .moveAssign x y =>
    (lists x).bind fun _ => (lists y).map fun l =>
      Function.update (Function.update lists x (some l)) y (some [])

def initial : PlainLists := fun _ => none

/-- The name of a new object is not the name of the object it is made from. -/
theorem ne_of_new {lists : PlainLists} {x y : ℕ} {l : List Addr} (hx : (lists x).isNone)
    (hy : lists y = some l) : x ≠ y := by
  rintro rfl
  rw [hy] at hx
  cases hx

/-- One of the lists needs a buffer that `new Endpoint[n]` refuses. -/
def TooLong (lists : PlainLists) : Prop := ∃ x l, lists x = some l ∧ maxListSize < l.length

/-- The only failure there is. -/
def Fails (e : HeapError) (lists : PlainLists) : Prop := e = .outOfMemory ∧ lists.TooLong

end PlainLists

/-- Assignments are between distinct objects. -/
def ListOp.Distinct : ListOp → Prop
  | .copyAssign x y => x ≠ y
  | .moveAssign x y => x ≠ y
  | _ => True

instance : DecidablePred ListOp.Distinct := fun op => by
  unfold ListOp.Distinct
  split <;> infer_instance

namespace EndpointStore

/-- The buffers of the object of a name. -/
def owns (s : EndpointStore) : ℕ → Set ℕ := (fun o => o.elim ∅ buffers) ∘ s.objects

structure Refines (s : EndpointStore) (lists : PlainLists) : Prop where
  represents : ∀ x, Option.Rel (Represents s.heap) (s.objects x) (lists x)
  owned : s.heap.Owned s.owns

variable {s : EndpointStore} {lists : PlainLists} {x y : ℕ} {l : List Addr}

theorem refines_initial : Refines initial .initial where
  represents _ := .none
  owned := ⟨fun b => by simp [owns, initial, Heap.Live, Heap.block?, Heap.empty],
    fun _ _ _ hb => absurd hb (Set.notMem_empty _)⟩

namespace Refines

theorem object (hR : Refines s lists) (hl : lists x = some l) :
    ∃ this, s.objects x = some this ∧ Represents s.heap this l := by
  have hrel := hR.represents x
  rw [hl] at hrel
  cases hobj : s.objects x with
  | none => rw [hobj] at hrel; cases hrel
  | some this =>
    rw [hobj] at hrel
    cases hrel with
    | some hr => exact ⟨this, rfl, hr⟩

theorem no_object (hR : Refines s lists) (hl : (lists x).isNone) : s.objects x = none := by
  have hrel := hR.represents x
  rw [Option.isNone_iff_eq_none.mp hl] at hrel
  cases hobj : s.objects x with
  | none => rfl
  | some this => rw [hobj] at hrel; cases hrel

theorem owns_of_nil (hR : Refines s lists) (hl : lists x = some []) : s.owns x = ∅ := by
  obtain ⟨this, hobj, hr⟩ := hR.object hl
  simp only [owns, Function.comp_apply, hobj, Option.elim_some]
  exact buffers_none (hr.inline (Nat.zero_le _))

theorem owns_of_none (hR : Refines s lists) (hl : (lists x).isNone) : s.owns x = ∅ := by
  simp only [owns, Function.comp_apply, hR.no_object hl, Option.elim_none]

theorem construct_eq (hR : Refines s lists) (hl : (lists x).isNone)
    (init : EndpointStore → Except HeapError EndpointStore) : s.construct x init = init s :=
  if_pos (by rw [hR.no_object hl, Option.isNone_none])

/-- The object of one name is replaced, and its buffers are exchanged. -/
theorem update (hR : Refines s lists) {o : Option EndpointList} {l : Option (List Addr)}
    {heap : Heap Addr} (hx : Heap.Exchange s.heap heap (s.owns x) (o.elim ∅ buffers))
    (hrel : Option.Rel (Represents heap) o l) :
    Refines ⟨Function.update s.objects x o, heap⟩ (Function.update lists x l) where
  represents y := by
    by_cases hyx : y = x
    · subst hyx
      simpa only [Function.update_self] using hrel
    · simp only [Function.update_of_ne hyx]
      have hframe := hR.owned.frame hx hyx
      have hy := hR.represents y
      simp only [owns, Function.comp_apply] at hframe
      generalize s.objects y = other, lists y = l' at hy hframe ⊢
      cases hy with
      | none => exact .none
      | some hr => exact .some (hr.congr hframe)
  owned := by
    rw [owns, Function.comp_update]
    exact hR.owned.exchange hx

/-- The rule for a member function. -/
theorem call {l' : List Addr} (hR : Refines s lists) (hl : lists x = some l)
    {f : EndpointList → Heap Addr → Except HeapError (EndpointList × Heap Addr)}
    (hf : ∀ this, Represents s.heap this l → ∃ this' heap', f this s.heap = .ok (this', heap') ∧
      Represents heap' this' l' ∧ Heap.Exchange s.heap heap' this.buffers this'.buffers) :
    ∃ s', s.call x f = .ok s' ∧ Refines s' (Function.update lists x (some l')) := by
  obtain ⟨this, hobj, hr⟩ := hR.object hl
  obtain ⟨this', heap', hcall, hr', hx⟩ := hf this hr
  refine ⟨⟨Function.update s.objects x (some this'), heap'⟩, ?_, hR.update ?_ (.some hr')⟩
  · simp only [EndpointStore.call, hobj, deref_some, ok_bind, hcall]
    rfl
  · simpa only [owns, Function.comp_apply, hobj, Option.elim_some] using hx

theorem put_default (hR : Refines s lists) (hx : s.owns x = ∅) :
    Refines (s.put x .default) (Function.update lists x (some [])) := by
  refine hR.update ?_ (.some (represents_nil rfl rfl))
  rw [hx, Option.elim_some, buffers_none rfl]
  exact Heap.Exchange.refl_empty

end Refines

/-! ## The operations -/

theorem copyConstruct_refines (hR : Refines s lists) (hx : s.owns x = ∅) (hxy : x ≠ y)
    (hy : lists y = some l) :
    ∃ s', s.copyConstruct x y = .ok s' ∧ Refines s' (Function.update lists x (some l)) := by
  have hput := hR.put_default hx
  have hy' : Function.update lists x (some []) y = some l := by
    rw [Function.update_of_ne hxy.symm, hy]
  obtain ⟨other, hother', hr⟩ := hput.object hy'
  have hother : s.objects y = some other := by
    rw [← hother']
    exact (Function.update_of_ne hxy.symm _ _).symm
  obtain ⟨s', hcall, hR'⟩ := hput.call (f := fun _ heap => copyFrom heap other)
    (Function.update_self x _ lists) fun this hthis => by
      obtain ⟨this', heap', hcopy, hr', hx'⟩ := copyFrom_spec hr
      refine ⟨this', heap', hcopy, hr', ?_⟩
      rwa [buffers_none (hthis.inline (Nat.zero_le _))]
  rw [Function.update_idem] at hR'
  exact ⟨s', by simp only [copyConstruct, hother, deref_some, ok_bind, hcall], hR'⟩

theorem moveConstruct_refines (hR : Refines s lists) (hx : s.owns x = ∅) (hxy : x ≠ y)
    (hy : lists y = some l) :
    ∃ s', s.moveConstruct x y = .ok s' ∧
      Refines s' (Function.update (Function.update lists x (some l)) y (some [])) := by
  obtain ⟨other, hother, hr⟩ := hR.object hy
  have hother' : (s.put x ⟨other.size, copyCache other, other.listInHeap⟩).objects y =
      some other := by
    rw [← hother]
    exact Function.update_of_ne hxy.symm _ _
  refine ⟨_, by simp only [moveConstruct, hother, deref_some, ok_bind, call, hother']; rfl, ?_, ?_⟩
  · intro z
    by_cases hzy : z = y
    · subst hzy
      simp only [put, Function.update_self]
      exact .some (represents_nil rfl rfl)
    · simp only [put, Function.update_of_ne hzy]
      by_cases hzx : z = x
      · subst hzx
        simp only [Function.update_self]
        exact .some hr.moved
      · simp only [Function.update_of_ne hzx]
        exact hR.represents z
  · have hown : s.owns y = buffers ⟨other.size, copyCache other, other.listInHeap⟩ := by
      simp only [owns, Function.comp_apply, hother, Option.elim_some]
      rfl
    have hnone : buffers { other with listInHeap := none, size := 0 } = ∅ := buffers_none rfl
    have hmoved := hR.owned.handOver (j := y) hx
    simp only [owns, put, Function.comp_update, Option.elim_some, hnone, ← hown]
    exact hmoved

theorem destroy_refines (hR : Refines s lists) (hx : lists x = some l) :
    ∃ s', s.destroy x = .ok s' ∧ Refines s' (Function.update lists x none) := by
  obtain ⟨s₁, hclear, hR₁⟩ := hR.call hx fun _ => clear_spec
  have hnil : Function.update lists x (some []) x = some [] := Function.update_self x _ lists
  refine ⟨{ s₁ with objects := Function.update s₁.objects x none }, ?_, ?_⟩
  · simp only [destroy, hclear, ok_bind]
    rfl
  · have hidem : Function.update (Function.update lists x (some [])) x none =
        Function.update lists x none := Function.update_idem _ _ _
    rw [← hidem]
    refine hR₁.update ?_ .none
    rw [hR₁.owns_of_nil hnil]
    exact Heap.Exchange.refl_empty

/-- An assignment begins with the destruction of its target, which another object survives. -/
theorem destroy_target (hR : Refines s lists) {k : List Addr} (hx : lists x = some k)
    (hxy : x ≠ y) : ∃ s', s.destroy x = .ok s' ∧ s'.owns x = ∅ ∧
      Refines s' (Function.update lists x none) ∧ Function.update lists x none y = lists y := by
  obtain ⟨s', hdestroy, hR'⟩ := destroy_refines hR hx
  have hnone : Function.update lists x none x = none := Function.update_self x _ lists
  exact ⟨s', hdestroy, hR'.owns_of_none (Option.isNone_iff_eq_none.mpr hnone), hR',
    Function.update_of_ne hxy.symm _ _⟩

theorem copyAssign_refines (hR : Refines s lists) {k : List Addr} (hx : lists x = some k)
    (hxy : x ≠ y) (hy : lists y = some l) :
    ∃ s', s.copyAssign x y = .ok s' ∧ Refines s' (Function.update lists x (some l)) := by
  obtain ⟨s₁, hdestroy, hown, hR₁, hsame⟩ := destroy_target hR hx hxy
  obtain ⟨s', hcopy, hR'⟩ := copyConstruct_refines hR₁ hown hxy (hsame.trans hy)
  rw [Function.update_idem] at hR'
  exact ⟨s', by simp only [copyAssign, hdestroy, ok_bind, hcopy], hR'⟩

theorem moveAssign_refines (hR : Refines s lists) {k : List Addr} (hx : lists x = some k)
    (hxy : x ≠ y) (hy : lists y = some l) :
    ∃ s', s.moveAssign x y = .ok s' ∧
      Refines s' (Function.update (Function.update lists x (some l)) y (some [])) := by
  obtain ⟨s₁, hdestroy, hown, hR₁, hsame⟩ := destroy_target hR hx hxy
  obtain ⟨s', hmove, hR'⟩ := moveConstruct_refines hR₁ hown hxy (hsame.trans hy)
  rw [Function.update_idem] at hR'
  exact ⟨s', by simp only [moveAssign, hdestroy, ok_bind, hmove], hR'⟩

theorem pushBack_refines (hR : Refines s lists) (hx : lists x = some l) (endpoint : Addr) :
    (∃ s', s.call x (fun this heap => this.pushBack heap endpoint) = .ok s' ∧
      Refines s' (Function.update lists x (some (l ++ [endpoint])))) ∨
      s.call x (fun this heap => this.pushBack heap endpoint) = .error .outOfMemory ∧
        l.length = maxListSize := by
  obtain ⟨this, hobj, hr⟩ := hR.object hx
  rcases hr.fits.lt_or_eq with hroom | hfull
  · exact .inl (hR.call hx fun this hthis => pushBack_spec hthis hroom endpoint)
  · refine .inr ⟨?_, hfull⟩
    simp only [call, hobj, deref_some, ok_bind, pushBack_full hr hfull]
    rfl

theorem step_refines (hR : Refines s lists) {op : ListOp} (hop : op.Distinct)
    {lists' : PlainLists} (hspec : lists.step op = some lists') :
    (∃ s', s.step op = .ok s' ∧ Refines s' lists') ∨
      ∃ e, s.step op = .error e ∧ PlainLists.Fails e lists' := by
  cases op with
  | construct x =>
    obtain ⟨hx, hspec⟩ := Option.ite_none_right_eq_some.mp hspec
    cases hspec
    exact .inl ⟨s.put x .default, by rw [step, hR.construct_eq hx],
      hR.put_default (hR.owns_of_none hx)⟩
  | pushBack x endpoint =>
    obtain ⟨l, hx, rfl⟩ := Option.map_eq_some_iff.mp hspec
    rcases pushBack_refines hR hx endpoint with hdone | ⟨herror, hfull⟩
    · exact .inl hdone
    · refine .inr ⟨_, herror, rfl, x, l ++ [endpoint], Function.update_self x _ lists, ?_⟩
      rw [List.length_append, List.length_singleton, hfull]
      exact Nat.lt_succ_self _
  | clear x =>
    obtain ⟨l, hx, rfl⟩ := Option.map_eq_some_iff.mp hspec
    exact .inl (hR.call hx fun _ => clear_spec)
  | copyConstruct x y =>
    obtain ⟨hx, hspec⟩ := Option.ite_none_right_eq_some.mp hspec
    obtain ⟨l, hy, rfl⟩ := Option.map_eq_some_iff.mp hspec
    obtain ⟨s', hcopy, hR'⟩ :=
      copyConstruct_refines hR (hR.owns_of_none hx) (PlainLists.ne_of_new hx hy) hy
    exact .inl ⟨s', by rw [step, hR.construct_eq hx, hcopy], hR'⟩
  | moveConstruct x y =>
    obtain ⟨hx, hspec⟩ := Option.ite_none_right_eq_some.mp hspec
    obtain ⟨l, hy, rfl⟩ := Option.map_eq_some_iff.mp hspec
    obtain ⟨s', hmove, hR'⟩ :=
      moveConstruct_refines hR (hR.owns_of_none hx) (PlainLists.ne_of_new hx hy) hy
    exact .inl ⟨s', by rw [step, hR.construct_eq hx, hmove], hR'⟩
  | destroy x =>
    obtain ⟨l, hx, rfl⟩ := Option.map_eq_some_iff.mp hspec
    exact .inl (destroy_refines hR hx)
  | copyAssign x y =>
    obtain ⟨_, hx, hspec⟩ := Option.bind_eq_some_iff.mp hspec
    obtain ⟨l, hy, rfl⟩ := Option.map_eq_some_iff.mp hspec
    exact .inl (copyAssign_refines hR hx hop hy)
  | moveAssign x y =>
    obtain ⟨_, hx, hspec⟩ := Option.bind_eq_some_iff.mp hspec
    obtain ⟨l, hy, rfl⟩ := Option.map_eq_some_iff.mp hspec
    exact .inl (moveAssign_refines hR hx hop hy)

/-! ## Programs -/

/-- What the objects show, and what has become of every buffer. -/
structure BehavesAs (s : EndpointStore) (lists : PlainLists) : Prop where
  objects : ∀ x, (s.objects x).isSome ↔ (lists x).isSome
  observed : ∀ {x this l}, s.objects x = some this → lists x = some l →
    this.size.toNat = l.length ∧ this.empty = l.isEmpty ∧
      ∀ (index : UInt64) (hi : index.toNat < l.length),
        this.getEndpoint s.heap index = .ok l[index.toNat]
  unique : ∀ {x y this other b}, s.objects x = some this → s.objects y = some other →
    this.listInHeap = some b → other.listInHeap = some b → x = y
  released : ∀ b < s.heap.blocks.length,
    (∃ x this, s.objects x = some this ∧ this.listInHeap = some b) ∧
        s.heap.released.count b = 0 ∨
      (∀ x this, s.objects x = some this → this.listInHeap ≠ some b) ∧
        s.heap.released.count b = 1

theorem mem_owns {b : ℕ} : b ∈ s.owns x ↔ ∃ this, s.objects x = some this ∧
    this.listInHeap = some b := by
  simp only [owns, Function.comp_apply]
  cases s.objects x <;> simp [buffers]

theorem Refines.behavesAs (hR : Refines s lists) : s.BehavesAs lists where
  objects x := by
    have hrel := hR.represents x
    generalize s.objects x = o, lists x = l at hrel
    cases hrel <;> simp
  observed := by
    intro x this l hobj hl
    obtain ⟨_, hobj', hr⟩ := hR.object hl
    cases hobj.symm.trans hobj'
    refine ⟨hr.size, ?_, fun index hi => getEndpoint_spec hr hi⟩
    rw [Bool.eq_iff_iff, EndpointList.empty, beq_iff_eq, ← UInt64.toNat_inj, hr.size,
      UInt64.toNat_zero, List.length_eq_zero_iff, List.isEmpty_iff]
  unique := by
    intro x y this other b hx hy hb hb'
    exact hR.owned.unique x y b (mem_owns.mpr ⟨this, hx, hb⟩) (mem_owns.mpr ⟨other, hy, hb'⟩)
  released b hb := by
    have hlive : s.heap.Live b ↔ ∃ x this, s.objects x = some this ∧ this.listInHeap = some b := by
      simp only [hR.owned.live, mem_owns]
    rcases s.heap.live_or_released hb with ⟨hl, hcount⟩ | ⟨hl, hcount⟩
    · exact .inl ⟨hlive.mp hl, hcount⟩
    · exact .inr ⟨fun x this hobj hlist => hl (hlive.mpr ⟨x, this, hobj, hlist⟩), hcount⟩

/-- Every program over distinct objects behaves as it does over plain lists, and never makes an
invalid access. It fails only when a list is to grow beyond what `new Endpoint[n]` allocates. -/
theorem refines_lists (ops : List ListOp) (hdistinct : ∀ op ∈ ops, op.Distinct)
    {lists : PlainLists} (hrun : run PlainLists.step .initial ops = some lists) :
    (∃ s, exec step initial ops = .ok s ∧ s.BehavesAs lists) ∨
      exec step initial ops = .error .outOfMemory ∧
        ∃ pre u, pre <+: ops ∧ run PlainLists.step .initial pre = some u ∧ u.TooLong := by
  rcases exec_refines (R := Refines) (fun hR hop => step_refines hR hop) refines_initial
      hdistinct hrun with
    ⟨s, hexec, hR⟩ | ⟨e, hexec, pre, u, hpre, hu, rfl, hlong⟩
  · exact .inl ⟨s, hexec, hR.behavesAs⟩
  · exact .inr ⟨hexec, pre, u, hpre, hu, hlong⟩

/-- A list that spills into the heap is copied, and the copy grows through two doublings; then
the lists are moved and assigned. -/
def sampleProgram : List ListOp :=
  let pushes (x : ℕ) (ports : List UInt16) : List ListOp :=
    ports.map fun port => .pushBack x ⟨2130706433, port⟩
  List.flatten [[.construct 0], pushes 0 [1, 2, 3, 4, 5, 6, 7], [.copyConstruct 1 0],
    pushes 1 [8, 9, 10, 11, 12], [.moveConstruct 2 1], pushes 1 [13],
    [.copyAssign 1 0, .moveAssign 0 2, .destroy 1]]

theorem refines_lists_sample :
    ∃ s lists, exec step initial sampleProgram = .ok s ∧ s.BehavesAs lists ∧
      (lists 0).map (·.map Addr.port) = some [1, 2, 3, 4, 5, 6, 7, 8, 9, 10, 11, 12] ∧
      lists 1 = none ∧ lists 2 = some [] := by
  have hlists : (run PlainLists.step .initial sampleProgram).map (fun lists =>
      decide ((lists 0).map (·.map Addr.port) = some [1, 2, 3, 4, 5, 6, 7, 8, 9, 10, 11, 12] ∧
        lists 1 = none ∧ lists 2 = some [])) = some true := by decide +kernel
  obtain ⟨lists, hrun, hp⟩ := Option.map_eq_some_iff.mp hlists
  obtain ⟨h0, h1, h2⟩ := of_decide_eq_true hp
  rcases refines_lists sampleProgram (by decide) hrun with ⟨s, hexec, hs⟩ | ⟨herror, -⟩
  · exact ⟨s, lists, hexec, hs, h0, h1, h2⟩
  · have hok : (exec step initial sampleProgram).isOk := by decide +kernel
    rw [herror] at hok
    cases hok

end EndpointStore

end HyperRpc
