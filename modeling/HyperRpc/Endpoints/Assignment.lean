import HyperRpc.Endpoints.Refinement

/-!
# Copy assignment under aliasing

`operator=` destroys its object in place and then constructs a copy of its argument there. When
the two are one object, the constructor reads an object whose life is over and whose buffer is
released, and nothing can be said of the program any more. For two objects the assignment does
what it is for, in every store that a program reaches.
-/
namespace HyperRpc

open Lib EndpointList

namespace EndpointList

variable {this this' other : EndpointList} {heap heap' : Heap Addr} {b : ℕ}

theorem count_released_of_clear (hlist : this.listInHeap = some b)
    (hclear : this.clear heap = .ok (this', heap')) : heap'.released.count b = 1 := by
  rw [clear, hlist] at hclear
  obtain ⟨heap₁, hdelete, hclear⟩ := bind_eq_ok.mp hclear
  cases hclear
  exact Heap.count_released_of_delete hdelete

theorem released_of_copyFrom (hcopy : copyFrom heap other = .ok (this, heap')) :
    heap'.released = heap.released := by
  unfold copyFrom at hcopy
  split_ifs at hcopy
  · obtain ⟨capacity, -, hcopy⟩ := bind_eq_ok.mp hcopy
    obtain ⟨⟨listInHeap, heap₁⟩, halloc, hcopy⟩ := bind_eq_ok.mp hcopy
    obtain ⟨otherListInHeap, -, hcopy⟩ := bind_eq_ok.mp hcopy
    obtain ⟨heap₂, hmemcpy, hcopy⟩ := bind_eq_ok.mp hcopy
    cases hcopy
    exact (Heap.released_of_memcpy hmemcpy).trans (Heap.released_of_alloc halloc)
  · cases hcopy
    rfl

end EndpointList

namespace EndpointStore

variable {s s' : EndpointStore} {lists : PlainLists} {x y : ℕ} {l : List Addr}

theorem of_call_ok {f : EndpointList → Heap Addr → Except HeapError (EndpointList × Heap Addr)}
    (hcall : s.call x f = .ok s') : ∃ this this' heap', s.objects x = some this ∧
      f this s.heap = .ok (this', heap') ∧
      s' = ⟨Function.update s.objects x (some this'), heap'⟩ := by
  obtain ⟨this, hobj, hcall⟩ := bind_eq_ok.mp hcall
  obtain ⟨⟨this', heap'⟩, hf, hs'⟩ := bind_eq_ok.mp hcall
  cases hs'
  exact ⟨this, this', heap', deref_eq_ok.mp hobj, hf, rfl⟩

/-! ## Every store that a program reaches -/

theorem Refines.of_ok {r : Except HeapError EndpointStore}
    (hR : ∃ s', r = .ok s' ∧ Refines s' lists) (hr : r = .ok s') : Refines s' lists := by
  obtain ⟨s'', hr', hR⟩ := hR
  cases hr'.symm.trans hr
  exact hR

theorem Refines.exists_list (hR : Refines s lists) {this : EndpointList}
    (hobj : s.objects x = some this) : ∃ l, lists x = some l := by
  have hrel := hR.represents x
  rw [hobj] at hrel
  cases hlist : lists x with
  | none => rw [hlist] at hrel; cases hrel
  | some l => exact ⟨l, rfl⟩

theorem Refines.exists_list_of_call (hR : Refines s lists)
    {f : EndpointList → Heap Addr → Except HeapError (EndpointList × Heap Addr)}
    (hcall : s.call x f = .ok s') : ∃ l, lists x = some l := by
  obtain ⟨this, _, _, hobj, -, -⟩ := of_call_ok hcall
  exact hR.exists_list hobj

theorem owns_of_no_object (hx : s.objects x = none) : s.owns x = ∅ := by
  simp only [owns, Function.comp_apply, hx, Option.elim_none]

theorem of_construct_ok {init : EndpointStore → Except HeapError EndpointStore}
    (hstep : s.construct x init = .ok s') : s.objects x = none ∧ init s = .ok s' := by
  unfold construct at hstep
  split_ifs at hstep with hnew
  exact ⟨Option.isNone_iff_eq_none.mp hnew, hstep⟩

theorem of_destroy_ok (hdestroy : s.destroy x = .ok s') : s'.objects x = none := by
  obtain ⟨s₁, -, hs'⟩ := bind_eq_ok.mp hdestroy
  cases hs'
  exact Function.update_self x none s₁.objects

/-- A constructor reads another object than the one it makes. -/
theorem ne_of_deref {other : EndpointList} (hx : s.objects x = none)
    (hother : deref (s.objects y) = .ok other) : x ≠ y := by
  rintro rfl
  rw [deref_eq_ok.mp hother] at hx
  cases hx

theorem copyConstruct_keeps (hR : Refines s lists) (hx : s.objects x = none)
    (hstep : s.copyConstruct x y = .ok s') : ∃ lists', Refines s' lists' := by
  obtain ⟨other, hother, -⟩ := bind_eq_ok.mp hstep
  obtain ⟨l, hy⟩ := hR.exists_list (deref_eq_ok.mp hother)
  have hcopy := copyConstruct_refines hR (owns_of_no_object hx) (ne_of_deref hx hother) hy
  exact ⟨_, Refines.of_ok hcopy hstep⟩

theorem moveConstruct_keeps (hR : Refines s lists) (hx : s.objects x = none)
    (hstep : s.moveConstruct x y = .ok s') : ∃ lists', Refines s' lists' := by
  obtain ⟨other, hother, -⟩ := bind_eq_ok.mp hstep
  obtain ⟨l, hy⟩ := hR.exists_list (deref_eq_ok.mp hother)
  have hmove := moveConstruct_refines hR (owns_of_no_object hx) (ne_of_deref hx hother) hy
  exact ⟨_, Refines.of_ok hmove hstep⟩

theorem destroy_keeps (hR : Refines s lists) (hstep : s.destroy x = .ok s') :
    ∃ lists', Refines s' lists' := by
  obtain ⟨s₁, hclear, -⟩ := bind_eq_ok.mp hstep
  obtain ⟨l, hx⟩ := hR.exists_list_of_call hclear
  exact ⟨_, Refines.of_ok (destroy_refines hR hx) hstep⟩

/-- Whatever an operation does, it leaves objects that represent lists. -/
theorem step_keeps (hR : Refines s lists) {op : ListOp} (hstep : s.step op = .ok s') :
    ∃ lists', Refines s' lists' := by
  unfold step at hstep
  cases op with
  | construct x =>
    obtain ⟨hx, hinit⟩ := of_construct_ok hstep
    cases hinit
    exact ⟨_, hR.put_default (owns_of_no_object hx)⟩
  | pushBack x endpoint =>
    obtain ⟨l, hx⟩ := hR.exists_list_of_call hstep
    rcases pushBack_refines hR hx endpoint with hdone | ⟨herror, -⟩
    · exact ⟨_, Refines.of_ok hdone hstep⟩
    · cases herror.symm.trans hstep
  | clear x =>
    obtain ⟨l, hx⟩ := hR.exists_list_of_call hstep
    exact ⟨_, Refines.of_ok (hR.call hx fun _ => clear_spec) hstep⟩
  | copyConstruct x y =>
    obtain ⟨hx, hinit⟩ := of_construct_ok hstep
    exact copyConstruct_keeps hR hx hinit
  | moveConstruct x y =>
    obtain ⟨hx, hinit⟩ := of_construct_ok hstep
    exact moveConstruct_keeps hR hx hinit
  | destroy x => exact destroy_keeps hR hstep
  | copyAssign x y =>
    obtain ⟨s₁, hdestroy, hcopy⟩ := bind_eq_ok.mp hstep
    obtain ⟨lists₁, hR₁⟩ := destroy_keeps hR hdestroy
    exact copyConstruct_keeps hR₁ (of_destroy_ok hdestroy) hcopy
  | moveAssign x y =>
    obtain ⟨s₁, hdestroy, hmove⟩ := bind_eq_ok.mp hstep
    obtain ⟨lists₁, hR₁⟩ := destroy_keeps hR hdestroy
    exact moveConstruct_keeps hR₁ (of_destroy_ok hdestroy) hmove

theorem refines_of_exec {ops : List ListOp} (hexec : exec step initial ops = .ok s) :
    ∃ lists, Refines s lists :=
  exec_invariant (I := fun s => ∃ lists, Refines s lists)
    (fun ⟨_, hR⟩ hstep => step_keeps hR hstep) ⟨_, refines_initial⟩ hexec

/-! ## What an assignment is for -/

/-- The object of a name reads back as a list, element by element. -/
def ReadsBack (s : EndpointStore) (x : ℕ) (l : List Addr) : Prop :=
  ∃ this, s.objects x = some this ∧ this.size.toNat = l.length ∧
    ∀ (index : UInt64) (hi : index.toNat < l.length),
      this.getEndpoint s.heap index = .ok l[index.toNat]

/-- The assignment `x = y` has led from `s` to `s'`, and `l` is the list that `y` held. -/
structure Assigned (s s' : EndpointStore) (x y : ℕ) (l : List Addr) : Prop where
  target : s'.ReadsBack x l
  source : s'.ReadsBack y l
  /-- There is a buffer if the list does not fit into the cache, and nobody else has it. -/
  owner : ∀ this, s'.objects x = some this →
    (this.listInHeap.isSome ↔ kListCacheSize < l.length) ∧
      ∀ b, this.listInHeap = some b → s'.heap.Live b ∧
        ∀ z other, s'.objects z = some other → other.listInHeap = some b → z = x
  released : ∀ former b, s.objects x = some former → former.listInHeap = some b →
    s'.heap.released.count b = 1

theorem Refines.readsBack (hR : Refines s lists) (hx : lists x = some l) : s.ReadsBack x l := by
  obtain ⟨this, hobj, hr⟩ := hR.object hx
  exact ⟨this, hobj, hr.size, fun _ hi => getEndpoint_spec hr hi⟩

/-- No two lists are read back from one object. -/
theorem ReadsBack.unique {l' : List Addr} (h : s.ReadsBack x l) (h' : s.ReadsBack x l') :
    l = l' := by
  obtain ⟨this, hobj, hsize, hget⟩ := h
  obtain ⟨other, hobj', hsize', hget'⟩ := h'
  cases hobj.symm.trans hobj'
  refine List.ext_getElem (hsize.symm.trans hsize') fun i hi hi' => ?_
  have hindex : (UInt64.ofNat i).toNat = i := by
    rw [UInt64.toNat_ofNat']
    exact Nat.mod_eq_of_lt (hi.trans (hsize ▸ this.size.toNat_lt))
  have hl := hget (.ofNat i) (by rwa [hindex])
  have hl' := hget' (.ofNat i) (by rwa [hindex])
  simp only [hindex] at hl hl'
  exact Except.ok.inj (hl.symm.trans hl')

theorem count_released_of_copyAssign (hassign : s.copyAssign x y = .ok s')
    {former : EndpointList} {b : ℕ} (hobj : s.objects x = some former)
    (hlist : former.listInHeap = some b) : s'.heap.released.count b = 1 := by
  obtain ⟨s₁, hdestroy, hcopy⟩ := bind_eq_ok.mp hassign
  obtain ⟨s₀, hclear, hs₁⟩ := bind_eq_ok.mp hdestroy
  cases hs₁
  obtain ⟨this, this₁, heap₁, hthis, hclear, rfl⟩ := of_call_ok hclear
  cases hobj.symm.trans hthis
  -- the copy constructor allocates, but it releases nothing
  obtain ⟨other, -, hcall⟩ := bind_eq_ok.mp hcopy
  obtain ⟨_, _, heap₂, -, hfrom, rfl⟩ := of_call_ok hcall
  have hreleased : heap₂.released = heap₁.released := released_of_copyFrom hfrom
  rw [hreleased]
  exact count_released_of_clear hlist hclear

/-- The copy constructor has no object to copy from when the destructor has run on it. -/
theorem copyAssign_self (hR : Refines s lists) (hx : lists x = some l) :
    s.copyAssign x x = .error .invalid := by
  obtain ⟨s₁, hdestroy, -⟩ := destroy_refines hR hx
  simp only [copyAssign, hdestroy, ok_bind, copyConstruct, of_destroy_ok hdestroy]
  rfl

theorem Refines.assigned (hR : Refines s' lists) (hassign : s.copyAssign x y = .ok s')
    (hx : lists x = some l) (hy : lists y = some l) : s.Assigned s' x y l where
  target := hR.readsBack hx
  source := hR.readsBack hy
  owner := by
    intro this hobj
    obtain ⟨_, hobj', hr⟩ := hR.object hx
    cases hobj.symm.trans hobj'
    refine ⟨?_, fun b hb => ⟨hr.live b hb, fun z other hz hb' => ?_⟩⟩
    · rcases Nat.lt_or_ge kListCacheSize l.length with hlong | hshort
      · obtain ⟨b, hb, -⟩ := hr.spilled hlong
        simp [hb, hlong]
      · simp [hr.inline hshort, hshort]
    · exact hR.owned.unique z x b (mem_owns.mpr ⟨other, hz, hb'⟩) (mem_owns.mpr ⟨this, hobj, hb⟩)
  released _ _ hobj hlist := count_released_of_copyAssign hassign hobj hlist

/-- In every store that a program reaches, and for all names of objects in it, the assignment
is what it is for exactly if the names refer to different objects. -/
theorem copyAssign_assigns_iff {Name : Type*} (refersTo : Name → ℕ) {ops : List ListOp}
    (hexec : exec step initial ops = .ok s) {x y : Name}
    (hx : (s.objects (refersTo x)).isSome) (hy : (s.objects (refersTo y)).isSome) :
    ∃ l, s.ReadsBack (refersTo y) l ∧
      ((∃ s', s.copyAssign (refersTo x) (refersTo y) = .ok s' ∧
        s.Assigned s' (refersTo x) (refersTo y) l) ↔ refersTo x ≠ refersTo y) := by
  obtain ⟨lists, hR⟩ := refines_of_exec hexec
  obtain ⟨this, hthis⟩ := Option.isSome_iff_exists.mp hx
  obtain ⟨other, hother⟩ := Option.isSome_iff_exists.mp hy
  obtain ⟨k, hk⟩ := hR.exists_list hthis
  obtain ⟨l, hl⟩ := hR.exists_list hother
  refine ⟨l, hR.readsBack hl, ?_, fun hxy => ?_⟩
  · rintro ⟨s', hassign, -⟩ hxy
    rw [hxy, copyAssign_self hR hl] at hassign
    cases hassign
  · obtain ⟨s', hassign, hR'⟩ := copyAssign_refines hR hk hxy hl
    refine ⟨s', hassign, hR'.assigned hassign (Function.update_self (refersTo x) _ lists) ?_⟩
    rw [Function.update_of_ne hxy.symm, hl]

/-- An object whose list is spilled into the heap, and one whose list fills the cache. -/
def spilledAndFull : List ListOp :=
  let pushes (x : ℕ) (ports : List UInt16) : List ListOp :=
    ports.map fun port => .pushBack x ⟨2130706433, port⟩
  List.flatten [[.construct 0], pushes 0 [1, 2, 3, 4, 5, 6, 7, 8, 9], [.construct 1],
    pushes 1 [1, 2, 3]]

theorem exec_spilledAndFull : ∃ s lists l, exec step initial spilledAndFull = .ok s ∧
    Refines s lists ∧ lists 0 = some l ∧ l.length = 9 ∧ (lists 1).isSome := by
  have hlists : (run PlainLists.step .initial spilledAndFull).map (fun lists =>
      decide ((lists 0).map List.length = some 9 ∧ (lists 1).isSome)) = some true := by
    decide +kernel
  obtain ⟨lists, hrun, hp⟩ := Option.map_eq_some_iff.mp hlists
  obtain ⟨h0, h1⟩ := of_decide_eq_true hp
  obtain ⟨l, hl, hlength⟩ := Option.map_eq_some_iff.mp h0
  rcases exec_refines (R := Refines) (fun hR hop => step_refines hR hop) refines_initial
      (by decide) hrun with ⟨s, hexec, hR⟩ | ⟨e, herror, -⟩
  · exact ⟨s, lists, l, hexec, hR, hl, hlength, h1⟩
  · have hok : (exec step initial spilledAndFull).isOk := by decide +kernel
    rw [herror] at hok
    cases hok

theorem copyAssign_assigns_spilled : ∃ s l s', exec step initial spilledAndFull = .ok s ∧
    s.ReadsBack 0 l ∧ l.length = 9 ∧ s.copyAssign 1 0 = .ok s' ∧ s.Assigned s' 1 0 l := by
  obtain ⟨s, lists, l, hexec, hR, hl, hlength, h1⟩ := exec_spilledAndFull
  obtain ⟨k, hk⟩ := Option.isSome_iff_exists.mp h1
  obtain ⟨target, htarget, -⟩ := hR.object hk
  obtain ⟨source, hsource, -⟩ := hR.object hl
  obtain ⟨l', hreads, hiff⟩ := copyAssign_assigns_iff id hexec (x := 1) (y := 0)
    (by rw [id, htarget, Option.isSome_some]) (by rw [id, hsource, Option.isSome_some])
  obtain rfl := hreads.unique (hR.readsBack hl)
  obtain ⟨s', hassign, hassigned⟩ := hiff.mpr (by decide)
  exact ⟨s, l', s', hexec, hreads, hlength, hassign, hassigned⟩

/-- Two names of one object that holds nine endpoints: the assignment reads what it has
destroyed. -/
theorem copyAssign_self_invalid : ∃ (refersTo : Bool → ℕ) (x y : Bool) (s : EndpointStore)
    (l : List Addr), x ≠ y ∧ exec step initial spilledAndFull = .ok s ∧
      (s.objects (refersTo x)).isSome ∧ s.ReadsBack (refersTo y) l ∧ l.length = 9 ∧
      s.copyAssign (refersTo x) (refersTo y) = .error .invalid ∧
      ¬ ∃ s', s.copyAssign (refersTo x) (refersTo y) = .ok s' ∧
        s.Assigned s' (refersTo x) (refersTo y) l := by
  obtain ⟨s, lists, l, hexec, hR, hl, hlength, -⟩ := exec_spilledAndFull
  obtain ⟨this, hobj, -⟩ := hR.object hl
  have hself := copyAssign_self hR hl
  refine ⟨fun _ => 0, true, false, s, l, by decide, hexec, ?_, hR.readsBack hl, hlength, hself, ?_⟩
  · rw [hobj, Option.isSome_some]
  · rintro ⟨s', hassign, -⟩
    cases hself.symm.trans hassign

end EndpointStore

end HyperRpc
