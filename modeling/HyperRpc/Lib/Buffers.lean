import HyperRpc.Lib.Heap

/-!
# Buffers that are filled once and released with their size

A buffer is a block that is filled from outside the heap, read as a whole and released by a call
that is told its size. `Listed` names the live blocks of a heap in a list, each once; its rules say
that a new buffer joins the list, that a released one leaves it, and that all others keep what they
hold.
-/
namespace HyperRpc.Lib

namespace Heap

variable {α : Type*} (h : Heap α)

/-- `memcpy` of what is not in the heap to the start of a block. -/
def fill (dst : ℕ) (xs : List α) : Except HeapError (Heap α) := do
  let cells ← deref (h.block? dst)
  if xs.length ≤ cells.length then
    return h.modify dst fun cells => xs.map some ++ cells.drop xs.length
  else .error .invalid

/-- The values of cells all of which have been written. -/
def loadCells : List (Option α) → Except HeapError (List α)
  | [] => .ok []
  | cell :: cells => do
    let a ← deref cell
    let as ← loadCells cells
    return a :: as

/-- The first `n` cells of a block. -/
def load (b n : ℕ) : Except HeapError (List α) := do
  let cells ← deref (h.block? b)
  if n ≤ cells.length then loadCells (cells.take n) else .error .invalid

/-- The release of a block that is said to have `n` cells. -/
def free (b n : ℕ) : Except HeapError (Heap α) := do
  let cells ← deref (h.block? b)
  if cells.length = n then h.delete b else .error .invalid

variable {h} {h' : Heap α} {b n : ℕ} {bs : List ℕ} {xs : List α}

theorem loadCells_map_some (xs : List α) : loadCells (xs.map some) = .ok xs := by
  induction xs with
  | nil => rfl
  | cons a as ih =>
    rw [List.map_cons, loadCells, deref_some, ok_bind, ih, ok_bind]
    rfl

/-- A buffer is full. -/
def Full (h : Heap α) (b : ℕ) (xs : List α) : Prop := h.Holds b xs.length xs

theorem Full.load (hb : h.Full b xs) : h.load b xs.length = .ok xs := by
  have hblock : h.block? b = some (xs.map some) := by simpa using hb.2
  have hcells : (xs.map some).take xs.length = xs.map some := List.take_of_length_le (by simp)
  rw [Heap.load, hblock, deref_some, ok_bind, if_pos (by simp), hcells, loadCells_map_some]

/-- The live blocks are the listed ones, which are distinct. -/
structure Listed (h : Heap α) (bs : List ℕ) : Prop where
  live : ∀ b, h.Live b ↔ b ∈ bs
  nodup : bs.Nodup

namespace Listed

theorem empty : (Heap.empty : Heap α).Listed [] where
  live b := by simp [Live, block?, Heap.empty]
  nodup := List.nodup_nil

theorem perm {cs : List ℕ} (hl : h.Listed bs) (hperm : bs.Perm cs) : h.Listed cs where
  live b := (hl.live b).trans hperm.mem_iff
  nodup := hperm.nodup_iff.mp hl.nodup

/-- A buffer is allocated. -/
theorem alloc (hl : h.Listed bs) (n : ℕ) : ∃ b h', h.alloc n n = .ok (b, h') ∧
    h'.Listed (b :: bs) ∧ h'.Holds b n [] ∧ ∀ c ∈ bs, h'.block? c = h.block? c := by
  obtain ⟨b, h', halloc, hdead, hholds, hx⟩ := alloc_spec (h := h) (le_refl n)
  have hx := hx ∅ fun c hc => absurd hc (Set.notMem_empty c)
  have hnew : b ∉ bs := fun hb => hdead ((hl.live b).mpr hb)
  refine ⟨b, h', halloc, ⟨fun c => ?_, List.nodup_cons.mpr ⟨hnew, hl.nodup⟩⟩, hholds, ?_⟩
  · simp [hx.live, hl.live]
  · exact fun c hc => hx.frame c (Set.notMem_empty c) ((hl.live c).mpr hc)

/-- A new buffer is filled. -/
theorem fill (hl : h.Listed (b :: bs)) (hb : h.Holds b xs.length []) : ∃ h',
    h.fill b xs = .ok h' ∧ h'.Listed (b :: bs) ∧ h'.Full b xs ∧
      ∀ c ∈ bs, h'.block? c = h.block? c := by
  have hblock : h.block? b = some (List.replicate xs.length none) := by simpa using hb.2
  have hx : Exchange h (h.modify b fun cells => xs.map some ++ cells.drop xs.length) {b} {b} :=
    modify_exchange _ (Set.mem_singleton b) fun c hc => hc ▸ hb.live
  have hnew := (List.nodup_cons.mp hl.nodup).1
  refine ⟨h.modify b fun cells => xs.map some ++ cells.drop xs.length, ?_,
    ⟨fun c => ?_, hl.nodup⟩, ⟨le_rfl, ?_⟩, fun c hc => ?_⟩
  · rw [Heap.fill, hblock, deref_some, ok_bind, if_pos (by simp)]
    rfl
  · rw [hx.live, hl.live, List.mem_cons, Set.mem_singleton_iff]
    tauto
  · rw [block?_modify, if_pos rfl, hblock]
    simp
  · exact hx.frame c (ne_of_mem_of_not_mem hc hnew) ((hl.live c).mpr (List.mem_cons_of_mem b hc))

/-- A buffer is released with its size. -/
theorem free (hl : h.Listed (b :: bs)) (hb : h.Full b xs) : ∃ h', h.free b xs.length = .ok h' ∧
    h'.Listed bs ∧ ∀ c ∈ bs, h'.block? c = h.block? c := by
  obtain ⟨h', hdelete, hx⟩ := delete_spec hb.live
  have hx := hx {b} (Set.mem_singleton b) fun c hc => hc ▸ hb.live
  obtain ⟨hnew, hnodup⟩ := List.nodup_cons.mp hl.nodup
  have hblock : h.block? b = some (xs.map some) := by simpa using hb.2
  refine ⟨h', ?_, ⟨fun c => ?_, hnodup⟩, fun c hc => ?_⟩
  · rw [Heap.free, hblock, deref_some, ok_bind, if_pos (List.length_map ..)]
    exact hdelete
  · have hne : c ∈ bs → c ≠ b := fun hc => ne_of_mem_of_not_mem hc hnew
    rw [hx.live, hl.live, List.mem_cons, Set.mem_singleton_iff, Set.sdiff_self]
    simp only [Set.mem_empty_iff_false, false_or]
    tauto
  · exact hx.frame c (ne_of_mem_of_not_mem hc hnew) ((hl.live c).mpr (List.mem_cons_of_mem b hc))

end Listed

end Heap

end HyperRpc.Lib
