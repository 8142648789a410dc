import HyperRpc.Lib.Refinement
import Mathlib.Data.Set.Insert
import Mathlib.Logic.Equiv.Basic
import Mathlib.Logic.Function.Basic
import Mathlib.Tactic

/-!
# Blocks of cells, their use and their ownership

A heap of blocks that are allocated, written, copied into one another and released by hand.
Every access outside a live block is an error, as is the release of a block that is not live.
`Exchange` says what an operation does to the blocks: it starts with the right to a set of
them, ends with the right to another set, and leaves all others as they are. `Owned` says that
every live block belongs to exactly one owner; its rules carry it over an exchange of what one
owner has, and over the hand-over of everything from one owner to another.
-/
namespace HyperRpc.Lib

/-- How an operation on a heap fails. -/
inductive HeapError
  | outOfMemory
  | invalid
  deriving DecidableEq, Repr

/-- The value of a pointer that is not null, or of a cell that has been written. -/
def deref {β : Type*} : Option β → Except HeapError β
  | some b => .ok b
  | none => .error .invalid

@[simp] theorem deref_some {β : Type*} (b : β) : deref (some b) = .ok b := rfl

theorem deref_eq_ok {β : Type*} {o : Option β} {b : β} : deref o = .ok b ↔ o = some b := by
  cases o <;> simp [deref]

/-- Blocks are numbered as they are allocated. The entry of a released block is `none`, as is a
cell that has not been written. -/
structure Heap (α : Type*) where
  blocks : List (Option (List (Option α)))
  released : List ℕ
  released_once : ∀ b, blocks[b]? = some none → released.count b = 1
  not_released : ∀ b, blocks[b]? ≠ some none → b ∉ released

namespace Heap

variable {α : Type*}

def empty : Heap α := ⟨[], [], by simp, by simp⟩

variable (h : Heap α)

/-- The cells of a live block. -/
def block? (b : ℕ) : Option (List (Option α)) := h.blocks[b]?.join

def Live (b : ℕ) : Prop := (h.block? b).isSome

instance (b : ℕ) : Decidable (h.Live b) := inferInstanceAs (Decidable (_ = true))

theorem getElem?_of_live {h : Heap α} {b : ℕ} (hb : h.Live b) :
    ∃ cells, h.blocks[b]? = some (some cells) ∧ h.block? b = some cells := by
  obtain ⟨cells, hcells⟩ := Option.isSome_iff_exists.mp hb
  exact ⟨cells, Option.join_eq_some_iff.mp hcells, hcells⟩

/-- A block that has been allocated is live, or it has been released once. -/
theorem live_or_released {b : ℕ} (hb : b < h.blocks.length) :
    h.Live b ∧ h.released.count b = 0 ∨ ¬ h.Live b ∧ h.released.count b = 1 := by
  have hget := List.getElem?_eq_getElem hb
  rw [Live, block?, hget]
  cases hcells : h.blocks[b] with
  | none => exact .inr ⟨by simp, h.released_once b (hget.trans (congrArg some hcells))⟩
  | some cells =>
    refine .inl ⟨rfl, List.count_eq_zero.mpr (h.not_released b ?_)⟩
    rw [hget, hcells]
    simp

theorem released_alloc_iff (b n : ℕ) :
    (h.blocks ++ [some (List.replicate n none)])[b]? = some none ↔ h.blocks[b]? = some none := by
  rw [List.getElem?_append]
  split_ifs with hlt
  · rfl
  · rw [List.getElem?_eq_none (Nat.le_of_not_lt hlt), List.getElem?_singleton]
    split_ifs <;> simp

/-- `new T[n]`, where arrays of more than `limit` elements are refused. -/
def alloc (limit n : ℕ) : Except HeapError (ℕ × Heap α) :=
  if n ≤ limit then
    .ok (h.blocks.length,
      { h with
        blocks := h.blocks ++ [some (List.replicate n none)]
        released_once := fun b hb => h.released_once b ((h.released_alloc_iff b n).mp hb)
        not_released := fun b hb =>
          h.not_released b ((h.released_alloc_iff b n).not.mp hb) })
  else .error .outOfMemory

theorem released_once_of_delete {b : ℕ} (hb : h.Live b) (b' : ℕ)
    (hb' : (h.blocks.set b none)[b']? = some none) : (b :: h.released).count b' = 1 := by
  by_cases heq : b = b'
  · subst heq
    obtain ⟨cells, hcells, -⟩ := getElem?_of_live hb
    have hnot : b ∉ h.released := h.not_released b (by simp [hcells])
    rw [List.count_cons_self, List.count_eq_zero.mpr hnot]
  · rw [List.getElem?_set_ne heq] at hb'
    rw [List.count_cons_of_ne heq, h.released_once b' hb']

theorem not_released_of_delete {b : ℕ} (hb : h.Live b) (b' : ℕ)
    (hb' : (h.blocks.set b none)[b']? ≠ some none) : b' ∉ b :: h.released := by
  by_cases heq : b = b'
  · subst heq
    obtain ⟨cells, hcells, -⟩ := getElem?_of_live hb
    exact absurd (List.getElem?_set_self (List.getElem?_eq_some_iff.mp hcells).1) hb'
  · rw [List.getElem?_set_ne heq] at hb'
    rw [List.mem_cons, not_or]
    exact ⟨Ne.symm heq, h.not_released b' hb'⟩

/-- `delete[]`. -/
def delete (b : ℕ) : Except HeapError (Heap α) :=
  if hb : h.Live b then
    .ok
      { blocks := h.blocks.set b none
        released := b :: h.released
        released_once := h.released_once_of_delete hb
        not_released := h.not_released_of_delete hb }
  else .error .invalid

theorem released_modify_iff (b b' : ℕ) (f : List (Option α) → List (Option α)) :
    (h.blocks.modify b (Option.map f))[b']? = some none ↔ h.blocks[b']? = some none := by
  rw [List.getElem?_modify, Option.map_eq_map, Option.map_eq_some_iff]
  split_ifs <;> simp

/-- Changes the cells of a block if it is live. -/
def modify (b : ℕ) (f : List (Option α) → List (Option α)) : Heap α :=
  { h with
    blocks := h.blocks.modify b (Option.map f)
    released_once := fun b' hb' => h.released_once b' ((h.released_modify_iff b b' f).mp hb')
    not_released := fun b' hb' =>
      h.not_released b' ((h.released_modify_iff b b' f).not.mp hb') }

def read (b i : ℕ) : Except HeapError α := do
  let cells ← deref (h.block? b)
  let cell ← deref cells[i]?
  deref cell

def write (b i : ℕ) (a : α) : Except HeapError (Heap α) := do
  let cells ← deref (h.block? b)
  if i < cells.length then return h.modify b fun cells => cells.set i (some a)
  else .error .invalid

/-- `memcpy` of the first `n` elements between two blocks. -/
def memcpy (dst src n : ℕ) : Except HeapError (Heap α) := do
  let dstCells ← deref (h.block? dst)
  let srcCells ← deref (h.block? src)
  if dst ≠ src ∧ n ≤ dstCells.length ∧ n ≤ srcCells.length then
    return h.modify dst fun cells => srcCells.take n ++ cells.drop n
  else .error .invalid

/-! ## What has been released -/

variable {h}

theorem count_released_of_delete {b : ℕ} {h' : Heap α} (hdelete : h.delete b = .ok h') :
    h'.released.count b = 1 := by
  unfold delete at hdelete
  split_ifs at hdelete with hb
  cases hdelete
  obtain ⟨cells, hcells, -⟩ := getElem?_of_live hb
  apply h.released_once_of_delete hb
  exact List.getElem?_set_self (List.getElem?_eq_some_iff.mp hcells).1

theorem released_of_alloc {limit n b : ℕ} {h' : Heap α} (halloc : h.alloc limit n = .ok (b, h')) :
    h'.released = h.released := by
  unfold alloc at halloc
  split_ifs at halloc
  cases halloc
  rfl

theorem released_of_memcpy {dst src n : ℕ} {h' : Heap α}
    (hmemcpy : h.memcpy dst src n = .ok h') : h'.released = h.released := by
  obtain ⟨dstCells, -, hmemcpy⟩ := bind_eq_ok.mp hmemcpy
  obtain ⟨srcCells, -, hmemcpy⟩ := bind_eq_ok.mp hmemcpy
  split_ifs at hmemcpy
  cases hmemcpy
  rfl

/-! ## What the blocks hold -/

theorem block?_modify (b b' : ℕ) (f : List (Option α) → List (Option α)) :
    (h.modify b f).block? b' = if b = b' then (h.block? b').map f else h.block? b' := by
  simp only [block?, modify, List.getElem?_modify]
  rcases h.blocks[b']? with _ | _ | cells <;> split_ifs <;> rfl

/-- A live block of `n` cells, the first of which hold `xs` and the others nothing yet. -/
def Holds (h : Heap α) (b n : ℕ) (xs : List α) : Prop :=
  xs.length ≤ n ∧ h.block? b = some (xs.map some ++ List.replicate (n - xs.length) none)

theorem Holds.live {b n : ℕ} {xs : List α} (hb : h.Holds b n xs) : h.Live b := by
  rw [Live, hb.2]
  rfl

theorem Holds.congr {h' : Heap α} {b n : ℕ} {xs : List α} (hb : h.Holds b n xs)
    (heq : h'.block? b = h.block? b) : h'.Holds b n xs := ⟨hb.1, heq.trans hb.2⟩

/-! ## Exchanges -/

/-- What an operation with the right to the blocks of `s` does when it ends with the right to
those of `t`: a block of `s` that is not in `t` has been released, one of `t` that is not in
`s` has been allocated, and all other live blocks are as they were. -/
structure Exchange (h h' : Heap α) (s t : Set ℕ) : Prop where
  frame : ∀ b ∉ s, h.Live b → h'.block? b = h.block? b
  live : ∀ b, h'.Live b ↔ b ∈ t ∨ h.Live b ∧ b ∉ s
  fresh : ∀ b ∈ t, b ∈ s ∨ ¬ h.Live b

theorem Exchange.trans {h₁ h₂ h₃ : Heap α} {s t u : Set ℕ} (h₁₂ : Exchange h₁ h₂ s t)
    (h₂₃ : Exchange h₂ h₃ t u) : Exchange h₁ h₃ s u where
  frame b hs hlive := by
    have ht : b ∉ t := fun ht => (h₁₂.fresh b ht).elim hs fun hdead => hdead hlive
    rw [h₂₃.frame b ht ((h₁₂.live b).mpr (.inr ⟨hlive, hs⟩)), h₁₂.frame b hs hlive]
  live b := by
    have hfresh := h₁₂.fresh b
    rw [h₂₃.live, h₁₂.live]
    tauto
  fresh b hu := by
    have hfresh := h₁₂.fresh b
    have hlive := h₁₂.live b
    have := h₂₃.fresh b hu
    tauto

/-- An operation that only reads. -/
theorem Exchange.refl {s : Set ℕ} (hs : ∀ b ∈ s, h.Live b) : Exchange h h s s where
  frame _ _ _ := rfl
  live b := by
    have := hs b
    tauto
  fresh _ hb := .inl hb

/-- An operation without a right to any block. -/
theorem Exchange.refl_empty : Exchange h h ∅ ∅ :=
  Exchange.refl fun b hb => absurd hb (Set.notMem_empty b)

theorem modify_exchange {b : ℕ} (f : List (Option α) → List (Option α)) {s : Set ℕ} (hb : b ∈ s)
    (hs : ∀ b ∈ s, h.Live b) : Exchange h (h.modify b f) s s where
  frame b' hb' _ := by
    rw [block?_modify, if_neg (ne_of_mem_of_not_mem hb hb')]
  live b' := by
    have hsame : (h.modify b f).Live b' ↔ h.Live b' := by
      rw [Live, block?_modify]
      split_ifs <;> simp [Live]
    have := hs b'
    tauto
  fresh _ hb' := .inl hb'

/-! ## The operations -/

theorem block?_of_alloc {limit n b : ℕ} {h' : Heap α} (halloc : h.alloc limit n = .ok (b, h'))
    (b' : ℕ) : h'.block? b' = if b' = b then some (List.replicate n none) else h.block? b' := by
  unfold alloc at halloc
  split_ifs at halloc with hn
  cases halloc
  simp only [block?, List.getElem?_append, List.getElem?_singleton]
  split_ifs with hlt heq hsub <;> first | omega | rfl | skip
  rw [List.getElem?_eq_none (Nat.le_of_not_lt hlt)]

theorem alloc_spec {limit n : ℕ} (hn : n ≤ limit) :
    ∃ b h', h.alloc limit n = .ok (b, h') ∧ ¬ h.Live b ∧ h'.Holds b n [] ∧
      ∀ s : Set ℕ, (∀ b ∈ s, h.Live b) → Exchange h h' s (insert b s) := by
  obtain ⟨b, h', halloc⟩ : ∃ b h', h.alloc limit n = .ok (b, h') := ⟨_, _, if_pos hn⟩
  have hblock := block?_of_alloc halloc
  have hdead : ¬ h.Live b := by
    unfold alloc at halloc
    rw [if_pos hn] at halloc
    cases halloc
    simp [Live, block?]
  refine ⟨b, h', halloc, hdead, ⟨Nat.zero_le n, by simp [hblock]⟩, fun s hs => ⟨?_, ?_, ?_⟩⟩
  · intro b' _ hlive
    have hne : b' ≠ b := by rintro rfl; exact hdead hlive
    rw [hblock, if_neg hne]
  · intro b'
    have hsb := hs b'
    by_cases heq : b' = b
    · simp [Live, hblock, heq]
    · have hsame : h'.Live b' ↔ h.Live b' := by rw [Live, hblock, if_neg heq, Live]
      rw [hsame, Set.mem_insert_iff]
      tauto
  · rintro b' (rfl | hb')
    · exact .inr hdead
    · exact .inl hb'

theorem delete_spec {b : ℕ} (hb : h.Live b) :
    ∃ h', h.delete b = .ok h' ∧ ∀ s, b ∈ s → (∀ b ∈ s, h.Live b) →
      Exchange h h' s (s \ {b}) := by
  obtain ⟨h', hdelete⟩ : ∃ h', h.delete b = .ok h' := ⟨_, dif_pos hb⟩
  have hblock : ∀ b', h'.block? b' = if b' = b then none else h.block? b' := by
    unfold delete at hdelete
    rw [dif_pos hb] at hdelete
    cases hdelete
    intro b'
    by_cases heq : b' = b
    · rw [if_pos heq, heq, block?, List.getElem?_set_self']
      cases h.blocks[b]? <;> rfl
    · rw [if_neg heq, block?, List.getElem?_set_ne (Ne.symm heq), block?]
  refine ⟨h', hdelete, fun s hbs hs => ⟨?_, ?_, ?_⟩⟩
  · intro b' hb' _
    rw [hblock, if_neg (ne_of_mem_of_not_mem hbs hb').symm]
  · intro b'
    have hsb := hs b'
    by_cases heq : b' = b
    · simp [Live, hblock, heq, hbs]
    · have hsame : h'.Live b' ↔ h.Live b' := by rw [Live, hblock, if_neg heq, Live]
      rw [hsame, Set.mem_sdiff, Set.mem_singleton_iff]
      tauto
  · exact fun b' hb' => .inl hb'.1

theorem read_spec {b n i : ℕ} {xs : List α} (hb : h.Holds b n xs) (hi : i < xs.length) :
    h.read b i = .ok xs[i] := by
  have hcell : (xs.map some ++ List.replicate (n - xs.length) none)[i]? = some (some xs[i]) := by
    rw [List.getElem?_append_left (by simpa using hi), List.getElem?_map,
      List.getElem?_eq_getElem hi, Option.map_some]
  rw [read, hb.2]
  simp only [deref_some, ok_bind, hcell]

theorem write_spec {b n : ℕ} {xs : List α} (hb : h.Holds b n xs) (hlt : xs.length < n) (a : α) :
    ∃ h', h.write b xs.length a = .ok h' ∧ h'.Holds b n (xs ++ [a]) ∧
      ∀ s, b ∈ s → (∀ b ∈ s, h.Live b) → Exchange h h' s s := by
  refine ⟨h.modify b fun cells => cells.set xs.length (some a), ?_, ⟨?_, ?_⟩,
    fun s => modify_exchange _⟩
  · rw [write, hb.2]
    exact if_pos (by simp; omega)
  · rw [List.length_append]
    exact hlt
  · rw [block?_modify, if_pos rfl, hb.2]
    obtain ⟨k, rfl⟩ : ∃ k, n = xs.length + (k + 1) := ⟨n - xs.length - 1, by omega⟩
    simp [List.replicate_succ]
    omega

theorem memcpy_spec {dst src m n : ℕ} {xs : List α} (hdst : h.Holds dst m [])
    (hsrc : h.Holds src n xs) (hne : dst ≠ src) (hle : xs.length ≤ m) :
    ∃ h', h.memcpy dst src xs.length = .ok h' ∧ h'.Holds dst m xs ∧
      ∀ s, dst ∈ s → (∀ b ∈ s, h.Live b) → Exchange h h' s s := by
  refine ⟨h.modify dst fun cells => (xs.map some ++ List.replicate (n - xs.length) none).take
    xs.length ++ cells.drop xs.length, ?_, ⟨hle, ?_⟩, fun s => modify_exchange _⟩
  · rw [memcpy, hdst.2, hsrc.2]
    exact if_pos ⟨hne, by simpa using hle, by simp⟩
  · rw [block?_modify, if_pos rfl, hdst.2]
    simp

/-- A new block is filled with what another one holds. -/
theorem copy_spec {src limit m n : ℕ} {xs : List α} (hsrc : h.Holds src n xs)
    (hle : xs.length ≤ m) (hm : m ≤ limit) :
    ∃ dst h₁ h₂, h.alloc limit m = .ok (dst, h₁) ∧ h₁.memcpy dst src xs.length = .ok h₂ ∧
      dst ≠ src ∧ h₂.Holds dst m xs ∧
      ∀ s : Set ℕ, (∀ b ∈ s, h.Live b) → Exchange h h₂ s (insert dst s) := by
  obtain ⟨dst, h₁, halloc, hdead, hdst, hx₁⟩ := alloc_spec (h := h) hm
  have hne : dst ≠ src := by rintro rfl; exact hdead hsrc.live
  have hsrc₁ : h₁.Holds src n xs :=
    hsrc.congr ((hx₁ ∅ (by simp)).frame src (Set.notMem_empty src) hsrc.live)
  obtain ⟨h₂, hmemcpy, hdst₂, hx₂⟩ := memcpy_spec hdst hsrc₁ hne hle
  refine ⟨dst, h₁, h₂, halloc, hmemcpy, hne, hdst₂, fun s hs => ?_⟩
  have hlive : ∀ b ∈ insert dst s, h₁.Live b := fun b hb => ((hx₁ s hs).live b).mpr (.inl hb)
  exact (hx₁ s hs).trans (hx₂ _ (Set.mem_insert dst s) hlive)

/-- A block is replaced by a larger one with the same contents. -/
theorem replace_spec {old limit m n : ℕ} {xs : List α} (hold : h.Holds old n xs)
    (hle : xs.length ≤ m) (hm : m ≤ limit) :
    ∃ new h₁ h₂ h₃, h.alloc limit m = .ok (new, h₁) ∧ h₁.memcpy new old xs.length = .ok h₂ ∧
      h₂.delete old = .ok h₃ ∧ h₃.Holds new m xs ∧ Exchange h h₃ {old} {new} := by
  obtain ⟨new, h₁, h₂, halloc, hmemcpy, hne, hnew, hx₂⟩ := copy_spec hold hle hm
  have hlive : ∀ b ∈ ({old} : Set ℕ), h.Live b := by rintro b rfl; exact hold.live
  have hx₂ := hx₂ {old} hlive
  have hlive₂ : ∀ b ∈ ({new, old} : Set ℕ), h₂.Live b := fun b hb => (hx₂.live b).mpr (.inl hb)
  have hold₂ : h₂.Live old := hlive₂ old (by simp)
  obtain ⟨h₃, hdelete, hx₃⟩ := delete_spec hold₂
  have hkept : h₃.block? new = h₂.block? new :=
    (hx₃ {old} rfl (by rintro b rfl; exact hold₂)).frame new hne hnew.live
  refine ⟨new, h₁, h₂, h₃, halloc, hmemcpy, hdelete, hnew.congr hkept, ?_⟩
  rw [← Set.insert_sdiff_eq_singleton (s := {old}) hne]
  exact hx₂.trans (hx₃ _ (by simp) hlive₂)

/-! ## Ownership -/

variable {ι : Type*} {owns : ι → Set ℕ}

/-- Every live block has one owner, and nobody owns anything else. -/
structure Owned (h : Heap α) (owns : ι → Set ℕ) : Prop where
  live : ∀ b, h.Live b ↔ ∃ i, b ∈ owns i
  unique : ∀ i j b, b ∈ owns i → b ∈ owns j → i = j

theorem Owned.live_of_mem (ho : h.Owned owns) {i : ι} : ∀ b ∈ owns i, h.Live b :=
  fun b hb => (ho.live b).mpr ⟨i, hb⟩

/-- The blocks of the others are not affected by an exchange of what one owner has. -/
theorem Owned.frame (ho : h.Owned owns) {h' : Heap α} {i j : ι} {t : Set ℕ}
    (hx : Exchange h h' (owns i) t) (hij : j ≠ i) :
    ∀ b ∈ owns j, h'.block? b = h.block? b :=
  fun b hb => hx.frame b (fun hi => hij (ho.unique j i b hb hi)) (ho.live_of_mem b hb)

variable [DecidableEq ι]

theorem Owned.exchange (ho : h.Owned owns) {h' : Heap α} {i : ι} {t : Set ℕ}
    (hx : Exchange h h' (owns i) t) : h'.Owned (Function.update owns i t) where
  live b := by
    rw [hx.live, ho.live]
    constructor
    · rintro (hb | ⟨⟨j, hj⟩, hb⟩)
      · exact ⟨i, by rwa [Function.update_self]⟩
      · have hji : j ≠ i := by rintro rfl; exact hb hj
        exact ⟨j, by rwa [Function.update_of_ne hji]⟩
    · rintro ⟨j, hj⟩
      by_cases hij : j = i
      · subst hij
        rw [Function.update_self] at hj
        exact .inl hj
      · rw [Function.update_of_ne hij] at hj
        exact .inr ⟨⟨j, hj⟩, fun hi => hij (ho.unique j i b hj hi)⟩
  unique := by
    have hother : ∀ j b, b ∈ t → j ≠ i → b ∉ owns j := fun j b hb hj hmem =>
      (hx.fresh b hb).elim (fun hi => hj (ho.unique j i b hmem hi))
        fun hdead => hdead (ho.live_of_mem b hmem)
    intro j k b hj hk
    rw [Function.update_apply] at hj hk
    split_ifs at hj hk with hji hki hki
    · rw [hji, hki]
    · exact absurd hk (hother k b hj hki)
    · exact absurd hj (hother j b hk hji)
    · exact ho.unique j k b hj hk

/-- An owner without blocks takes over all of another's. -/
theorem Owned.handOver (ho : h.Owned owns) {i j : ι} (hi : owns i = ∅) :
    h.Owned (Function.update (Function.update owns i (owns j)) j ∅) := by
  rw [← hi, ← Equiv.comp_swap_eq_update]
  refine ⟨fun b => ?_, fun k l b hk hl => (Equiv.swap j i).injective (ho.unique _ _ b hk hl)⟩
  rw [ho.live]
  exact ((Equiv.swap j i).exists_congr_right (q := fun k => b ∈ owns k)).symm

end Heap

end HyperRpc.Lib
