import HyperRpc.Model.SessionManager

/-!
# Ids and slots

The id counter is a ring counter of width 48 whose high part is the core part, and a slot
index is the id modulo the pool size. `allocLoop_spec` describes the probing loop: it stops
at the first free slot after the counter (`FirstFree`) or burns one id for every slot.
-/
namespace HyperRpc

open Lib

namespace SessionManager

variable (m : SessionManager)

theorem drawRpcId_nextRpcId_toNat :
    m.drawRpcId.nextRpcId.toNat = ringNext kRpcIdSeqPartBits m.nextRpcId.toNat :=
  wordNext_toNat (b := 48) (by norm_num) m.nextRpcId

/-- The manager after `n` more ids have been drawn. -/
def advance (n : ℕ) : SessionManager := drawRpcId^[n] m

@[simp] theorem advance_zero : m.advance 0 = m := rfl

theorem advance_succ (n : ℕ) : m.advance (n + 1) = m.drawRpcId.advance n := rfl

@[simp] theorem advance_advance (n k : ℕ) : (m.advance n).advance k = m.advance (n + k) := by
  rw [advance, advance, advance, Nat.add_comm, Function.iterate_add_apply]

/-- Drawing ids touches the counter only. -/
theorem advance_frame (n : ℕ) :
    (m.advance n).sessPool = m.sessPool ∧ (m.advance n).poolSizeOrder = m.poolSizeOrder ∧
      (m.advance n).poolSizeMask = m.poolSizeMask ∧ (m.advance n).drawn = m.drawn + n := by
  induction n generalizing m with
  | zero => simp
  | succ n ih =>
    obtain ⟨hpool, horder, hmask, hdrawn⟩ := ih m.drawRpcId
    rw [advance_succ]
    refine ⟨hpool, horder, hmask, ?_⟩
    rw [hdrawn]
    change m.drawn + 1 + n = _
    omega

@[simp] theorem advance_sessPool (n : ℕ) : (m.advance n).sessPool = m.sessPool :=
  (m.advance_frame n).1

@[simp] theorem advance_poolSizeOrder (n : ℕ) :
    (m.advance n).poolSizeOrder = m.poolSizeOrder := (m.advance_frame n).2.1

@[simp] theorem advance_poolSizeMask (n : ℕ) :
    (m.advance n).poolSizeMask = m.poolSizeMask := (m.advance_frame n).2.2.1

@[simp] theorem advance_drawn (n : ℕ) : (m.advance n).drawn = m.drawn + n :=
  (m.advance_frame n).2.2.2

@[simp] theorem advance_slotOf (n : ℕ) (x : UInt64) : (m.advance n).slotOf x = m.slotOf x := by
  simp [slotOf]

theorem advance_nextRpcId_toNat (n : ℕ) :
    (m.advance n).nextRpcId.toNat = ringAt kRpcIdSeqPartBits m.nextRpcId.toNat n := by
  induction n with
  | zero => simp
  | succ n ih =>
    have hstep : m.advance (n + 1) = (m.advance n).drawRpcId := by
      rw [advance, advance, Function.iterate_succ_apply']
    rw [hstep, drawRpcId_nextRpcId_toNat, ih, ringNext_ringAt]

@[simp] theorem setNode_sessPool (i : ℕ) (node : SessionNode) :
    (m.setNode i node).sessPool = Function.update m.sessPool i node := rfl

/-- Some ids are drawn; the pool keeps its size. -/
def Draws (m' : SessionManager) : Prop :=
  ∃ n, m'.nextRpcId = (m.advance n).nextRpcId ∧ m'.drawn = m.drawn + n ∧
    m'.poolSizeOrder = m.poolSizeOrder ∧ m'.poolSizeMask = m.poolSizeMask

theorem Draws.refl : m.Draws m := ⟨0, rfl, rfl, rfl, rfl⟩

/-! ## The probing loop -/

/-- The slot tried after `j` occupied ones. -/
def probe (j : ℕ) : ℕ := m.slotOf (m.advance (j + 1)).nextRpcId

/-- `i` is the first free slot after the counter, found at the `j`-th probe. -/
structure FirstFree (j i : ℕ) : Prop where
  within : j < 2 ^ m.poolSizeOrder
  slot : m.probe j = i
  free : (m.sessPool i).rpcId = 0
  occupied : ∀ j' < j, (m.sessPool (m.probe j')).rpcId ≠ 0

theorem allocLoop_spec (n : ℕ) :
    (∃ j < n, (m.sessPool (m.probe j)).rpcId = 0 ∧
        (∀ j' < j, (m.sessPool (m.probe j')).rpcId ≠ 0) ∧
        allocLoop n m = ((m.advance (j + 1)).setNode (m.probe j)
          { m.sessPool (m.probe j) with rpcId := (m.advance (j + 1)).nextRpcId },
          some (m.probe j))) ∨
      ((∀ j < n, (m.sessPool (m.probe j)).rpcId ≠ 0) ∧ allocLoop n m = (m.advance n, none)) := by
  induction n generalizing m with
  | zero => exact Or.inr ⟨fun j hj => absurd hj (Nat.not_lt_zero j), rfl⟩
  | succ n ih =>
    by_cases hfree : (m.sessPool (m.probe 0)).rpcId = 0
    · refine Or.inl ⟨0, Nat.succ_pos n, hfree, fun j hj => absurd hj (Nat.not_lt_zero j), ?_⟩
      rw [allocLoop]
      exact if_pos hfree
    · have hloop : allocLoop (n + 1) m = allocLoop n m.drawRpcId := by
        rw [allocLoop]
        exact if_neg hfree
      rw [hloop]
      rcases ih m.drawRpcId with ⟨j, hj, hj0, hocc, heq⟩ | ⟨hocc, heq⟩
      · refine Or.inl ⟨j + 1, by omega, hj0, ?_, heq⟩
        intro j' hj'
        cases j' with
        | zero => exact hfree
        | succ j' => exact hocc j' (by omega)
      · refine Or.inr ⟨?_, heq⟩
        intro j hj
        cases j with
        | zero => exact hfree
        | succ j => exact hocc j (by omega)

/-- `AllocSessionNode` takes the first free slot after the counter, or answers null after
one id for each slot of a full pool. -/
theorem allocSessionNode_cases :
    (∃ j i, m.FirstFree j i ∧ m.allocSessionNode = ((m.advance (j + 1)).setNode i
        { m.sessPool i with rpcId := (m.advance (j + 1)).nextRpcId }, some i)) ∨
      ((∀ j < 2 ^ m.poolSizeOrder, (m.sessPool (m.probe j)).rpcId ≠ 0) ∧
        m.allocSessionNode = (m.advance (2 ^ m.poolSizeOrder), none)) := by
  rcases m.allocLoop_spec (2 ^ m.poolSizeOrder) with ⟨j, hj, hj0, hocc, heq⟩ | h
  · exact Or.inl ⟨j, m.probe j, ⟨hj, rfl, hj0, hocc⟩, heq⟩
  · exact Or.inr h

theorem findSessionNode_eq_some {x : UInt64} {i : ℕ} :
    m.findSessionNode x = some i ↔ i = m.slotOf x ∧ (m.sessPool i).rpcId = x := by
  unfold findSessionNode
  dsimp only
  split_ifs with h
  · simp only [Option.some.injEq]
    constructor
    · rintro rfl; exact ⟨rfl, h⟩
    · rintro ⟨rfl, _⟩; rfl
  · simp only [false_iff]
    rintro ⟨rfl, hx⟩
    exact h hx

theorem findSessionNode_eq_none {x : UInt64} :
    m.findSessionNode x = none ↔ (m.sessPool (m.slotOf x)).rpcId ≠ x := by
  unfold findSessionNode
  dsimp only
  split_ifs with h <;> simp [h]

/-! ## Managers as `Init` makes them -/

/-- Order and mask of a pool of `2 ^ k` slots, `k ≤ 48`. -/
structure Sized : Prop where
  order_le : m.poolSizeOrder ≤ kRpcIdSeqPartBits
  mask_eq : m.poolSizeMask = lowMask m.poolSizeOrder

variable {m}

theorem Sized.slotOf_eq (h : m.Sized) (x : UInt64) :
    m.slotOf x = x.toNat % 2 ^ m.poolSizeOrder := by
  have hlt : m.poolSizeOrder < 64 := lt_of_le_of_lt h.order_le (by decide)
  rw [slotOf, h.mask_eq, and_lowMask_toNat hlt]

/-- Every index `FindSessionNode` and `AllocSessionNode` form lies inside the pool. -/
theorem Sized.slotOf_lt (h : m.Sized) (x : UInt64) : m.slotOf x < 2 ^ m.poolSizeOrder := by
  rw [h.slotOf_eq]
  exact Nat.mod_lt _ (by positivity)

theorem poolSizeOrderLoop_some {size : UInt64} {fuel order result : ℕ}
    (h : poolSizeOrderLoop size fuel order = some result) :
    order ≤ result ∧ ∀ o, order ≤ o → o < result → (1 : UInt64) <<< UInt64.ofNat o < size := by
  induction fuel generalizing order with
  | zero => simp [poolSizeOrderLoop] at h
  | succ fuel ih =>
    rw [poolSizeOrderLoop] at h
    split_ifs at h with hlt
    · obtain ⟨hle, hall⟩ := ih h
      refine ⟨by omega, fun o ho ho' => ?_⟩
      by_cases heq : o = order
      · exact heq ▸ hlt
      · exact hall o (by omega) ho'
    · obtain rfl : order = result := Option.some.inj h
      exact ⟨le_rfl, fun o ho ho' => absurd ho' (by omega)⟩

/-- A pool of at most `2 ^ 48` slots is sized consistently. -/
theorem sized_of_init {size core : UInt64} {rand : UInt32} {memory : ℕ → SessionNode}
    (h : init size core rand memory = some m) (hsize : size.toNat ≤ 2 ^ 48) : m.Sized := by
  obtain ⟨order, hloop, rfl⟩ := Option.map_eq_some_iff.mp h
  have hle : order ≤ 48 := by
    by_contra hgt
    have hshift := (poolSizeOrderLoop_some hloop).2 48 (by omega) (by omega)
    rw [UInt64.lt_iff_toNat_lt] at hshift
    have h48 : ((1 : UInt64) <<< UInt64.ofNat 48).toNat = 2 ^ 48 := by decide
    omega
  exact ⟨Nat.min_le_right _ _, by
    change (1 : UInt64) <<< UInt64.ofNat order - 1 = lowMask (min order 48)
    rw [Nat.min_eq_left hle, lowMask]⟩

/-- After `Init` every slot is empty and no id has been drawn. -/
theorem init_fresh {size core : UInt64} {rand : UInt32} {memory : ℕ → SessionNode}
    (h : init size core rand memory = some m) :
    m.drawn = 0 ∧ ∀ i, (m.sessPool i).rpcId = 0 ∧ (m.sessPool i).done = none ∧
      (m.sessPool i).hasTimer = false := by
  obtain ⟨order, -, rfl⟩ := Option.map_eq_some_iff.mp h
  exact ⟨rfl, fun i => ⟨rfl, rfl, rfl⟩⟩

/-- The core part of the counter is the core id plus one, as 16 bits. -/
theorem init_nextRpcId_div {size core : UInt64} {rand : UInt32} {memory : ℕ → SessionNode}
    (h : init size core rand memory = some m) :
    m.nextRpcId.toNat / 2 ^ kRpcIdSeqPartBits = (core.toNat + 1) % 2 ^ 16 := by
  obtain ⟨order, -, rfl⟩ := Option.map_eq_some_iff.mp h
  have hcore : ((core + 1) <<< (48 : UInt64)).toNat = (core.toNat + 1) % 2 ^ 16 * 2 ^ 48 := by
    have h48 : (48 : UInt64).toNat % 64 = 48 := by decide
    rw [UInt64.toNat_shiftLeft, UInt64.toNat_add, UInt64.toNat_one, Nat.shiftLeft_eq, h48]
    omega
  have hrand : (rand.toUInt64 <<< (16 : UInt64)).toNat = rand.toNat * 2 ^ 16 := by
    have hlt := rand.toNat_lt
    have h16 : (16 : UInt64).toNat % 64 = 16 := by decide
    rw [UInt64.toNat_shiftLeft, UInt32.toNat_toUInt64, Nat.shiftLeft_eq, h16]
    omega
  have hlt := rand.toNat_lt
  change (((core + 1) <<< (48 : UInt64)) + (rand.toUInt64 <<< (16 : UInt64))).toNat / 2 ^ 48 = _
  rw [UInt64.toNat_add, hcore, hrand]
  omega

end SessionManager

end HyperRpc
