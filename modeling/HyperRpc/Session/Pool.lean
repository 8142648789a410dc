import HyperRpc.Session.Accounting

/-!
# The session pool

Allocation finds a free slot exactly when there is one: the ids drawn by one call of
`AllocSessionNode` visit the slots one after the other, each slot once, also where the sequence
part of the counter wraps.
-/
namespace HyperRpc

open Lib

namespace SessionManager

variable {m m' : SessionManager} {i j : ℕ}

theorem Sized.probe_eq (h : m.Sized) (j : ℕ) : m.probe j =
    ringAt kRpcIdSeqPartBits m.nextRpcId.toNat (j + 1) % 2 ^ m.poolSizeOrder := by
  rw [probe, h.slotOf_eq, advance_nextRpcId_toNat]

/-- The slot probed next is the one after, cyclically. -/
theorem Sized.probe_succ (h : m.Sized) (j : ℕ) :
    m.probe (j + 1) = (m.probe j + 1) % 2 ^ m.poolSizeOrder := by
  rw [h.probe_eq, h.probe_eq, ringAt_mod_low h.order_le, ringAt_mod_low h.order_le,
    Nat.mod_add_mod]
  congr 1

theorem Sized.existsUnique_probe (h : m.Sized) (hi : i < 2 ^ m.poolSizeOrder) :
    ∃! j, j < 2 ^ m.poolSizeOrder ∧ m.probe j = i := by
  simp only [h.probe_eq]
  exact existsUnique_ringAt_mod h.order_le _ hi

theorem Sized.allocSessionNode_eq_none (h : m.Sized) : m.allocSessionNode.2 = none ↔
    ∀ i < 2 ^ m.poolSizeOrder, (m.sessPool i).rpcId ≠ 0 := by
  constructor
  · intro hnone i hi
    obtain ⟨j, ⟨hj, rfl⟩, -⟩ := h.existsUnique_probe hi
    rcases m.allocSessionNode_cases with ⟨_, _, _, heq⟩ | ⟨hocc, -⟩
    · rw [heq] at hnone
      cases hnone
    · exact hocc j hj
  · intro hocc
    rcases m.allocSessionNode_cases with ⟨j, i, hfree, -⟩ | ⟨-, heq⟩
    · have hi : i < 2 ^ m.poolSizeOrder := hfree.slot ▸ h.slotOf_lt _
      exact absurd hfree.free (hocc i hi)
    · rw [heq]

/-- The slot `i` has been taken under the id just drawn, which leads back to it. -/
structure TakesSlot (m m' : SessionManager) (i : ℕ) : Prop where
  node : m'.sessPool i = { m.sessPool i with rpcId := m'.nextRpcId }
  others : ∀ k ≠ i, m'.sessPool k = m.sessPool k
  nonzero : m'.nextRpcId ≠ 0
  corePart : m'.nextRpcId.toNat / 2 ^ kRpcIdSeqPartBits =
    m.nextRpcId.toNat / 2 ^ kRpcIdSeqPartBits
  slot : m'.slotOf m'.nextRpcId = i
  finds : m'.findSessionNode m'.nextRpcId = some i

theorem FirstFree.takesSlot (h : m.FirstFree j i)
    (hcore : m.nextRpcId.toNat / 2 ^ kRpcIdSeqPartBits ≠ 0) :
    m.TakesSlot ((m.advance (j + 1)).setNode i
      { m.sessPool i with rpcId := (m.advance (j + 1)).nextRpcId }) i := by
  have hring := m.advance_nextRpcId_toNat (j + 1)
  have hslot : m.slotOf (m.advance (j + 1)).nextRpcId = i := h.slot
  constructor
  · simp [setNode]
  · intro k hk
    simp [Function.update_of_ne hk]
  · intro h0
    have h0' : (m.advance (j + 1)).nextRpcId = 0 := h0
    rw [h0', UInt64.toNat_zero] at hring
    exact ringAt_ne_zero hcore hring.symm
  · show (m.advance (j + 1)).nextRpcId.toNat / _ = _
    rw [hring, ringAt_div]
  · show (m.advance (j + 1)).slotOf (m.advance (j + 1)).nextRpcId = i
    rw [advance_slotOf, hslot]
  · rw [findSessionNode_eq_some]
    refine ⟨?_, by simp [setNode]⟩
    show i = (m.advance (j + 1)).slotOf (m.advance (j + 1)).nextRpcId
    rw [advance_slotOf, hslot]

/-- `AllocSessionNode` visits the slots in cyclic order, each once, takes the first free one and
fails exactly if there is none. A failure leaves the slots as they are and the counter where it
was in the pool. -/
structure AllocatesExactly (m : SessionManager) : Prop where
  cyclic : ∀ j, m.probe (j + 1) = (m.probe j + 1) % 2 ^ m.poolSizeOrder
  once : ∀ i < 2 ^ m.poolSizeOrder, ∃! j, j < 2 ^ m.poolSizeOrder ∧ m.probe j = i
  full : m.allocSessionNode.2 = none ↔ ∀ i < 2 ^ m.poolSizeOrder, (m.sessPool i).rpcId ≠ 0
  found : ∀ m' i, m.allocSessionNode = (m', some i) →
    (∃ j, m.FirstFree j i ∧ m'.drawn = m.drawn + (j + 1)) ∧ m.TakesSlot m' i
  failed : ∀ m', m.allocSessionNode = (m', none) → m'.sessPool = m.sessPool ∧
    m'.drawn = m.drawn + 2 ^ m.poolSizeOrder ∧
      m'.nextRpcId.toNat % 2 ^ m.poolSizeOrder = m.nextRpcId.toNat % 2 ^ m.poolSizeOrder

/-- Allocation is exact for every pool of `2 ^ k` slots, whatever its slots hold and wherever
its counter stands, as long as the core part of the counter is not zero. -/
theorem allocates_exactly (h : m.Sized)
    (hcore : m.nextRpcId.toNat / 2 ^ kRpcIdSeqPartBits ≠ 0) : m.AllocatesExactly := by
  refine ⟨h.probe_succ, fun _ => h.existsUnique_probe, h.allocSessionNode_eq_none, ?_, ?_⟩
  · intro m' i halloc
    rcases m.allocSessionNode_cases with ⟨j, k, hfree, heq⟩ | ⟨-, heq⟩
    · cases halloc.symm.trans heq
      exact ⟨⟨j, hfree, m.advance_drawn (j + 1)⟩, hfree.takesSlot hcore⟩
    · cases halloc.symm.trans heq
  · intro m' halloc
    rcases m.allocSessionNode_cases with ⟨j, k, -, heq⟩ | ⟨-, heq⟩
    · cases halloc.symm.trans heq
    · cases halloc.symm.trans heq
      refine ⟨m.advance_sessPool _, m.advance_drawn _, ?_⟩
      rw [advance_nextRpcId_toNat, ringAt_mod_low h.order_le, Nat.add_mod_right]

/-- Four slots, of which 3 and 0 are taken; the second id to be drawn wraps to 0. -/
def wrappingManager : SessionManager where
  poolSizeOrder := 2
  poolSizeMask := 3
  sessPool := Function.update (Function.update (fun _ => blankNode) 0
    { blankNode with rpcId := 0x1000000000004 }) 3
    { blankNode with rpcId := 0x1000000000003 }
  nextRpcId := 0x1FFFFFFFFFFFE
  drawn := 0

/-- The probe goes past the taken slots 3 and 0, wrapping in between, and takes slot 1. -/
theorem allocates_exactly_wrapping : ∃ m', wrappingManager.AllocatesExactly ∧
    wrappingManager.allocSessionNode = (m', some 1) ∧ m'.drawn = 3 ∧
      m'.nextRpcId = 0x1000000000001 ∧ wrappingManager.TakesSlot m' 1 ∧
        m'.sessPool 0 = wrappingManager.sessPool 0 ∧
          m'.sessPool 3 = wrappingManager.sessPool 3 := by
  have hexact : wrappingManager.AllocatesExactly :=
    allocates_exactly ⟨by decide, by decide⟩ (by decide)
  obtain ⟨m', halloc⟩ : ∃ m', wrappingManager.allocSessionNode = (m', some 1) :=
    ⟨_, Prod.ext rfl (by decide +kernel)⟩
  have htakes := (hexact.found m' 1 halloc).2
  have hcounter : (wrappingManager.allocSessionNode.1.drawn,
      wrappingManager.allocSessionNode.1.nextRpcId) = (3, 0x1000000000001) := by decide +kernel
  rw [halloc] at hcounter
  obtain ⟨hdrawn, hnext⟩ := Prod.mk.inj hcounter
  exact ⟨m', hexact, halloc, hdrawn, hnext, htakes, htakes.others 0 (by decide),
    htakes.others 3 (by decide)⟩

end SessionManager

end HyperRpc
