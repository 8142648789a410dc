import HyperRpc.Session.Callbacks

/-!
# Ids over a run

The id of a session is the value of the ring counter at the draw it was given. Sessions draw
in the order they are accepted, and an occupied slot holds the last session that was ever
given that slot (`IdInv`). An id that comes back therefore has come once around the counter.
-/
namespace HyperRpc

open Lib

namespace Machine

variable {Msg : Type} {env : SessionEnv Msg} {m m' : Machine Msg} {start : ℕ}

/-- If the action is an `AddSession`, it would not draw the id zero for its session. -/
def DrawsNonzero (m : Machine Msg) : Action Msg → Prop
  | .addSession .. => ∀ j i, m.st.mgr.FirstFree j i → (m.st.mgr.advance (j + 1)).nextRpcId ≠ 0
  | _ => True

theorem drawsNonzero_of_core (h : m.st.mgr.nextRpcId.toNat / 2 ^ kRpcIdSeqPartBits ≠ 0)
    (a : Action Msg) : m.DrawsNonzero a := by
  cases a with
  | addSession =>
    intro j i _ h0
    have hring := m.st.mgr.advance_nextRpcId_toNat (j + 1)
    rw [h0, UInt64.toNat_zero] at hring
    exact ringAt_ne_zero h hring.symm
  | _ => trivial

/-- No session is given the id zero in a step that does not draw it. -/
theorem Kind.rpcId_ne_zero {a : Action Msg} (h : m.Kind env a m') (hdraws : m.DrawsNonzero a)
    (hne : ∀ σ ∈ m.sessions, σ.rpcId ≠ 0) : ∀ σ ∈ m'.sessions, σ.rpcId ≠ 0 := by
  have hsteady : m.Steady m' → ∀ σ ∈ m'.sessions, σ.rpcId ≠ 0 := fun hs σ hσ =>
    hne σ (hs.sessions ▸ hσ)
  cases h with
  | quiet hs => exact hsteady hs.toSteady
  | refuse hs => exact hsteady hs.toSteady
  | accept _ _ hfree =>
    intro σ hσ
    rcases List.mem_cons.mp hσ with rfl | hσ
    · exact hdraws _ _ hfree
    · exact hne σ hσ
  | retry hs => exact hsteady hs
  | finish hs => exact hsteady hs
  | loose hs => exact hsteady hs.toSteady
  | close => exact hne

structure IdInv (start : ℕ) (m : Machine Msg) : Prop where
  counter : m.st.mgr.nextRpcId.toNat = ringAt kRpcIdSeqPartBits start m.st.mgr.drawn
  rpcId : ∀ σ ∈ m.sessions, σ.rpcId.toNat = ringAt kRpcIdSeqPartBits start σ.drawnAt
  drawnAt : ∀ σ ∈ m.sessions, σ.drawnAt ≤ m.st.mgr.drawn
  order : m.sessions.Pairwise fun new old => old.drawnAt < new.drawnAt
  latest : ∀ i, m.Live i → ∀ σ ∈ m.sessions, (m.node i).done = some σ.done →
    ∀ τ ∈ m.sessions, m.st.mgr.slotOf τ.rpcId = i → τ.drawnAt ≤ σ.drawnAt

theorem counter_advance (hI : m.IdInv start) (n : ℕ) :
    (m.st.mgr.advance n).nextRpcId.toNat =
      ringAt kRpcIdSeqPartBits start (m.st.mgr.drawn + n) := by
  rw [SessionManager.advance_nextRpcId_toNat, hI.counter, ringAt_ringAt]

theorem IdInv.steady (hI : m.IdInv start) (h : m.Steady m') : m'.IdInv start := by
  obtain ⟨n, hnext, hdrawn, -, -⟩ := h.mgr
  constructor
  · rw [hnext, counter_advance hI, hdrawn]
  · exact h.sessions ▸ hI.rpcId
  · intro σ hσ
    rw [h.sessions] at hσ
    have hle := hI.drawnAt σ hσ
    omega
  · exact h.sessions ▸ hI.order
  · intro i hi σ hσ hd τ hτ hslot
    rw [h.sessions] at hσ hτ
    rw [h.done] at hd
    rw [h.slotOf] at hslot
    exact hI.latest i ((h.live i).mp hi) σ hσ hd τ hτ hslot

theorem IdInv.accept {method request response endpoints d j i} (hI : m.IdInv start)
    (hT : m.TableInv) (hd : d ∉ m.calls) (hfree : m.st.mgr.FirstFree j i) :
    (m.accept env method request response endpoints d j i).IdInv start := by
  have hdrawn : (m.accept env method request response endpoints d j i).st.mgr.drawn =
      m.st.mgr.drawn + (j + 1) := by
    simp [Machine.accept, SessionManager.setNode]
  have hnew : ∀ τ ∈ m.sessions, τ.drawnAt < m.st.mgr.drawn + (j + 1) := fun τ hτ => by
    have hle := hI.drawnAt τ hτ
    omega
  constructor
  · rw [hdrawn]
    exact counter_advance hI (j + 1)
  · intro σ hσ
    rcases List.mem_cons.mp hσ with rfl | hσ
    · simpa using counter_advance hI (j + 1)
    · exact hI.rpcId σ hσ
  · intro σ hσ
    rw [hdrawn]
    rcases List.mem_cons.mp hσ with rfl | hσ
    · simp
    · exact (hnew σ hσ).le
  · refine List.pairwise_cons.mpr ⟨fun τ hτ => ?_, hI.order⟩
    simpa using hnew τ hτ
  · intro k hk σ hσ hdone τ hτ hslot
    rw [accept_slotOf] at hslot
    rcases List.mem_cons.mp hσ with rfl | hσ' <;> rcases List.mem_cons.mp hτ with rfl | hτ'
    · exact le_rfl
    · simpa using (hnew τ hτ').le
    · -- the newest session sits in slot `i`
      obtain rfl : k = i := hslot.symm.trans hfree.slot
      rw [accept_node_self] at hdone
      exact absurd (hT.known σ hσ') (Option.some.inj hdone ▸ hd)
    · by_cases hki : k = i
      · rw [hki, accept_node_self] at hdone
        exact absurd (hT.known σ hσ') (Option.some.inj hdone ▸ hd)
      · rw [Live, accept_node_of_ne hki] at hk
        rw [accept_node_of_ne hki] at hdone
        exact hI.latest k hk σ hσ' hdone τ hτ' hslot

theorem IdInv.close {cancel : Bool} {i : ℕ} {rest : List Callback} (hI : m.IdInv start) :
    (m.close env cancel i rest).IdInv start := by
  have hmgr : (m.close env cancel i rest).st.mgr.nextRpcId = m.st.mgr.nextRpcId ∧
      (m.close env cancel i rest).st.mgr.drawn = m.st.mgr.drawn := by
    cases cancel <;> exact ⟨rfl, rfl⟩
  refine ⟨by rw [hmgr.1, hmgr.2, hI.counter], hI.rpcId, ?_, hI.order, ?_⟩
  · rw [hmgr.2]
    exact hI.drawnAt
  · intro k hk σ hσ hdone τ hτ hslot
    obtain ⟨hki, hlive⟩ := close_live.mp hk
    rw [close_node_of_ne hki] at hdone
    rw [close_slotOf] at hslot
    exact hI.latest k hlive σ hσ hdone τ hτ hslot

theorem IdInv.step {a : Action Msg} (hI : m.IdInv start) (hT : m.TableInv)
    (h : m.Kind env a m') : m'.IdInv start := by
  cases h with
  | quiet h => exact hI.steady h.toSteady
  | refuse h => exact hI.steady h.toSteady
  | accept _ hd hfree => exact hI.accept hT hd hfree
  | retry h => exact hI.steady h
  | finish h => exact hI.steady h
  | loose h => exact hI.steady h.toSteady
  | close => exact hI.close

theorem IdInv.eq_of_drawnAt (hI : m.IdInv start) {σ τ : Session} (hσ : σ ∈ m.sessions)
    (hτ : τ ∈ m.sessions) (h : σ.drawnAt = τ.drawnAt) : σ = τ := by
  let R : Session → Session → Prop := fun x y => x.drawnAt = y.drawnAt → x = y
  have : Std.Symm R := ⟨fun x y hxy hyx => (hxy hyx.symm).symm⟩
  have hpair : m.sessions.Pairwise R := hI.order.imp fun hlt heq => absurd heq (ne_of_gt hlt)
  exact hpair.forall_of_forall (fun _ _ _ => rfl) hσ hτ h

/-- Later sessions have other ids as long as the counter has not come around. -/
theorem IdInv.eq_of_rpcId (hI : m.IdInv start) {σ τ : Session} (hσ : σ ∈ m.sessions)
    (hτ : τ ∈ m.sessions) (hle : σ.drawnAt ≤ τ.drawnAt)
    (hwin : m.st.mgr.drawn - σ.drawnAt < 2 ^ kRpcIdSeqPartBits) (hid : τ.rpcId = σ.rpcId) :
    τ = σ := by
  rcases hle.lt_or_eq with hlt | heq
  · have hdrawn := hI.drawnAt τ hτ
    have hdiff : τ.drawnAt - σ.drawnAt < 2 ^ kRpcIdSeqPartBits := by omega
    have hne : ringAt kRpcIdSeqPartBits start τ.drawnAt ≠
        ringAt kRpcIdSeqPartBits start σ.drawnAt := ringAt_ne hlt hdiff
    rw [← hI.rpcId τ hτ, ← hI.rpcId σ hσ, hid] at hne
    exact absurd rfl hne
  · exact (hI.eq_of_drawnAt hσ hτ heq).symm

/-- As long as the counter has not come around, only the session itself is found under its id. -/
theorem IdInv.not_found (hI : m.IdInv start) (hT : m.TableInv) {σ : Session}
    (hσ : σ ∈ m.sessions) (hne : σ.rpcId ≠ 0)
    (hwin : m.st.mgr.drawn - σ.drawnAt < 2 ^ kRpcIdSeqPartBits)
    (hgone : ∀ i, m.Live i → (m.node i).done ≠ some σ.done) :
    m.st.mgr.findSessionNode σ.rpcId = none := by
  rw [SessionManager.findSessionNode_eq_none]
  intro hid
  have hlive : m.Live (m.st.mgr.slotOf σ.rpcId) := fun h0 => hne (hid.symm.trans h0)
  obtain ⟨τ, hτ, hh⟩ := hT.held _ hlive
  have hle := hI.latest _ hlive τ hτ hh.done σ hσ rfl
  obtain rfl := hI.eq_of_rpcId hσ hτ hle hwin (hh.rpcId.symm.trans hid)
  exact hgone _ hlive hh.done

end Machine

end HyperRpc
