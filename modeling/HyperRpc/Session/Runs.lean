import HyperRpc.Session.Ids
import HyperRpc.Session.Timers

/-!
# Runs from `Init`

All invariants of one manager together, for every state of every run that begins with a
successful `Init`.
-/
namespace HyperRpc

open Lib

namespace Machine

variable {Msg : Type} {env : SessionEnv Msg} {m m' : Machine Msg} {mgr : SessionManager}

/-- The pool keeps the size `Init` gave it. -/
def SameSize (mgr : SessionManager) (m : Machine Msg) : Prop :=
  m.st.mgr.poolSizeOrder = mgr.poolSizeOrder ∧ m.st.mgr.poolSizeMask = mgr.poolSizeMask

theorem SameSize.step (h : m.SameSize mgr) {a : Action Msg} (hkind : m.Kind env a m') :
    m'.SameSize mgr := by
  have hsteady : m.Steady m' → m'.SameSize mgr := fun hs => by
    obtain ⟨n, -, -, horder, hmask⟩ := hs.mgr
    exact ⟨horder.trans h.1, hmask.trans h.2⟩
  cases hkind with
  | quiet hs => exact hsteady hs.toSteady
  | refuse hs => exact hsteady hs.toSteady
  | accept =>
    have hsize := m.st.mgr.advance_frame
    exact ⟨(hsize _).2.1.trans h.1, (hsize _).2.2.1.trans h.2⟩
  | retry hs => exact hsteady hs
  | finish hs => exact hsteady hs
  | loose hs => exact hsteady hs.toSteady
  | @close _ _ _ site => cases hc : site.cancels <;> exact h

/-- What holds of every state of a run that began with the manager `mgr`. -/
structure WellFormed (env : SessionEnv Msg) (mgr : SessionManager) (m : Machine Msg) : Prop where
  consistent : m.Consistent
  timers : m.TimerInv env
  ids : m.IdInv mgr.nextRpcId.toNat
  size : m.SameSize mgr

namespace WellFormed

variable (h : m.WellFormed env mgr)
include h

theorem step {a : Action Msg} (hstep : m.step env a = some m') : m'.WellFormed env mgr :=
  have hkind := (step_trans hstep).kind
  ⟨h.consistent.step hstep, h.timers.step hkind, h.ids.step h.consistent.table hkind,
    h.size.step hkind⟩

theorem sized (hsized : mgr.Sized) : m.st.mgr.Sized :=
  ⟨h.size.1 ▸ hsized.order_le, by rw [h.size.1, h.size.2, hsized.mask_eq]⟩

/-- With a core part other than zero no session has the id zero. -/
theorem rpcId_ne_zero (hcore : mgr.nextRpcId.toNat / 2 ^ kRpcIdSeqPartBits ≠ 0) :
    ∀ σ ∈ m.sessions, σ.rpcId ≠ 0 := by
  intro σ hσ h0
  have hring := h.ids.rpcId σ hσ
  rw [h0, UInt64.toNat_zero] at hring
  exact ringAt_ne_zero hcore hring.symm

/-- Between two operations `done` of a session with a slot has not been called. -/
theorem doneCount_of_live (hidle : m.stack = []) {i : ℕ} {c : Closure} (hlive : m.Live i)
    (hdone : (m.node i).done = some c) : m.doneCount c = 0 := by
  rw [h.consistent.ledger.running i c hlive hdone, hidle, List.countP_nil]

/-- Between two operations an occupied slot has an expiry ahead of it. -/
theorem expects_of_live (hidle : m.stack = []) {i : ℕ} (hlive : m.Live i) :
    m.st.wheel.Expects i := by
  rcases h.timers.waiting i hlive with ⟨cb, hcb, -⟩ | hexp
  · simp [hidle] at hcb
  · exact hexp

end WellFormed

variable {ok : Machine Msg → Action Msg → Prop} {size core : UInt64} {rand : UInt32}
  {memory : ℕ → SessionNode} {now : ℕ} {mem : MsgRef → Msg}

theorem wellFormed_start (hinit : SessionManager.init size core rand memory = some mgr) :
    (start mgr now mem).WellFormed env mgr := by
  obtain ⟨hdrawn, hfresh⟩ := SessionManager.init_fresh hinit
  have hnone : ∀ i, ¬ (start mgr now mem).Live i := fun i hi => hi (hfresh i).1
  refine ⟨consistent_start fun i => ⟨(hfresh i).1, (hfresh i).2.1⟩, ?_, ?_, rfl, rfl⟩
  · refine ⟨by simp [start], fun i hi => absurd hi (hnone i), ?_, by simp [start]⟩
    rintro e (⟨i, hi⟩ | he)
    · simp [start] at hi
    · simp [start] at he
  · exact ⟨by simp [start, hdrawn], by simp [start], by simp [start], .nil,
      fun i hi => absurd hi (hnone i)⟩

theorem ReachableIf.wellFormed (hinit : SessionManager.init size core rand memory = some mgr)
    (h : ReachableIf env ok mgr now mem m) : m.WellFormed env mgr :=
  Reaches.invariant (fun hI _ hstep => WellFormed.step hI hstep) h (wellFormed_start hinit)

theorem ReachableIf.rpcId_ne_zero (h : ReachableIf env DrawsNonzero mgr now mem m) :
    ∀ σ ∈ m.sessions, σ.rpcId ≠ 0 :=
  Reaches.invariant (I := fun m => ∀ σ ∈ m.sessions, σ.rpcId ≠ 0)
    (fun hne hdraws hstep => (step_trans hstep).kind.rpcId_ne_zero hdraws hne) h (by simp [start])

/-! ## Runs without nesting -/

theorem operation_of_idle {a : Action Msg} {m₁ : Machine Msg} (hstep : m.step env a = some m₁)
    (hstack : m₁.stack = []) : m.operation env a = some m₁ := by
  rw [operation, hstep, Option.bind_some, hstack]

theorem operation_of_returns {a : Action Msg} {m₁ : Machine Msg} {cb : Callback}
    {rest : List Callback} (hstep : m.step env a = some m₁) (hstack : m₁.stack = cb :: rest) :
    m.operation env a = some { m₁ with st := m₁.st.resume env cb, stack := rest } := by
  have hret : m₁.step env .ret = some { m₁ with st := m₁.st.resume env cb, stack := rest } := by
    simp [Machine.step, hstack]
  rw [operation, hstep, Option.bind_some, hstack, hret]

theorem operation_cases {a : Action Msg} (h : m.operation env a = some m') :
    ∃ m₁, m.step env a = some m₁ ∧ (m₁.stack = [] ∧ m' = m₁ ∨
      ∃ cb rest, m₁.stack = cb :: rest ∧ m₁.step env .ret = some m') := by
  obtain ⟨m₁, hstep, hret⟩ := Option.bind_eq_some_iff.mp h
  refine ⟨m₁, hstep, ?_⟩
  cases hstack : m₁.stack with
  | nil =>
    simp only [hstack, Option.some.injEq] at hret
    exact Or.inl ⟨rfl, hret.symm⟩
  | cons cb rest =>
    simp only [hstack] at hret
    exact Or.inr ⟨cb, rest, rfl, hret⟩

theorem Operated.reachable (h : Operated env mgr now mem m) : Reachable env mgr now mem m := by
  induction h with
  | refl => exact .refl
  | tail _ _ hop ih =>
    obtain ⟨m₁, hstep, ⟨-, rfl⟩ | ⟨_, _, -, hret⟩⟩ := operation_cases hop
    · exact ih.tail trivial hstep
    · exact (ih.tail trivial hstep).tail trivial hret

end Machine

end HyperRpc
