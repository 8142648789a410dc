import HyperRpc.Session.Runs

/-!
# Every call is answered

A call handed to the manager has had its `done` invoked or was accepted as a session, if its
list of endpoints is not too long; `AddSession` drops a longer list without a word.
An accepted session waits in a slot with an expiry ahead of it until its `done` is invoked, if
its id is not zero (`Machine.answered`).
-/
namespace HyperRpc

open Lib

variable {Msg : Type}

/-- The closure of the call that the action makes. -/
def Action.call? : Action Msg → Option Closure
  | .addSession _ _ _ _ done => some done
  | .noRoute done => some done
  | _ => none

/-- The list of endpoints of an `AddSession` is one that it accepts. -/
def Action.EndpointsFit : Action Msg → Prop
  | .addSession _ _ _ endpoints _ => endpoints.length ≤ 65536
  | _ => True

namespace Machine

variable {env : SessionEnv Msg} {m m' : Machine Msg} {mgr : SessionManager}

/-- The call is neither dropped nor given the id zero. -/
def Answerable (m : Machine Msg) (a : Action Msg) : Prop := a.EndpointsFit ∧ m.DrawsNonzero a

/-- Only a call adds to the closures passed so far. -/
theorem Trans.calls_cases {a : Action Msg} (h : m.Trans env a m') :
    a.call? = none ∧ m'.calls = m.calls ∨
      ∃ d, a.call? = some d ∧ d ∉ m.calls ∧ m'.calls = d :: m.calls := by
  cases h with
  | tooLong _ hd => exact Or.inr ⟨_, rfl, hd, rfl⟩
  | poolFull _ hd => exact Or.inr ⟨_, rfl, hd, rfl⟩
  | accepted _ hd => exact Or.inr ⟨_, rfl, hd, rfl⟩
  | noRoute _ hd => exact Or.inr ⟨_, rfl, hd, rfl⟩
  | _ => exact Or.inl ⟨rfl, rfl⟩

theorem Kind.mem_sessions {a : Action Msg} (h : m.Kind env a m') {σ : Session}
    (hσ : σ ∈ m.sessions) : σ ∈ m'.sessions := by
  cases h with
  | quiet h => exact h.sessions ▸ hσ
  | refuse h => exact h.sessions ▸ hσ
  | accept => exact List.mem_cons_of_mem _ hσ
  | retry h => exact h.sessions ▸ hσ
  | finish h => exact h.sessions ▸ hσ
  | loose h => exact h.sessions ▸ hσ
  | close => exact hσ

theorem Kind.doneCount_le {a : Action Msg} (h : m.Kind env a m') (c : Closure) :
    m.doneCount c ≤ m'.doneCount c := by
  rcases h.log_cases with hlog | ⟨cb, hlog⟩
  · rw [doneCount_of_log_eq hlog]
  · rw [doneCount_of_log_cons hlog]
    omega

/-- What became of the calls. -/
structure CallInv (m : Machine Msg) : Prop where
  answered : ∀ c ∈ m.calls, m.doneCount c = 1 ∨ ∃ σ ∈ m.sessions, σ.done = c
  nonzero : ∀ σ ∈ m.sessions, σ.rpcId ≠ 0

/-- A call that was not dropped is answered at once or accepted. -/
theorem Trans.answered {a : Action Msg} {d : Closure} (h : m.Trans env a m')
    (hL : m.LedgerInv) (hfit : a.EndpointsFit) (hd : a.call? = some d) (hnew : d ∉ m.calls) :
    m'.doneCount d = 1 ∨ ∃ σ ∈ m'.sessions, σ.done = d := by
  have hrefused : ∀ {cb : Callback}, m'.log = cb :: m.log → cb.isDone d → m'.doneCount d = 1 := by
    intro cb hlog hcb
    rw [doneCount_of_log_cons hlog, hL.fresh d hnew, if_pos hcb]
  cases h with
  | tooLong _ _ hlen => exact absurd hfit (Nat.not_le.mpr hlen)
  | poolFull =>
    cases hd
    exact Or.inl (hrefused rfl (decide_eq_true rfl))
  | accepted =>
    cases hd
    exact Or.inr ⟨_, List.mem_cons_self, rfl⟩
  | noRoute =>
    cases hd
    exact Or.inl (hrefused rfl (decide_eq_true rfl))
  | _ => cases hd

theorem CallInv.step {a : Action Msg} (hI : m.CallInv) (hwf : m.WellFormed env mgr)
    (hok : m.Answerable a) (hstep : m.step env a = some m') : m'.CallInv := by
  have htrans := step_trans hstep
  have hkind := htrans.kind
  constructor
  · intro c hc
    by_cases hold : c ∈ m.calls
    · refine (hI.answered c hold).imp (fun hone => ?_) ?_
      · have hle := hkind.doneCount_le c
        have honce := (hwf.step hstep).consistent.ledger.once c
        omega
      · rintro ⟨σ, hσ, hd⟩
        exact ⟨σ, hkind.mem_sessions hσ, hd⟩
    · rcases htrans.calls_cases with ⟨-, hsame⟩ | ⟨d, hd, hnew, hcons⟩
      · exact absurd (hsame ▸ hc) hold
      · obtain rfl : c = d := (List.mem_cons.mp (hcons ▸ hc)).resolve_right hold
        exact htrans.answered hwf.consistent.ledger hok.1 hd hnew
  · exact hkind.rpcId_ne_zero hok.2 hI.nonzero

/-- `done` has been invoked once, or the session waits in a slot with an expiry ahead of it. -/
theorem CallInv.answered_or_waits (hI : m.CallInv) (hwf : m.WellFormed env mgr) {c : Closure}
    (hc : c ∈ m.calls) : m.doneCount c = 1 ∨ m.doneCount c = 0 ∧
      ∃ i, m.Live i ∧ (m.node i).done = some c ∧ m.st.wheel.Expects i := by
  have hL := hwf.consistent.ledger
  rcases hI.answered c hc with hone | ⟨σ, hσ, rfl⟩
  · exact Or.inl hone
  rcases hL.finished σ hσ (hI.nonzero σ hσ) with ⟨i, hlive, hdone⟩ | hone
  swap
  · exact Or.inl hone
  by_cases hzero : m.doneCount σ.done = 0
  swap
  · have honce := hL.once σ.done
    exact Or.inl (by omega)
  refine Or.inr ⟨hzero, i, hlive, hdone, (hwf.timers.waiting i hlive).resolve_left ?_⟩
  -- a callback that is to free the slot would be an invocation of `done`
  rintro ⟨cb, hcb, hslot⟩
  have howner := (hwf.consistent.stack.held cb hcb i hslot).2
  have hisDone := Callback.isDone_iff.mpr
    ⟨Callback.sendId_of_slot hslot, howner.symm.trans hdone⟩
  rw [hL.running i σ.done hlive hdone] at hzero
  exact List.countP_eq_zero.mp hzero cb hcb hisDone

theorem callInv_start (mgr : SessionManager) (now : ℕ) (mem : MsgRef → Msg) :
    (start mgr now mem).CallInv :=
  ⟨by simp [start], by simp [start]⟩

/-- The rule for every state of a run all of whose calls are answerable. -/
theorem ReachableIf.callInv {size core : UInt64} {rand : UInt32} {memory : ℕ → SessionNode}
    {now : ℕ} {mem : MsgRef → Msg}
    (hinit : SessionManager.init size core rand memory = some mgr)
    (h : ReachableIf env Answerable mgr now mem m) : m.CallInv := by
  refine (Reaches.invariant (I := fun m => m.WellFormed env mgr ∧ m.CallInv) ?_ h
    ⟨wellFormed_start hinit, callInv_start mgr now mem⟩).2
  rintro m₁ m₂ a ⟨hwf, hcall⟩ hok hstep
  exact ⟨hwf.step hstep, hcall.step hwf hok hstep⟩

end Machine

end HyperRpc
