import HyperRpc.Session.Accounting

/-!
# Timeouts come from a session's own expiry

`OnSessionTimeout` is bound to a slot and only asks whether the slot is occupied. In runs in
which `AddSession` never takes a slot with a collected expiry still to run, this is enough:
a session is timed out by the expiry its own `AddSession` armed, and not before its time. In
other runs it is not.
-/
namespace HyperRpc

open Lib

namespace Machine

variable {Msg : Type} {env : SessionEnv Msg} {m m' : Machine Msg}

/-- Whenever an expiry starts the `done` of a session now, that session armed it, and its time
is over. -/
def TimesOutOwn (env : SessionEnv Msg) (m : Machine Msg) : Prop :=
  ∀ k m' c i, m.step env (.expire k) = some m' →
    m'.log = .done (some c) .kTimeout (.timeout i) :: m.log →
    ∃ e ∈ m.st.wheel.due, m.st.wheel.due[k]? = some e ∧ e.slot = i ∧ e.armedBy = c ∧
      ∃ σ ∈ m.sessions, σ.done = c ∧ σ.addedAt + env.defaultRpcTimeout ≤ m.st.wheel.now

theorem OwnExpiries.timesOutOwn (hO : m.OwnExpiries) (hW : m.TimerInv env) :
    m.TimesOutOwn env := by
  intro k m' c i hstep hlog
  have htrans := step_trans hstep
  cases htrans with
  | expireFree => exact absurd (congrArg List.length hlog) (by simp)
  | @expireLive _ e _ hdue hlive =>
    have hmem : e ∈ m.st.wheel.due := List.mem_of_getElem? hdue
    have hcb : Callback.done (m.node e.slot).done .kTimeout (.timeout e.slot) =
        .done (some c) .kTimeout (.timeout i) := (List.cons_eq_cons.mp hlog).1
    obtain ⟨hdone, hslot⟩ : (m.node e.slot).done = some c ∧ e.slot = i := by
      simpa using hcb
    have harmed : e.armedBy = c :=
      Option.some.inj ((hO e (Or.inr hmem) hlive).symm.trans hdone)
    obtain ⟨σ, hσ, hσd, hdeadline⟩ := hW.origin e (Or.inr hmem)
    have hlate := hW.late e hmem
    exact ⟨e, hmem, hdue, hslot, harmed, σ, hσ, hσd.trans harmed, by omega⟩

theorem ownExpiries_start {mgr : SessionManager} {now : ℕ} {mem : MsgRef → Msg} :
    (start mgr now mem).OwnExpiries := by
  rintro e (⟨i, hi⟩ | he)
  · simp [start] at hi
  · simp [start] at he

theorem ReachableIf.ownExpiries {ok : Machine Msg → Action Msg → Prop}
    (hok : ∀ m a, ok m a → m.TakesQuietSlot a) {size core : UInt64} {rand : UInt32}
    {memory : ℕ → SessionNode} {mgr : SessionManager} {now : ℕ} {mem : MsgRef → Msg}
    (hinit : SessionManager.init size core rand memory = some mgr)
    (h : ReachableIf env ok mgr now mem m) : m.OwnExpiries := by
  have hboth : m.WellFormed env mgr ∧ m.OwnExpiries := by
    refine Reaches.invariant (I := fun m => m.WellFormed env mgr ∧ m.OwnExpiries)
      (fun hI hq hstep => ?_) h ⟨wellFormed_start hinit, ownExpiries_start⟩
    exact ⟨hI.1.step hstep, hI.2.step hI.1.timers (hok _ _ hq) (step_trans hstep).kind⟩
  exact hboth.2

/-- No session of such a run is timed out by the left-over expiry of an earlier one. -/
theorem timeout_by_own_expiry {size core : UInt64} {rand : UInt32} {memory : ℕ → SessionNode}
    {mgr : SessionManager} {now : ℕ} {mem : MsgRef → Msg}
    (hinit : SessionManager.init size core rand memory = some mgr)
    (h : ReachableIf env TakesQuietSlot mgr now mem m) : m.TimesOutOwn env :=
  (ReachableIf.ownExpiries (fun _ _ => id) hinit h).timesOutOwn
    (ReachableIf.wellFormed hinit h).timers

theorem takesQuietSlot_of_due_nil {a : Action Msg} (h : m.st.wheel.due = []) :
    m.TakesQuietSlot a := by
  cases a <;> simp [TakesQuietSlot, h]

theorem takesQuietSlot_of_check (m : Machine Msg) (a : Action Msg)
    (h : m.st.wheel.due.isEmpty = true) : m.TakesQuietSlot a :=
  takesQuietSlot_of_due_nil (List.isEmpty_iff.mp h)

/-- The session of call 10 times out at its deadline. -/
theorem timeout_by_own_expiry_pair : ∃ m,
    ReachableIf emptyEnv TakesQuietSlot pairManager 0 (fun _ => ()) m ∧
      m.st.wheel.due = [⟨1, 5, 10⟩] ∧ m.TimesOutOwn emptyEnv := by
  obtain ⟨m, hm, hp⟩ := exists_reachesIf_of_run (step emptyEnv) (start pairManager 0 fun _ => ())
    [.addSession pingMethod 0 1 [⟨1, 1⟩] 10, .ret, .advance, .advance, .advance, .advance,
      .advance, .collect 1] (fun m _ => m.st.wheel.due.isEmpty)
    (fun m => decide (m.st.wheel.due = [⟨1, 5, 10⟩])) takesQuietSlot_of_check (by decide +kernel)
  exact ⟨m, hm, of_decide_eq_true hp, timeout_by_own_expiry pairManager_init hm⟩

/-- In one tick the last endpoint of call 10 fails, the expiry of call 11 runs and its `done`
makes call 12, which gets the slot of call 10. The left-over expiry of that slot then times
call 12 out as it begins. -/
def staleSchedule : List (Action Unit) :=
  [.addSession pingMethod 0 1 [⟨1, 1⟩] 10, .ret, .addSession pingMethod 2 3 [⟨1, 1⟩] 11, .ret,
    .advance, .advance, .advance, .advance, .advance, .collect 1, .collect 0,
    .onSendRequestFailed 0x1000000000001, .ret, .expire 1,
    .addSession pingMethod 4 5 [⟨1, 1⟩] 12, .ret, .ret]

theorem stale_expiry_times_out : ∃ m, Reachable emptyEnv pairManager 0 (fun _ => ()) m ∧
    ¬ m.TimesOutOwn emptyEnv := by
  obtain ⟨m, hm, hp⟩ := exists_reaches_of_run (step emptyEnv) (start pairManager 0 fun _ => ())
    staleSchedule
    (fun m => decide (m.stack = [] ∧ m.st.wheel.due = [⟨1, 5, 10⟩] ∧ (m.node 1).rpcId ≠ 0 ∧
      (m.node 1).done = some 12)) (by decide +kernel)
  obtain ⟨hidle, hdue, hlive, hdone⟩ := of_decide_eq_true hp
  refine ⟨m, hm, fun hown => ?_⟩
  have hfirst : m.st.wheel.due[0]? = some ⟨1, 5, 10⟩ := by rw [hdue]; rfl
  have hstep : m.step emptyEnv (.expire 0) = some (m.expire 0 ⟨1, 5, 10⟩) := by
    simp only [step, hidle, hfirst]
  have hlog : (m.expire 0 ⟨1, 5, 10⟩).log =
      .done (some 12) .kTimeout (.timeout 1) :: m.log := by
    have hid : (m.st.mgr.sessPool 1).rpcId ≠ 0 := hlive
    simp [expire, SessionState.onSessionTimeout, SessionState.node, hid, enter, ← hdone, node]
  obtain ⟨e, -, he, -, harmed, -⟩ := hown 0 _ 12 1 hstep hlog
  obtain rfl : (⟨1, 5, 10⟩ : Expiry) = e := Option.some.inj (hfirst.symm.trans he)
  exact absurd harmed (by decide)

end Machine

end HyperRpc
