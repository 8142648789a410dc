import HyperRpc.Session.Accounting
import HyperRpc.Session.Answers

/-!
# Every session is over by its deadline

Where the wheel is punctual, that is time does not pass an armed expiry by, no session is pending
after its deadline (`answered_by_deadline`). For this the session's own expiry matters, which is
pending as long as the session is (`OwnPending`). And whatever state a run has reached, it can be
brought to rest: callbacks that return and the turning of the wheel alone complete every session,
within the time of one timeout (`comes_to_rest`).
-/
namespace HyperRpc

open Lib

/-- What happens without user code or the transport: callbacks return, and the wheel turns. -/
def Action.isLoop {Msg : Type} : Action Msg → Bool
  | .ret => true
  | .advance => true
  | .collect _ => true
  | .expire _ => true
  | _ => false

namespace Machine

variable {Msg : Type} {env : SessionEnv Msg} {m m' : Machine Msg} {mgr : SessionManager}

/-! ## The session's own expiry -/

/-- Time only advances when no armed expiry of the pool is due. -/
def Punctual (m : Machine Msg) : Action Msg → Prop
  | .advance => ∀ i < 2 ^ m.st.mgr.poolSizeOrder, ∀ e ∈ m.st.wheel.armed i,
      m.st.wheel.now < e.deadline
  | _ => True

instance (m : Machine Msg) (a : Action Msg) : Decidable (m.Punctual a) := by
  cases a <;> unfold Punctual <;> infer_instance

/-- The expiry a session armed is pending until the `done` of the session runs. -/
def OwnPending (m : Machine Msg) : Prop :=
  ∀ i, m.Live i → (∃ cb ∈ m.stack, cb.slot? = some i) ∨
    ∃ e, m.st.wheel.Pending e ∧ e.slot = i ∧ (m.node i).done = some e.armedBy

/-- An expiry is not dropped while its slot is occupied. -/
theorem Turn.pending_of_live {wheel : TimerWheel} (h : m.Turn wheel) {e : Expiry}
    (hlive : m.Live e.slot) (he : m.st.wheel.Pending e) : wheel.Pending e := by
  cases h with
  | still h => exact h ▸ he
  | tick _ h => exact h ▸ he
  | @collect slot e₀ harmed _ h =>
    rw [h]
    rcases he with ⟨i, hi⟩ | hdue
    · by_cases hik : i = slot
      · obtain rfl : e₀ = e := Option.some.inj (harmed.symm.trans (hik ▸ hi))
        exact Or.inr (by simp)
      · exact Or.inl ⟨i, by simpa [TimerWheel.disarm, hik] using hi⟩
    · exact Or.inr (List.mem_append_left _ hdue)
  | drop hdue hfree h =>
    rw [h]
    refine he.imp_right fun hmem => mem_eraseIdx_of_ne hdue hmem ?_
    rintro rfl
    exact hfree hlive

theorem OwnPending.of_steady (hO : m.OwnPending) (h : m.Steady m')
    (hstack : ∀ cb ∈ m.stack, cb.slot? ≠ none → cb ∈ m'.stack)
    (hpending : ∀ e, m.Live e.slot → m.st.wheel.Pending e → m'.st.wheel.Pending e) :
    m'.OwnPending := by
  intro i hi
  have hlive := (h.live i).mp hi
  refine (hO i hlive).imp ?_ ?_
  · rintro ⟨cb, hcb, hslot⟩
    exact ⟨cb, hstack cb hcb (by simp [hslot]), hslot⟩
  · rintro ⟨e, he, rfl, hdone⟩
    exact ⟨e, hpending e hlive he, rfl, (h.done _).trans hdone⟩

theorem OwnPending.fires {i : ℕ} {site : DoneSite} {closure : Option Closure} {r : Result}
    (hO : m.OwnPending) (h : m.Steady m') (hslot : site.slot? = some i)
    (hstack : m'.stack = .done closure r site :: m.stack)
    (hfires : m.Fires i site m'.st.wheel) : m'.OwnPending := by
  obtain ⟨-, -, k, e₀, hdue, hslot₀, hwheel⟩ := hfires
  intro l hl
  rw [hstack]
  by_cases hli : l = i
  · exact Or.inl ⟨_, List.mem_cons_self, hslot.trans (congrArg some hli.symm)⟩
  · refine (hO l ((h.live l).mp hl)).imp ?_ ?_
    · rintro ⟨cb, hcb, hcbslot⟩
      exact ⟨cb, List.mem_cons_of_mem _ hcb, hcbslot⟩
    · rintro ⟨e, he, rfl, hdone⟩
      refine ⟨e, ?_, rfl, (h.done _).trans hdone⟩
      rw [hwheel]
      refine he.imp_right fun hmem => mem_eraseIdx_of_ne hdue hmem ?_
      rintro rfl
      exact hli hslot₀

theorem accept_pending_of_ne {method request response endpoints d j i} {e : Expiry}
    (hslot : ∀ k, m.st.wheel.armed k = some e → e.slot = k) (hne : e.slot ≠ i)
    (he : m.st.wheel.Pending e) :
    (m.accept env method request response endpoints d j i).st.wheel.Pending e := by
  rcases he with ⟨k, hk⟩ | hdue
  · have hki : k ≠ i := hslot k hk ▸ hne
    exact Or.inl ⟨k, by simpa [accept, TimerWheel.arm, hki] using hk⟩
  · exact Or.inr hdue

theorem OwnPending.accept {method request response endpoints d j i} (hO : m.OwnPending)
    (hW : m.TimerInv env) :
    (m.accept env method request response endpoints d j i).OwnPending := by
  intro k hk
  by_cases hki : k = i
  · subst hki
    refine Or.inr ⟨⟨k, m.st.wheel.now + env.defaultRpcTimeout, d⟩, Or.inl ⟨k, ?_⟩, rfl, ?_⟩
    · simp [Machine.accept, TimerWheel.arm]
    · rw [accept_node_self]
  · rw [Live, accept_node_of_ne hki] at hk
    rw [accept_node_of_ne hki]
    refine (hO k hk).imp ?_ ?_
    · rintro ⟨cb, hcb, hslot⟩
      exact ⟨cb, List.mem_cons_of_mem _ hcb, hslot⟩
    · rintro ⟨e, he, rfl, hdone⟩
      exact ⟨e, accept_pending_of_ne (fun l hl => hW.slot l e hl) hki he, rfl, hdone⟩

theorem OwnPending.close {cancel : Bool} {i : ℕ} {cb : Callback} {rest : List Callback}
    (hO : m.OwnPending) (hW : m.TimerInv env) (hstack : m.stack = cb :: rest)
    (hslot : cb.slot? = some i) : (m.close env cancel i rest).OwnPending := by
  intro k hk
  obtain ⟨hki, hlive⟩ := close_live.mp hk
  rw [close_node_of_ne hki]
  refine (hO k hlive).imp ?_ ?_
  · rintro ⟨cb', hcb', hslot'⟩
    rw [hstack] at hcb'
    rcases List.mem_cons.mp hcb' with rfl | hcb'
    · exact absurd (Option.some.inj (hslot'.symm.trans hslot)) hki
    · exact ⟨cb', hcb', hslot'⟩
  · rintro ⟨e, he, rfl, hdone⟩
    refine ⟨e, ?_, rfl, hdone⟩
    rcases he with ⟨l, hl⟩ | hdue
    · obtain rfl := hW.slot l e hl
      exact Or.inl ⟨e.slot, (close_armed_of_ne hki).trans hl⟩
    · exact Or.inr (close_due.1.symm ▸ hdue)

theorem OwnPending.step {a : Action Msg} (hO : m.OwnPending) (hW : m.TimerInv env)
    (h : m.Kind env a m') : m'.OwnPending := by
  cases h with
  | quiet h hstack _ hturn =>
    exact hO.of_steady h.toSteady (fun cb hcb _ => hstack ▸ hcb)
      fun e hlive he => hturn.pending_of_live hlive he
  | refuse h _ _ _ _ hstack _ hwheel =>
    exact hO.of_steady h.toSteady (fun cb hcb _ => hstack ▸ List.mem_cons_of_mem _ hcb)
      fun e _ he => hwheel ▸ he
  | accept => exact hO.accept hW
  | retry h _ _ _ hstack _ hwheel =>
    exact hO.of_steady h (fun cb hcb _ => hstack ▸ List.mem_cons_of_mem _ hcb)
      fun e _ he => hwheel ▸ he
  | finish h _ _ hsite _ hstack _ hwheel =>
    rcases hwheel with ⟨-, hwheel⟩ | hfires
    · exact hO.of_steady h (fun cb hcb _ => hstack ▸ List.mem_cons_of_mem _ hcb)
        fun e _ he => hwheel ▸ he
    · exact hO.fires h hsite hstack hfires
  | loose h hstack hslot _ hwheel =>
    refine hO.of_steady h.toSteady (fun cb hcb hne => ?_) fun e _ he => hwheel ▸ he
    rw [hstack] at hcb
    rcases List.mem_cons.mp hcb with rfl | hcb
    · exact absurd hslot hne
    · exact hcb
  | close hstack hslot => exact hO.close hW hstack hslot

/-! ## Punctual wheels -/

/-- No expiry of the pool is pending after its deadline. -/
def OnTime (m : Machine Msg) : Prop :=
  ∀ e, m.st.wheel.Pending e → e.slot < 2 ^ m.st.mgr.poolSizeOrder → m.st.wheel.now ≤ e.deadline

/-- Only `advance` moves the time. -/
theorem Trans.now_cases {a : Action Msg} (h : m.Trans env a m') :
    m'.st.wheel.now = m.st.wheel.now ∨ a = .advance ∧ m.st.wheel.due = [] ∧
      m'.st.wheel = { m.st.wheel with now := m.st.wheel.now + 1 } := by
  cases h with
  | advance _ hdue => exact Or.inr ⟨rfl, hdue, rfl⟩
  | retClose => exact Or.inl close_due.2
  | _ => exact Or.inl rfl

/-- Only an accepted call arms an expiry. -/
theorem Kind.pending_cases {a : Action Msg} (h : m.Kind env a m') {e : Expiry}
    (he : m'.st.wheel.Pending e) :
    m.st.wheel.Pending e ∨ e.deadline = m.st.wheel.now + env.defaultRpcTimeout := by
  cases h with
  | quiet _ _ _ hturn => exact Or.inl (hturn.pending he)
  | refuse _ _ _ _ _ _ _ hwheel => exact Or.inl (hwheel ▸ he)
  | @accept _ _ _ _ d j i =>
    rcases he with ⟨k, hk⟩ | hdue
    · by_cases hki : k = i
      · simp only [Machine.accept, TimerWheel.arm, hki, Function.update_self,
          Option.some.injEq] at hk
        exact Or.inr (by rw [← hk])
      · exact Or.inl (Or.inl ⟨k, by simpa [Machine.accept, TimerWheel.arm, hki] using hk⟩)
    · exact Or.inl (Or.inr hdue)
  | retry _ _ _ _ _ _ hwheel => exact Or.inl (hwheel ▸ he)
  | finish _ _ _ _ _ _ _ hwheel =>
    rcases hwheel with ⟨-, hwheel⟩ | ⟨-, -, _, _, -, -, hwheel⟩
    · exact Or.inl (hwheel ▸ he)
    · rw [hwheel] at he
      exact Or.inl (he.imp_right List.mem_of_mem_eraseIdx)
  | loose _ _ _ _ hwheel => exact Or.inl (hwheel ▸ he)
  | close =>
    rcases he with ⟨k, hk⟩ | hdue
    · exact Or.inl (Or.inl ⟨k, close_armed hk⟩)
    · exact Or.inl (Or.inr (close_due.1 ▸ hdue))

theorem OnTime.step {a : Action Msg} (hO : m.OnTime) (hwf : m.WellFormed env mgr)
    (hok : m.Punctual a) (hstep : m.step env a = some m') : m'.OnTime := by
  intro e he hslot
  have htrans := step_trans hstep
  have hsize : m'.st.mgr.poolSizeOrder = m.st.mgr.poolSizeOrder :=
    (hwf.step hstep).size.1.trans hwf.size.1.symm
  rw [hsize] at hslot
  rcases htrans.now_cases with hnow | ⟨rfl, hdue, hwheel⟩
  · rw [hnow]
    rcases htrans.kind.pending_cases he with he | hnew
    · exact hO e he hslot
    · omega
  · -- nothing has been collected, and what is armed is not due
    rw [hwheel] at he ⊢
    rcases he with ⟨i, hi⟩ | hmem
    · have hi' : m.st.wheel.armed i = some e := hi
      obtain rfl := hwf.timers.slot i e hi'
      exact hok _ hslot e hi'
    · simp [hdue] at hmem

/-- A `done` that has not been invoked is not running. -/
theorem WellFormed.not_closing (hwf : m.WellFormed env mgr) {c : Closure} {i : ℕ}
    (hzero : m.doneCount c = 0) (hlive : m.Live i) (hdone : (m.node i).done = some c) :
    ¬ ∃ cb ∈ m.stack, cb.slot? = some i := by
  rintro ⟨cb, hcb, hslot⟩
  have howner := (hwf.consistent.stack.held cb hcb i hslot).2
  have hisDone := Callback.isDone_iff.mpr
    ⟨Callback.sendId_of_slot hslot, howner.symm.trans hdone⟩
  rw [hwf.consistent.ledger.running i c hlive hdone] at hzero
  exact List.countP_eq_zero.mp hzero cb hcb hisDone

theorem WellFormed.over_by_deadline (hwf : m.WellFormed env mgr) (hsized : mgr.Sized)
    (hO : m.OwnPending) (hT : m.OnTime) {σ : Session} (hσ : σ ∈ m.sessions) (hne : σ.rpcId ≠ 0)
    (hlate : σ.addedAt + env.defaultRpcTimeout < m.st.wheel.now) : m.doneCount σ.done = 1 := by
  have htable := hwf.consistent.table
  have hledger := hwf.consistent.ledger
  rcases hledger.finished σ hσ hne with ⟨i, hlive, hdone⟩ | hone
  swap
  · exact hone
  by_contra hnot
  have hzero : m.doneCount σ.done = 0 := by
    have honce := hledger.once σ.done
    omega
  obtain ⟨e, he, rfl, harmed⟩ := (hO i hlive).resolve_left (hwf.not_closing hzero hlive hdone)
  obtain ⟨τ, hτ, hτd, hdeadline⟩ := hwf.timers.origin e he
  obtain rfl : τ = σ := htable.distinct τ hτ σ hσ
    (hτd.trans (Option.some.inj (harmed.symm.trans hdone)))
  have hinside : e.slot < 2 ^ m.st.mgr.poolSizeOrder :=
    htable.slot _ hlive ▸ (hwf.sized hsized).slotOf_lt _
  have hontime := hT e he hinside
  omega

variable {size core : UInt64} {rand : UInt32} {memory : ℕ → SessionNode} {now : ℕ}
  {mem : MsgRef → Msg}

/-- Where the wheel is punctual, the `done` of every session has been invoked, once, when the time
after its deadline begins, in nested runs and whatever left-over expiries do. -/
theorem answered_by_deadline (hinit : SessionManager.init size core rand memory = some mgr)
    (hsize : size.toNat ≤ 2 ^ 48) (hcore : (core.toNat + 1) % 2 ^ 16 ≠ 0)
    (h : ReachableIf env Punctual mgr now mem m) {σ : Session} (hσ : σ ∈ m.sessions)
    (hlate : σ.addedAt + env.defaultRpcTimeout < m.st.wheel.now) : m.doneCount σ.done = 1 := by
  obtain ⟨hwf, hO, hT⟩ : m.WellFormed env mgr ∧ m.OwnPending ∧ m.OnTime := by
    refine Reaches.invariant (I := fun m => m.WellFormed env mgr ∧ m.OwnPending ∧ m.OnTime) ?_ h
      ⟨wellFormed_start hinit, ?_, ?_⟩
    · rintro t u a ⟨hwf, hO, hT⟩ hok hstep
      exact ⟨hwf.step hstep, hO.step hwf.timers (step_trans hstep).kind, hT.step hwf hok hstep⟩
    · exact fun i hi => absurd ((SessionManager.init_fresh hinit).2 i).1 hi
    · rintro e (⟨i, hi⟩ | he)
      · simp [start] at hi
      · simp [start] at he
  exact hwf.over_by_deadline (SessionManager.sized_of_init hinit hsize) hO hT hσ
    (hwf.rpcId_ne_zero (by rwa [SessionManager.init_nextRpcId_div hinit]) σ hσ) hlate

/-- One of two calls is answered in time; the other one is timed out. -/
theorem answered_by_deadline_pair : ∃ m σ,
    ReachableIf emptyEnv Punctual pairManager 0 (fun _ => ()) m ∧ σ ∈ m.sessions ∧ σ.done = 11 ∧
      m.doneCount 11 = 1 := by
  obtain ⟨m, hm, hp⟩ := exists_reachesIf_of_run (step emptyEnv) (start pairManager 0 fun _ => ())
    [.addSession pingMethod 0 1 [⟨1, 1⟩] 10, .ret, .addSession pingMethod 2 3 [⟨1, 1⟩] 11, .ret,
      .advance, .onRecvResponse [80] [112] 0x1000000000001 .kSuccess [], .ret, .advance, .advance,
      .advance, .advance, .collect 0, .expire 0, .ret, .advance]
    (fun m a => decide (m.Punctual a))
    (fun m => decide (m.st.wheel.now = 6 ∧ ∃ σ ∈ m.sessions, σ.done = 11 ∧ σ.addedAt = 0))
    (fun _ _ h => of_decide_eq_true h) (by decide +kernel)
  obtain ⟨hnow, σ, hσ, hdone, hadded⟩ := of_decide_eq_true hp
  have honce := answered_by_deadline pairManager_init (by decide) (by decide) hm hσ
    (by rw [hadded, hnow]; decide)
  exact ⟨m, σ, hm, hσ, hdone, hdone ▸ honce⟩

/-! ## Coming to rest -/

theorem Trans.of_isLoop {a : Action Msg} (h : m.Trans env a m') (ha : a.isLoop) :
    m'.sessions = m.sessions ∧ (∀ i, m'.Live i → m.Live i) ∧
      ∀ i e, m'.st.wheel.armed i = some e → m.st.wheel.armed i = some e := by
  cases h with
  | retClose => exact ⟨rfl, fun i hi => (close_live.mp hi).2, fun i e => close_armed⟩
  | @collect slot e₀ _ harmed hdeadline =>
    exact ⟨rfl, fun i hi => (collect_calm.live i).mp hi,
      fun i e => (Turn.collect harmed hdeadline rfl).armed⟩
  | retLoose => exact ⟨rfl, fun _ => id, fun _ _ => id⟩
  | advance => exact ⟨rfl, fun _ => id, fun _ _ => id⟩
  | expireFree => exact ⟨rfl, fun _ => id, fun _ _ => id⟩
  | expireLive => exact ⟨rfl, fun _ => id, fun _ _ => id⟩
  | _ => cases ha

variable (env) in
theorem exists_ret {cb : Callback} {rest : List Callback} (hstack : m.stack = cb :: rest) :
    ∃ m', m.step env .ret = some m' ∧ m'.stack = rest ∧ m'.st.wheel.due = m.st.wheel.due ∧
      m'.st.wheel.now = m.st.wheel.now ∧ ∀ i, cb.slot? = some i → ¬ m'.Live i := by
  have hstep : m.step env .ret = some { m with st := m.st.resume env cb, stack := rest } := by
    simp [Machine.step, hstack]
  have htrans := step_trans hstep
  generalize { m with st := m.st.resume env cb, stack := rest } = m₁ at hstep htrans
  refine ⟨m₁, hstep, ?_⟩
  cases htrans with
  | retLoose hstack' hslot =>
    obtain ⟨rfl, rfl⟩ := List.cons_eq_cons.mp (hstack.symm.trans hstack')
    refine ⟨rfl, rfl, rfl, fun i hi => ?_⟩
    rw [hslot] at hi
    cases hi
  | @retClose closure result site rest' k hstack' hslot =>
    obtain ⟨rfl, rfl⟩ := List.cons_eq_cons.mp (hstack.symm.trans hstack')
    refine ⟨rfl, close_due.1, close_due.2, fun i hi hlive => ?_⟩
    exact (close_live.mp hlive).1 (Option.some.inj (hi.symm.trans hslot))

variable (env) in
theorem exists_expire {e : Expiry} {due : List Expiry} (hstack : m.stack = [])
    (hdue : m.st.wheel.due = e :: due) :
    ∃ m', m.step env (.expire 0) = some m' ∧ m'.st.wheel.due = due ∧
      m'.st.wheel.now = m.st.wheel.now ∧
      (m'.stack = [] ∧ ¬ m.Live e.slot ∨ ∃ cb, m'.stack = [cb] ∧ cb.slot? = some e.slot) := by
  have hfirst : m.st.wheel.due[0]? = some e := by rw [hdue]; rfl
  have hstep : m.step env (.expire 0) = some (m.expire 0 e) := by
    simp only [step, hstack, hfirst]
  have htrans := step_trans hstep
  generalize m.expire 0 e = m₁ at hstep htrans
  refine ⟨m₁, hstep, ?_⟩
  cases htrans with
  | expireFree _ hdue' hfree =>
    obtain rfl := Option.some.inj (hfirst.symm.trans hdue')
    exact ⟨congrArg (·.eraseIdx 0) hdue, rfl, Or.inl ⟨hstack, hfree⟩⟩
  | expireLive _ hdue' hlive =>
    obtain rfl := Option.some.inj (hfirst.symm.trans hdue')
    exact ⟨congrArg (·.eraseIdx 0) hdue, rfl,
      Or.inr ⟨_, congrArg (List.cons _) hstack, rfl⟩⟩

/-- The machine at a later time. -/
def atTime (m : Machine Msg) (t : ℕ) : Machine Msg :=
  { m with st := { m.st with wheel := { m.st.wheel with now := t } } }

/-- The steps of the event loop. -/
abbrev Winds (env : SessionEnv Msg) : Machine Msg → Machine Msg → Prop :=
  Reaches (step env) fun _ a => a.isLoop

variable (env) in
theorem winds_atTime (hstack : m.stack = []) (hdue : m.st.wheel.due = []) {t : ℕ}
    (ht : m.st.wheel.now ≤ t) : Winds env m (m.atTime t) := by
  induction t, ht using Nat.le_induction with
  | base => exact .refl
  | succ t _ ih =>
    have hstep : (m.atTime t).step env .advance = some (m.atTime (t + 1)) :=
      if_pos ⟨hstack, hdue⟩
    exact ih.tail rfl hstep

/-- A state on the way to rest from `m₀`, which is over when the time is `limit`. -/
structure Settling (env : SessionEnv Msg) (mgr : SessionManager) (m₀ : Machine Msg) (limit : ℕ)
    (m : Machine Msg) : Prop where
  wellFormed : m.WellFormed env mgr
  sessions : m.sessions = m₀.sessions
  armed : ∀ i e, m.st.wheel.armed i = some e → e.deadline ≤ limit
  now : m.st.wheel.now ≤ limit

namespace Settling

variable {m₀ : Machine Msg} {limit : ℕ}

theorem step (h : Settling env mgr m₀ limit m) {a : Action Msg} (ha : a.isLoop)
    (hstep : m.step env a = some m') (hnow : m'.st.wheel.now ≤ limit) :
    Settling env mgr m₀ limit m' := by
  obtain ⟨hsess, -, harmed⟩ := (step_trans hstep).of_isLoop ha
  exact ⟨h.wellFormed.step hstep, hsess.trans h.sessions, fun i e he => h.armed i e (harmed i e he),
    hnow⟩

theorem atTime (h : Settling env mgr m₀ limit m) (hstack : m.stack = [])
    (hdue : m.st.wheel.due = []) {t : ℕ} (ht : m.st.wheel.now ≤ t) (hlimit : t ≤ limit) :
    Settling env mgr m₀ limit (m.atTime t) where
  wellFormed := (winds_atTime env hstack hdue ht).invariant
    (I := fun m => m.WellFormed env mgr) (fun hI _ hstep => hI.step hstep) h.wellFormed
  sessions := h.sessions
  armed := h.armed
  now := hlimit

end Settling

/-- The occupied slots. -/
noncomputable def liveSlots (mgr : SessionManager) (m : Machine Msg) : Finset ℕ :=
  open Classical in (Finset.range (2 ^ mgr.poolSizeOrder)).filter m.Live

theorem mem_liveSlots {i : ℕ} : i ∈ m.liveSlots mgr ↔ i < 2 ^ mgr.poolSizeOrder ∧ m.Live i := by
  simp [liveSlots]

/-- How much the event loop still has to do. -/
noncomputable def restMeasure (mgr : SessionManager) (m : Machine Msg) : ℕ :=
  m.stack.length + 2 * m.st.wheel.due.length + 4 * (m.liveSlots mgr).card

theorem liveSlots_subset (h : ∀ i, m'.Live i → m.Live i) : m'.liveSlots mgr ⊆ m.liveSlots mgr := by
  intro i hi
  rw [mem_liveSlots] at hi ⊢
  exact ⟨hi.1, h i hi.2⟩

/-- When nothing runs and nothing is due, the wheel can be turned until a given session is timed
out. -/
theorem Settling.frees {m₀ : Machine Msg} {limit i : ℕ} (h : Settling env mgr m₀ limit m)
    (hstack : m.stack = []) (hdue : m.st.wheel.due = []) (hlive : m.Live i) :
    ∃ m', Winds env m m' ∧ Settling env mgr m₀ limit m' ∧ m'.stack = [] ∧
      m'.st.wheel.due = [] ∧ ¬ m'.Live i ∧ ∀ k, m'.Live k → m.Live k := by
  obtain ⟨e, harmed⟩ : ∃ e, m.st.wheel.armed i = some e := by
    rcases h.wellFormed.expects_of_live hstack hlive with hsome | ⟨e, he, -⟩
    · exact Option.isSome_iff_exists.mp hsome
    · simp [hdue] at he
  have hslot : e.slot = i := h.wellFormed.timers.slot i e harmed
  -- wait until the expiry is due and collect it
  obtain ⟨t, ht, hlimit, hdeadline⟩ :
      ∃ t, m.st.wheel.now ≤ t ∧ t ≤ limit ∧ e.deadline ≤ t :=
    ⟨max m.st.wheel.now e.deadline, le_max_left _ _, max_le h.now (h.armed i e harmed),
      le_max_right _ _⟩
  have hwait := winds_atTime env hstack hdue ht
  have h₁ := h.atTime hstack hdue ht hlimit
  have hcollect : (m.atTime t).step env (.collect i) = some ((m.atTime t).collect env i e) := by
    simp [Machine.step, Machine.atTime, hstack, harmed, hdeadline]
  have h₂ := h₁.step rfl hcollect h₁.now
  have hstack₂ : ((m.atTime t).collect env i e).stack = [] := hstack
  have hdue₂ : ((m.atTime t).collect env i e).st.wheel.due = [e] := congrArg (· ++ [e]) hdue
  have hlive₂ : ((m.atTime t).collect env i e).Live e.slot :=
    (collect_calm.live _).mpr (hslot.symm ▸ hlive)
  -- it runs, and `done` returns
  obtain ⟨m₃, hexpire, hdue₃, hnow₃, hcase⟩ := exists_expire env hstack₂ hdue₂
  have h₃ := h₂.step rfl hexpire (hnow₃ ▸ h₂.now)
  obtain ⟨cb, hstack₃, hcb⟩ := hcase.resolve_left fun hleft => hleft.2 hlive₂
  obtain ⟨m₄, hret, hstack₄, hdue₄, hnow₄, hfreed⟩ := exists_ret env hstack₃
  refine ⟨m₄, ((hwait.tail rfl hcollect).tail rfl hexpire).tail rfl hret,
    h₃.step rfl hret (hnow₄ ▸ h₃.now), hstack₄, hdue₄.trans hdue₃, hfreed i (hslot ▸ hcb), ?_⟩
  intro k hk
  have h₃k := ((step_trans hret).of_isLoop rfl).2.1 k hk
  have h₂k := ((step_trans hexpire).of_isLoop rfl).2.1 k h₃k
  exact ((step_trans hcollect).of_isLoop rfl).2.1 k h₂k

theorem Settling.progress {m₀ : Machine Msg} {limit : ℕ} (hsized : mgr.Sized)
    (h : Settling env mgr m₀ limit m) (hrest : ¬ (m.stack = [] ∧ ∀ i, ¬ m.Live i)) :
    ∃ m', Winds env m m' ∧ Settling env mgr m₀ limit m' ∧
      m'.restMeasure mgr < m.restMeasure mgr := by
  have hcard : ∀ {a m'}, m.step env a = some m' → a.isLoop →
      (m'.liveSlots mgr).card ≤ (m.liveSlots mgr).card := fun hstep ha =>
    Finset.card_le_card (liveSlots_subset ((step_trans hstep).of_isLoop ha).2.1)
  cases hstack : m.stack with
  | cons cb rest =>
    obtain ⟨m', hstep, hrest', hdue, hnow, -⟩ := exists_ret env hstack
    have hle := hcard hstep rfl
    refine ⟨m', .single rfl hstep, h.step rfl hstep (hnow ▸ h.now), ?_⟩
    rw [restMeasure, restMeasure, hrest', hdue, hstack, List.length_cons]
    omega
  | nil =>
    cases hdue : m.st.wheel.due with
    | cons e due =>
      obtain ⟨m', hstep, hdue', hnow, hcase⟩ := exists_expire env hstack hdue
      have hle := hcard hstep rfl
      have hlen : m'.stack.length ≤ 1 := by
        rcases hcase with ⟨hnil, -⟩ | ⟨cb, hone, -⟩
        · simp [hnil]
        · simp [hone]
      refine ⟨m', .single rfl hstep, h.step rfl hstep (hnow ▸ h.now), ?_⟩
      rw [restMeasure, restMeasure, hdue', hstack, hdue, List.length_cons, List.length_nil]
      omega
    | nil =>
      obtain ⟨i, hlive⟩ : ∃ i, m.Live i := by
        by_contra hnone
        exact hrest ⟨hstack, fun i hi => hnone ⟨i, hi⟩⟩
      obtain ⟨m', hwinds, hset, hstack', hdue', hfreed, hsub⟩ := h.frees hstack hdue hlive
      have hinside : i < 2 ^ mgr.poolSizeOrder := by
        rw [← h.wellFormed.size.1, ← h.wellFormed.consistent.table.slot i hlive]
        exact (h.wellFormed.sized hsized).slotOf_lt _
      have hlt : (m'.liveSlots mgr).card < (m.liveSlots mgr).card := by
        refine Finset.card_lt_card ⟨liveSlots_subset hsub, fun hsup => ?_⟩
        exact hfreed (mem_liveSlots.mp (hsup (mem_liveSlots.mpr ⟨hinside, hlive⟩))).2
      refine ⟨m', hwinds, hset, ?_⟩
      rw [restMeasure, restMeasure, hstack', hdue', hstack, hdue, List.length_nil]
      omega

theorem addedAt_le_now {ok : Machine Msg → Action Msg → Prop}
    (h : ReachableIf env ok mgr now mem m) : ∀ σ ∈ m.sessions, σ.addedAt ≤ m.st.wheel.now := by
  refine Reaches.invariant (I := fun m => ∀ σ ∈ m.sessions, σ.addedAt ≤ m.st.wheel.now) ?_ h
    fun σ hσ => absurd hσ List.not_mem_nil
  intro t u a hI _ hstep σ hσ
  have htrans := step_trans hstep
  have hle : t.st.wheel.now ≤ u.st.wheel.now := by
    rcases htrans.now_cases with heq | ⟨-, -, heq⟩
    · omega
    · rw [heq]
      exact Nat.le_succ _
  cases htrans with
  | accepted =>
    rcases List.mem_cons.mp hσ with rfl | hσ
    · exact le_rfl
    · exact hI σ hσ
  | _ => exact (hI σ hσ).trans hle

/-- The event loop alone frees every slot, before the time of one timeout is over. -/
theorem exists_settled (hinit : SessionManager.init size core rand memory = some mgr)
    (hsize : size.toNat ≤ 2 ^ 48) (h : Reachable env mgr now mem m) : ∃ m', Winds env m m' ∧
      Settling env mgr m (m.st.wheel.now + env.defaultRpcTimeout) m' ∧ m'.stack = [] ∧
      ∀ i, ¬ m'.Live i := by
  have hwf := ReachableIf.wellFormed hinit h
  have hfirst : Settling env mgr m (m.st.wheel.now + env.defaultRpcTimeout) m := by
    refine ⟨hwf, rfl, fun i e he => ?_, Nat.le_add_right _ _⟩
    obtain ⟨σ, hσ, -, hdeadline⟩ := hwf.timers.origin e (Or.inl ⟨i, he⟩)
    have hle := addedAt_le_now h σ hσ
    omega
  exact Reaches.progress (restMeasure mgr)
    (fun s hs hrest => hs.progress (SessionManager.sized_of_init hinit hsize) hrest) hfirst

/-- From every state of every run, nested or not, the event loop alone gets to a state in which
nothing runs, every slot is free and every session has been completed once, and that before the
time of one timeout is over. -/
theorem comes_to_rest (hinit : SessionManager.init size core rand memory = some mgr)
    (hsize : size.toNat ≤ 2 ^ 48) (hcore : (core.toNat + 1) % 2 ^ 16 ≠ 0)
    (h : Reachable env mgr now mem m) : ∃ m', Winds env m m' ∧ m'.stack = [] ∧
      (∀ i, ¬ m'.Live i) ∧ (∀ σ ∈ m.sessions, m'.doneCount σ.done = 1) ∧
      m'.st.wheel.now ≤ m.st.wheel.now + env.defaultRpcTimeout := by
  obtain ⟨m', hwinds, hset, hstack, hfree⟩ := exists_settled hinit hsize h
  refine ⟨m', hwinds, hstack, hfree, fun σ hσ => ?_, hset.now⟩
  have hids := hset.wellFormed.rpcId_ne_zero
    (by rwa [SessionManager.init_nextRpcId_div hinit])
  rw [← hset.sessions] at hσ
  refine (hset.wellFormed.consistent.ledger.finished σ hσ (hids σ hσ)).resolve_left ?_
  rintro ⟨i, hlive, -⟩
  exact hfree i hlive

/-- One `done` is running and another session is pending. -/
theorem comes_to_rest_pair : ∃ m, Reachable emptyEnv pairManager 0 (fun _ => ()) m ∧
    m.stack.length = 1 ∧ m.sessions.length = 2 ∧ ∃ m', Winds emptyEnv m m' ∧
      (∀ σ ∈ m.sessions, m'.doneCount σ.done = 1) ∧ m'.st.wheel.now ≤ m.st.wheel.now + 5 := by
  obtain ⟨m, hm, hp⟩ := exists_reaches_of_run (step emptyEnv) (start pairManager 0 fun _ => ())
    [.addSession pingMethod 0 1 [⟨1, 1⟩] 10, .ret, .addSession pingMethod 2 3 [⟨1, 1⟩] 11, .ret,
      .advance, .onRecvResponse [80] [112] 0x1000000000001 .kSuccess []]
    (fun m => decide (m.stack.length = 1 ∧ m.sessions.length = 2)) (by decide +kernel)
  obtain ⟨hstack, hlen⟩ := of_decide_eq_true hp
  obtain ⟨m', hwinds, -, -, hdone, hnow⟩ :=
    comes_to_rest pairManager_init (by decide) (by decide) hm
  exact ⟨m, hm, hstack, hlen, m', hwinds, hdone, hnow⟩

end Machine

end HyperRpc
