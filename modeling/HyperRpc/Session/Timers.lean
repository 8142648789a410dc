import HyperRpc.Session.Callbacks

/-!
# Sessions and their expiries

Every session that waits has an expiry of its slot ahead of it (`TimerInv`). Whether that
expiry is the session's own depends on the slots `AddSession` picks: `Undisturbed` holds as
long as it picks no slot for which a collected expiry is still to run, and then an expiry
only ever meets the session that armed it.
-/
namespace HyperRpc

open Lib

/-- The expiry is armed or has been collected. -/
def TimerWheel.Pending (w : TimerWheel) (e : Expiry) : Prop :=
  (∃ i, w.armed i = some e) ∨ e ∈ w.due

/-- An expiry of the slot is armed or has been collected. -/
def TimerWheel.Expects (w : TimerWheel) (i : ℕ) : Prop :=
  (w.armed i).isSome ∨ ∃ e ∈ w.due, e.slot = i

theorem mem_eraseIdx_of_ne {e e' : Expiry} {due : List Expiry} {k : ℕ} (hk : due[k]? = some e)
    (hmem : e' ∈ due) (hne : e' ≠ e) : e' ∈ due.eraseIdx k := by
  obtain ⟨l, hl⟩ := List.mem_iff_getElem?.mp hmem
  refine List.mem_eraseIdx_iff_getElem?.mpr ⟨l, ?_, hl⟩
  rintro rfl
  exact hne (Option.some.inj (hl.symm.trans hk))

namespace Machine

variable {Msg : Type} {env : SessionEnv Msg} {m m' : Machine Msg}

structure TimerInv (env : SessionEnv Msg) (m : Machine Msg) : Prop where
  slot : ∀ i e, m.st.wheel.armed i = some e → e.slot = i
  waiting : ∀ i, m.Live i → (∃ cb ∈ m.stack, cb.slot? = some i) ∨ m.st.wheel.Expects i
  origin : ∀ e, m.st.wheel.Pending e →
    ∃ σ ∈ m.sessions, σ.done = e.armedBy ∧ e.deadline = σ.addedAt + env.defaultRpcTimeout
  late : ∀ e ∈ m.st.wheel.due, e.deadline ≤ m.st.wheel.now

/-- Nothing becomes pending by itself. -/
theorem Turn.pending {wheel : TimerWheel} (h : m.Turn wheel) {e : Expiry} (he : wheel.Pending e) :
    m.st.wheel.Pending e := by
  cases h with
  | still h => exact h ▸ he
  | tick _ h =>
    rw [h] at he
    exact he
  | @collect slot e₀ harmed _ h =>
    rw [h] at he
    rcases he with ⟨i, hi⟩ | hdue
    · by_cases hik : i = slot
      · simp [TimerWheel.disarm, hik] at hi
      · exact Or.inl ⟨i, by simpa [TimerWheel.disarm, hik] using hi⟩
    · rcases List.mem_append.mp hdue with hdue | hdue
      · exact Or.inr hdue
      · exact Or.inl ⟨slot, List.mem_singleton.mp hdue ▸ harmed⟩
  | drop _ _ h =>
    rw [h] at he
    exact he.imp_right List.mem_of_mem_eraseIdx

theorem Turn.expects {wheel : TimerWheel} (h : m.Turn wheel) (hW : m.TimerInv env) {i : ℕ}
    (hlive : m.Live i) (hi : m.st.wheel.Expects i) : wheel.Expects i := by
  cases h with
  | still h => exact h ▸ hi
  | tick _ h => exact h ▸ hi
  | @collect slot e₀ harmed _ h =>
    rw [h]
    by_cases hik : i = slot
    · exact Or.inr ⟨e₀, by simp, (hW.slot slot e₀ harmed).trans hik.symm⟩
    · rcases hi with hsome | ⟨e, he, hes⟩
      · exact Or.inl (by simpa [TimerWheel.disarm, hik] using hsome)
      · exact Or.inr ⟨e, List.mem_append_left _ he, hes⟩
  | @drop k e₀ hdue hfree h =>
    rw [h]
    refine hi.imp_right ?_
    rintro ⟨e, he, hes⟩
    refine ⟨e, mem_eraseIdx_of_ne hdue he ?_, hes⟩
    rintro rfl
    exact hfree (hes ▸ hlive)

theorem Turn.late {wheel : TimerWheel} (h : m.Turn wheel) (hW : m.TimerInv env) :
    ∀ e ∈ wheel.due, e.deadline ≤ wheel.now := by
  intro e he
  cases h with
  | still h => exact h ▸ hW.late e (h ▸ he)
  | tick hdue h => simp [h, hdue] at he
  | collect harmed hdeadline h =>
    rw [h] at he ⊢
    rcases List.mem_append.mp he with he | he
    · exact hW.late e he
    · exact List.mem_singleton.mp he ▸ hdeadline
  | drop _ _ h =>
    rw [h] at he ⊢
    exact hW.late e (List.mem_of_mem_eraseIdx he)

theorem Turn.armed {wheel : TimerWheel} (h : m.Turn wheel) {i : ℕ} {e : Expiry}
    (he : wheel.armed i = some e) : m.st.wheel.armed i = some e := by
  cases h with
  | still h => exact h ▸ he
  | tick _ h => simpa [h] using he
  | @collect slot _ _ _ h =>
    by_cases hik : i = slot
    · simp [h, TimerWheel.disarm, hik] at he
    · simpa [h, TimerWheel.disarm, hik] using he
  | drop _ _ h => simpa [h] using he

/-- The wheel stays, the stack keeps what it had. -/
theorem TimerInv.of_wheel (hW : m.TimerInv env) (h : m.Steady m')
    (hwheel : m'.st.wheel = m.st.wheel)
    (hstack : ∀ cb ∈ m.stack, cb.slot? ≠ none → cb ∈ m'.stack) : m'.TimerInv env where
  slot i e he := hW.slot i e (hwheel ▸ he)
  waiting i hi := by
    rw [hwheel]
    refine (hW.waiting i ((h.live i).mp hi)).imp_left ?_
    rintro ⟨cb, hcb, hslot⟩
    exact ⟨cb, hstack cb hcb (by simp [hslot]), hslot⟩
  origin e he := by
    rw [h.sessions]
    exact hW.origin e (hwheel ▸ he)
  late e he := by
    rw [hwheel] at he ⊢
    exact hW.late e he

theorem TimerInv.turn (hW : m.TimerInv env) (h : m.Steady m') (hstack : m'.stack = m.stack)
    (hturn : m.Turn m'.st.wheel) : m'.TimerInv env where
  slot i e he := hW.slot i e (hturn.armed he)
  waiting i hi := by
    rw [hstack]
    have hlive := (h.live i).mp hi
    exact (hW.waiting i hlive).imp_right (hturn.expects hW hlive)
  origin e he := by
    rw [h.sessions]
    exact hW.origin e (hturn.pending he)
  late := hturn.late hW

theorem TimerInv.fires {i : ℕ} {site : DoneSite} {closure : Option Closure} {r : Result}
    (hW : m.TimerInv env) (h : m.Steady m') (hslot : site.slot? = some i)
    (hstack : m'.stack = .done closure r site :: m.stack)
    (hfires : m.Fires i site m'.st.wheel) : m'.TimerInv env := by
  obtain ⟨-, -, k, e₀, hdue, hslot₀, hwheel⟩ := hfires
  constructor
  · intro l e he
    exact hW.slot l e (by rwa [hwheel] at he)
  · intro l hl
    rw [hstack, hwheel]
    by_cases hli : l = i
    · exact Or.inl ⟨_, List.mem_cons_self, hslot.trans (congrArg some hli.symm)⟩
    · rcases hW.waiting l ((h.live l).mp hl) with ⟨cb', hcb', hslot'⟩ | hsome | ⟨e, he, hes⟩
      · exact Or.inl ⟨cb', List.mem_cons_of_mem _ hcb', hslot'⟩
      · exact Or.inr (Or.inl hsome)
      · refine Or.inr (Or.inr ⟨e, mem_eraseIdx_of_ne hdue he ?_, hes⟩)
        rintro rfl
        exact hli (hes.symm.trans hslot₀)
  · intro e he
    rw [h.sessions]
    rw [hwheel] at he
    exact hW.origin e (he.imp_right List.mem_of_mem_eraseIdx)
  · intro e he
    rw [hwheel] at he ⊢
    exact hW.late e (List.mem_of_mem_eraseIdx he)

theorem TimerInv.accept {method request response endpoints d j i} (hW : m.TimerInv env) :
    (m.accept env method request response endpoints d j i).TimerInv env := by
  constructor
  · intro k e he
    by_cases hki : k = i
    · simp only [Machine.accept, TimerWheel.arm, hki, Function.update_self,
        Option.some.injEq] at he
      rw [← he, hki]
    · exact hW.slot k e (by simpa [Machine.accept, TimerWheel.arm, hki] using he)
  · intro k hk
    by_cases hki : k = i
    · exact Or.inr (Or.inl (by simp [Machine.accept, TimerWheel.arm, hki]))
    · rw [Live, accept_node_of_ne hki] at hk
      rcases hW.waiting k hk with ⟨cb, hcb, hslot⟩ | hsome | hdue
      · exact Or.inl ⟨cb, List.mem_cons_of_mem _ hcb, hslot⟩
      · exact Or.inr (Or.inl (by simpa [Machine.accept, TimerWheel.arm, hki] using hsome))
      · exact Or.inr (Or.inr hdue)
  · have hold : ∀ e, m.st.wheel.Pending e → ∃ σ ∈ (m.accept env method request response endpoints
        d j i).sessions, σ.done = e.armedBy ∧ e.deadline = σ.addedAt + env.defaultRpcTimeout := by
      intro e he
      obtain ⟨σ, hσ, h⟩ := hW.origin e he
      exact ⟨σ, List.mem_cons_of_mem _ hσ, h⟩
    rintro e (⟨k, hk⟩ | hdue)
    · by_cases hki : k = i
      · simp only [Machine.accept, TimerWheel.arm, hki, Function.update_self,
          Option.some.injEq] at hk
        exact ⟨_, List.mem_cons_self, by rw [← hk], by rw [← hk]⟩
      · exact hold e (Or.inl ⟨k, by simpa [Machine.accept, TimerWheel.arm, hki] using hk⟩)
    · exact hold e (Or.inr hdue)
  · exact hW.late

theorem close_armed_of_ne {cancel : Bool} {i k : ℕ} {rest : List Callback} (hk : k ≠ i) :
    (m.close env cancel i rest).st.wheel.armed k = m.st.wheel.armed k := by
  cases cancel <;>
    simp [close, SessionState.freeSessionNode, SessionState.cancelTimer, TimerWheel.disarm, hk]

theorem close_due {cancel : Bool} {i : ℕ} {rest : List Callback} :
    (m.close env cancel i rest).st.wheel.due = m.st.wheel.due ∧
      (m.close env cancel i rest).st.wheel.now = m.st.wheel.now := by
  cases cancel <;> exact ⟨rfl, rfl⟩

theorem close_armed {cancel : Bool} {i k : ℕ} {rest : List Callback} {e : Expiry}
    (he : (m.close env cancel i rest).st.wheel.armed k = some e) :
    m.st.wheel.armed k = some e := by
  by_cases hk : k = i
  · cases cancel
    · exact he
    · simp [close, SessionState.freeSessionNode, SessionState.cancelTimer, TimerWheel.disarm,
        hk] at he
  · rwa [close_armed_of_ne hk] at he

theorem TimerInv.close {cancel : Bool} {i : ℕ} {cb : Callback} {rest : List Callback}
    (hW : m.TimerInv env) (hstack : m.stack = cb :: rest) (hslot : cb.slot? = some i) :
    (m.close env cancel i rest).TimerInv env := by
  constructor
  · exact fun k e he => hW.slot k e (close_armed he)
  · intro k hk
    obtain ⟨hki, hlive⟩ := close_live.mp hk
    rw [TimerWheel.Expects, close_armed_of_ne hki, close_due.1]
    refine (hW.waiting k hlive).imp_left ?_
    rintro ⟨cb', hcb', hslot'⟩
    rw [hstack] at hcb'
    rcases List.mem_cons.mp hcb' with rfl | hcb'
    · exact absurd (Option.some.inj (hslot'.symm.trans hslot)) hki
    · exact ⟨cb', hcb', hslot'⟩
  · rintro e (⟨k, hk⟩ | hdue)
    · exact hW.origin e (Or.inl ⟨k, close_armed hk⟩)
    · exact hW.origin e (Or.inr (close_due.1 ▸ hdue))
  · intro e he
    rw [close_due.2]
    exact hW.late e (close_due.1 ▸ he)

theorem TimerInv.step {a : Action Msg} (hW : m.TimerInv env) (h : m.Kind env a m') :
    m'.TimerInv env := by
  cases h with
  | quiet h hstack _ hturn => exact hW.turn h.toSteady hstack hturn
  | refuse h _ _ _ _ hstack _ hwheel =>
    exact hW.of_wheel h.toSteady hwheel fun cb hcb _ => hstack ▸ List.mem_cons_of_mem _ hcb
  | accept => exact hW.accept
  | retry h _ _ _ hstack _ hwheel =>
    exact hW.of_wheel h hwheel fun cb hcb _ => hstack ▸ List.mem_cons_of_mem _ hcb
  | finish h _ _ hsite _ hstack _ hwheel =>
    rcases hwheel with ⟨-, hwheel⟩ | hfires
    · exact hW.of_wheel h hwheel fun cb hcb _ => hstack ▸ List.mem_cons_of_mem _ hcb
    · exact hW.fires h hsite hstack hfires
  | loose h hstack hslot _ hwheel =>
    refine hW.of_wheel h.toSteady hwheel fun cb hcb hne => ?_
    rw [hstack] at hcb
    rcases List.mem_cons.mp hcb with rfl | hcb
    · exact absurd hslot hne
    · exact hcb
  | close hstack hslot => exact hW.close hstack hslot

/-! ## Runs in which no left-over expiry meets a new session -/

/-- If the action is an `AddSession`, no collected expiry of the slot it would take is still to
run. -/
def TakesQuietSlot (m : Machine Msg) : Action Msg → Prop
  | .addSession .. => ∀ j i, m.st.mgr.FirstFree j i → ∀ e ∈ m.st.wheel.due, e.slot ≠ i
  | _ => True

/-- An expiry of an occupied slot belongs to the session in it. -/
def OwnExpiries (m : Machine Msg) : Prop :=
  ∀ e, m.st.wheel.Pending e → m.Live e.slot → (m.node e.slot).done = some e.armedBy

theorem OwnExpiries.of_pending (hO : m.OwnExpiries) (h : m.Steady m')
    (hpending : ∀ e, m'.st.wheel.Pending e → m.st.wheel.Pending e) : m'.OwnExpiries := by
  intro e he hlive
  rw [h.done]
  exact hO e (hpending e he) ((h.live _).mp hlive)

theorem OwnExpiries.accept {method request response endpoints d j i} (hO : m.OwnExpiries)
    (hW : m.TimerInv env) (hquiet : ∀ e ∈ m.st.wheel.due, e.slot ≠ i) :
    (m.accept env method request response endpoints d j i).OwnExpiries := by
  rintro e he hlive
  by_cases hki : e.slot = i
  · rw [hki, accept_node_self]
    rcases he with ⟨k, hk⟩ | hdue
    · have hslot : e.slot = k := hW.accept.slot k e hk
      simp only [Machine.accept, TimerWheel.arm, ← hslot, hki, Function.update_self,
        Option.some.injEq] at hk
      rw [← hk]
    · exact absurd hki (hquiet e hdue)
  · rw [Live, accept_node_of_ne hki] at hlive
    rw [accept_node_of_ne hki]
    refine hO e ?_ hlive
    rcases he with ⟨k, hk⟩ | hdue
    · have hslot : e.slot = k := hW.accept.slot k e hk
      exact Or.inl ⟨k, by simpa [Machine.accept, TimerWheel.arm, ← hslot, hki] using hk⟩
    · exact Or.inr hdue

theorem OwnExpiries.step (hO : m.OwnExpiries) (hW : m.TimerInv env) {a : Action Msg}
    (hok : m.TakesQuietSlot a) (h : m.Kind env a m') : m'.OwnExpiries := by
  cases h with
  | quiet h _ _ hturn => exact hO.of_pending h.toSteady fun e he => hturn.pending he
  | refuse h _ _ _ _ _ _ hwheel => exact hO.of_pending h.toSteady fun e he => hwheel ▸ he
  | accept _ _ hfree => exact hO.accept hW (hok _ _ hfree)
  | retry h _ _ _ _ _ hwheel => exact hO.of_pending h fun e he => hwheel ▸ he
  | finish h _ _ _ _ _ _ hwheel =>
    refine hO.of_pending h fun e he => ?_
    rcases hwheel with ⟨-, hwheel⟩ | ⟨-, -, k, e₀, -, -, hwheel⟩
    · exact hwheel ▸ he
    · rw [hwheel] at he
      exact he.imp_right List.mem_of_mem_eraseIdx
  | loose h _ _ _ hwheel => exact hO.of_pending h.toSteady fun e he => hwheel ▸ he
  | close hstack hslot =>
    intro e he hlive
    obtain ⟨hki, hlive⟩ := close_live.mp hlive
    rw [close_node_of_ne hki]
    refine hO e ?_ hlive
    rcases he with ⟨k, hk⟩ | hdue
    · exact Or.inl ⟨k, close_armed hk⟩
    · exact Or.inr (close_due.1 ▸ hdue)

end Machine

end HyperRpc
