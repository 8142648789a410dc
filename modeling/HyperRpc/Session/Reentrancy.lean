import HyperRpc.Session.Timeouts

/-!
# Callbacks that call back

A slot stays with its session while its `done` runs, at any depth of nesting, so whatever an
operation still does to its node afterwards it does to its own session. What nesting does not
protect is the slot of an expiry that has been collected: these runs, too, are safe as long as
`AddSession` takes no such slot and draws no id zero.
-/
namespace HyperRpc

open Lib

namespace Machine

variable {Msg : Type} {env : SessionEnv Msg} {m m' : Machine Msg}

/-! ## Attempts -/

theorem sendCount_of_log_cons {cb : Callback} (hlog : m'.log = cb :: m.log) (c : Closure) :
    m'.sendCount c = m.sendCount c + if cb.isSend c then 1 else 0 := by
  rw [sendCount, hlog, List.countP_cons, sendCount]

theorem sendCount_of_log_eq (hlog : m'.log = m.log) (c : Closure) :
    m'.sendCount c = m.sendCount c := by
  rw [sendCount, hlog, sendCount]

/-- The slot is occupied and its session is not being completed. -/
def Quiet (m : Machine Msg) (i : ℕ) : Prop := m.Live i ∧ ∀ cb ∈ m.stack, cb.slot? ≠ some i

/-- The attempt counter of a session has moved on with each send but the first. -/
structure SendInv (m : Machine Msg) : Prop where
  fresh : ∀ c, c ∉ m.calls → m.sendCount c = 0
  sent : ∀ i c, m.Quiet i → (m.node i).done = some c →
    0 < m.sendCount c ∧ (m.node i).endpointIndex = UInt16.ofNat (m.sendCount c - 1)

/-- No request is sent and no attempt counter of an uncompleted session moves. -/
theorem SendInv.still (hN : m.SendInv) (h : m.Steady m')
    (hsend : ∀ c, m'.sendCount c = m.sendCount c)
    (hindex : ∀ i, m'.Quiet i → m.Quiet i ∧
      (m'.node i).endpointIndex = (m.node i).endpointIndex) : m'.SendInv where
  fresh c hc := by
    rw [hsend]
    exact hN.fresh c fun hmem => hc (h.calls c hmem)
  sent i c hi hc := by
    obtain ⟨hquiet, heq⟩ := hindex i hi
    rw [h.done] at hc
    rw [hsend, heq]
    exact hN.sent i c hquiet hc

theorem quiet_of_stack (h : m.Steady m') {i : ℕ}
    (hstack : ∀ cb ∈ m.stack, cb.slot? ≠ none → cb ∈ m'.stack) (hi : m'.Quiet i) : m.Quiet i :=
  ⟨(h.live i).mp hi.1, fun cb hcb hslot =>
    hi.2 cb (hstack cb hcb (by simp [hslot])) hslot⟩

theorem SendInv.retry {i : ℕ} (hN : m.SendInv) (hT : m.TableInv) (h : m.Steady m')
    (hquiet : m.Quiet i)
    (hindex : ∀ k, (m'.node k).endpointIndex =
      if k = i then (m.node i).endpointIndex + 1 else (m.node k).endpointIndex)
    (hstack : m'.stack = m.retrySend i :: m.stack) (hlog : m'.log = m.retrySend i :: m.log) :
    m'.SendInv := by
  obtain ⟨c₀, hc₀, hd₀⟩ := hT.done_known hquiet.1
  have hsend : ∀ c, m'.sendCount c = m.sendCount c + if c₀ = c then 1 else 0 := by
    intro c
    rw [sendCount_of_log_cons hlog]
    simp [retrySend, Callback.isSend, hd₀]
  constructor
  · intro c hc
    have hne : c₀ ≠ c := by
      rintro rfl
      exact hc (h.calls _ hc₀)
    rw [hsend, if_neg hne]
    exact hN.fresh c fun hmem => hc (h.calls c hmem)
  · intro k c hk hc
    have hqk : m.Quiet k :=
      quiet_of_stack h (fun cb hcb _ => hstack ▸ List.mem_cons_of_mem _ hcb) hk
    rw [h.done] at hc
    obtain ⟨hpos, heq⟩ := hN.sent k c hqk hc
    rw [hindex, hsend]
    by_cases hki : k = i
    · obtain rfl : c₀ = c := Option.some.inj (hd₀.symm.trans (hki ▸ hc))
      obtain ⟨n, hn⟩ : ∃ n, m.sendCount c₀ = n + 1 := ⟨m.sendCount c₀ - 1, by omega⟩
      rw [if_pos hki, if_pos rfl, ← hki, heq, hn]
      simp [UInt16.ofNat_add]
    · have hne : c₀ ≠ c := by
        rintro rfl
        exact hki (hT.inj k i hqk.1 hquiet.1 (hc.trans hd₀.symm))
      rw [if_neg hki, if_neg hne]
      exact ⟨hpos, heq⟩

theorem SendInv.accept {method request response endpoints d j i} (hN : m.SendInv)
    (hd : d ∉ m.calls) (hT : m.TableInv) :
    (m.accept env method request response endpoints d j i).SendInv := by
  have hsend : ∀ c, (m.accept env method request response endpoints d j i).sendCount c =
      m.sendCount c + if d = c then 1 else 0 := by
    intro c
    rw [sendCount_of_log_cons (m := m) rfl]
    simp [Callback.isSend]
  constructor
  · intro c hc
    have hne : d ≠ c := by
      rintro rfl
      exact hc List.mem_cons_self
    rw [hsend, if_neg hne]
    exact hN.fresh c fun hmem => hc (List.mem_cons_of_mem _ hmem)
  · intro k c hk hc
    by_cases hki : k = i
    · subst hki
      rw [accept_node_self] at hc ⊢
      obtain rfl : d = c := Option.some.inj hc
      rw [hsend, if_pos rfl, hN.fresh d hd]
      exact ⟨by decide, rfl⟩
    · have hqk : m.Quiet k := by
        refine ⟨?_, fun cb hcb => hk.2 cb (List.mem_cons_of_mem _ hcb)⟩
        have hlive := hk.1
        rwa [Live, accept_node_of_ne hki] at hlive
      rw [accept_node_of_ne hki] at hc ⊢
      obtain ⟨c', hc', hcd⟩ := hT.done_known hqk.1
      have hne : d ≠ c := by
        rintro rfl
        exact hd (Option.some.inj (hcd.symm.trans hc) ▸ hc')
      rw [hsend, if_neg hne]
      exact hN.sent k c hqk hc

theorem SendInv.step {a : Action Msg} (hN : m.SendInv) (hC : m.Consistent)
    (h : m.Kind env a m') : m'.SendInv := by
  cases h with
  | quiet h hstack hlog =>
    refine hN.still h.toSteady (sendCount_of_log_eq hlog) fun i hi => ⟨?_, h.index i⟩
    exact quiet_of_stack h.toSteady (fun cb hcb _ => hstack ▸ hcb) hi
  | refuse h _ _ _ _ hstack hlog =>
    refine hN.still h.toSteady (sendCount_of_log_cons hlog) fun i hi => ⟨?_, h.index i⟩
    exact quiet_of_stack h.toSteady (fun cb hcb _ => hstack ▸ List.mem_cons_of_mem _ hcb) hi
  | accept _ hd => exact hN.accept hd hC.table
  | @retry _ _ i h hlive hrep hindex hstack hlog =>
    refine hN.retry hC.table h ⟨hlive, fun cb hcb hslot => ?_⟩ hindex hstack hlog
    exact hC.stack.idle hlive hrep cb hcb (Callback.sendId_of_slot hslot)
      (hC.stack.held cb hcb i hslot).2
  | @finish _ _ i r site h _ _ hsite hindex hstack hlog =>
    refine hN.still h (sendCount_of_log_cons hlog) fun k hk => ⟨?_, hindex k ?_⟩
    · exact quiet_of_stack h (fun cb hcb _ => hstack ▸ List.mem_cons_of_mem _ hcb) hk
    · rintro rfl
      exact hk.2 (.done (m.node k).done r site) (hstack ▸ List.mem_cons_self) hsite
  | @loose _ _ cb h hstack hslot hlog =>
    refine hN.still h.toSteady (sendCount_of_log_eq hlog) fun i hi => ⟨?_, h.index i⟩
    refine quiet_of_stack h.toSteady (fun cb' hcb' hne => ?_) hi
    rw [hstack] at hcb'
    rcases List.mem_cons.mp hcb' with rfl | hcb'
    · exact absurd hslot hne
    · exact hcb'
  | @close _ closure result site rest i hstack hslot =>
    have hsend : ∀ c, (m.close env site.cancels i rest).sendCount c = m.sendCount c :=
      sendCount_of_log_eq rfl
    refine ⟨fun c hc => (hsend c).trans (hN.fresh c hc), fun k c hk hc => ?_⟩
    obtain ⟨hki, hlive⟩ := close_live.mp hk.1
    rw [close_node_of_ne hki] at hc ⊢
    rw [hsend]
    refine hN.sent k c ⟨hlive, fun cb hcb hslot' => ?_⟩ hc
    rw [hstack] at hcb
    rcases List.mem_cons.mp hcb with rfl | hcb
    · exact hki (Option.some.inj (hslot'.symm.trans hslot))
    · exact hk.2 cb hcb hslot'

/-! ## Timers of finished sessions -/

/-- Only occupied slots have an armed expiry, and none that has one was collected. -/
structure ArmedInv (m : Machine Msg) : Prop where
  live : ∀ i e, m.st.wheel.armed i = some e → m.Live i
  apart : ∀ e ∈ m.st.wheel.due, m.st.wheel.armed e.slot = none
  fired : ∀ closure r i, .done closure r (.timeout i) ∈ m.stack → m.st.wheel.armed i = none

theorem ArmedInv.of_wheel (hA : m.ArmedInv) (h : m.Steady m')
    (hwheel : m'.st.wheel = m.st.wheel)
    (hstack : ∀ closure r i, .done closure r (.timeout i) ∈ m'.stack →
      .done closure r (.timeout i) ∈ m.stack) : m'.ArmedInv where
  live i e he := (h.live i).mpr (hA.live i e (hwheel ▸ he))
  apart e he := by
    rw [hwheel] at he ⊢
    exact hA.apart e he
  fired closure r i hmem := by
    rw [hwheel]
    exact hA.fired closure r i (hstack closure r i hmem)

theorem ArmedInv.turn (hA : m.ArmedInv) (hW : m.TimerInv env) (h : m.Steady m')
    (hstack : m'.stack = m.stack) (hturn : m.Turn m'.st.wheel) : m'.ArmedInv := by
  have hnone : ∀ i, m.st.wheel.armed i = none → m'.st.wheel.armed i = none := by
    intro i hi
    cases hi' : m'.st.wheel.armed i with
    | none => rfl
    | some e => exact absurd (hturn.armed hi') (by simp [hi])
  refine ⟨fun i e he => (h.live i).mpr (hA.live i e (hturn.armed he)), fun e he => ?_,
    fun closure r i hmem => hnone i (hA.fired closure r i (hstack ▸ hmem))⟩
  cases hturn with
  | still hw => exact hnone _ (hA.apart e (hw ▸ he))
  | tick hdue hw => simp [hw, hdue] at he
  | @collect slot e₀ harmed _ hw =>
    rw [hw] at he
    rcases List.mem_append.mp he with he | he
    · exact hnone _ (hA.apart e he)
    · obtain rfl := List.mem_singleton.mp he
      rw [hw, hW.slot slot e harmed]
      simp [TimerWheel.disarm]
  | drop _ _ hw =>
    rw [hw] at he
    exact hnone _ (hA.apart e (List.mem_of_mem_eraseIdx he))

theorem ArmedInv.accept {method request response endpoints d j i} (hA : m.ArmedInv)
    (hS : m.StackInv m.stack) (hfree : m.st.mgr.FirstFree j i)
    (hne : (m.st.mgr.advance (j + 1)).nextRpcId ≠ 0) (hquiet : ∀ e ∈ m.st.wheel.due, e.slot ≠ i) :
    (m.accept env method request response endpoints d j i).ArmedInv := by
  have harmed : ∀ k, k ≠ i → (m.accept env method request response endpoints d j i).st.wheel.armed
      k = m.st.wheel.armed k := by
    intro k hk
    simp [Machine.accept, TimerWheel.arm, hk]
  refine ⟨fun k e he => ?_, fun e he => ?_, fun closure r k hmem => ?_⟩
  · by_cases hki : k = i
    · rw [hki, Live, accept_node_self]
      exact hne
    · rw [harmed k hki] at he
      rw [Live, accept_node_of_ne hki]
      exact hA.live k e he
  · rw [harmed _ (hquiet e he)]
    exact hA.apart e he
  · have hold : Callback.done closure r (.timeout k) ∈ m.stack :=
      (List.mem_cons.mp hmem).resolve_left (by simp)
    have hki : k ≠ i := by
      rintro rfl
      exact (hS.held (.done closure r (.timeout k)) hold k rfl).1 hfree.free
    rw [harmed k hki]
    exact hA.fired closure r k hold

theorem ArmedInv.close {closure result site rest i} (hA : m.ArmedInv)
    (hstack : m.stack = .done closure result site :: rest) (hslot : site.slot? = some i) :
    (m.close env site.cancels i rest).ArmedInv := by
  have hnone : ∀ k, m.st.wheel.armed k = none →
      (m.close env site.cancels i rest).st.wheel.armed k = none := by
    intro k hk
    cases hk' : (m.close env site.cancels i rest).st.wheel.armed k with
    | none => rfl
    | some e => exact absurd (close_armed hk') (by simp [hk])
  refine ⟨fun k e he => close_live.mpr ⟨?_, hA.live k e (close_armed he)⟩, fun e he => ?_,
    fun closure' r k hmem => ?_⟩
  · rintro rfl
    -- either the timer was cancelled just now or its expiry has run
    cases site with
    | noRoute => simp [DoneSite.slot?] at hslot
    | refused => simp [DoneSite.slot?] at hslot
    | lastEndpoint l =>
      obtain rfl : l = k := Option.some.inj hslot
      simp [DoneSite.cancels, Machine.close, SessionState.freeSessionNode,
        SessionState.cancelTimer, TimerWheel.disarm] at he
    | response l =>
      obtain rfl : l = k := Option.some.inj hslot
      simp [DoneSite.cancels, Machine.close, SessionState.freeSessionNode,
        SessionState.cancelTimer, TimerWheel.disarm] at he
    | timeout l =>
      obtain rfl : l = k := Option.some.inj hslot
      rw [hnone l (hA.fired closure result l (hstack ▸ List.mem_cons_self))] at he
      cases he
  · exact hnone _ (hA.apart e (close_due.1 ▸ he))
  · exact hnone k (hA.fired closure' r k (hstack ▸ List.mem_cons_of_mem _ hmem))

theorem ArmedInv.step {a : Action Msg} (hA : m.ArmedInv) (hC : m.Consistent)
    (hW : m.TimerInv env) (hquiet : m.TakesQuietSlot a) (hne : m.DrawsNonzero a)
    (h : m.Kind env a m') : m'.ArmedInv := by
  cases h with
  | quiet h hstack _ hturn => exact hA.turn hW h.toSteady hstack hturn
  | refuse h _ _ _ hsite hstack _ hwheel =>
    refine hA.of_wheel h.toSteady hwheel fun closure r i hmem => ?_
    rw [hstack] at hmem
    refine (List.mem_cons.mp hmem).resolve_left fun heq => ?_
    obtain ⟨-, -, rfl⟩ := Callback.done.inj heq
    simp [DoneSite.slot?] at hsite
  | accept _ _ hfree => exact hA.accept hC.stack hfree (hne _ _ hfree) (hquiet _ _ hfree)
  | retry h _ _ _ hstack _ hwheel =>
    refine hA.of_wheel h hwheel fun closure r i hmem => ?_
    rw [hstack] at hmem
    exact (List.mem_cons.mp hmem).resolve_left (by simp [retrySend])
  | @finish _ _ i r site h hlive hrep hsite _ hstack _ hwheel =>
    rcases hwheel with ⟨hsite', hwheel⟩ | ⟨rfl, -, k, e₀, hdue, hslot, hwheel⟩
    · refine hA.of_wheel h hwheel fun closure r l hmem => ?_
      rw [hstack] at hmem
      refine (List.mem_cons.mp hmem).resolve_left fun heq => ?_
      obtain ⟨-, -, rfl⟩ := Callback.done.inj heq
      obtain rfl : l = i := Option.some.inj hsite
      exact hsite' rfl
    · refine ⟨fun l e he => (h.live l).mpr (hA.live l e (by rwa [hwheel] at he)), fun e he => ?_,
        fun closure r l hmem => ?_⟩
      · rw [hwheel] at he ⊢
        exact hA.apart e (List.mem_of_mem_eraseIdx he)
      · rw [hwheel]
        rw [hstack] at hmem
        rcases List.mem_cons.mp hmem with heq | hmem
        · obtain ⟨-, -, heq⟩ := Callback.done.inj heq
          obtain rfl : l = i := DoneSite.timeout.inj heq
          exact hslot ▸ hA.apart e₀ (List.mem_of_getElem? hdue)
        · exact hA.fired closure r l hmem
  | loose h hstack _ _ hwheel =>
    exact hA.of_wheel h.toSteady hwheel fun closure r i hmem =>
      hstack ▸ List.mem_cons_of_mem _ hmem
  | close hstack hslot => exact hA.close hstack hslot

/-! ## Nested runs -/

/-- No left-over expiry waits for the slot `AddSession` takes, and the id is not zero. -/
def TakesSafeSlot (m : Machine Msg) (a : Action Msg) : Prop := m.TakesQuietSlot a ∧ m.DrawsNonzero a

/-- What holds of guarded runs at any depth. -/
structure Guarded (env : SessionEnv Msg) (mgr : SessionManager) (m : Machine Msg) : Prop where
  wellFormed : m.WellFormed env mgr
  own : m.OwnExpiries
  sends : m.SendInv
  armed : m.ArmedInv
  nonzero : ∀ σ ∈ m.sessions, σ.rpcId ≠ 0

theorem Guarded.step {mgr : SessionManager} (h : m.Guarded env mgr) {a : Action Msg}
    (hok : m.TakesSafeSlot a) (hstep : m.step env a = some m') : m'.Guarded env mgr := by
  have hkind := (step_trans hstep).kind
  have hC := h.wellFormed.consistent
  exact ⟨h.wellFormed.step hstep, h.own.step h.wellFormed.timers hok.1 hkind,
    h.sends.step hC hkind, h.armed.step hC h.wellFormed.timers hok.1 hok.2 hkind,
    hkind.rpcId_ne_zero hok.2 h.nonzero⟩

theorem ReachableIf.guarded {size core : UInt64} {rand : UInt32} {memory : ℕ → SessionNode}
    {mgr : SessionManager} {now : ℕ} {mem : MsgRef → Msg}
    (hinit : SessionManager.init size core rand memory = some mgr)
    (h : ReachableIf env TakesSafeSlot mgr now mem m) : m.Guarded env mgr := by
  refine Reaches.invariant (fun hI hok hstep => Guarded.step hI hok hstep) h
    ⟨wellFormed_start hinit, ownExpiries_start, ?_, ?_, by simp [start]⟩
  · exact ⟨fun _ _ => rfl, fun i _ hi => absurd ((SessionManager.init_fresh hinit).2 i).1 hi.1⟩
  · exact ⟨by simp [start], by simp [start], by simp [start]⟩

/-- Safety of nesting: a running `done` keeps its slot, so that the code after it acts on its own
session; no `done` is called twice; once the outermost call has returned, completed sessions
have neither slot nor armed expiry, and all others are as they were added but for the attempts
made for them; an expiry only meets the session whose node it was bound for. -/
structure NestingSafe (m : Machine Msg) : Prop where
  busy : ∀ closure r site i, .done closure r site ∈ m.stack → site.slot? = some i →
    m.Live i ∧ ∃ σ ∈ m.sessions, (m.node i).Holds σ ∧ closure = some σ.done
  once : ∀ σ ∈ m.sessions, m.doneCount σ.done ≤ 1
  settled : m.stack = [] → ∀ σ ∈ m.sessions, m.doneCount σ.done = 1 →
    (∀ i, (m.node i).done ≠ some σ.done) ∧
      ∀ i e, m.st.wheel.armed i = some e → e.armedBy ≠ σ.done
  intact : m.stack = [] → ∀ σ ∈ m.sessions, m.doneCount σ.done = 0 →
    ∃ i, m.Live i ∧ (m.node i).Holds σ ∧ 0 < m.sendCount σ.done ∧
      (m.node i).endpointIndex = UInt16.ofNat (m.sendCount σ.done - 1) ∧
      ∃ e, m.st.wheel.Pending e ∧ e.slot = i ∧ e.armedBy = σ.done
  bound : ∀ e ∈ m.st.wheel.due, m.Live e.slot → (m.node e.slot).done = some e.armedBy

theorem Guarded.nestingSafe {mgr : SessionManager} (h : m.Guarded env mgr) : m.NestingSafe := by
  have hwf := h.wellFormed
  have hT := hwf.consistent.table
  refine ⟨?_, fun σ _ => hwf.consistent.ledger.once σ.done, ?_, ?_, fun e he =>
    h.own e (Or.inr he)⟩
  · intro closure r site i hmem hslot
    obtain ⟨hlive, hdone⟩ := hwf.consistent.stack.held _ hmem i hslot
    obtain ⟨σ, hσ, hh⟩ := hT.held i hlive
    exact ⟨hlive, σ, hσ, hh, hdone.symm.trans hh.done⟩
  · intro hidle σ hσ hone
    have hgone : ∀ i, (m.node i).done ≠ some σ.done := by
      intro i hdone
      by_cases hlive : m.Live i
      · have hzero := hwf.doneCount_of_live hidle hlive hdone
        omega
      · rw [hT.free h.nonzero i hlive] at hdone
        cases hdone
    refine ⟨hgone, fun i e he heq => ?_⟩
    have hslot := hwf.timers.slot i e he
    have hdone := h.own e (Or.inl ⟨i, he⟩) (hslot ▸ h.armed.live i e he)
    exact hgone _ (heq ▸ hdone)
  · intro hidle σ hσ hzero
    rcases hwf.consistent.ledger.finished σ hσ (h.nonzero σ hσ) with ⟨i, hlive, hdone⟩ | hone
    · obtain ⟨τ, hτ, hh⟩ := hT.held i hlive
      obtain rfl := hT.distinct τ hτ σ hσ (Option.some.inj (hh.done.symm.trans hdone))
      obtain ⟨hpos, hindex⟩ := h.sends.sent i τ.done
        ⟨hlive, fun cb hcb => absurd hcb (hidle ▸ List.not_mem_nil)⟩ hdone
      obtain ⟨e, he, hslot⟩ := hwf.timers.pending_of_expects (hwf.expects_of_live hidle hlive)
      have hown := h.own e he (hslot ▸ hlive)
      rw [hslot, hdone] at hown
      exact ⟨i, hlive, hh, hpos, hindex, e, he, hslot, (Option.some.inj hown).symm⟩
    · omega

/-- Nested runs are safe at any depth and in every state they pass. -/
theorem reentrancy_safe {size core : UInt64} {rand : UInt32} {memory : ℕ → SessionNode}
    {mgr : SessionManager} {now : ℕ} {mem : MsgRef → Msg}
    (hinit : SessionManager.init size core rand memory = some mgr)
    (h : ReachableIf env TakesSafeSlot mgr now mem m) : m.NestingSafe :=
  (ReachableIf.guarded hinit h).nestingSafe

theorem takesSafeSlot_of_check (m : Machine Msg) (a : Action Msg)
    (h : (decide (m.st.wheel.due = [] ∧
      m.st.mgr.nextRpcId.toNat / 2 ^ kRpcIdSeqPartBits ≠ 0)) = true) : m.TakesSafeSlot a :=
  have hboth := of_decide_eq_true h
  ⟨takesQuietSlot_of_due_nil hboth.1, drawsNonzero_of_core hboth.2 a⟩

/-- While the first request of call 10 is being sent the transport reports its failure and,
inside the second attempt, a response; its `done` makes call 11. -/
theorem reentrancy_safe_pair : ∃ m,
    ReachableIf emptyEnv TakesSafeSlot pairManager 0 (fun _ => ()) m ∧ m.stack.length = 4 ∧
      m.NestingSafe := by
  obtain ⟨m, hm, hp⟩ := exists_reachesIf_of_run (step emptyEnv) (start pairManager 0 fun _ => ())
    [.addSession pingMethod 0 1 [⟨1, 1⟩, ⟨2, 2⟩] 10, .onSendRequestFailed 0x1000000000001,
      .onRecvResponse [80] [112] 0x1000000000001 .kSuccess [],
      .addSession pingMethod 2 3 [⟨1, 1⟩] 11]
    (fun m _ =>
      decide (m.st.wheel.due = [] ∧ m.st.mgr.nextRpcId.toNat / 2 ^ kRpcIdSeqPartBits ≠ 0))
    (fun m => decide (m.stack.length = 4)) takesSafeSlot_of_check (by decide +kernel)
  exact ⟨m, hm, of_decide_eq_true hp, reentrancy_safe pairManager_init hm⟩

/-- After the left-over expiry has completed call 12, that call's own expiry is still armed. -/
theorem stale_expiry_leaves_timer : ∃ m, Reachable emptyEnv pairManager 0 (fun _ => ()) m ∧
    ¬ m.NestingSafe := by
  obtain ⟨m, hm, hp⟩ := exists_reaches_of_run (step emptyEnv) (start pairManager 0 fun _ => ())
    (staleSchedule ++ [.expire 0, .ret])
    (fun m => decide (m.stack = [] ∧ m.doneCount 12 = 1 ∧ (∃ σ ∈ m.sessions, σ.done = 12) ∧
      m.st.wheel.armed 1 = some ⟨1, 10, 12⟩)) (by decide +kernel)
  obtain ⟨hidle, hone, ⟨σ, hσ, hd⟩, harmed⟩ := of_decide_eq_true hp
  refine ⟨m, hm, fun hsafe => ?_⟩
  exact (hsafe.settled hidle σ hσ (hd ▸ hone)).2 1 _ harmed hd.symm

end Machine

end HyperRpc
