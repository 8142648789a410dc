import HyperRpc.Session.Runs

/-!
# Accounting for sessions

Between two operations every accepted session either waits in the one slot its id maps to,
with an expiry of that slot ahead of it, or its `done` has been called once and no slot knows
it any more. The id zero stands for an empty slot, but on the last core it is drawn once in a
turn of the counter. A session that is given it sits in a slot that counts as free.
-/
namespace HyperRpc

open Lib

/-- A service with one method, for the runs below. -/
def pingMethod : MethodDescriptor :=
  ⟨⟨[], [80], [⟨[112], [], []⟩], by decide⟩, ⟨0, by decide⟩⟩

/-- Messages without fields; only the empty body is one. -/
def emptyEnv : SessionEnv Unit where
  defaultRpcTimeout := 5
  parseFromArray := fun _ body => ((), body.isEmpty)
  hasTimerAfterCancel := true
  hasTimerAfterExpiry := false

def blankNode : SessionNode := ⟨0, pingMethod, 0, 0, none, false, 0, []⟩

namespace Machine

variable {Msg : Type} {env : SessionEnv Msg} {m m' : Machine Msg} {size core : UInt64}
  {rand : UInt32} {memory : ℕ → SessionNode} {mgr : SessionManager} {now : ℕ}
  {mem : MsgRef → Msg}

/-- The session has not been completed and sits in the slot of its id. -/
structure Waits (m : Machine Msg) (σ : Session) : Prop where
  silent : m.doneCount σ.done = 0
  inside : m.st.mgr.slotOf σ.rpcId < 2 ^ m.st.mgr.poolSizeOrder
  holds : (m.node (m.st.mgr.slotOf σ.rpcId)).Holds σ
  only : ∀ i, (m.node i).done = some σ.done → i = m.st.mgr.slotOf σ.rpcId
  expiry : ∃ e, m.st.wheel.Pending e ∧ e.slot = m.st.mgr.slotOf σ.rpcId

/-- The session has been completed and is in no slot. -/
structure Finished (m : Machine Msg) (σ : Session) : Prop where
  once : m.doneCount σ.done = 1
  nowhere : ∀ i, (m.node i).done ≠ some σ.done

structure Accounted (m : Machine Msg) : Prop where
  sessions : ∀ σ ∈ m.sessions, Xor (m.Waits σ) (m.Finished σ)
  occupied : ∀ i, m.Live i → ∃ σ ∈ m.sessions, m.Waits σ ∧ m.st.mgr.slotOf σ.rpcId = i
  free : ∀ i, ¬ m.Live i → (m.node i).done = none

theorem TimerInv.pending_of_expects (hW : m.TimerInv env) {i : ℕ} (h : m.st.wheel.Expects i) :
    ∃ e, m.st.wheel.Pending e ∧ e.slot = i := by
  rcases h with hsome | ⟨e, he, hslot⟩
  · obtain ⟨e, he⟩ := Option.isSome_iff_exists.mp hsome
    exact ⟨e, Or.inl ⟨i, he⟩, hW.slot i e he⟩
  · exact ⟨e, Or.inr he, hslot⟩

/-- Between two operations the session in an occupied slot waits. -/
theorem WellFormed.waits (h : m.WellFormed env mgr) (hsized : mgr.Sized) (hidle : m.stack = [])
    (hfree : ∀ i, ¬ m.Live i → (m.node i).done = none) {i : ℕ} {σ : Session} (hlive : m.Live i)
    (hh : (m.node i).Holds σ) : m.Waits σ ∧ m.st.mgr.slotOf σ.rpcId = i := by
  have hT := h.consistent.table
  have hslot : m.st.mgr.slotOf σ.rpcId = i := hh.rpcId ▸ hT.slot i hlive
  refine ⟨⟨h.doneCount_of_live hidle hlive hh.done, (h.sized hsized).slotOf_lt _, ?_, ?_, ?_⟩,
    hslot⟩
  · rwa [hslot]
  · intro k hk
    have hlk : m.Live k := by
      by_contra hfk
      rw [hfree k hfk] at hk
      cases hk
    rw [hslot]
    exact hT.inj k i hlk hlive (hk.trans hh.done.symm)
  · rw [hslot]
    exact h.timers.pending_of_expects (h.expects_of_live hidle hlive)

theorem WellFormed.accounted (h : m.WellFormed env mgr) (hsized : mgr.Sized)
    (hidle : m.stack = []) (hids : ∀ σ ∈ m.sessions, σ.rpcId ≠ 0) : m.Accounted := by
  have hT := h.consistent.table
  have hfree := hT.free hids
  refine ⟨fun σ hσ => ?_, fun i hlive => ?_, hfree⟩
  · rcases h.consistent.ledger.finished σ hσ (hids σ hσ) with ⟨i, hlive, hdone⟩ | hone
    · obtain ⟨τ, hτ, hh⟩ := hT.held i hlive
      obtain rfl := hT.distinct τ hτ σ hσ (Option.some.inj (hh.done.symm.trans hdone))
      have hwaits := (h.waits hsized hidle hfree hlive hh).1
      refine Or.inl ⟨hwaits, fun hfin => ?_⟩
      exact absurd (hwaits.silent.symm.trans hfin.once) (by decide)
    · refine Or.inr ⟨⟨hone, fun i hdone => ?_⟩, fun hwaits => ?_⟩
      · by_cases hlive : m.Live i
        · have hzero := h.doneCount_of_live hidle hlive hdone
          omega
        · rw [hfree i hlive] at hdone
          cases hdone
      · exact absurd (hwaits.silent.symm.trans hone) (by decide)
  · obtain ⟨σ, hσ, hh⟩ := hT.held i hlive
    exact ⟨σ, hσ, h.waits hsized hidle hfree hlive hh⟩

/-- A session with the id zero is never completed, and its slot counts as free. -/
theorem Accounted.rpcId_ne_zero (hacc : m.Accounted) (hL : m.LedgerInv) :
    ∀ σ ∈ m.sessions, σ.rpcId ≠ 0 := by
  intro σ hσ hzero
  rcases hacc.sessions σ hσ with ⟨hwaits, -⟩ | ⟨hfin, -⟩
  · have hfree : ¬ m.Live (m.st.mgr.slotOf σ.rpcId) :=
      fun hlive => hlive (hwaits.holds.rpcId.trans hzero)
    have hdone := hwaits.holds.done
    rw [hacc.free _ hfree] at hdone
    cases hdone
  · have hsilent := hL.silent σ hσ hzero
    rw [hfin.once] at hsilent
    cases hsilent

/-- Accounting holds at every moment between two operations of every run that gives no session
the id zero, whatever the order of responses, failures, expiries and left-over expiries, and
also for operations that nest; and it holds of no other state. -/
theorem session_accounting (hinit : SessionManager.init size core rand memory = some mgr)
    (hsize : size.toNat ≤ 2 ^ 48) (hidle : m.stack = []) :
    (ReachableIf env DrawsNonzero mgr now mem m → m.Accounted) ∧
      (Reachable env mgr now mem m → (m.Accounted ↔ ∀ σ ∈ m.sessions, σ.rpcId ≠ 0)) := by
  have hsized := SessionManager.sized_of_init hinit hsize
  refine ⟨fun h => ?_, fun h => ⟨fun hacc => ?_, fun hids => ?_⟩⟩
  · exact (ReachableIf.wellFormed hinit h).accounted hsized hidle (ReachableIf.rpcId_ne_zero h)
  · exact hacc.rpcId_ne_zero (ReachableIf.wellFormed hinit h).consistent.ledger
  · exact (ReachableIf.wellFormed hinit h).accounted hsized hidle hids

/-- A manager of two slots on core 0. -/
def pairManager : SessionManager :=
  (SessionManager.init 2 0 0 fun _ => blankNode).get (by decide)

theorem pairManager_init : SessionManager.init 2 0 0 (fun _ => blankNode) = some pairManager :=
  (Option.some_get _).symm

/-- One slot, on the core whose id plus one has no 16-bit value but zero. -/
def wrappedManager : SessionManager :=
  (SessionManager.init 1 65535 0xFFFFFFFF fun _ => blankNode).get (by decide)

theorem wrappedManager_init :
    SessionManager.init 1 65535 0xFFFFFFFF (fun _ => blankNode) = some wrappedManager :=
  (Option.some_get _).symm

theorem drawsNonzero_of_check (m : Machine Msg) (a : Action Msg)
    (h : decide (m.st.mgr.poolSizeOrder = 0 ∧ (m.st.mgr.advance 1).nextRpcId ≠ 0) = true) :
    m.DrawsNonzero a := by
  obtain ⟨horder, hne⟩ := of_decide_eq_true h
  cases a with
  | addSession =>
    intro j i hff
    obtain rfl : j = 0 := by
      have hlt := hff.within
      rw [horder] at hlt
      omega
    exact hne
  | _ => trivial

/-- On the last core the first session is completed and the second waits. -/
theorem session_accounting_wrapped : ∃ m,
    ReachableIf emptyEnv DrawsNonzero wrappedManager 0 (fun _ => ()) m ∧ m.doneCount 10 = 1 ∧
      m.doneCount 11 = 0 ∧ m.Accounted ∧ m.sessions.length = 2 ∧
      ∀ σ ∈ m.sessions, σ.rpcId ≠ 0 := by
  obtain ⟨m, hm, hp⟩ := exists_reachesIf_of_run (step emptyEnv)
    (start wrappedManager 0 fun _ => ())
    [.addSession pingMethod 0 1 [⟨1, 1⟩] 10, .ret,
      .onRecvResponse [80] [112] 0xFFFFFFFF0001 .kSuccess [], .ret,
      .addSession pingMethod 2 3 [⟨1, 1⟩] 11, .ret]
    (fun m _ => decide (m.st.mgr.poolSizeOrder = 0 ∧ (m.st.mgr.advance 1).nextRpcId ≠ 0))
    (fun m => decide (m.doneCount 10 = 1 ∧ m.doneCount 11 = 0 ∧ m.stack = [] ∧
      m.sessions.length = 2)) drawsNonzero_of_check (by decide +kernel)
  obtain ⟨hone, hzero, hidle, hlen⟩ := of_decide_eq_true hp
  obtain ⟨hguarded, hexact⟩ := session_accounting wrappedManager_init (by decide) hidle
  have hacc := hguarded hm
  exact ⟨m, hm, hone, hzero, hacc, hlen,
    (hexact (hm.mono fun _ _ _ => trivial)).mp hacc⟩

/-! ## The id zero -/

/-- Between two operations, with the one slot of `wrappedManager` occupied. -/
structure Occupied (n : ℕ) (m : Machine Unit) : Prop where
  operated : Operated emptyEnv wrappedManager 0 (fun _ => ()) m
  idle : m.stack = []
  live : m.Live 0
  drawn : m.st.mgr.drawn = n

namespace Occupied

variable {n : ℕ} {m : Machine Unit}

theorem wellFormed (h : Occupied n m) : m.WellFormed emptyEnv wrappedManager :=
  ReachableIf.wellFormed wrappedManager_init h.operated.reachable

theorem slotOf_eq (hwf : m.WellFormed emptyEnv wrappedManager) (x : UInt64) :
    m.st.mgr.slotOf x = 0 := by
  have hmask : wrappedManager.poolSizeMask = 0 := by decide
  rw [SessionManager.slotOf, hwf.size.2, hmask, UInt64.and_zero, UInt64.toNat_zero]

theorem fresh (m : Machine Unit) : ∃ d, d ∉ m.calls := by
  obtain ⟨d, hd⟩ := Infinite.exists_notMem_finset m.calls.toFinset
  exact ⟨d, by simpa using hd⟩

/-- A refused `AddSession` burns one id. -/
theorem refuse (h : Occupied n m) : ∃ m', Occupied (n + 1) m' := by
  obtain ⟨d, hd⟩ := fresh m
  have hwf := h.wellFormed
  have hstep : m.step emptyEnv (.addSession pingMethod 0 0 [⟨1, 1⟩] d) =
      some (m.addSession emptyEnv pingMethod 0 0 [⟨1, 1⟩] d) :=
    if_pos ⟨by simp [inUserCode, h.idle], hd, by simp⟩
  have horder : m.st.mgr.poolSizeOrder = 0 := hwf.size.1
  have htrans := step_trans hstep
  generalize m.addSession emptyEnv pingMethod 0 0 [⟨1, 1⟩] d = m₁ at htrans hstep
  cases htrans with
  | tooLong _ _ hlen => simp at hlen
  | accepted _ _ _ _ hfree =>
    have hslot := hfree.slot
    rw [SessionManager.probe, slotOf_eq hwf] at hslot
    exact absurd (hslot ▸ hfree.free) h.live
  | poolFull =>
    refine ⟨_, h.operated.tail trivial (operation_of_returns hstep rfl), h.idle, ?_, ?_⟩
    · simpa [Live, node, SessionState.resume] using h.live
    · simp [SessionState.resume, horder, h.drawn]

theorem exists_occupied (n : ℕ) : ∃ m, Occupied (n + 1) m := by
  induction n with
  | zero =>
    obtain ⟨m, hm, hp⟩ := exists_reaches_of_run (operation emptyEnv)
      (start wrappedManager 0 fun _ => ()) [.addSession pingMethod 0 0 [⟨1, 1⟩] 0]
      (fun m => decide (m.stack = [] ∧ (m.node 0).rpcId ≠ 0 ∧ m.st.mgr.drawn = 1))
      (by decide +kernel)
    obtain ⟨hidle, hlive, hdrawn⟩ := of_decide_eq_true hp
    exact ⟨m, hm, hidle, hlive, hdrawn⟩
  | succ n ih =>
    obtain ⟨m, hm⟩ := ih
    exact hm.refuse

/-- A response empties the slot. -/
theorem complete (h : Occupied n m) :
    ∃ m', Operated emptyEnv wrappedManager 0 (fun _ => ()) m' ∧ m'.stack = [] ∧ ¬ m'.Live 0 ∧
      m'.st.mgr.drawn = n := by
  have hwf := h.wellFormed
  have hfind : m.st.mgr.findSessionNode (m.node 0).rpcId = some 0 :=
    m.st.mgr.findSessionNode_eq_some.mpr ⟨(slotOf_eq hwf _).symm, rfl⟩
  have hstep : m.step emptyEnv (.onRecvResponse (m.node 0).method.service.name
      (m.node 0).method.name (m.node 0).rpcId .kSuccess []) =
      some (m.onRecvResponse emptyEnv (m.node 0).method.service.name (m.node 0).method.name
        (m.node 0).rpcId .kSuccess []) :=
    if_pos ⟨by simp [mayReport, h.idle], h.live⟩
  have htrans := step_trans hstep
  generalize m.onRecvResponse emptyEnv _ _ _ _ _ = m₁ at htrans hstep
  cases htrans with
  | respIgnored _ _ hbad => simp [hfind] at hbad
  | respUnparsed _ _ _ _ hparse => simp [parsed, emptyEnv] at hparse
  | respDone _ _ hfind' =>
    obtain rfl : 0 = _ := Option.some.inj (hfind.symm.trans hfind')
    refine ⟨_, h.operated.tail trivial (operation_of_returns hstep rfl), h.idle, fun hlive => ?_,
      h.drawn⟩
    exact hlive (by simp [node, SessionState.resume, SessionState.freeSessionNode,
      SessionManager.freeSessionNode])

end Occupied

/-- After 65535 ids the next session of `wrappedManager` is given the id zero. -/
theorem session_accounting_fails : ∃ size core rand memory mgr m,
    SessionManager.init size core rand memory = some mgr ∧ size.toNat ≤ 2 ^ 48 ∧
      Operated emptyEnv mgr 0 (fun _ => ()) m ∧ m.stack = [] ∧ ¬ m.Accounted := by
  obtain ⟨m₀, hm₀⟩ := Occupied.exists_occupied 65534
  obtain ⟨m, hrun, hidle, hfree, hdrawn⟩ := hm₀.complete
  have hwf := ReachableIf.wellFormed wrappedManager_init hrun.reachable
  obtain ⟨d, hd⟩ := Occupied.fresh m
  have hstep : m.step emptyEnv (.addSession pingMethod 0 0 [⟨1, 1⟩] d) =
      some (m.addSession emptyEnv pingMethod 0 0 [⟨1, 1⟩] d) :=
    if_pos ⟨by simp [inUserCode, hidle], hd, by simp⟩
  have htrans := step_trans hstep
  generalize m.addSession emptyEnv pingMethod 0 0 [⟨1, 1⟩] d = m₁ at htrans hstep
  cases htrans with
  | tooLong _ _ hlen => simp at hlen
  | poolFull _ _ _ hfull =>
    have hslot : m.st.mgr.probe 0 = 0 := Occupied.slotOf_eq hwf _
    exact absurd (hslot ▸ hfull 0 (by positivity)) hfree
  | @accepted _ _ _ _ _ _ _ _ _ j i hff =>
    obtain rfl : 0 = i := (Occupied.slotOf_eq hwf _).symm.trans hff.slot
    obtain rfl : j = 0 := by
      have hlt := hff.within
      rw [hwf.size.1, show wrappedManager.poolSizeOrder = 0 by decide] at hlt
      omega
    refine ⟨1, 65535, 0xFFFFFFFF, _, wrappedManager, _, wrappedManager_init, by decide,
      hrun.tail trivial (operation_of_returns hstep rfl), hidle, fun hacc => ?_⟩
    -- the 65536-th id is zero, so the slot counts as free although it holds a closure
    have hzero : (m.st.mgr.advance 1).nextRpcId = 0 := by
      apply UInt64.toNat_inj.mp
      rw [counter_advance hwf.ids, hdrawn]
      decide +kernel
    have hdone := hacc.free 0 (by simp [Live, node, Machine.accept, SessionState.resume, hzero])
    simp [node, Machine.accept, SessionState.resume] at hdone

end Machine

end HyperRpc
