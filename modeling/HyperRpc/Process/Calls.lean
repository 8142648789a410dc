import HyperRpc.Process.Cores
import HyperRpc.Process.Dispatch

/-!
# No call is lost

Every closure ever passed to `CallMethod` is in one place: in a posted task, among those that
`CallMethod` has refused itself, or handed to one core. A core answers it or keeps it in a
session, unless the list of endpoints is longer than the attempt counter can count, for which
`AddSession` returns without a word, or the id of the session is zero.
-/
namespace HyperRpc

open Lib

variable {Msg : Type} {env : RpcEnv Msg} {services : List (Service Msg)}

/-- The closure of a call that is still to be dispatched. -/
def Task.done? : Task → Option Closure
  | .callMethod _ _ _ _ done => some done
  | _ => none

namespace Process

variable {p p' : Process Msg} {c : ℕ}

/-- How often a closure has been handed to a core. -/
def handed (env : RpcEnv Msg) (p : Process Msg) (d : Closure) : ℕ :=
  ∑ c ∈ Finset.range env.workerNum, (p.cores c).calls.count d

/-- In how many places a closure is. -/
def placed (env : RpcEnv Msg) (p : Process Msg) (d : Closure) : ℕ :=
  p.tasks.countP (fun t => t.done? = some d) + p.refused.count d + p.handed env d

/-- How often a closure has been invoked. -/
def invoked (env : RpcEnv Msg) (p : Process Msg) (d : Closure) : ℕ :=
  p.refused.count d + ∑ c ∈ Finset.range env.workerNum, (p.cores c).doneCount d

theorem sum_of_one {f g : ℕ → ℕ} {n k : ℕ} (hc : c < n) (hself : g c = f c + k)
    (hothers : ∀ d, d ≠ c → g d = f d) :
    ∑ d ∈ Finset.range n, g d = ∑ d ∈ Finset.range n, f d + k := by
  have hmem := Finset.mem_range.mpr hc
  have herase : ∑ d ∈ (Finset.range n).erase c, g d = ∑ d ∈ (Finset.range n).erase c, f d :=
    Finset.sum_congr rfl fun d hd => hothers d (Finset.ne_of_mem_erase hd)
  rw [← Finset.add_sum_erase _ g hmem, ← Finset.add_sum_erase _ f hmem, herase, hself]
  omega

theorem CoreStep.handed {act : Action Msg} (h : p.CoreStep env c act p') (hc : c < env.workerNum)
    (d : Closure) : p'.handed env d = p.handed env d + if act.call? = some d then 1 else 0 := by
  refine sum_of_one hc ?_ fun e he => by rw [h.others e he]; rfl
  rcases (Machine.step_trans h.machine).calls_cases with ⟨hnone, hsame⟩ | ⟨d', hd', -, hcons⟩
  · simp [hnone, hsame]
  · simp [hd', hcons, List.count_cons]

theorem CoreStep.placed {act : Action Msg} (h : p.CoreStep env c act p') (hc : c < env.workerNum)
    (d : Closure) : p'.placed env d = p.placed env d + if act.call? = some d then 1 else 0 := by
  rw [Process.placed, h.tasks, h.refused, h.handed hc, Process.placed]
  omega

theorem placed_post (task : Task) (posted : Bool) (d : Closure) :
    (p.post task posted).placed env d =
      p.placed env d + if posted ∧ task.done? = some d then 1 else 0 := by
  have hrest : (p.post task posted).refused = p.refused ∧
      (p.post task posted).handed env d = p.handed env d := by cases posted <;> exact ⟨rfl, rfl⟩
  rw [placed, countP_post, hrest.1, hrest.2, placed]
  simp only [decide_eq_true_eq]
  omega

theorem placed_dropTask {k : ℕ} {task : Task} (h : p.tasks[k]? = some task) (d : Closure) :
    p.placed env d =
      (p.dropTask k).placed env d + if task.done? = some d then 1 else 0 := by
  simp only [placed, countP_dropTask h, decide_eq_true_eq, handed, dropTask]
  omega

theorem Recv.placed {buf : List UInt8} {addr : Addr} {dst : ℕ}
    (h : p.Recv env services c buf addr p' dst) (hc : c < env.workerNum) (d : Closure) :
    p'.placed env d = p.placed env d ∧ p'.issued = p.issued := by
  cases h with
  | dropped => exact ⟨rfl, rfl⟩
  | invoked => exact ⟨rfl, rfl⟩
  | responded _ hstep => exact ⟨hstep.placed hc d, hstep.issued⟩

theorem SendFailed.placed {ctx : UInt64} {dst : ℕ} (h : p.SendFailed env c ctx p' dst)
    (hc : c < env.workerNum) (d : Closure) :
    p'.placed env d = p.placed env d ∧ p'.issued = p.issued := by
  cases h with
  | elsewhere => exact ⟨rfl, rfl⟩
  | reported _ hstep => exact ⟨hstep.placed hc d, hstep.issued⟩

theorem post_issued (task : Task) (posted : Bool) : (p.post task posted).issued = p.issued := by
  cases posted <;> rfl

/-- A closure that is new is put in one place; no other one moves out of its place. -/
theorem Trans.placed {a : ProcessAction Msg} (h : p.Trans env services a p') (d : Closure) :
    p'.placed env d + p.issued.count d = p.placed env d + p'.issued.count d := by
  have hissue : ∀ done, (p.issue done).issued.count d =
      p.issued.count d + if done = d then 1 else 0 := fun done => by
    simp [issue, List.count_cons]
  have hsame : ∀ done, (p.issue done).placed env d = p.placed env d := fun _ => rfl
  cases h with
  | recvPacket hidle h =>
    obtain ⟨hp, hi⟩ := h.placed hidle.1 d
    split_ifs
    · rw [placed_post, post_issued, hp, hi, if_neg (by simp [Task.done?])]
      rfl
    · rw [hp, hi]
  | sentOk => rfl
  | sentFailed hc h =>
    obtain ⟨hp, hi⟩ := h.placed hc d
    split_ifs
    · rw [placed_post, post_issued, hp, hi, if_neg (by simp [Task.done?])]
      rfl
    · rw [hp, hi]
  | callInWorker hc _ h =>
    rw [h.placed hc, h.issued, RpcCore.callMethod_call?, hissue, hsame]
    simp only [Option.some.injEq]
    omega
  | callPosted =>
    rw [placed_post, post_issued, hissue, hsame]
    simp only [Task.done?, Option.some.injEq, true_and]
    omega
  | callRefused =>
    rw [hissue]
    simp only [Process.placed, issue, handed, List.count_cons, beq_iff_eq]
    omega
  | runRecv htask hidle h =>
    obtain ⟨hp, hi⟩ := h.placed hidle.1 d
    rw [hp, hi, placed_dropTask htask, if_neg (by simp [Task.done?])]
    rfl
  | runFailed htask hidle h =>
    obtain ⟨hp, hi⟩ := h.placed hidle.1 d
    rw [hp, hi, placed_dropTask htask, if_neg (by simp [Task.done?])]
    rfl
  | runCall htask hidle h =>
    rw [h.placed hidle.1, h.issued, RpcCore.callMethod_call?, placed_dropTask htask]
    rfl
  | handlerDone => rfl
  | core hc h =>
    rw [h.placed hc, h.issued, LocalAction.call?_toAction]
    rfl
  | write => rfl

/-- Every closure was passed once and is in one place. -/
structure PlacesInv (env : RpcEnv Msg) (p : Process Msg) : Prop where
  nodup : p.issued.Nodup
  placed : ∀ d, p.placed env d = p.issued.count d

theorem Trans.issued_cases {a : ProcessAction Msg} (h : p.Trans env services a p') :
    p'.issued = p.issued ∨ ∃ d, d ∉ p.issued ∧ p'.issued = d :: p.issued := by
  cases h with
  | recvPacket hidle h =>
    have hi := (h.placed hidle.1 0).2
    split_ifs
    · exact Or.inl ((post_issued _ _).trans hi)
    · exact Or.inl hi
  | sentFailed hc h =>
    have hi := (h.placed hc 0).2
    split_ifs
    · exact Or.inl ((post_issued _ _).trans hi)
    · exact Or.inl hi
  | callInWorker _ hnew h => exact Or.inr ⟨_, hnew, h.issued⟩
  | callPosted _ hnew => exact Or.inr ⟨_, hnew, rfl⟩
  | callRefused _ hnew => exact Or.inr ⟨_, hnew, rfl⟩
  | runRecv _ hidle h => exact Or.inl (h.placed hidle.1 0).2
  | runFailed _ hidle h => exact Or.inl (h.placed hidle.1 0).2
  | runCall _ _ h => exact Or.inl h.issued
  | core _ h => exact Or.inl h.issued
  | _ => exact Or.inl rfl

theorem PlacesInv.step {a : ProcessAction Msg} (hP : p.PlacesInv env)
    (h : p.Trans env services a p') : p'.PlacesInv env where
  nodup := by
    rcases h.issued_cases with heq | ⟨d, hnew, hcons⟩
    · exact heq ▸ hP.nodup
    · exact hcons ▸ List.nodup_cons.mpr ⟨hnew, hP.nodup⟩
  placed d := by
    have hmove := h.placed d
    rw [hP.placed d] at hmove
    omega

variable {boot : Boot Msg} {mgr : ℕ → SessionManager}

theorem placesInv_start : (start boot mgr).PlacesInv env where
  nodup := List.nodup_nil
  placed d := by simp [placed, handed, start, Machine.start]

/-- The call the action dispatches can be answered: its list of endpoints fits the attempt
counter, and the id drawn for it is not zero. -/
def Answerable (p : Process Msg) (a : ProcessAction Msg) : Prop :=
  ∀ c act, p.dispatched a = some (c, act) → (p.cores c).Answerable act

theorem answerable_of_call?_eq_none {m : Machine Msg} {act : Action Msg} (h : act.call? = none) :
    m.Answerable act := by
  cases act with
  | addSession => cases h
  | noRoute => cases h
  | _ => exact ⟨trivial, trivial⟩

/-- What became of a closure passed to `CallMethod`. -/
inductive Outcome (env : RpcEnv Msg) (p : Process Msg) (d : Closure) : Prop
  /-- The call has not been dispatched yet. -/
  | posted (hzero : p.invoked env d = 0) (htask : ∃ t ∈ p.tasks, t.done? = some d)
  | answered (hone : p.invoked env d = 1)
  /-- The call has a session on a core, with an expiry ahead of it. -/
  | waiting (hzero : p.invoked env d = 0) {c i : ℕ} (hc : c < env.workerNum)
      (hlive : (p.cores c).Live i) (hdone : ((p.cores c).node i).done = some d)
      (hexpiry : (p.cores c).st.wheel.Expects i)

/-- No call is ever lost: in every state of a run whose calls can be answered, each closure
waits in a task, has been invoked once or waits in a session. -/
theorem no_call_lost (hstarted : Started env boot mgr)
    (h : Reaches (step env services) Answerable (start boot mgr) p) {d : Closure}
    (hd : d ∈ p.issued) : p.Outcome env d := by
  have hP : p.PlacesInv env :=
    Reaches.invariant (fun hI _ hstep => PlacesInv.step hI (step_trans hstep)) h placesInv_start
  have hwf : ∀ c < env.workerNum, (p.cores c).WellFormed env.toSessionEnv (mgr c) :=
    fun c hc => wellFormed_core hstarted h hc
  have hcalls : ∀ c < env.workerNum, (p.cores c).CallInv := fun c hc =>
    Machine.ReachableIf.callInv (hstarted c hc) (reachable_core (fun p a c act hok hact =>
      hact.elim answerable_of_call?_eq_none (hok c act)) h c)
  have hfresh : ∀ c < env.workerNum, (p.cores c).calls.count d = 0 →
      (p.cores c).doneCount d = 0 := fun c hc hzero =>
    (hwf c hc).consistent.ledger.fresh d (List.count_eq_zero.mp hzero)
  have hnone : p.handed env d = 0 →
      ∑ c ∈ Finset.range env.workerNum, (p.cores c).doneCount d = 0 := fun hzero =>
    Finset.sum_eq_zero fun c hc => hfresh c (Finset.mem_range.mp hc)
      (Finset.sum_eq_zero_iff.mp hzero c hc)
  have hone : p.placed env d = 1 := by
    rw [hP.placed d, List.count_eq_one_of_mem hP.nodup hd]
  rw [placed] at hone
  by_cases hhanded : p.handed env d = 0
  · by_cases hrefused : p.refused.count d = 0
    · have htasks : 0 < p.tasks.countP fun t => t.done? = some d := by omega
      obtain ⟨t, ht, hdone⟩ := List.countP_pos_iff.mp htasks
      exact .posted (by rw [invoked, hrefused, hnone hhanded]) ⟨t, ht, of_decide_eq_true hdone⟩
    · exact .answered (by rw [invoked, hnone hhanded]; omega)
  · obtain ⟨c, hc, hpos⟩ := Finset.exists_ne_zero_of_sum_ne_zero hhanded
    have hothers : ∀ e ∈ (Finset.range env.workerNum).erase c, (p.cores e).calls.count d = 0 := by
      have hsplit := Finset.add_sum_erase _ (fun e => (p.cores e).calls.count d) hc
      rw [← handed] at hsplit
      exact Finset.sum_eq_zero_iff.mp (by omega)
    have hinvoked : p.invoked env d = (p.cores c).doneCount d := by
      have hzero : ∑ e ∈ (Finset.range env.workerNum).erase c, (p.cores e).doneCount d = 0 :=
        Finset.sum_eq_zero fun e he => hfresh e
          (Finset.mem_range.mp (Finset.mem_of_mem_erase he)) (hothers e he)
      rw [invoked, ← Finset.add_sum_erase _ _ hc, hzero]
      omega
    have hlt := Finset.mem_range.mp hc
    have hmem : d ∈ (p.cores c).calls := List.count_pos_iff.mp (Nat.pos_of_ne_zero hpos)
    rcases (hcalls c hlt).answered_or_waits (hwf c hlt) hmem with
      hdone | ⟨hzero, i, hlive, hdone, hexpects⟩
    · exact .answered (hinvoked.trans hdone)
    · exact .waiting (hinvoked.trans hzero) hlt hlive hdone hexpects

/-- A test for `Answerable`. -/
def answerableCheck (p : Process Msg) (a : ProcessAction Msg) : Bool :=
  match p.dispatched a with
  | some (c, .addSession _ _ _ endpoints _) =>
    decide (endpoints.length ≤ 65536) &&
      decide ((p.cores c).st.mgr.nextRpcId.toNat / 2 ^ kRpcIdSeqPartBits ≠ 0)
  | _ => true

theorem answerable_of_check (p : Process Msg) (a : ProcessAction Msg)
    (h : p.answerableCheck a = true) : p.Answerable a := by
  intro c act hact
  rw [answerableCheck, hact] at h
  cases act with
  | addSession =>
    simp only [Bool.and_eq_true, decide_eq_true_eq] at h
    exact ⟨h.1, Machine.drawsNonzero_of_core h.2 _⟩
  | _ => exact ⟨trivial, trivial⟩

/-- A call from outside is posted and then dispatched to one endpoint. -/
theorem no_call_lost_sample : ∃ p,
    Reaches (step (wireEnv 1) []) Answerable (start sampleBoot sampleManager) p ∧
      p.tasks = [] ∧ p.Outcome (wireEnv 1) 10 := by
  obtain ⟨p, hp, hcheck⟩ := exists_reachesIf_of_run (step (wireEnv 1) [])
    (start sampleBoot sampleManager)
    [.callOutside 0 (RpcCore.sampleMethod [97] [73] [79]) 0 1 10 true,
      .runTask 0 (some fun _ _ _ => (true, [⟨1, 1⟩]))]
    answerableCheck (fun p => decide (p.tasks = [] ∧ p.issued = [10])) answerable_of_check
    (by decide +kernel)
  obtain ⟨htasks, hissued⟩ := of_decide_eq_true hcheck
  exact ⟨p, hp, htasks, no_call_lost (sampleManager_started 1) hp (by simp [hissued])⟩

/-- A call for which routing adds more endpoints than the counter can count is lost. -/
theorem long_list_lost {endpoints : List Addr} (hlen : 65536 < endpoints.length) : ∃ p,
    Reaches (step (wireEnv 1) []) (fun _ _ => True) (start sampleBoot sampleManager) p ∧
      10 ∈ p.issued ∧ ¬ p.Outcome (wireEnv 1) 10 := by
  have hne : endpoints ≠ [] := by
    rintro rfl
    simp at hlen
  have hcall : ∀ msg : ValueMessage, RpcCore.callMethod (some fun _ _ _ => (true, endpoints))
      (RpcCore.sampleMethod [97] [73] [79]) 0 1 msg 10 =
        .addSession (RpcCore.sampleMethod [97] [73] [79]) 0 1 endpoints 10 := by
    simp [RpcCore.callMethod, hne]
  have hmachine : ((start sampleBoot sampleManager).cores 0).step (wireEnv 1).toSessionEnv
      (.addSession (RpcCore.sampleMethod [97] [73] [79]) 0 1 endpoints 10) =
        some { (start sampleBoot sampleManager).cores 0 with calls := [10] } := by
    simp [Machine.step, Machine.inUserCode, Machine.addSession, SessionState.addSession, hlen, hne,
      Machine.enter, start, Machine.start]
  have hstep : step (wireEnv 1) [] (start sampleBoot sampleManager)
      (.callInWorker 0 (RpcCore.sampleMethod [97] [73] [79]) 0 1 10
        (some fun _ _ _ => (true, endpoints))) =
      some (((start sampleBoot sampleManager).issue 10).setCore 0 (.noRoute 10)
        { (start sampleBoot sampleManager).cores 0 with calls := [10] }) := by
    have hguard : 0 < (wireEnv 1).workerNum ∧ 10 ∉ (start sampleBoot sampleManager).issued :=
      ⟨by decide, List.not_mem_nil⟩
    rw [step, if_pos hguard, callOn, hcall]
    show Option.bind (((start sampleBoot sampleManager).cores 0).step _ _) _ = _
    rw [hmachine]
    rfl
  refine ⟨_, .single trivial hstep, List.mem_cons_self, ?_⟩
  rintro (⟨-, t, ht, -⟩ | hone | @⟨-, c, i, hc, hlive, -, -⟩)
  · exact List.not_mem_nil ht
  · revert hone
    simp [invoked, issue, setCore, start, Machine.start, Machine.doneCount, wireEnv]
  · obtain rfl : c = 0 := Nat.lt_one_iff.mp hc
    exact hlive rfl

theorem call_lost : Started (wireEnv 1) sampleBoot sampleManager ∧ ∃ p,
    Reaches (step (wireEnv 1) []) (fun _ _ => True) (start sampleBoot sampleManager) p ∧
      10 ∈ p.issued ∧ ¬ p.Outcome (wireEnv 1) 10 := by
  have hlen : 65536 < (List.replicate 65537 (⟨1, 1⟩ : Addr)).length := by
    rw [List.length_replicate]
    omega
  exact ⟨sampleManager_started 1, long_list_lost hlen⟩

end Process

end HyperRpc
