import HyperRpc.Core.Services
import HyperRpc.Process.Steps

/-!
# How often a request is handled

`RpcCore::OnRecvPacket` answers zero when it has handled a packet and the index of the core
otherwise, and `Impl::OnRecvPacket` takes every index but the current one for a redirection.
So a request that a worker other than the first one has handled is posted to the first
worker, which handles it again. `handled_once_iff` counts the invocations over a run.
-/
namespace HyperRpc

open Lib

variable {Msg : Type} {env : RpcEnv Msg} {services : List (Service Msg)}

/-- A valid request is delivered to a worker. -/
def ProcessAction.DeliversRequest (env : RpcEnv Msg) (services : List (Service Msg)) :
    ProcessAction Msg → Prop
  | .recvPacket _ buf _ _ => RpcCore.ValidRequest env (serviceMap services) buf
  | _ => False

/-- A delivered request is posted to the first worker as well. -/
def ProcessAction.Reposts (env : RpcEnv Msg) (services : List (Service Msg)) :
    ProcessAction Msg → Prop
  | .recvPacket c buf _ posted =>
    RpcCore.ValidRequest env (serviceMap services) buf ∧ c ≠ 0 ∧ posted
  | _ => False

/-- A posted valid request. -/
def Task.IsRequest (env : RpcEnv Msg) (services : List (Service Msg)) : Task → Prop
  | .recvPacket _ buf _ => RpcCore.ValidRequest env (serviceMap services) buf
  | _ => False

namespace Process

section

open scoped Classical

variable {p p' : Process Msg} {c : ℕ}

/-- Handler invocations made and still to be made. -/
noncomputable def handlings (env : RpcEnv Msg) (services : List (Service Msg)) (p : Process Msg) :
    ℕ :=
  p.invocations.length + p.tasks.countP fun t => t.IsRequest env services

/-- How often an action causes a request to be handled. -/
noncomputable def weight (env : RpcEnv Msg) (services : List (Service Msg)) :
    ProcessAction Msg → ℕ
  | .recvPacket c buf _ posted =>
    if RpcCore.ValidRequest env (serviceMap services) buf then if c ≠ 0 ∧ posted then 2 else 1
    else 0
  | _ => 0

theorem sum_weight (as : List (ProcessAction Msg)) :
    (as.map (weight env services)).sum =
      as.countP (fun a => a.DeliversRequest env services) +
        as.countP fun a => a.Reposts env services := by
  induction as with
  | nil => rfl
  | cons a as ih =>
    have ha : weight env services a = (if a.DeliversRequest env services then 1 else 0) +
        if a.Reposts env services then 1 else 0 := by
      cases a with
      | recvPacket c buf addr posted =>
        simp only [weight, ProcessAction.DeliversRequest, ProcessAction.Reposts]
        split_ifs <;> simp_all
      | _ => simp [weight, ProcessAction.DeliversRequest, ProcessAction.Reposts]
    simp only [List.map_cons, List.sum_cons, List.countP_cons, ih, ha, decide_eq_true_eq]
    omega

theorem Recv.invocations_length {buf : List UInt8} {addr : Addr} {dst : ℕ}
    (h : p.Recv env services c buf addr p' dst) :
    p'.invocations.length = p.invocations.length +
      if RpcCore.ValidRequest env (serviceMap services) buf then 1 else 0 := by
  cases h with
  | dropped h =>
    rw [if_neg (by simp [h.validRequest_iff.1]), Nat.add_zero]
  | invoked h =>
    rw [if_pos (h.validRequest_iff.1.mpr ⟨_, _, rfl⟩)]
    rfl
  | responded h hstep =>
    rw [if_neg (by simp [h.validRequest_iff.1]), hstep.invocations]
    rfl

theorem Recv.dst_eq_zero {buf : List UInt8} {addr : Addr} {dst : ℕ}
    (h : p.Recv env services c buf addr p' dst)
    (hv : RpcCore.ValidRequest env (serviceMap services) buf) : dst = 0 := by
  cases h with
  | dropped h => exact h.validRequest_iff.2 hv
  | invoked h => exact h.validRequest_iff.2 hv
  | responded h => exact h.validRequest_iff.2 hv

theorem SendFailed.invocations {ctx : UInt64} {dst : ℕ} (h : p.SendFailed env c ctx p' dst) :
    p'.invocations = p.invocations := by
  cases h with
  | elsewhere => rfl
  | reported _ hstep => exact hstep.invocations

theorem handlings_post (task : Task) (posted : Bool) :
    (p.post task posted).handlings env services =
      p.handlings env services + if posted ∧ task.IsRequest env services then 1 else 0 := by
  rw [handlings, countP_post, handlings, ← Nat.add_assoc]
  cases posted <;> simp [post]

theorem handlings_dropTask {k : ℕ} {task : Task} (h : p.tasks[k]? = some task) :
    p.handlings env services =
      (p.dropTask k).handlings env services + if task.IsRequest env services then 1 else 0 := by
  simp only [handlings, countP_dropTask h, decide_eq_true_eq, Nat.add_assoc]
  rfl

theorem Recv.handlings {buf : List UInt8} {addr : Addr} {dst : ℕ}
    (h : p.Recv env services c buf addr p' dst) :
    p'.handlings env services = p.handlings env services +
      if RpcCore.ValidRequest env (serviceMap services) buf then 1 else 0 := by
  rw [Process.handlings, h.tasks, h.invocations_length, Process.handlings]
  omega

theorem handlings_of_eq (htasks : p'.tasks = p.tasks) (hinv : p'.invocations = p.invocations) :
    p'.handlings env services = p.handlings env services := by
  rw [handlings, htasks, hinv, handlings]

/-- A step changes the number of handlings by the weight of its action. -/
theorem Trans.handlings {a : ProcessAction Msg} (h : p.Trans env services a p') :
    p'.handlings env services = p.handlings env services + weight env services a := by
  cases h with
  | @recvPacket c buf addr posted p₁ dst hidle h =>
    have hp₁ := h.handlings
    by_cases hv : RpcCore.ValidRequest env (serviceMap services) buf
    · rw [h.dst_eq_zero hv]
      by_cases hc : c = 0
      · simp [hp₁, hv, hc, weight]
      · cases posted <;>
          simp [Ne.symm hc, hc, hp₁, hv, handlings_post, Task.IsRequest, weight, Nat.add_assoc]
    · split_ifs <;> simp [hp₁, hv, handlings_post, Task.IsRequest, weight]
  | sentOk => rfl
  | @sentFailed c ctx posted p₁ dst hc h =>
    have hp₁ : p₁.handlings env services = p.handlings env services :=
      handlings_of_eq h.tasks h.invocations
    split_ifs
    · rw [handlings_post, hp₁, if_neg (by simp [Task.IsRequest])]
      rfl
    · exact hp₁
  | callInWorker _ _ h => exact handlings_of_eq h.tasks h.invocations
  | callPosted =>
    rw [handlings_post, if_neg (by simp [Task.IsRequest])]
    rfl
  | callRefused => rfl
  | runRecv htask _ h => rw [h.handlings, handlings_dropTask htask]; rfl
  | runFailed htask _ h =>
    rw [handlings_of_eq h.tasks h.invocations, handlings_dropTask htask,
      if_neg (by simp [Task.IsRequest])]
    rfl
  | runCall htask _ h =>
    rw [handlings_of_eq h.tasks h.invocations, handlings_dropTask htask,
      if_neg (by simp [Task.IsRequest])]
    rfl
  | handlerDone => rfl
  | core _ h => exact handlings_of_eq h.tasks h.invocations
  | write => rfl

/-- Once the tasks have run, each delivered request has been handled once if and only if none
was reposted: it was delivered to the first worker, or the post failed. -/
theorem handled_once_iff {as : List (ProcessAction Msg)}
    (hrun : run (step env services) p as = some p')
    (htasks : p.tasks = []) (htasks' : p'.tasks = []) :
    p'.invocations.length = p.invocations.length +
        as.countP (fun a => a.DeliversRequest env services) ↔
      ∀ c buf addr posted, ProcessAction.recvPacket c buf addr posted ∈ as →
        RpcCore.ValidRequest env (serviceMap services) buf → c = 0 ∨ posted = false := by
  have hcount := run_weight (I := fun _ => True) (f := handlings env services)
    (fun _ _ => trivial) (fun _ hstep => (step_trans hstep).handlings) trivial hrun
  rw [sum_weight, handlings, handlings, htasks, htasks', List.countP_nil] at hcount
  have hzero : as.countP (fun a => a.Reposts env services) = 0 ↔
      ∀ a ∈ as, ¬ a.Reposts env services := by
    simp only [List.countP_eq_zero, decide_eq_true_eq]
  have hnone : (∀ a ∈ as, ¬ a.Reposts env services) ↔ _ := hzero.symm.trans
    (show _ ↔ p'.invocations.length = p.invocations.length +
      as.countP (fun a => a.DeliversRequest env services) by omega)
  rw [← hnone]
  constructor
  · intro h c buf addr posted hmem hv
    by_cases hc : c = 0
    · exact Or.inl hc
    · exact Or.inr (Bool.eq_false_iff.mpr fun hp => h _ hmem ⟨hv, hc, hp⟩)
  · rintro h (_ | _ | _ | _ | _ | _ | _ | _) ha hrep
    all_goals first | exact hrep | skip
    obtain ⟨hv, hc, hp⟩ := hrep
    rcases h _ _ _ _ ha hv with h0 | h0
    · exact hc h0
    · exact Bool.noConfusion (h0.symm.trans hp)

end

/-- A process whose requests have even addresses and whose responses have odd ones. -/
def sampleBoot : Boot ValueMessage where
  sessPoolSize := 1
  rand _ := 0
  memory _ _ := ⟨0, RpcCore.sampleMethod [97] [73] [79], 0, 0, none, false, 0, []⟩
  mem ref := if ref % 2 = 0 then ⟨[73], some [UInt8.ofNat ref]⟩ else ⟨[79], none⟩
  now := 0

def sampleManager (c : ℕ) : SessionManager where
  poolSizeOrder := 0
  poolSizeMask := 0
  sessPool _ := ⟨0, RpcCore.sampleMethod [97] [73] [79], 0, 0, none, false, 0, []⟩
  nextRpcId := (UInt64.ofNat c + 1) <<< 48
  drawn := 0

theorem sampleManager_started (workerNum : ℕ) :
    Started (wireEnv workerNum) sampleBoot sampleManager := by
  intro c _
  have horder : SessionManager.poolSizeOrderLoop 1 64 0 = some 0 := by decide
  rw [SessionManager.init, sampleBoot, horder]
  simp [sampleManager, SessionNode.construct]

theorem sampleRequest_valid (workerNum : ℕ) : RpcCore.ValidRequest (wireEnv workerNum)
    (serviceMap [RpcCore.sampleService 1 [97] [73] [79]]) RpcCore.sampleRequest :=
  ⟨_, _, _, _, RpcCore.sampleRequest_requests workerNum 1 [97] [73] [79] []⟩

theorem handled_once_first : ∃ p',
    run (step (wireEnv 2) [RpcCore.sampleService 1 [97] [73] [79]])
      (start sampleBoot sampleManager) [.recvPacket 0 RpcCore.sampleRequest ⟨1, 1⟩ true] =
        some p' ∧ p'.tasks = [] ∧ p'.invocations.length = 1 := by
  obtain ⟨p', hrun, hp⟩ := Option.map_eq_some_iff.mp
    (show (run (step (wireEnv 2) [RpcCore.sampleService 1 [97] [73] [79]])
      (start sampleBoot sampleManager) [.recvPacket 0 RpcCore.sampleRequest ⟨1, 1⟩ true]).map
        (fun p => p.tasks) = some [] by decide +kernel)
  have hiff := handled_once_iff hrun rfl hp
  refine ⟨p', hrun, hp, (hiff.mpr fun c buf addr posted hmem _ => ?_).trans ?_⟩
  · cases List.mem_singleton.mp hmem
    exact Or.inl rfl
  · simp [ProcessAction.DeliversRequest, sampleRequest_valid, start]

/-- Of two workers the second receives one request, and its handler is invoked twice. -/
theorem handled_twice : ∃ p', Started (wireEnv 2) sampleBoot sampleManager ∧
    run (step (wireEnv 2) [RpcCore.sampleService 1 [97] [73] [79]])
      (start sampleBoot sampleManager)
      [.recvPacket 1 RpcCore.sampleRequest ⟨1, 1⟩ true, .runTask 0 none] = some p' ∧
    RpcCore.ValidRequest (wireEnv 2) (serviceMap [RpcCore.sampleService 1 [97] [73] [79]])
      RpcCore.sampleRequest ∧
    p'.tasks = [] ∧ p'.invocations.map Invocation.worker = [0, 1] := by
  obtain ⟨p', hrun, hp⟩ := Option.map_eq_some_iff.mp
    (show (run (step (wireEnv 2) [RpcCore.sampleService 1 [97] [73] [79]])
      (start sampleBoot sampleManager)
      [.recvPacket 1 RpcCore.sampleRequest ⟨1, 1⟩ true, .runTask 0 none]).map
        (fun p => (p.tasks, p.invocations.map Invocation.worker)) = some ([], [0, 1]) by
      decide +kernel)
  obtain ⟨htasks, hinv⟩ := Prod.mk.inj hp
  exact ⟨p', sampleManager_started 2, hrun, sampleRequest_valid 2, htasks, hinv⟩

end Process

end HyperRpc
