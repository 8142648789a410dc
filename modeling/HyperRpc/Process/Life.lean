import HyperRpc.Config.Capacity
import HyperRpc.Model.Impl
import HyperRpc.Process.Calls
import HyperRpc.Process.Routing
import Mathlib.Data.List.Forall2

/-!
# The object implements the process

From its constructor on, a `HyperRpc::Impl` is empty or what its workers do is a run of the process
that `Start` has started, with the queue of tasks read through the buffers of the redirected
packets (`implements_process`). No run reads a buffer that has been released, releases one twice or
with another size than it was allocated with, and the buffers that are live are those of posted
tasks and of tasks that are not over (`buffers_accounted`).
-/
namespace HyperRpc

open Lib

variable {Msg : Type}

/-- The step is one of the process as the object has it. -/
def ProcessAction.Plain : ProcessAction Msg → Prop
  | .recvPacket .. => False
  | .runTask .. => False
  | _ => True

def ProcessAction.IsCall : ProcessAction Msg → Prop
  | .callInWorker .. => True
  | .callOutside .. => True
  | _ => False

/-! ## The queue apart from the rest of the process -/

namespace Process

variable {env : RpcEnv Msg} {services : List (Service Msg)} {p p' : Process Msg} {c : ℕ}

/-- The process with these tasks before its own. -/
def behind (p : Process Msg) (ts : List Task) : Process Msg := { p with tasks := ts ++ p.tasks }

variable (env) in
theorem stepCore_behind (p : Process Msg) (ts : List Task) (a : Action Msg) :
    (p.behind ts).stepCore env c a = (p.stepCore env c a).map (behind · ts) := by
  have hcores : (p.behind ts).cores = p.cores := rfl
  rw [stepCore, stepCore, hcores]
  cases (p.cores c).step env.toSessionEnv a with
  | none => rfl
  | some m =>
    rw [Option.bind_some, Option.bind_some]
    cases m.log with
    | nil => rfl
    | cons cb log =>
      cases cb with
      | done => rfl
      | onSendRequest =>
        simp only
        split_ifs
        · rw [send, send, Option.map_map]
          rfl
        · rfl

theorem map_behind {r r' : Option (Process Msg)} {ts : List Task} (h : r' = r.map (behind · ts))
    (dst : ℕ) : (r'.map fun p => (p, dst)) =
      (r.map fun p => (p, dst)).map fun r => (r.1.behind ts, r.2) := by
  subst h
  cases r <;> rfl

theorem recvOn_behind (p : Process Msg) (ts : List Task) (buf : List UInt8) (addr : Addr) :
    (p.behind ts).recvOn env services c buf addr =
      (p.recvOn env services c buf addr).map fun r => (r.1.behind ts, r.2) := by
  rw [recvOn, recvOn]
  cases RpcCore.onRecvPacket env (serviceMap services) c buf addr with
  | none => rfl
  | some r =>
    obtain ⟨ret, received⟩ := r
    cases received with
    | dropped => rfl
    | invoke => rfl
    | respond service method rpcId rpcResult respBody =>
      exact map_behind (stepCore_behind env p ts _) ret

theorem sendFailedOn_behind (p : Process Msg) (ts : List Task) (ctx : UInt64) :
    (p.behind ts).sendFailedOn env c ctx =
      (p.sendFailedOn env c ctx).map fun r => (r.1.behind ts, r.2) := by
  rw [sendFailedOn, sendFailedOn]
  cases (RpcCore.onSendPacketFailed env c ctx).2 with
  | none => rfl
  | some rpcId => exact map_behind (stepCore_behind env p ts _) _

theorem runTask_behind (p : Process Msg) (ts : List Task) (task : Task)
    (route : Option (RpcCore.OnServiceRouting Msg)) :
    (p.behind ts).runTask env services task route =
      (p.runTask env services task route).map (behind · ts) := by
  cases task with
  | recvPacket =>
    rw [runTask, runTask, recvOn_behind, Option.map_map, Option.map_map]
    rfl
  | sendPacketFailed =>
    rw [runTask, runTask, sendFailedOn_behind, Option.map_map, Option.map_map]
    rfl
  | callMethod => exact stepCore_behind env p ts _

theorem post_behind (p : Process Msg) (ts : List Task) (task : Task) (posted : Bool) :
    (p.behind ts).post task posted = (p.post task posted).behind ts := by
  cases posted with
  | false => rfl
  | true => simp [post, behind]

theorem behind_tasks (hnil : p.tasks = []) (ts : List Task) : (p.behind ts).tasks = ts := by
  rw [behind, hnil, List.append_nil]

theorem behind_post (hnil : p.tasks = []) (ts : List Task) (task : Task) (posted : Bool) :
    (p.behind ts).post task posted = p.behind (if posted then ts ++ [task] else ts) := by
  cases posted with
  | false => rfl
  | true => simp [post, behind, hnil]

theorem runTask_tasks {task : Task} {route : Option (RpcCore.OnServiceRouting Msg)}
    (h : p.runTask env services task route = some p') : p'.tasks = p.tasks := by
  cases task with
  | recvPacket c buf addr =>
    obtain ⟨⟨p₁, dst⟩, hrecv, rfl⟩ := Option.map_eq_some_iff.mp h
    exact (recvOn_spec hrecv).tasks
  | sendPacketFailed c ctx =>
    obtain ⟨⟨p₁, dst⟩, hfail, rfl⟩ := Option.map_eq_some_iff.mp h
    exact (sendFailedOn_spec hfail).tasks
  | callMethod => exact (stepCore_spec h).tasks

/-- The queue is all that the step takes from it. -/
theorem step_runTask_behind {task : Task} {route : Option (RpcCore.OnServiceRouting Msg)} {k : ℕ}
    {ts : List Task} (hnil : p.tasks = []) (htask : ts[k]? = some task)
    (hidle : p.Idle env task.worker) (hrun : p.runTask env services task route = some p') :
    (p.behind ts).step env services (.runTask k route) = some (p'.behind (ts.eraseIdx k)) := by
  have htask' : (p.behind ts).tasks[k]? = some task := by rw [behind_tasks hnil, htask]
  have hdrop : (p.behind ts).dropTask k = p.behind (ts.eraseIdx k) := by
    simp [dropTask, behind, hnil]
  have hruns : runTask env services ((p.behind ts).dropTask k) task route =
      some (p'.behind (ts.eraseIdx k)) := by rw [hdrop, runTask_behind, hrun, Option.map_some]
  rw [step, htask']
  exact (if_pos hidle).trans hruns

/-- Other tasks in the queue make no difference. -/
theorem step_behind (p : Process Msg) (ts : List Task) {a : ProcessAction Msg} (ha : a.Plain) :
    (p.behind ts).step env services a = (p.step env services a).map (behind · ts) := by
  cases a with
  | recvPacket => exact ha.elim
  | runTask => exact ha.elim
  | sentResult c success ctx posted =>
    rw [step, step, apply_ite (Option.map _)]
    refine if_congr Iff.rfl ?_ rfl
    split_ifs
    · rfl
    · rw [sendFailedOn_behind, Option.map_map, Option.map_map]
      refine congrArg (Option.map · _) (funext fun r => ?_)
      simp only [Function.comp]
      split_ifs
      · exact post_behind _ _ _ _
      · rfl
  | callInWorker c method request response done route =>
    rw [step, step, apply_ite (Option.map _)]
    exact if_congr Iff.rfl (stepCore_behind env (p.issue done) ts _) rfl
  | callOutside c method request response done posted =>
    rw [step, step, apply_ite (Option.map _)]
    refine if_congr Iff.rfl ?_ rfl
    split_ifs
    · exact congrArg some (post_behind (p.issue done) ts _ true)
    · rfl
  | handlerDone k result response =>
    rw [step, step]
    have hctx : (p.behind ts).contexts = p.contexts := rfl
    rw [hctx]
    cases p.contexts[k]? with
    | none => rfl
    | some inv =>
      simp only [apply_ite (Option.map _), Option.map_map]
      rfl
  | core c act =>
    rw [step, step, apply_ite (Option.map _)]
    exact if_congr Iff.rfl (stepCore_behind env p ts _) rfl
  | write ref msg =>
    rw [step, step, apply_ite (Option.map _)]
    rfl

/-- A step that is no call passes no closure to `CallMethod`. -/
theorem Trans.issued_eq {a : ProcessAction Msg} (h : p.Trans env services a p')
    (hcall : ¬ a.IsCall) : p'.issued = p.issued := by
  cases h with
  | recvPacket hidle h =>
    have hkept := (h.placed hidle.1 0).2
    split_ifs
    · exact (post_issued _ _).trans hkept
    · exact hkept
  | sentFailed hc h =>
    have hkept := (h.placed hc 0).2
    split_ifs
    · exact (post_issued _ _).trans hkept
    · exact hkept
  | callInWorker => exact absurd trivial hcall
  | callPosted => exact absurd trivial hcall
  | callRefused => exact absurd trivial hcall
  | runRecv _ hidle h => exact (h.placed hidle.1 0).2
  | runFailed _ hidle h => exact (h.placed hidle.1 0).2
  | runCall _ _ h => exact h.issued
  | core _ h => exact h.issued
  | sentOk => rfl
  | handlerDone => rfl
  | write => rfl

end Process

/-! ## What the object stands for -/

/-- The buffer that a task has captured. -/
def PostedTask.buffer? : PostedTask → Option ℕ
  | onRecvPacket r => some r.redirectBufPtr
  | other _ => none

/-- The buffer holds the packet. -/
def Redirect.Holds (r : Redirect) (heap : Heap UInt8) (buf : List UInt8) : Prop :=
  r.redirectBufLen = buf.length ∧ heap.Full r.redirectBufPtr buf

theorem Redirect.Holds.congr {r : Redirect} {heap heap' : Heap UInt8} {buf : List UInt8}
    (h : r.Holds heap buf)
    (heq : heap'.block? r.redirectBufPtr = heap.block? r.redirectBufPtr) : r.Holds heap' buf :=
  ⟨h.1, Heap.Holds.congr h.2 heq⟩

/-- What the task will do, as the buffers are. -/
def PostedTask.StandsFor (heap : Heap UInt8) : PostedTask → Task → Prop
  | onRecvPacket r, task => ∃ buf, task = .recvPacket r.dstCoreId buf r.addr ∧ r.Holds heap buf
  | other t, task => task = t

/-- Calls are routed where the cores have been initialised with a routing, and only there. -/
def ProcessAction.RoutedBy (routed : Bool) (p : Process Msg) : ProcessAction Msg → Prop
  | .callInWorker _ _ _ _ _ route => route.isSome = routed
  | .runTask k route => ∀ c method request response done,
    p.tasks[k]? = some (.callMethod c method request response done) → route.isSome = routed
  | _ => True

namespace PostedTask

variable {heap heap' : Heap UInt8} {ts : List PostedTask} {us : List Task} {k : ℕ}

theorem StandsFor.forall_frame (h : List.Forall₂ (StandsFor heap) ts us)
    (hframe : ∀ b ∈ ts.filterMap buffer?, heap'.block? b = heap.block? b) :
    List.Forall₂ (StandsFor heap') ts us := by
  induction h with
  | nil => exact .nil
  | @cons t u ts us htask _ ih =>
    cases t with
    | other => exact .cons htask (ih hframe)
    | onRecvPacket r =>
      obtain ⟨buf, rfl, hholds⟩ := htask
      exact .cons ⟨buf, rfl, hholds.congr (hframe _ List.mem_cons_self)⟩
        (ih fun b hb => hframe b (List.mem_cons_of_mem _ hb))

theorem StandsFor.forall_eraseIdx (h : List.Forall₂ (StandsFor heap) ts us) (k : ℕ) :
    List.Forall₂ (StandsFor heap) (ts.eraseIdx k) (us.eraseIdx k) := by
  rw [List.eraseIdx_eq_take_drop_succ, List.eraseIdx_eq_take_drop_succ]
  exact List.rel_append (List.forall₂_take k h) (List.forall₂_drop (k + 1) h)

theorem StandsFor.forall_other (us : List Task) :
    List.Forall₂ (StandsFor heap) (us.map other) us :=
  List.forall₂_map_left_iff.mpr (List.forall₂_same.mpr fun _ _ => rfl)

theorem StandsFor.get {t : PostedTask} (h : List.Forall₂ (StandsFor heap) ts us)
    (ht : ts[k]? = some t) : ∃ u, us[k]? = some u ∧ t.StandsFor heap u := by
  induction h generalizing k with
  | nil => cases ht
  | cons htask _ ih =>
    cases k with
    | zero =>
      cases ht
      exact ⟨_, rfl, htask⟩
    | succ k => exact ih ht

theorem filterMap_buffer?_other (us : List Task) : (us.map other).filterMap buffer? = [] := by
  simp [List.filterMap_map, Function.comp_def, buffer?]

end PostedTask

namespace Impl

variable (protobuf : RpcEnv Msg) (opt : Options) (I : Impl Msg)

/-- The blocks that are still to be released. -/
def buffers : List ℕ :=
  I.tasks.filterMap PostedTask.buffer? ++ I.handling.map Redirect.redirectBufPtr

/-- There are no workers. -/
structure Off : Prop where
  process : I.process = none
  rpcCoreVec : I.rpcCoreVec = []
  tasks : I.tasks = []
  handling : I.handling = []
  isInitialized : I.isInitialized = false

/-- The workers have brought the process that `Start` has started to `p`, with the tasks `ts` in the
queue. -/
structure Runs (p : Process Msg) (ts : List Task) : Prop where
  process : I.process = some p
  tasks_nil : p.tasks = []
  tasks : List.Forall₂ (PostedTask.StandsFor I.heap) I.tasks ts
  uncalled : I.isInitialized = false → p.issued = []
  cores : I.rpcCoreVec.length = (env protobuf opt).workerNum
  reached : ∃ world routed, Process.Started (env protobuf opt) (boot opt world)
    (managers world I.rpcCoreVec) ∧ (∀ core ∈ I.rpcCoreVec, core.onServiceRouting = routed) ∧
    Reaches (Process.step (env protobuf opt) I.services) (fun p a => a.RoutedBy routed p)
      (Process.start (boot opt world) (managers world I.rpcCoreVec)) (p.behind ts)

structure BufferInv : Prop where
  listed : I.heap.Listed I.buffers
  handling : ∀ r ∈ I.handling, ∃ buf, r.Holds I.heap buf

structure LifeInv : Prop where
  stage : I.Off ∨ ∃ p ts, I.Runs protobuf opt p ts
  buffers : I.BufferInv

variable {protobuf opt I} {p p' : Process Msg} {ts us : List Task}

/-- The process makes a step. -/
theorem Runs.moves {a : ProcessAction Msg} {heap : Heap UInt8} {tasks : List PostedTask}
    (handling : List Redirect) (hR : I.Runs protobuf opt p ts)
    (hstep : (p.behind ts).step (env protobuf opt) I.services a = some (p'.behind us))
    (hrouted : ∀ routed, (∀ core ∈ I.rpcCoreVec, core.onServiceRouting = routed) →
      a.RoutedBy routed (p.behind ts))
    (hcall : a.IsCall → I.isInitialized = true) (hnil : p'.tasks = [])
    (htasks : List.Forall₂ (PostedTask.StandsFor heap) tasks us) :
    Runs protobuf opt { I with process := some p', tasks, handling, heap } p' us where
  process := rfl
  tasks_nil := hnil
  tasks := htasks
  cores := hR.cores
  uncalled hinit := by
    have hplain : ¬ a.IsCall := fun h => by simp [hcall h] at hinit
    exact ((Process.step_trans hstep).issued_eq hplain).trans (hR.uncalled hinit)
  reached := by
    obtain ⟨world, routed, hstarted, hcores, hreach⟩ := hR.reached
    exact ⟨world, routed, hstarted, hcores, hreach.tail (hrouted routed hcores) hstep⟩

/-- Nothing but the heap and the buffers that are released at the end of a task changes. -/
theorem Runs.same {heap : Heap UInt8} (handling : List Redirect) (hR : I.Runs protobuf opt p ts)
    (htasks : List.Forall₂ (PostedTask.StandsFor heap) I.tasks ts) :
    Runs protobuf opt { I with handling, heap } p ts :=
  ⟨hR.process, hR.tasks_nil, htasks, hR.uncalled, hR.cores, hR.reached⟩

/-! ## The buffers -/

/-- Tasks that are not over keep their buffers. -/
theorem BufferInv.frame {heap : Heap UInt8} {tasks : List PostedTask} {handling : List Redirect}
    {process : Option (Process Msg)} (hB : I.BufferInv) (hsub : handling ⊆ I.handling)
    (hlisted : heap.Listed
      (tasks.filterMap PostedTask.buffer? ++ handling.map Redirect.redirectBufPtr))
    (hframe : ∀ b ∈ handling.map Redirect.redirectBufPtr, heap.block? b = I.heap.block? b) :
    BufferInv { I with process, tasks, handling, heap } where
  listed := hlisted
  handling r hr := by
    obtain ⟨buf, hholds⟩ := hB.handling r (hsub hr)
    exact ⟨buf, hholds.congr (hframe _ (List.mem_map_of_mem hr))⟩

/-- The packet is in a buffer of its own if the task is posted; else the buffer is released. -/
theorem BufferInv.redirect_ok (hB : I.BufferInv) (dst : ℕ) (buf : List UInt8) (addr : Addr)
    (posted : Bool) :
    ∃ heap tasks, I.redirect dst buf addr posted = .ok { I with heap, tasks } ∧
      BufferInv { I with heap, tasks } ∧
      ∀ {us}, List.Forall₂ (PostedTask.StandsFor I.heap) I.tasks us →
        List.Forall₂ (PostedTask.StandsFor heap) tasks
          (if posted then us ++ [.recvPacket dst buf addr] else us) := by
  obtain ⟨ptr, h₁, halloc, hlisted₁, hnew, hframe₁⟩ := hB.listed.alloc buf.length
  obtain ⟨h₂, hfill, hlisted₂, hfull, hframe₂⟩ := hlisted₁.fill hnew
  have hframe : ∀ b ∈ I.buffers, h₂.block? b = I.heap.block? b := fun b hb =>
    (hframe₂ b hb).trans (hframe₁ b hb)
  rw [redirect, halloc]
  cases posted with
  | true =>
    refine ⟨h₂, I.tasks ++ [.onRecvPacket ⟨dst, ptr, buf.length, addr⟩], ?_,
      hB.frame (fun _ => id) (hlisted₂.perm ?_) fun b hb => hframe b (List.mem_append_right _ hb),
      fun htasks => ?_⟩
    · simp only [onHeap, Except.mapError, ok_bind, hfill]
      rfl
    · rw [List.filterMap_append, List.append_assoc]
      exact List.perm_middle.symm
    · have hkept := PostedTask.StandsFor.forall_frame htasks fun b hb =>
        hframe b (List.mem_append_left _ hb)
      exact List.rel_append hkept (.cons ⟨buf, rfl, rfl, hfull⟩ .nil)
  | false =>
    obtain ⟨h₃, hfree, hlisted₃, hframe₃⟩ := hlisted₂.free hfull
    have hkept : ∀ b ∈ I.buffers, h₃.block? b = I.heap.block? b := fun b hb =>
      (hframe₃ b hb).trans (hframe b hb)
    refine ⟨h₃, I.tasks, ?_, hB.frame (fun _ => id) hlisted₃ fun b hb =>
      hkept b (List.mem_append_right _ hb), fun htasks => ?_⟩
    · simp only [onHeap, Except.mapError, ok_bind, hfill, hfree]
      rfl
    · exact PostedTask.StandsFor.forall_frame htasks fun b hb =>
        hkept b (List.mem_append_left _ hb)

/-! ## The steps -/

theorem safe_require (b : Prop) [Decidable b] : Safe .notEnabled (fun _ => b) (require b) := by
  unfold require
  split_ifs with h
  · exact .ok h
  · exact .error

theorem safe_enabled {α : Type} (o : Option α) :
    Safe .notEnabled (fun a => o = some a) (enabled o) := by
  cases o with
  | none => exact .error
  | some a => exact .ok rfl

theorem recvOn_tasks_nil {c : ℕ} {buf : List UInt8} {addr : Addr} {dst : ℕ} (hnil : p.tasks = [])
    (hrecv : p.recvOn (env protobuf opt) I.services c buf addr = some (p', dst)) :
    p'.tasks = [] :=
  (Process.recvOn_spec hrecv).tasks.trans hnil

theorem onRecvPacket_safe (hR : I.Runs protobuf opt p ts) (hB : I.BufferInv) (c : ℕ)
    (buf : List UInt8) (addr : Addr) (posted : Bool) : Safe .notEnabled (LifeInv protobuf opt)
      (I.onRecvPacket protobuf opt p c buf addr posted) := by
  refine (safe_require _).bind fun _ ⟨hidle, hc⟩ => (safe_enabled _).bind fun r hrecv => ?_
  obtain ⟨p', dst⟩ := r
  have hnil := recvOn_tasks_nil hR.tasks_nil hrecv
  have hB₁ : BufferInv { I with process := some p' } :=
    hB.frame (fun _ => id) hB.listed fun _ _ => rfl
  have hstep : (p.behind ts).step (env protobuf opt) I.services (.recvPacket c buf addr posted) =
      some (if dst ≠ c ∧ dst < (env protobuf opt).workerNum then
        (p'.behind ts).post (.recvPacket dst buf addr) posted else p'.behind ts) := by
    rw [Process.step, Process.recvOn_behind, hrecv]
    exact if_pos hidle.1
  rw [Process.behind_post hnil] at hstep
  simp only [hR.cores]
  by_cases hdst : dst ≠ c ∧ dst < (env protobuf opt).workerNum
  · rw [if_pos hdst] at hstep ⊢
    obtain ⟨heap, tasks, hredirect, hB', htasks⟩ := hB₁.redirect_ok dst buf addr posted
    have hR' := hR.moves I.handling hstep (fun _ _ => trivial) False.elim hnil (htasks hR.tasks)
    rw [hredirect]
    exact .ok ⟨.inr ⟨p', _, hR'⟩, hB'⟩
  · rw [if_neg hdst] at hstep ⊢
    have hR' := hR.moves I.handling hstep (fun _ _ => trivial) False.elim hnil hR.tasks
    exact .ok ⟨.inr ⟨p', ts, hR'⟩, hB₁⟩

/-- A task that runs has read its buffer, which it releases at its end. -/
theorem runTask_safe (hR : I.Runs protobuf opt p ts) (hB : I.BufferInv) (k : ℕ)
    (onServiceRouting : Option (RpcCore.OnServiceRouting Msg)) :
    Safe .notEnabled (LifeInv protobuf opt) (I.runTask protobuf opt p k onServiceRouting) := by
  refine (safe_enabled _).bind fun t ht => ?_
  obtain ⟨task, htask, hstands⟩ := PostedTask.StandsFor.get hR.tasks ht
  have htasks := PostedTask.StandsFor.forall_eraseIdx hR.tasks k
  obtain ⟨hk, hget⟩ := List.getElem?_eq_some_iff.mp ht
  have hperm := (List.getElem_cons_eraseIdx_perm hk).filterMap PostedTask.buffer?
  rw [hget] at hperm
  cases t with
  | onRecvPacket r =>
    obtain ⟨buf, rfl, hlen, hfull⟩ := hstands
    refine (safe_require _).bind fun _ hidle => ?_
    rw [hlen, hfull.load]
    refine (safe_enabled _).bind fun ⟨p', dst⟩ hrecv => ?_
    have hrun : p.runTask (env protobuf opt) I.services (.recvPacket r.dstCoreId buf r.addr)
        onServiceRouting = some p' := by rw [Process.runTask, hrecv, Option.map_some]
    have hstep := Process.step_runTask_behind hR.tasks_nil htask hidle.1 hrun
    have hR' := hR.moves (r :: I.handling) hstep ?_ False.elim
      ((Process.runTask_tasks hrun).trans hR.tasks_nil) htasks
    · refine .ok ⟨.inr ⟨p', _, hR'⟩, ⟨hB.listed.perm ?_, ?_⟩⟩
      · exact (hperm.symm.append_right _).trans List.perm_middle.symm
      · exact List.forall_mem_cons.mpr ⟨⟨buf, hlen, hfull⟩, hB.handling⟩
    · intro routed _ c method request response done hcall
      rw [Process.behind_tasks hR.tasks_nil, htask] at hcall
      cases hcall
  | other t =>
    cases hstands
    refine (safe_require _).bind fun _ ⟨hidle, hrouted⟩ => (safe_enabled _).bind fun p' hrun => ?_
    have hstep := Process.step_runTask_behind hR.tasks_nil htask hidle.1 hrun
    have hR' := hR.moves I.handling hstep ?_ False.elim
      ((Process.runTask_tasks hrun).trans hR.tasks_nil) htasks
    · have hlisted := hB.listed.perm (hperm.symm.append_right _)
      exact .ok ⟨.inr ⟨p', _, hR'⟩, hB.frame (fun _ => id) hlisted fun _ _ => rfl⟩
    · intro routed hcores c method request response done hcall
      rw [Process.behind_tasks hR.tasks_nil, htask] at hcall
      cases hcall
      have hc : c < I.rpcCoreVec.length := hR.cores ▸ hidle.1.1
      rw [← hcores _ (List.getElem_mem hc)]
      exact (hrouted _ (List.getElem?_eq_getElem hc)).symm

/-- The end of a task releases its buffer. -/
theorem endTask_safe (hR : I.Runs protobuf opt p ts) (hB : I.BufferInv) (k : ℕ) :
    Safe .notEnabled (LifeInv protobuf opt) (I.endTask p k) := by
  refine (safe_enabled _).bind fun r hr => (safe_require _).bind fun _ _ => ?_
  obtain ⟨buf, hlen, hfull⟩ := hB.handling r (List.mem_of_getElem? hr)
  obtain ⟨hk, hget⟩ := List.getElem?_eq_some_iff.mp hr
  have hperm := (List.getElem_cons_eraseIdx_perm hk).map Redirect.redirectBufPtr
  rw [hget] at hperm
  have hlisted := hB.listed.perm ((hperm.symm.append_left _).trans List.perm_middle)
  obtain ⟨heap, hfree, hlisted', hframe⟩ := hlisted.free hfull
  rw [hlen, hfree]
  have hR' := hR.same (I.handling.eraseIdx k)
    (PostedTask.StandsFor.forall_frame hR.tasks fun b hb => hframe b (List.mem_append_left _ hb))
  exact .ok ⟨.inr ⟨p, ts, hR'⟩, hB.frame List.eraseIdx_subset hlisted' fun b hb =>
    hframe b (List.mem_append_right _ hb)⟩

theorem process_safe (hR : I.Runs protobuf opt p ts) (hB : I.BufferInv)
    (a : ProcessAction Msg) : Safe .notEnabled (LifeInv protobuf opt)
      (I.step protobuf opt (.process a)) := by
  rw [step, hR.process]
  refine (safe_require _).bind fun _ hpermits => (safe_enabled _).bind fun p' hp' => ?_
  have hplain : a.Plain := by
    cases a with
    | recvPacket => exact hpermits
    | runTask => exact hpermits
    | _ => trivial
  have hstep : (p.behind ts).step (env protobuf opt) I.services a =
      some (Process.behind { p' with tasks := [] } (ts ++ p'.tasks)) := by
    rw [Process.step_behind p ts hplain, hp', Option.map_some]
    simp [Process.behind]
  have htasks := List.rel_append hR.tasks (PostedTask.StandsFor.forall_other p'.tasks)
  have hR' := hR.moves I.handling hstep ?_ ?_ rfl htasks
  · refine .ok ⟨.inr ⟨_, _, hR'⟩, hB.frame (fun _ => id) ?_ fun _ _ => rfl⟩
    rw [List.filterMap_append, PostedTask.filterMap_buffer?_other, List.append_nil]
    exact hB.listed
  · intro routed hcores
    cases a with
    | callInWorker c method request response done onServiceRouting =>
      have hc : c < I.rpcCoreVec.length :=
        hR.cores ▸ (Option.ite_none_right_eq_some.mp hp').1.1
      rw [ProcessAction.RoutedBy, ← hcores _ (List.getElem_mem hc)]
      exact (hpermits.2 _ (List.getElem?_eq_getElem hc)).symm
    | runTask => exact hplain.elim
    | _ => trivial
  · intro hcall
    cases a with
    | callInWorker => exact hpermits.1
    | callOutside => exact hpermits
    | _ => exact hcall.elim

/-! ## The life -/

variable (opt) in
/-- Every core is initialised, whatever the world. -/
theorem initCores_eq (onServiceRouting : Bool) (world : Process.Boot Msg) (n : ℕ) :
    ∃ cores, initCores opt onServiceRouting world n = some (cores, true) ∧ cores.length = n ∧
      (∀ core ∈ cores, core.onServiceRouting = onServiceRouting) ∧
      ∀ c < n, SessionManager.init (calcSessionPoolSize opt) (UInt64.ofNat c) (world.rand c)
        (world.memory c) = some (managers world cores c) := by
  induction n with
  | zero =>
    exact ⟨[], rfl, rfl, fun _ h => absurd h List.not_mem_nil, fun c hc => absurd hc c.not_lt_zero⟩
  | succ n ih =>
    obtain ⟨cores, hcores, hlen, hrouting, hinit⟩ := ih
    obtain ⟨mgr, hmgr, -⟩ := SessionManager.init_eq (UInt64.ofNat n) (world.rand n)
      (world.memory n) ((calcSessionPoolSize_lt opt).le.trans (by norm_num))
    refine ⟨cores ++ [⟨n, onServiceRouting, mgr⟩], ?_, by simp [hlen], ?_, fun c hc => ?_⟩
    · simp [initCores, hcores, initCore, hmgr]
    · simpa [or_imp, forall_and] using hrouting
    · rcases Nat.lt_succ_iff_lt_or_eq.mp hc with hlt | rfl
      · rw [hinit c hlt, managers, managers, List.getElem?_append_left (hlen ▸ hlt)]
      · rw [hmgr, managers, List.getElem?_append_right hlen.le, hlen, Nat.sub_self]
        rfl

theorem start_safe (hoff : I.Off) (hB : I.BufferInv) (world : Process.Boot Msg) (udpInit : Bool) :
    Safe .notEnabled (LifeInv protobuf opt) (I.start opt world udpInit) := by
  refine (safe_require _).bind fun _ _ => (safe_enabled _).bind fun r hr => ?_
  obtain ⟨cores, hcores, hlen, hrouting, hinit⟩ :=
    initCores_eq opt I.onServiceRouting world opt.hudpOptions.workerNum.toNat
  cases hr.symm.trans hcores
  cases udpInit with
  | false => exact .ok ⟨.inl ⟨hoff.process, rfl, hoff.tasks, hoff.handling, hoff.isInitialized⟩,
      hB.listed, hB.handling⟩
  | true =>
    refine .ok ⟨.inr ⟨_, [], rfl, rfl, ?_, fun _ => rfl, hlen, ?_⟩, hB.listed, hB.handling⟩
    · simp only [hoff.tasks]
      exact .nil
    · exact ⟨world, I.onServiceRouting, hinit, hrouting, .refl⟩

theorem LifeInv.runs (hL : I.LifeInv protobuf opt) (hp : I.process = some p) :
    ∃ ts, I.Runs protobuf opt p ts := by
  rcases hL.stage with hoff | ⟨q, ts, hR⟩
  · cases hp.symm.trans hoff.process
  · cases hp.symm.trans hR.process
    exact ⟨ts, hR⟩

theorem LifeInv.off (hL : I.LifeInv protobuf opt) (hp : I.process.isNone = true) : I.Off := by
  rcases hL.stage with hoff | ⟨q, ts, hR⟩
  · exact hoff
  · simp [hR.process] at hp

/-- Every step keeps the invariant, unless it is not possible. -/
theorem step_safe {a : ImplAction Msg} (hL : I.LifeInv protobuf opt) :
    Safe .notEnabled (LifeInv protobuf opt) (I.step protobuf opt a) := by
  have hB := hL.buffers
  cases a with
  | initAsClient onServiceRouting =>
    refine .ok ⟨?_, hB.listed, hB.handling⟩
    rcases hL.stage with hoff | ⟨p, ts, hR⟩
    · exact .inl ⟨hoff.process, hoff.rpcCoreVec, hoff.tasks, hoff.handling, hoff.isInitialized⟩
    · exact .inr ⟨p, ts, hR.process, hR.tasks_nil, hR.tasks, hR.uncalled, hR.cores, hR.reached⟩
  | initAsServer services =>
    refine (safe_require _).bind fun _ hnone => ?_
    have hoff := hL.off hnone
    exact .ok ⟨.inl ⟨hoff.process, hoff.rpcCoreVec, hoff.tasks, hoff.handling,
      hoff.isInitialized⟩, hB.listed, hB.handling⟩
  | start world udpInit =>
    by_cases hnone : I.process.isNone = true
    · exact start_safe (hL.off hnone) hB world udpInit
    · exact (safe_require _).bind fun _ h => absurd h.2 hnone
  | startReturns =>
    refine (safe_require _).bind fun _ hsome => ?_
    obtain ⟨p, hp⟩ := Option.isSome_iff_exists.mp hsome
    obtain ⟨ts, hR⟩ := hL.runs hp
    exact .ok ⟨.inr ⟨p, ts, hR.process, hR.tasks_nil, hR.tasks, nofun, hR.cores, hR.reached⟩,
      hB.listed, hB.handling⟩
  | recvPacket c buf addr posted =>
    refine (safe_enabled _).bind fun p hp => ?_
    obtain ⟨ts, hR⟩ := hL.runs hp
    exact onRecvPacket_safe hR hB c buf addr posted
  | runTask k onServiceRouting =>
    refine (safe_enabled _).bind fun p hp => ?_
    obtain ⟨ts, hR⟩ := hL.runs hp
    exact runTask_safe hR hB k onServiceRouting
  | endTask k =>
    refine (safe_enabled _).bind fun p hp => ?_
    obtain ⟨ts, hR⟩ := hL.runs hp
    exact endTask_safe hR hB k
  | process a =>
    cases hp : I.process with
    | none =>
      rw [step, hp]
      exact .error
    | some p =>
      obtain ⟨ts, hR⟩ := hL.runs hp
      exact process_safe hR hB a

variable (protobuf opt)

theorem lifeInv_construct : (construct : Impl Msg).LifeInv protobuf opt where
  stage := .inl ⟨rfl, rfl, rfl, rfl, rfl⟩
  buffers := ⟨.empty, fun _ h => absurd h List.not_mem_nil⟩

/-- Whatever happens to the object from its constructor on, nothing goes wrong with the memory, and
the live buffers are those of redirected packets whose tasks are posted or not over, each once. -/
theorem buffers_accounted (as : List (ImplAction Msg)) :
    Safe .notEnabled (fun I : Impl Msg => (∀ b, I.heap.Live b ↔ b ∈ I.buffers) ∧ I.buffers.Nodup)
      (exec (step protobuf opt) construct as) :=
  (exec_safe step_safe (lifeInv_construct protobuf opt) as).imp fun _ hL =>
    ⟨hL.buffers.listed.live, hL.buffers.listed.nodup⟩

end Impl

end HyperRpc
