import HyperRpc.Model.Process

/-!
# Calls without a `done`

`HyperRpc::Impl::CallMethod` for callers that wait. A thread outside the workers makes an inner
closure that has captured its `rpc_result`, which is on the frame of the call, and its `EventFd`,
which every thread has one of. The process treats the closure like that of any other call. When it
is invoked it writes the result and then notifies, on a worker's thread, or on the caller's if the
task could not be posted; the caller waits for the notification and returns what it then finds in
`rpc_result`. A worker's own call without a `done` is refused and touches nothing.

`EventFd` is `ccbase`'s: `GetWait` blocks while there is no notification, and `fetch` says how
many are left after it. `returned` is a record that the code never reads.
-/
namespace HyperRpc

/-- A call that waits: its inner closure and its `rpc_result`. -/
structure SyncFrame where
  done : Closure
  rpcResult : Result
  deriving DecidableEq

/-- A thread outside the workers, with the notifications of its `EventFd` it has not fetched. -/
structure CallerThread where
  notified : ℕ
  frame : Option SyncFrame
  deriving DecidableEq

/-- An inner closure that runs, on a worker or on the thread of its caller. -/
structure InnerRun where
  worker : Option ℕ
  done : Closure
  result : Result
  written : Bool
  deriving DecidableEq

structure SyncReturn where
  thread : ℕ
  done : Closure
  result : Result
  deriving DecidableEq

structure Callers (Msg : Type) where
  process : Process Msg
  threads : ℕ → CallerThread
  captured : Closure → Option ℕ
  inner : List InnerRun
  returned : List SyncReturn

inductive CallersAction (Msg : Type)
  /-- Anything else that happens in the process. -/
  | process (a : ProcessAction Msg)
  | callSync (thread worker : ℕ) (method : MethodDescriptor) (request response : MsgRef)
      (done : Closure) (posted : Bool)
  | callSyncInWorker (worker : ℕ)
  /-- `rpc_result = result` in the `k`-th inner closure that runs. -/
  | write (k : ℕ)
  /-- `pevfd->Notify()` there, which ends it. -/
  | notify (k : ℕ)
  /-- `evfd.GetWait()`, and the call returns. -/
  | getWait (thread : ℕ)

def Callback.answer? : Callback → Option (Closure × Result)
  | .done closure result _ => closure.map fun d => (d, result)
  | .onSendRequest .. => none

namespace Callers

variable {Msg : Type} (env : RpcEnv Msg) (services : List (Service Msg)) (fetch : ℕ → ℕ)
  (s : Callers Msg)

def start (p : Process Msg) : Callers Msg := ⟨p, fun _ => ⟨0, none⟩, fun _ => none, [], []⟩

/-- The inner closures whose callbacks have begun on the way from `p` to `p'`. -/
def begun (p p' : Process Msg) : List InnerRun :=
  (List.range env.workerNum).flatMap fun c =>
    let callbacks := (p'.cores c).log.take ((p'.cores c).log.length - (p.cores c).log.length)
    (callbacks.filterMap Callback.answer?).filterMap fun (d, r) =>
      if (s.captured d).isSome then some ⟨some c, d, r, false⟩ else none

/-- A worker that runs an inner closure does not go on before it has ended. -/
def blocked : ProcessAction Msg → Bool
  | .core c _ => s.inner.any fun run => run.worker = some c
  | .callInWorker c .. => s.inner.any fun run => run.worker = some c
  | _ => false

def setThread (t : ℕ) (thread : CallerThread) : Callers Msg :=
  { s with threads := Function.update s.threads t thread }

/-- The caller's frame and closure; the result is `kSuccess` until the closure writes to it. -/
def enter (t : ℕ) (done : Closure) : Callers Msg :=
  { s.setThread t { s.threads t with frame := some ⟨done, .kSuccess⟩ } with
    captured := Function.update s.captured done (some t) }

/-- One step; `none` where it is not enabled, or would write to a frame that is gone. -/
def step : CallersAction Msg → Option (Callers Msg)
  | .process a =>
    if s.blocked a then none
    else (s.process.step env services a).map fun p =>
      { s with process := p, inner := s.begun env s.process p ++ s.inner }
  | .callSync t c method request response done posted =>
    if (s.threads t).frame = none then
      (s.process.step env services (.callOutside c method request response done posted)).map
        fun p =>
          let s := s.enter t done
          { s with
            process := p
            inner := if posted then s.inner else ⟨none, done, .kInError, false⟩ :: s.inner }
    else none
  | .callSyncInWorker c => if c < env.workerNum then some s else none
  | .write k =>
    s.inner[k]?.bind fun run =>
      if run.written then none
      else (s.captured run.done).bind fun t => (s.threads t).frame.bind fun frame =>
        if frame.done = run.done then
          some { s.setThread t { s.threads t with frame := some ⟨frame.done, run.result⟩ } with
            inner := s.inner.set k { run with written := true } }
        else none
  | .notify k =>
    s.inner[k]?.bind fun run =>
      if run.written then
        (s.captured run.done).map fun t =>
          { s.setThread t { s.threads t with notified := (s.threads t).notified + 1 } with
            inner := s.inner.eraseIdx k }
      else none
  | .getWait t =>
    (s.threads t).frame.bind fun frame =>
      if 0 < (s.threads t).notified then
        some { s.setThread t ⟨fetch (s.threads t).notified, none⟩ with
          returned := ⟨t, frame.done, frame.rpcResult⟩ :: s.returned }
      else none

end Callers

end HyperRpc
