import HyperRpc.Model.RpcCore

/-!
# `HyperRpc::Impl`

One process: its cores, one a worker thread, the tasks posted to them, the requests its
handlers are working on and the packets given to `hyper_udp_`. A step is one thing a thread
does. Posted tasks run in any order; `posted` says what `PostTask` answered. A core takes
packets and tasks from its event loop only, that is when none of its callbacks is running, and
a send is over when its core's `ret` follows.

The messages of the callers are shared: what one core writes, all see. A step that would run
into a failed assertion is not enabled.

`invocations`, `completions`, `mgrCalls`, `issued` and `refused` are records, newest first, that
the code never reads: the handler invocations, what handlers answered, the calls of the
session managers, the closures passed to `CallMethod` and those `CallMethod` invoked itself.
-/
namespace HyperRpc

open Lib

structure Invocation (Msg : Type) where
  worker : ℕ
  service : Service Msg
  ctx : IncomingRpcContext Msg

/-- A packet given to `hyper_udp_.Send`. -/
structure Datagram where
  buf : List UInt8
  addr : Addr
  ctx : UInt64
  deriving DecidableEq

inductive Task
  | recvPacket (worker : ℕ) (buf : List UInt8) (addr : Addr)
  | sendPacketFailed (worker : ℕ) (ctx : UInt64)
  | callMethod (worker : ℕ) (method : MethodDescriptor) (request response : MsgRef)
      (done : Closure)
  deriving DecidableEq

def Task.worker : Task → ℕ
  | recvPacket worker .. => worker
  | sendPacketFailed worker .. => worker
  | callMethod worker .. => worker

/-- A call of a function of a core's session manager. -/
inductive MgrCall
  | onRecvResponse (worker : ℕ) (service method : Str) (rpcId : UInt64) (rpcResult : Result)
      (respBody : List UInt8)
  | onSendRequestFailed (worker : ℕ) (rpcId : UInt64)
  deriving DecidableEq

/-- The calls of these functions that a step of core `c` is. -/
def Action.mgrCalls {Msg : Type} (c : ℕ) : Action Msg → List MgrCall
  | .onRecvResponse service method rpcId rpcResult respBody =>
    [.onRecvResponse c service method rpcId rpcResult respBody]
  | .onSendRequestFailed rpcId => [.onSendRequestFailed c rpcId]
  | _ => []

structure Process (Msg : Type) where
  cores : ℕ → Machine Msg
  rpcHeaders : ℕ → RpcHeader
  tasks : List Task
  contexts : List (Invocation Msg)
  outbox : List Datagram
  invocations : List (Invocation Msg)
  completions : List (Invocation Msg × Result × Msg)
  mgrCalls : List MgrCall
  issued : List Closure
  refused : List Closure

inductive LocalAction
  | ret
  | advance
  | collect (slot : ℕ)
  | expire (k : ℕ)

def LocalAction.toAction {Msg : Type} : LocalAction → Action Msg
  | ret => .ret
  | advance => .advance
  | collect slot => .collect slot
  | expire k => .expire k

inductive ProcessAction (Msg : Type)
  /-- `OnRecvPacket` on a worker. -/
  | recvPacket (worker : ℕ) (buf : List UInt8) (addr : Addr) (posted : Bool)
  /-- `OnSentResult` on a worker. -/
  | sentResult (worker : ℕ) (success : Bool) (ctx : UInt64) (posted : Bool)
  /-- `CallMethod` with a `done`, from the worker's own thread. -/
  | callInWorker (worker : ℕ) (method : MethodDescriptor) (request response : MsgRef)
      (done : Closure) (onServiceRouting : Option (RpcCore.OnServiceRouting Msg))
  /-- `CallMethod` from any other thread; a synchronous call passes its inner closure. -/
  | callOutside (worker : ℕ) (method : MethodDescriptor) (request response : MsgRef)
      (done : Closure) (posted : Bool)
  /-- The `k`-th task runs. -/
  | runTask (k : ℕ) (onServiceRouting : Option (RpcCore.OnServiceRouting Msg))
  /-- A handler fills the response of the `k`-th context and calls its `done`. -/
  | handlerDone (k : ℕ) (result : Result) (response : Msg)
  | core (worker : ℕ) (a : LocalAction)
  /-- Some code other than the library's writes to a message. -/
  | write (ref : MsgRef) (msg : Msg)

/-- `InitAsServer`: the service registered under each name. -/
def serviceMap {Msg : Type} (services : List (Service Msg)) : Str → Option (Service Msg) :=
  services.foldl (fun map svc => Function.update map svc.descriptor.name (some svc)) fun _ => none

namespace Process

variable {Msg : Type} (env : RpcEnv Msg) (services : List (Service Msg)) (p : Process Msg)

/-- Core `c` has made a step. All cores see the messages. -/
def setCore (c : ℕ) (a : Action Msg) (m : Machine Msg) : Process Msg :=
  { p with
    cores := fun d =>
      if d = c then m else { p.cores d with st := { (p.cores d).st with mem := m.st.mem } }
    mgrCalls := a.mgrCalls c ++ p.mgrCalls }

/-- `OnOutgoingRpcSend` on worker `c`, whose thread has a header of its own. -/
def send (c : ℕ) (method : MethodDescriptor) (request : Msg) (rpcId : UInt64) (addr : Addr) :
    Option (Process Msg) :=
  let sent := onOutgoingRpcSend env (p.rpcHeaders c) method request rpcId
  sent.2.map fun buf =>
    { p with
      rpcHeaders := Function.update p.rpcHeaders c sent.1
      outbox := ⟨buf, addr, rpcId⟩ :: p.outbox }

/-- The core of worker `c` makes a step; a request it sends goes out. -/
def stepCore (c : ℕ) (a : Action Msg) : Option (Process Msg) :=
  ((p.cores c).step env.toSessionEnv a).bind fun m =>
    match m.log with
    | .onSendRequest method request rpcId addr _ :: log =>
      if log.length = (p.cores c).log.length then
        (p.setCore c a m).send env c method (m.st.mem request) rpcId addr
      else some (p.setCore c a m)
    | _ => some (p.setCore c a m)

/-- `rpc_core_vec_[c]->OnRecvPacket`. -/
def recvOn (c : ℕ) (buf : List UInt8) (addr : Addr) : Option (Process Msg × ℕ) :=
  (RpcCore.onRecvPacket env (serviceMap services) c buf addr).bind fun r =>
    match r.2 with
    | .dropped => some (p, r.1)
    | .invoke service ctx =>
      some ({ p with
        contexts := ⟨c, service, ctx⟩ :: p.contexts
        invocations := ⟨c, service, ctx⟩ :: p.invocations }, r.1)
    | .respond service method rpcId rpcResult respBody =>
      (p.stepCore env c (.onRecvResponse service method rpcId rpcResult respBody)).map
        fun p => (p, r.1)

/-- `rpc_core_vec_[c]->OnSendPacketFailed`. -/
def sendFailedOn (c : ℕ) (ctx : UInt64) : Option (Process Msg × ℕ) :=
  let r := RpcCore.onSendPacketFailed env c ctx
  match r.2 with
  | none => some (p, r.1)
  | some rpcId =>
    (p.stepCore env c (.onSendRequestFailed rpcId)).map fun p => (p, r.1)

def callOn (c : ℕ) (method : MethodDescriptor) (request response : MsgRef) (done : Closure)
    (onServiceRouting : Option (RpcCore.OnServiceRouting Msg)) : Option (Process Msg) :=
  p.stepCore env c (RpcCore.callMethod onServiceRouting method request response
    ((p.cores c).st.mem request) done)

def post (task : Task) (posted : Bool) : Process Msg :=
  if posted then { p with tasks := p.tasks ++ [task] } else p

def runTask (task : Task) (onServiceRouting : Option (RpcCore.OnServiceRouting Msg)) :
    Option (Process Msg) :=
  match task with
  | .recvPacket c buf addr => (p.recvOn env services c buf addr).map Prod.fst
  | .sendPacketFailed c ctx => (p.sendFailedOn env c ctx).map Prod.fst
  | .callMethod c method request response done =>
    p.callOn env c method request response done onServiceRouting

def Idle (c : ℕ) : Prop := c < env.workerNum ∧ (p.cores c).stack = []

instance (c : ℕ) : Decidable (p.Idle env c) := inferInstanceAs (Decidable (_ ∧ _))

def step : ProcessAction Msg → Option (Process Msg)
  | .recvPacket c buf addr posted =>
    if p.Idle env c then
      (p.recvOn env services c buf addr).map fun (p', dst) =>
        if dst ≠ c ∧ dst < env.workerNum then p'.post (.recvPacket dst buf addr) posted else p'
    else none
  | .sentResult c success ctx posted =>
    if c < env.workerNum ∧ (p.cores c).mayReport ctx then
      if success then some p
      else
        (p.sendFailedOn env c ctx).map fun (p', dst) =>
          if dst ≠ c then p'.post (.sendPacketFailed dst ctx) posted else p'
    else none
  | .callInWorker c method request response done onServiceRouting =>
    if c < env.workerNum ∧ done ∉ p.issued then
      callOn env { p with issued := done :: p.issued } c method request response done
        onServiceRouting
    else none
  | .callOutside c method request response done posted =>
    if c < env.workerNum ∧ done ∉ p.issued then
      let p := { p with issued := done :: p.issued }
      if posted then some (p.post (.callMethod c method request response done) true)
      else some { p with refused := done :: p.refused }
    else none
  | .runTask k onServiceRouting =>
    match p.tasks[k]? with
    | none => none
    | some task =>
      if p.Idle env task.worker then
        runTask env services { p with tasks := p.tasks.eraseIdx k } task onServiceRouting
      else none
  | .handlerDone k result response =>
    match p.contexts[k]? with
    | none => none
    | some inv =>
      if env.typeOf response = env.typeOf inv.ctx.response then
        (onIncomingRpcDone env inv.ctx result response).map fun buf =>
          { p with
            contexts := p.contexts.eraseIdx k
            outbox := ⟨buf, inv.ctx.addr, 0⟩ :: p.outbox
            completions := (inv, result, response) :: p.completions }
      else none
  | .core c a => if c < env.workerNum then p.stepCore env c a.toAction else none
  | .write ref msg =>
    if env.typeOf msg = env.typeOf ((p.cores 0).st.mem ref) then
      some { p with cores := fun c => { p.cores c with
        st := { (p.cores c).st with mem := Function.update (p.cores c).st.mem ref msg } } }
    else none

/-- What `Start` needs to know of the world: the session pool size of each core, the random
numbers, the memory the pools are built in, the messages and the time. -/
structure Boot (Msg : Type) where
  sessPoolSize : UInt64
  rand : ℕ → UInt32
  memory : ℕ → ℕ → SessionNode
  mem : MsgRef → Msg
  now : ℕ

def Started (boot : Boot Msg) (mgr : ℕ → SessionManager) : Prop :=
  ∀ c < env.workerNum, SessionManager.init boot.sessPoolSize (UInt64.ofNat c) (boot.rand c)
    (boot.memory c) = some (mgr c)

def start (boot : Boot Msg) (mgr : ℕ → SessionManager) : Process Msg where
  cores c := Machine.start (mgr c) boot.now boot.mem
  rpcHeaders _ := .empty
  tasks := []
  contexts := []
  outbox := []
  invocations := []
  completions := []
  mgrCalls := []
  issued := []
  refused := []

end Process

end HyperRpc
