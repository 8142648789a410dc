import HyperRpc.Lib.Buffers
import HyperRpc.Model.Options
import HyperRpc.Model.Process

/-!
# The life of a `HyperRpc::Impl`

The object from its constructor on: `InitAsClient`, `InitAsServer` and `Start`, and what its
workers do from then on. That is the business of `Process`; here, a packet that one worker
redirects to another is in a buffer that is allocated for the task, captured by it as a pointer and
a length and released at its end, and `CallMethod` asserts that `Start` is over.

The workers run from within `Start` on, since `hyper_udp_` is initialised there, and
`is_initialized_` is set after that. `service_map_` is not protected, so that to register a service
while the workers run is a data race, which is no step here. Nor is what runs into a failed
assertion. What goes wrong with memory is an error of its own.
-/
namespace HyperRpc

open Lib

/-- The members of an `RpcCore` that `Init` sets; of the routing, whether there is one. -/
structure CoreMembers where
  rpcCoreId : ℕ
  onServiceRouting : Bool
  rpcSessMgr : SessionManager

structure Redirect where
  dstCoreId : ℕ
  redirectBufPtr : ℕ
  redirectBufLen : ℕ
  addr : Addr
  deriving DecidableEq

inductive PostedTask
  | onRecvPacket (redirect : Redirect)
  | other (task : Task)
  deriving DecidableEq

/-- `services` are those registered so far, of which `service_map_` is made, `process` is what the
workers have come to, its queues apart, and `handling` are the redirected packets whose tasks are
not over. -/
structure Impl (Msg : Type) where
  onServiceRouting : Bool
  services : List (Service Msg)
  rpcCoreVec : List CoreMembers
  isInitialized : Bool
  process : Option (Process Msg)
  tasks : List PostedTask
  handling : List Redirect
  heap : Heap UInt8

inductive ImplFault
  /-- The step is not possible, or an assertion fails. -/
  | notEnabled
  | memory (e : HeapError)
  deriving DecidableEq, Repr

inductive ImplAction (Msg : Type)
  /-- `InitAsClient`, with a closure that may be empty. -/
  | initAsClient (onServiceRouting : Bool)
  | initAsServer (services : List (Service Msg))
  /-- `Start` up to what `hyper_udp_.Init` answers. -/
  | start (world : Process.Boot Msg) (udpInit : Bool)
  /-- `is_initialized_ = true`, and `Start` returns. -/
  | startReturns
  | recvPacket (worker : ℕ) (buf : List UInt8) (addr : Addr) (posted : Bool)
  /-- The `k`-th task runs. -/
  | runTask (k : ℕ) (onServiceRouting : Option (RpcCore.OnServiceRouting Msg))
  /-- The `k`-th redirected packet has been handled, and its task ends. -/
  | endTask (k : ℕ)
  /-- Anything else that happens in the process. -/
  | process (a : ProcessAction Msg)

namespace Impl

variable {Msg : Type} (protobuf : RpcEnv Msg) (opt : Options)

def env : RpcEnv Msg :=
  { protobuf with
    workerNum := opt.hudpOptions.workerNum.toNat
    defaultRpcTimeout := opt.defaultRpcTimeout.toNat }

def construct : Impl Msg := ⟨false, [], [], false, none, [], [], .empty⟩

/-- What `Start` needs to know of the world, with the pool size that `RpcCore::Init` computes. -/
def boot (world : Process.Boot Msg) : Process.Boot Msg :=
  { world with sessPoolSize := calcSessionPoolSize opt }

/-- `RpcCore::Init`; `none` if it does not come to an end. -/
def initCore (onServiceRouting : Bool) (world : Process.Boot Msg) (rpcCoreId : ℕ) :
    Option (CoreMembers × Bool) :=
  (SessionManager.init (calcSessionPoolSize opt) (UInt64.ofNat rpcCoreId) (world.rand rpcCoreId)
    (world.memory rpcCoreId)).map fun mgr => (⟨rpcCoreId, onServiceRouting, mgr⟩, true)

/-- The loop of `Start` that fills `rpc_core_vec_`, for the first `n` cores. -/
def initCores (onServiceRouting : Bool) (world : Process.Boot Msg) :
    ℕ → Option (List CoreMembers × Bool)
  | 0 => some ([], true)
  | n + 1 =>
    (initCores onServiceRouting world n).bind fun (cores, ok) =>
      if ok then
        (initCore opt onServiceRouting world n).map fun (core, ok) =>
          if ok then (cores ++ [core], true) else ([], false)
      else some (cores, ok)

def managers (world : Process.Boot Msg) (cores : List CoreMembers) (c : ℕ) : SessionManager :=
  match cores[c]? with
  | some core => core.rpcSessMgr
  | none => ⟨0, 0, world.memory c, 0, 0⟩

variable (I : Impl Msg)

def onHeap {α : Type} (r : Except HeapError α) : Except ImplFault α := r.mapError .memory

def enabled {α : Type} : Option α → Except ImplFault α
  | some a => .ok a
  | none => .error .notEnabled

def require (b : Prop) [Decidable b] : Except ImplFault Unit :=
  if b then .ok () else .error .notEnabled

/-- The event loop of worker `c` is in control. A task for a redirected packet keeps it until its
buffer is released. -/
def Idle (p : Process Msg) (c : ℕ) : Prop :=
  p.Idle (env protobuf opt) c ∧ ∀ r ∈ I.handling, r.dstCoreId ≠ c

instance (p : Process Msg) (c : ℕ) : Decidable (I.Idle protobuf opt p c) :=
  inferInstanceAs (Decidable (_ ∧ _))

/-- Worker `c` is in its event loop, or within a callback of its core. -/
def Awake (p : Process Msg) (c : ℕ) : Prop :=
  (p.cores c).stack = [] → ∀ r ∈ I.handling, r.dstCoreId ≠ c

instance (p : Process Msg) (c : ℕ) : Decidable (I.Awake p c) :=
  inferInstanceAs (Decidable (_ → _))

/-- There is a routing callback if the core was initialised with one. -/
def Routed (c : ℕ) (onServiceRouting : Option (RpcCore.OnServiceRouting Msg)) : Prop :=
  ∀ core ∈ I.rpcCoreVec[c]?, core.onServiceRouting = onServiceRouting.isSome

instance (c : ℕ) (onServiceRouting : Option (RpcCore.OnServiceRouting Msg)) :
    Decidable (I.Routed c onServiceRouting) :=
  inferInstanceAs (Decidable (∀ core ∈ I.rpcCoreVec[c]?, _))

/-- Whether the process may make this step now: the assertion of `CallMethod` holds, the routing is
what the core has, and the timers of a worker do not run within a task. A handler that a
redirected packet has invoked is part of its task, so that it may call and send. -/
def Permits (p : Process Msg) : ProcessAction Msg → Prop
  | .recvPacket .. => False
  | .runTask .. => False
  | .sentResult .. => True
  | .callInWorker c _ _ _ _ onServiceRouting =>
    I.isInitialized = true ∧ I.Routed c onServiceRouting
  | .callOutside .. => I.isInitialized = true
  | .core c _ => I.Awake p c
  | .handlerDone .. => True
  | .write .. => True

instance (p : Process Msg) (a : ProcessAction Msg) : Decidable (I.Permits p a) := by
  cases a <;> unfold Permits <;> infer_instance

/-- `Start`, from its assertion to the initialisation of `hyper_udp_`. -/
def start (world : Process.Boot Msg) (udpInit : Bool) : Except ImplFault (Impl Msg) := do
  require (I.isInitialized = false ∧ I.process.isNone = true)
  let (cores, ok) ← enabled
    (initCores opt I.onServiceRouting world opt.hudpOptions.workerNum.toNat)
  if ok = true ∧ udpInit = true then
    return { I with
      rpcCoreVec := cores
      process := some (Process.start (boot opt world) (managers world cores)) }
  else return { I with rpcCoreVec := [] }

/-- The end of `OnRecvPacket`: the packet is copied for another worker. -/
def redirect (dstCoreId : ℕ) (buf : List UInt8) (addr : Addr) (posted : Bool) :
    Except ImplFault (Impl Msg) := do
  let (redirectBufPtr, heap) ← onHeap (I.heap.alloc buf.length buf.length)
  let heap ← onHeap (heap.fill redirectBufPtr buf)
  if posted then
    return { I with
      heap := heap
      tasks := I.tasks ++ [.onRecvPacket ⟨dstCoreId, redirectBufPtr, buf.length, addr⟩] }
  else
    let heap ← onHeap (heap.free redirectBufPtr buf.length)
    return { I with heap := heap }

def onRecvPacket (p : Process Msg) (c : ℕ) (buf : List UInt8) (addr : Addr) (posted : Bool) :
    Except ImplFault (Impl Msg) := do
  require (I.Idle protobuf opt p c ∧ c < I.rpcCoreVec.length)
  let (p, dst) ← enabled (p.recvOn (env protobuf opt) I.services c buf addr)
  let I := { I with process := some p }
  if dst ≠ c ∧ dst < I.rpcCoreVec.length then I.redirect dst buf addr posted else return I

def runTask (p : Process Msg) (k : ℕ)
    (onServiceRouting : Option (RpcCore.OnServiceRouting Msg)) : Except ImplFault (Impl Msg) := do
  match ← enabled I.tasks[k]? with
  | .onRecvPacket r =>
    require (I.Idle protobuf opt p r.dstCoreId)
    let buf ← onHeap (I.heap.load r.redirectBufPtr r.redirectBufLen)
    let (p, _) ← enabled (p.recvOn (env protobuf opt) I.services r.dstCoreId buf r.addr)
    return { I with
      process := some p
      tasks := I.tasks.eraseIdx k
      handling := r :: I.handling }
  | .other task =>
    require (I.Idle protobuf opt p task.worker ∧ I.Routed task.worker onServiceRouting)
    let p ← enabled (p.runTask (env protobuf opt) I.services task onServiceRouting)
    return { I with process := some p, tasks := I.tasks.eraseIdx k }

def endTask (p : Process Msg) (k : ℕ) : Except ImplFault (Impl Msg) := do
  let r ← enabled I.handling[k]?
  require ((p.cores r.dstCoreId).stack = [])
  let heap ← onHeap (I.heap.free r.redirectBufPtr r.redirectBufLen)
  return { I with heap := heap, handling := I.handling.eraseIdx k }

def step : ImplAction Msg → Except ImplFault (Impl Msg)
  | .initAsClient onServiceRouting => return { I with onServiceRouting := onServiceRouting }
  | .initAsServer services => do
    require (I.process.isNone = true)
    return { I with services := I.services ++ services }
  | .start world udpInit => I.start opt world udpInit
  | .startReturns => do
    require (I.process.isSome = true)
    return { I with isInitialized := true }
  | .recvPacket c buf addr posted => do
    I.onRecvPacket protobuf opt (← enabled I.process) c buf addr posted
  | .runTask k onServiceRouting => do
    I.runTask protobuf opt (← enabled I.process) k onServiceRouting
  | .endTask k => do I.endTask (← enabled I.process) k
  | .process a => do
    let p ← enabled I.process
    require (I.Permits p a)
    let p ← enabled (p.step (env protobuf opt) I.services a)
    return { I with
      process := some { p with tasks := [] }
      tasks := I.tasks ++ p.tasks.map .other }

end Impl

end HyperRpc
