import HyperRpc.Model.EndpointList
import HyperRpc.Model.RpcCore

/-!
# A core with its endpoint lists in memory

The session manager's model holds plain lists of endpoints. Here they are what they are in the
source: the node of every slot has an `EndpointList`, and each `CallMethod` that is running has
one on its stack frame, which the routing callback fills and `AddSession` copies into a node. The
lists share a heap. `core` is the machine of the manager; its nodes leave `endpointList` empty.
-/
namespace HyperRpc

open Lib

inductive CoreAction (Msg : Type)
  | callMethod (method : MethodDescriptor) (request response : MsgRef) (done : Closure)
      (onServiceRouting : Option (RpcCore.OnServiceRouting Msg))
  | onSendRequestFailed (rpcId : UInt64)
  | onRecvResponse (service method : Str) (rpcId : UInt64) (rpcResult : Result)
      (respBody : List UInt8)
  | ret
  | advance
  | collect (slot : ℕ)
  | expire (k : ℕ)
  | write (mem : MsgRef → Msg)

/-- What the action is for a manager that holds plain lists. -/
def CoreAction.toAction {Msg : Type} (mem : MsgRef → Msg) : CoreAction Msg → Action Msg
  | callMethod method request response done onServiceRouting =>
    RpcCore.callMethod onServiceRouting method request response (mem request) done
  | onSendRequestFailed rpcId => .onSendRequestFailed rpcId
  | onRecvResponse service method rpcId rpcResult respBody =>
    .onRecvResponse service method rpcId rpcResult respBody
  | ret => .ret
  | advance => .advance
  | collect slot => .collect slot
  | expire k => .expire k
  | write mem => .write mem

/-- `frames` are the calls of `CallMethod` that have not returned, innermost first, each known by
the number of callbacks that were running when it was called. -/
structure CoreMemory (Msg : Type) where
  core : Machine Msg
  store : EndpointStore
  frames : List ℕ

namespace CoreMemory

variable {Msg : Type}

def slotList (i : ℕ) : ℕ := 2 * i

def frameList (depth : ℕ) : ℕ := 2 * depth + 1

/-- `new SessionNode[..]` constructs an empty list in every slot. -/
def newPool (poolSizeOrder : ℕ) : EndpointStore where
  objects x := if x % 2 = 0 ∧ x / 2 < 2 ^ poolSizeOrder then some .default else none
  heap := .empty

def start (mgr : SessionManager) (now : ℕ) (mem : MsgRef → Msg) : CoreMemory Msg :=
  ⟨.start mgr now mem, newPool mgr.poolSizeOrder, []⟩

/-- `RouteInfoBuilderImpl::AddEndpoint`, once for each of the endpoints. -/
def addEndpoints (list : ℕ) : EndpointStore → List Addr → Except HeapError EndpointStore
  | s, [] => .ok s
  | s, endpoint :: endpoints => do
    let s ← s.call list fun this heap => this.pushBack heap endpoint
    addEndpoints list s endpoints

variable (env : SessionEnv Msg) (c : CoreMemory Msg)

/-- `AddSession` with the list on the frame of a `CallMethod`, which returns when `AddSession`
does. -/
def addSession (depth : ℕ) (method : MethodDescriptor) (request response : MsgRef)
    (done : Closure) : Except HeapError (CoreMemory Msg) := do
  let endpointList ← deref (c.store.objects (frameList depth))
  if endpointList.size > 65536 then
    let store ← c.store.destroy (frameList depth)
    return { c with core := { c.core with calls := done :: c.core.calls }, store := store }
  else
    match c.core.st.mgr.allocSessionNode with
    | (mgr, none) =>
      let st := { c.core.st with mgr := mgr }
      let core := c.core.enter st (some (.done (some done) .kInError .refused))
      return { c with
        core := { core with calls := done :: core.calls }
        frames := depth :: c.frames }
    | (mgr, some i) =>
      let st := { c.core.st with mgr := mgr }
      let node : SessionNode := { st.node i with
        method := method, request := request, response := response, done := some done }
      let wheel : TimerWheel :=
        if ¬ node.hasTimer then st.wheel.addTimer i env.defaultRpcTimeout done
        else st.wheel.resetTimer i env.defaultRpcTimeout done
      let node := { node with hasTimer := true, endpointIndex := 0 }
      let store ← c.store.copyAssign (slotList i) (frameList depth)
      let endpointList ← deref (store.objects (slotList i))
      let addr ← endpointList.getEndpoint store.heap 0
      let core := c.core.enter { st.setNode i node with wheel := wheel }
        (some (.onSendRequest method request node.rpcId addr node.done))
      return ⟨{ core with calls := done :: core.calls }, store, depth :: c.frames⟩

def callMethod (method : MethodDescriptor) (request response : MsgRef) (done : Closure)
    (onServiceRouting : Option (RpcCore.OnServiceRouting Msg)) :
    Except HeapError (CoreMemory Msg) := do
  let depth := c.core.stack.length
  let store ← c.store.step (.construct (frameList depth))
  match onServiceRouting with
  | none => return ⟨c.core.noRoute done, store, depth :: c.frames⟩
  | some route =>
    let routed := route method.service.name method.name (c.core.st.mem request)
    let store ← addEndpoints (frameList depth) store routed.2
    let endpoints ← deref (store.objects (frameList depth))
    if routed.1 = false ∨ endpoints.empty then
      return ⟨c.core.noRoute done, store, depth :: c.frames⟩
    else addSession env { c with store := store } depth method request response done

def onSendRequestFailed (rpcId : UInt64) : Except HeapError (CoreMemory Msg) :=
  match c.core.st.mgr.findSessionNode rpcId with
  | none => return c
  | some i => do
    let node := { c.core.node i with endpointIndex := (c.core.node i).endpointIndex + 1 }
    let st := c.core.st.setNode i node
    let endpointList ← deref (c.store.objects (slotList i))
    if node.endpointIndex.toUInt64 < endpointList.size then
      let addr ← endpointList.getEndpoint c.store.heap node.endpointIndex.toUInt64
      let cb := Callback.onSendRequest node.method node.request node.rpcId addr node.done
      return { c with core := c.core.enter st (some cb) }
    else
      return { c with core := c.core.enter st (some (.done node.done .kTimeout (.lastEndpoint i))) }

/-- A `CallMethod` returns when the callback does that it has made. -/
def leave (depth : ℕ) : Except HeapError (CoreMemory Msg) :=
  match c.frames with
  | frame :: frames =>
    if frame = depth then do
      let store ← c.store.destroy (frameList depth)
      return { c with store := store, frames := frames }
    else return c
  | [] => return c

/-- One step; `invalid` where the action is not enabled. -/
def step : CoreAction Msg → Except HeapError (CoreMemory Msg)
  | .callMethod method request response done onServiceRouting =>
    if c.core.inUserCode ∧ done ∉ c.core.calls then
      c.callMethod env method request response done onServiceRouting
    else .error .invalid
  | .onSendRequestFailed rpcId =>
    if c.core.mayReport rpcId ∧ rpcId ≠ 0 then c.onSendRequestFailed rpcId else .error .invalid
  | .ret => do
    let core ← deref (c.core.step env .ret)
    leave { c with core := core } core.stack.length
  | a => do
    let core ← deref (c.core.step env (a.toAction c.core.st.mem))
    return { c with core := core }

end CoreMemory

def Machine.coreStep {Msg : Type} (env : SessionEnv Msg) (m : Machine Msg) (a : CoreAction Msg) :
    Option (Machine Msg) :=
  m.step env (a.toAction m.st.mem)

end HyperRpc
