import HyperRpc.Lib.RingCounter
import HyperRpc.Model.Types
import Mathlib.Logic.Function.Basic

/-!
# `RpcSessionManager`

The manager's own data, the timer wheel it arms its sessions on and the messages of its
callers, with one function for each function of the source. A function that calls back
stops at the call: it returns the state it has reached and the `Callback` that is about to
run, and `SessionState.resume` is what is left of the function once the callback returns.
Callbacks that call the manager again are the business of `SessionMachine`.

Names beginning with `has`, `armed` or `due` belong to `ccb::TimerWheel`. Two values are kept
for the proofs only and never read by the code: `SessionManager.drawn`, the number of ids
drawn so far, and `Expiry.armedBy`, the call that armed an expiry.
-/
namespace HyperRpc

open Lib

/-- A `ccb::ClosureFunc<void(Result)>`, known by the call it was passed to. -/
abbrev Closure := ℕ

/-- The address of a message object of the caller. -/
abbrev MsgRef := ℕ

/-- Number of low bits of an rpc_id that count. -/
def kRpcIdSeqPartBits : ℕ := 48

/-- `RpcSessionManager::SessionNode`; `rpcId = 0` stands for an empty node. -/
structure SessionNode where
  rpcId : UInt64
  method : MethodDescriptor
  request : MsgRef
  response : MsgRef
  done : Option Closure
  hasTimer : Bool
  endpointIndex : UInt16
  endpointList : List Addr
  deriving DecidableEq

/-- The constructor: the pointers keep whatever the memory held. -/
def SessionNode.construct (memory : SessionNode) : SessionNode :=
  { memory with rpcId := 0, done := none, hasTimer := false, endpointList := [] }

structure SessionManager where
  poolSizeOrder : ℕ
  poolSizeMask : UInt64
  sessPool : ℕ → SessionNode
  nextRpcId : UInt64
  drawn : ℕ

namespace SessionManager

/-- The sizing loop of `Init`; `none` when it has not stopped before the shift wraps. -/
def poolSizeOrderLoop (sessPoolSize : UInt64) : ℕ → ℕ → Option ℕ
  | 0, _ => none
  | fuel + 1, order =>
    if (1 : UInt64) <<< UInt64.ofNat order < sessPoolSize then
      poolSizeOrderLoop sessPoolSize fuel (order + 1)
    else some order

/-- `Init`: rpc_id = core id plus one (16 bits), a random part (32 bits), zeros (16 bits). -/
def init (sessPoolSize rpcCoreId : UInt64) (rand : UInt32) (memory : ℕ → SessionNode) :
    Option SessionManager :=
  (poolSizeOrderLoop sessPoolSize 64 0).map fun order =>
    { poolSizeOrder := min order kRpcIdSeqPartBits
      poolSizeMask := ((1 : UInt64) <<< UInt64.ofNat order) - 1
      sessPool := fun i => (memory i).construct
      nextRpcId := ((rpcCoreId + 1) <<< 48) + (rand.toUInt64 <<< 16)
      drawn := 0 }

variable (m : SessionManager)

/-- `NextRpcId`. -/
def drawRpcId : SessionManager :=
  let mask := ((1 : UInt64) <<< 48) - 1
  { m with
    nextRpcId := (m.nextRpcId &&& ~~~mask) + ((m.nextRpcId + 1) &&& mask)
    drawn := m.drawn + 1 }

def slotOf (rpcId : UInt64) : ℕ := (rpcId &&& m.poolSizeMask).toNat

def setNode (i : ℕ) (node : SessionNode) : SessionManager :=
  { m with sessPool := Function.update m.sessPool i node }

/-- The probing loop of `AllocSessionNode`, with the number of probes left. -/
def allocLoop : ℕ → SessionManager → SessionManager × Option ℕ
  | 0, m => (m, none)
  | n + 1, m =>
    let m := m.drawRpcId
    let i := m.slotOf m.nextRpcId
    if (m.sessPool i).rpcId = 0 then
      (m.setNode i { m.sessPool i with rpcId := m.nextRpcId }, some i)
    else allocLoop n m

def allocSessionNode : SessionManager × Option ℕ := allocLoop (2 ^ m.poolSizeOrder) m

def findSessionNode (rpcId : UInt64) : Option ℕ :=
  let i := m.slotOf rpcId
  if (m.sessPool i).rpcId = rpcId then some i else none

def freeSessionNode (i : ℕ) : SessionManager :=
  m.setNode i { m.sessPool i with rpcId := 0, done := none }

end SessionManager

/-- A pending `OnSessionTimeout(node)` of the timer wheel. -/
structure Expiry where
  slot : ℕ
  deadline : ℕ
  armedBy : Closure
  deriving DecidableEq, Repr

/-- `ccb::TimerWheel`: the expiry each slot's `timer_owner` has armed, and the expiries
collected in the current tick that have not run yet. Cancelling does not reach the latter. -/
structure TimerWheel where
  now : ℕ
  armed : ℕ → Option Expiry
  due : List Expiry

namespace TimerWheel

/-- One expiry of the slot is pending afterwards. -/
def arm (w : TimerWheel) (slot timeout : ℕ) (armedBy : Closure) : TimerWheel :=
  { w with armed := Function.update w.armed slot (some ⟨slot, w.now + timeout, armedBy⟩) }

/-- `AddTimer` with the slot's `OnSessionTimeout` and the slot's owner. -/
def addTimer (w : TimerWheel) (slot timeout : ℕ) (armedBy : Closure) : TimerWheel :=
  w.arm slot timeout armedBy

/-- `ResetTimer` of the slot's owner, whose callback stays. -/
def resetTimer (w : TimerWheel) (slot timeout : ℕ) (armedBy : Closure) : TimerWheel :=
  w.arm slot timeout armedBy

def disarm (w : TimerWheel) (slot : ℕ) : TimerWheel :=
  { w with armed := Function.update w.armed slot none }

end TimerWheel

/-- What the manager uses of its surroundings. The two flags say what `has_timer()` answers
after `Cancel` and after the timer has expired. -/
structure SessionEnv (Msg : Type) where
  defaultRpcTimeout : ℕ
  parseFromArray : Msg → List UInt8 → Msg × Bool
  hasTimerAfterCancel : Bool
  hasTimerAfterExpiry : Bool

/-- The place of a call of `done`: what is left to do there depends on it. -/
inductive DoneSite
  | noRoute
  | refused
  | lastEndpoint (slot : ℕ)
  | response (slot : ℕ)
  | timeout (slot : ℕ)
  deriving DecidableEq, Repr

/-- The slot that is freed when `done` returns. -/
def DoneSite.slot? : DoneSite → Option ℕ
  | noRoute => none
  | refused => none
  | lastEndpoint i => some i
  | response i => some i
  | timeout i => some i

/-- A call out of the manager. The owner of a send names the session it is made for and is
not an argument of the call. -/
inductive Callback
  | onSendRequest (method : MethodDescriptor) (request : MsgRef) (rpcId : UInt64) (addr : Addr)
      (owner : Option Closure)
  | done (closure : Option Closure) (result : Result) (site : DoneSite)
  deriving DecidableEq

def getEndpoint (endpointList : List Addr) (index : ℕ) : Addr := endpointList.getD index ⟨0, 0⟩

structure SessionState (Msg : Type) where
  mgr : SessionManager
  wheel : TimerWheel
  mem : MsgRef → Msg

namespace SessionState

variable {Msg : Type} (env : SessionEnv Msg) (s : SessionState Msg)

def node (i : ℕ) : SessionNode := s.mgr.sessPool i

def setNode (i : ℕ) (node : SessionNode) : SessionState Msg :=
  { s with mgr := s.mgr.setNode i node }

def cancelTimer (i : ℕ) : SessionState Msg :=
  { s.setNode i { s.node i with hasTimer := (s.node i).hasTimer && env.hasTimerAfterCancel } with
    wheel := s.wheel.disarm i }

def freeSessionNode (i : ℕ) : SessionState Msg := { s with mgr := s.mgr.freeSessionNode i }

/-- `AddSession`: the state at its call-out, the value it returns and the call-out. -/
def addSession (method : MethodDescriptor) (request response : MsgRef) (endpointList : List Addr)
    (done : Closure) : SessionState Msg × Bool × Option Callback :=
  if endpointList.length > 65536 then (s, false, none)
  else
    match s.mgr.allocSessionNode with
    | (mgr, none) => ({ s with mgr := mgr }, false, some (.done (some done) .kInError .refused))
    | (mgr, some i) =>
      let s := { s with mgr := mgr }
      let node : SessionNode := { s.node i with
        method := method, request := request, response := response, done := some done }
      let wheel : TimerWheel :=
        if ¬ node.hasTimer then s.wheel.addTimer i env.defaultRpcTimeout done
        else s.wheel.resetTimer i env.defaultRpcTimeout done
      let node := { node with hasTimer := true, endpointIndex := 0, endpointList := endpointList }
      ({ s.setNode i node with wheel := wheel }, true,
        some (.onSendRequest method request node.rpcId (getEndpoint node.endpointList 0) node.done))

def onSendRequestFailed (rpcId : UInt64) : SessionState Msg × Option Callback :=
  match s.mgr.findSessionNode rpcId with
  | none => (s, none)
  | some i =>
    let node := { s.node i with endpointIndex := (s.node i).endpointIndex + 1 }
    let s := s.setNode i node
    if node.endpointIndex.toNat < node.endpointList.length then
      (s, some (.onSendRequest node.method node.request node.rpcId
        (getEndpoint node.endpointList node.endpointIndex.toNat) node.done))
    else (s, some (.done node.done .kTimeout (.lastEndpoint i)))

def onRecvResponse (service method : Str) (rpcId : UInt64) (rpcResult : Result)
    (respBody : List UInt8) : SessionState Msg × Option Callback :=
  match s.mgr.findSessionNode rpcId with
  | none => (s, none)
  | some i =>
    let node := s.node i
    if node.method.service.name ≠ service ∨ node.method.name ≠ method then (s, none)
    else
      let parsed := env.parseFromArray (s.mem node.response) respBody
      let s := { s with mem := Function.update s.mem node.response parsed.1 }
      if ¬ parsed.2 then (s, none)
      else (s, some (.done node.done rpcResult (.response i)))

def onSessionTimeout (i : ℕ) : SessionState Msg × Option Callback :=
  if (s.node i).rpcId ≠ 0 then (s, some (.done (s.node i).done .kTimeout (.timeout i)))
  else (s, none)

/-- What is left of the interrupted function when a callback returns. -/
def resume (cb : Callback) : SessionState Msg :=
  match cb with
  | .onSendRequest .. => s
  | .done _ _ .noRoute => s
  | .done _ _ .refused => s
  | .done _ _ (.lastEndpoint i) => (s.cancelTimer env i).freeSessionNode i
  | .done _ _ (.response i) => (s.cancelTimer env i).freeSessionNode i
  | .done _ _ (.timeout i) => s.freeSessionNode i

end SessionState

end HyperRpc
