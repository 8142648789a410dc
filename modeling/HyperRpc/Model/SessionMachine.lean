import HyperRpc.Lib.Transition
import HyperRpc.Model.SessionManager

/-!
# Runs of a session manager

A worker thread drives its manager from the event loop, from the timer wheel and, through
callbacks, from inside the manager itself. A machine state therefore holds the callbacks that
are running, innermost first. Inside `done` the user may add sessions; inside
`on_send_request_` for an id the transport may report on that id; what an interrupted
function still has to do happens when its callback returns (`ret`).

A timer tick is `advance`, which lets no collected expiry stay behind, then `collect` for
expiries whose deadline has come and `expire` for collected ones in any order. An expiry that
has been collected runs even if its owner has been cancelled meanwhile. `write` is what all
other code does to the messages.

`log`, `sessions` and `calls` record what happened and are never read by the code: all
callbacks ever made and all sessions ever accepted, newest first, and the closures passed so
far. Every call brings a closure of its own.
-/
namespace HyperRpc

open Lib

structure Session where
  done : Closure
  rpcId : UInt64
  method : MethodDescriptor
  request : MsgRef
  response : MsgRef
  endpoints : List Addr
  drawnAt : ℕ
  addedAt : ℕ
  deriving DecidableEq

structure Machine (Msg : Type) where
  st : SessionState Msg
  stack : List Callback
  log : List Callback
  sessions : List Session
  calls : List Closure

inductive Action (Msg : Type)
  | addSession (method : MethodDescriptor) (request response : MsgRef) (endpoints : List Addr)
      (done : Closure)
  | noRoute (done : Closure)
  | onSendRequestFailed (rpcId : UInt64)
  | onRecvResponse (service method : Str) (rpcId : UInt64) (rpcResult : Result)
      (respBody : List UInt8)
  | ret
  | advance
  | collect (slot : ℕ)
  | expire (k : ℕ)
  | write (mem : MsgRef → Msg)

def Callback.isDone (c : Closure) : Callback → Bool
  | .done closure _ _ => closure = some c
  | .onSendRequest .. => false

def Callback.isSend (c : Closure) : Callback → Bool
  | .done .. => false
  | .onSendRequest _ _ _ _ owner => owner = some c

namespace Machine

variable {Msg : Type} (env : SessionEnv Msg) (m : Machine Msg)

def start (mgr : SessionManager) (now : ℕ) (mem : MsgRef → Msg) : Machine Msg :=
  { st := { mgr := mgr, wheel := { now := now, armed := fun _ => none, due := [] }, mem := mem }
    stack := [], log := [], sessions := [], calls := [] }

def node (i : ℕ) : SessionNode := m.st.mgr.sessPool i

/-- The user's code is in control: the event loop or a `done` callback. -/
def inUserCode : Bool :=
  match m.stack with
  | [] => true
  | .done .. :: _ => true
  | .onSendRequest .. :: _ => false

/-- The transport may report on `rpcId`: from the event loop, or while it is sending it. -/
def mayReport (rpcId : UInt64) : Bool :=
  match m.stack with
  | [] => true
  | .onSendRequest _ _ x _ _ :: _ => x = rpcId
  | .done .. :: _ => false

/-- The machine after a stretch of manager code that ends in a call-out or returns. -/
def enter (st : SessionState Msg) : Option Callback → Machine Msg
  | none => { m with st := st }
  | some cb => { m with st := st, stack := cb :: m.stack, log := cb :: m.log }

def addSession (method : MethodDescriptor) (request response : MsgRef) (endpoints : List Addr)
    (done : Closure) : Machine Msg :=
  match m.st.addSession env method request response endpoints done with
  | (st, false, cb) => { m.enter st cb with calls := done :: m.calls }
  | (st, true, cb) =>
    { m.enter st cb with
      calls := done :: m.calls
      sessions := ⟨done, st.mgr.nextRpcId, method, request, response, endpoints, st.mgr.drawn,
        st.wheel.now⟩ :: m.sessions }

/-- `RpcCore::CallMethod` found no endpoint and calls `done` itself. -/
def noRoute (done : Closure) : Machine Msg :=
  { m.enter m.st (some (.done (some done) .kNoRoute .noRoute)) with calls := done :: m.calls }

def onSendRequestFailed (rpcId : UInt64) : Machine Msg :=
  let r := m.st.onSendRequestFailed rpcId
  m.enter r.1 r.2

def onRecvResponse (service method : Str) (rpcId : UInt64) (rpcResult : Result)
    (respBody : List UInt8) : Machine Msg :=
  let r := m.st.onRecvResponse env service method rpcId rpcResult respBody
  m.enter r.1 r.2

/-- A due expiry leaves the wheel for the tick's list. -/
def collect (slot : ℕ) (e : Expiry) : Machine Msg :=
  let node := { m.node slot with
    hasTimer := (m.node slot).hasTimer && env.hasTimerAfterExpiry }
  { m with st := { m.st.setNode slot node with
    wheel := { m.st.wheel.disarm slot with due := m.st.wheel.due ++ [e] } } }

def expire (k : ℕ) (e : Expiry) : Machine Msg :=
  let r := { m.st with
    wheel := { m.st.wheel with due := m.st.wheel.due.eraseIdx k } }.onSessionTimeout e.slot
  m.enter r.1 r.2

/-- One step; `none` where the action is not enabled. -/
def step : Action Msg → Option (Machine Msg)
  | .addSession method request response endpoints done =>
    if m.inUserCode ∧ done ∉ m.calls ∧ endpoints ≠ [] then
      some (m.addSession env method request response endpoints done)
    else none
  | .noRoute done =>
    if m.inUserCode ∧ done ∉ m.calls then some (m.noRoute done) else none
  | .onSendRequestFailed rpcId =>
    if m.mayReport rpcId ∧ rpcId ≠ 0 then some (m.onSendRequestFailed rpcId) else none
  | .onRecvResponse service method rpcId rpcResult respBody =>
    if m.mayReport rpcId ∧ rpcId ≠ 0 then
      some (m.onRecvResponse env service method rpcId rpcResult respBody)
    else none
  | .ret =>
    match m.stack with
    | [] => none
    | cb :: stack => some { m with st := m.st.resume env cb, stack := stack }
  | .advance =>
    if m.stack = [] ∧ m.st.wheel.due = [] then
      some { m with st := { m.st with wheel := { m.st.wheel with now := m.st.wheel.now + 1 } } }
    else none
  | .collect slot =>
    match m.stack, m.st.wheel.armed slot with
    | [], some e => if e.deadline ≤ m.st.wheel.now then some (m.collect env slot e) else none
    | _, _ => none
  | .expire k =>
    match m.stack, m.st.wheel.due[k]? with
    | [], some e => some (m.expire k e)
    | _, _ => none
  | .write mem => some { m with st := { m.st with mem := mem } }

/-- One operation whose callback, if it makes one, returns at once. -/
def operation (a : Action Msg) : Option (Machine Msg) :=
  (step env m a).bind fun m' =>
    match m'.stack with
    | [] => some m'
    | _ :: _ => step env m' .ret

/-- The states of a run from `start`, each of whose steps meets `ok`. -/
abbrev ReachableIf (ok : Machine Msg → Action Msg → Prop) (mgr : SessionManager) (now : ℕ)
    (mem : MsgRef → Msg) (m : Machine Msg) : Prop :=
  Reaches (step env) ok (start mgr now mem) m

abbrev Reachable (mgr : SessionManager) (now : ℕ) (mem : MsgRef → Msg) (m : Machine Msg) : Prop :=
  ReachableIf env (fun _ _ => True) mgr now mem m

/-- The states between the operations of a run whose callbacks do not call back. -/
abbrev Operated (mgr : SessionManager) (now : ℕ) (mem : MsgRef → Msg) (m : Machine Msg) : Prop :=
  Reaches (operation env) (fun _ _ => True) (start mgr now mem) m

/-- How often `done` of a call has been invoked. -/
def doneCount (c : Closure) : ℕ := m.log.countP (Callback.isDone c)

def sendCount (c : Closure) : ℕ := m.log.countP (Callback.isSend c)

end Machine

end HyperRpc
