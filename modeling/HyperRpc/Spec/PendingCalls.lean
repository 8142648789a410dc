import HyperRpc.Model.SessionMachine

/-!
# What a session manager is for

A table of the calls that wait for an answer, each under an id of its own. There are no slots here,
no masks and no counter, and no timers: a new id is any that is not in use, and a call may time out
at any moment. The table says what a caller can rely on. An answer counts for the call whose id and
names it carries and for no other; a failed send moves to the next endpoint; a call is answered once
and its id is free again when `done` has returned; and a call is refused only when at least `limit`
calls are in the table.
-/
namespace HyperRpc

/-- What callers and the network see of a manager. -/
inductive Observed
  | sent (method : MethodDescriptor) (request : MsgRef) (rpcId : UInt64) (addr : Addr)
  | answered (done : Closure) (result : Result)
  deriving DecidableEq

/-- A call in the table, with the endpoints it has not been sent to. -/
structure PendingCall where
  done : Closure
  method : MethodDescriptor
  request : MsgRef
  response : MsgRef
  untried : List Addr
  deriving DecidableEq

def PendingCall.Named (call : PendingCall) (service method : Str) : Prop :=
  call.method.service.name = service ∧ call.method.name = method

/-- The table, the callbacks that are running, innermost first, the messages of the callers, and
what has been seen so far, newest first. A running `done` is known by the id that is free when it
returns. -/
structure PendingCalls (Msg : Type) where
  calls : UInt64 → Option PendingCall
  running : List (Option UInt64)
  mem : MsgRef → Msg
  log : List Observed

namespace PendingCalls

variable {Msg : Type} (env : SessionEnv Msg) (limit : ℕ) (t : PendingCalls Msg)

def initial (mem : MsgRef → Msg) : PendingCalls Msg := ⟨fun _ => none, [], mem, []⟩

def set (x : UInt64) (call : Option PendingCall) : PendingCalls Msg :=
  { t with calls := Function.update t.calls x call }

/-- A callback starts that frees no id. -/
def observe (o : Observed) : PendingCalls Msg :=
  { t with running := none :: t.running, log := o :: t.log }

/-- The `done` of the call under an id starts. -/
def complete (x : UInt64) (call : PendingCall) (result : Result) : PendingCalls Msg :=
  { t with running := some x :: t.running, log := .answered call.done result :: t.log }

def pop : PendingCalls Msg := { t with running := t.running.tail }

def parse (call : PendingCall) (respBody : List UInt8) : PendingCalls Msg :=
  { t with
    mem := Function.update t.mem call.response
      (env.parseFromArray (t.mem call.response) respBody).1 }

def Parses (call : PendingCall) (respBody : List UInt8) : Prop :=
  (env.parseFromArray (t.mem call.response) respBody).2 = true

/-- The call is in the table under this id, and its `done` has not started. -/
def Waiting (x : UInt64) (call : PendingCall) : Prop :=
  t.calls x = some call ∧ some x ∉ t.running

def Full : Prop := ∃ ids : Finset UInt64, limit ≤ ids.card ∧ ∀ x ∈ ids, t.calls x ≠ none

/-- What an action may do. A list of more than 65536 endpoints is dropped with its call. -/
inductive Step : Action Msg → PendingCalls Msg → Prop
  | accept {method request response first rest done x} (hlen : (first :: rest).length ≤ 65536)
      (hx : x ≠ 0) (hnew : t.calls x = none) :
      Step (.addSession method request response (first :: rest) done)
        ((t.set x (some ⟨done, method, request, response, rest⟩)).observe
          (.sent method request x first))
  | refuse {method request response endpoints done} (hfull : t.Full limit) :
      Step (.addSession method request response endpoints done)
        (t.observe (.answered done .kInError))
  | drop {method request response endpoints done} (hlen : 65536 < endpoints.length) :
      Step (.addSession method request response endpoints done) t
  | noRoute {done} : Step (.noRoute done) (t.observe (.answered done .kNoRoute))
  | retry {x call addr rest} (hx : t.Waiting x call) (hnext : call.untried = addr :: rest) :
      Step (.onSendRequestFailed x) ((t.set x (some { call with untried := rest })).observe
        (.sent call.method call.request x addr))
  | exhaust {x call} (hx : t.Waiting x call) (hlast : call.untried = []) :
      Step (.onSendRequestFailed x) (t.complete x call .kTimeout)
  | failStale {x} (hx : t.calls x = none) : Step (.onSendRequestFailed x) t
  | respond {service method x result respBody call} (hx : t.Waiting x call)
      (hnamed : call.Named service method) (hparse : t.Parses env call respBody) :
      Step (.onRecvResponse service method x result respBody)
        ((t.parse env call respBody).complete x call result)
  | unparsed {service method x result respBody call} (hx : t.Waiting x call)
      (hnamed : call.Named service method) (hparse : ¬ t.Parses env call respBody) :
      Step (.onRecvResponse service method x result respBody) (t.parse env call respBody)
  | respondStale {service method x result respBody}
      (hx : ∀ call, t.calls x = some call → ¬ call.Named service method) :
      Step (.onRecvResponse service method x result respBody) t
  | timeout {k x call} (hx : t.Waiting x call) : Step (.expire k) (t.complete x call .kTimeout)
  | ret (hrun : t.running.head? = some none) : Step .ret t.pop
  | finish {x} (hrun : t.running.head? = some (some x)) : Step .ret (t.pop.set x none)
  | advance : Step .advance t
  | collect {slot} : Step (.collect slot) t
  | expire {k} : Step (.expire k) t
  | write {mem} : Step (.write mem) { t with mem := mem }

end PendingCalls

end HyperRpc
