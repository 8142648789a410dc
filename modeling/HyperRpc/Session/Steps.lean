import HyperRpc.Model.SessionMachine
import HyperRpc.Session.Allocation

/-!
# What one step can do

`Trans` lists every effect a step of the machine can have, with the guards under which it
happens; `step_trans` reads it off the definitions once. The invariants are proved of `Trans`.
-/
namespace HyperRpc

open Lib

/-- The session a callback works for. -/
def Callback.owner : Callback → Option Closure
  | .onSendRequest _ _ _ _ owner => owner
  | .done closure _ _ => closure

/-- The session's timer is cancelled when `done` returns. -/
def DoneSite.cancels : DoneSite → Bool
  | .timeout _ => false
  | _ => true

/-- The slot that is freed when the callback returns. -/
def Callback.slot? : Callback → Option ℕ
  | .onSendRequest .. => none
  | .done _ _ site => site.slot?

namespace Machine

variable {Msg : Type} (env : SessionEnv Msg) (m : Machine Msg)

def Live (i : ℕ) : Prop := (m.node i).rpcId ≠ 0

/-- A callback starts to run. -/
def push (cb : Callback) : Machine Msg := { m with stack := cb :: m.stack, log := cb :: m.log }

def setNode (i : ℕ) (node : SessionNode) : Machine Msg := { m with st := m.st.setNode i node }

/-- The machine after other code has written to the messages. -/
def withMem (mem : MsgRef → Msg) : Machine Msg := { m with st := { m.st with mem := mem } }

/-- The node after `++node->endpoint_index`. -/
def bumped (i : ℕ) : SessionNode :=
  { m.node i with endpointIndex := (m.node i).endpointIndex + 1 }

/-- The send a failed endpoint leads to. -/
def retrySend (i : ℕ) : Callback :=
  .onSendRequest (m.node i).method (m.node i).request (m.node i).rpcId
    (getEndpoint (m.node i).endpointList (m.bumped i).endpointIndex.toNat) (m.node i).done

/-- The outcome of parsing a body into the response message of slot `i`. -/
def parsed (i : ℕ) (respBody : List UInt8) : Msg × Bool :=
  env.parseFromArray (m.st.mem (m.node i).response) respBody

/-- The response message of slot `i` holds what the parser left there. -/
def parseInto (i : ℕ) (respBody : List UInt8) : Machine Msg :=
  { m with st := { m.st with
    mem := Function.update m.st.mem (m.node i).response (m.parsed env i respBody).1 } }

/-- `AddSession` has filled slot `i`, found at the `j`-th probe, and sends the request. -/
def accept (method : MethodDescriptor) (request response : MsgRef) (endpoints : List Addr)
    (done : Closure) (j i : ℕ) : Machine Msg :=
  let mgr := m.st.mgr.advance (j + 1)
  let node : SessionNode :=
    ⟨mgr.nextRpcId, method, request, response, some done, true, 0, endpoints⟩
  let cb :=
    Callback.onSendRequest method request mgr.nextRpcId (getEndpoint endpoints 0) (some done)
  { st :=
      { mgr := mgr.setNode i node
        wheel := m.st.wheel.arm i env.defaultRpcTimeout done
        mem := m.st.mem }
    stack := cb :: m.stack
    log := cb :: m.log
    sessions := ⟨done, mgr.nextRpcId, method, request, response, endpoints, mgr.drawn,
      m.st.wheel.now⟩ :: m.sessions
    calls := done :: m.calls }

/-- Slot `i` is freed; with `cancel`, its timer is taken off the wheel first. -/
def close (cancel : Bool) (i : ℕ) (stack : List Callback) : Machine Msg :=
  { m with
    st := (if cancel then m.st.cancelTimer env i else m.st).freeSessionNode i
    stack := stack }

inductive Trans : Action Msg → Machine Msg → Prop
  | tooLong {method request response endpoints done} (huser : m.inUserCode)
      (hdone : done ∉ m.calls) (hlen : 65536 < endpoints.length) :
      Trans (.addSession method request response endpoints done) { m with calls := done :: m.calls }
  | poolFull {method request response endpoints done} (huser : m.inUserCode)
      (hdone : done ∉ m.calls) (hlen : endpoints.length ≤ 65536)
      (hfull : ∀ j < 2 ^ m.st.mgr.poolSizeOrder, m.Live (m.st.mgr.probe j)) :
      Trans (.addSession method request response endpoints done)
        { m.push (.done (some done) .kInError .refused) with
          st := { m.st with mgr := m.st.mgr.advance (2 ^ m.st.mgr.poolSizeOrder) }
          calls := done :: m.calls }
  | accepted {method request response endpoints done} (huser : m.inUserCode)
      (hdone : done ∉ m.calls) (hne : endpoints ≠ []) (hlen : endpoints.length ≤ 65536)
      {j i : ℕ} (hfree : m.st.mgr.FirstFree j i) :
      Trans (.addSession method request response endpoints done)
        (m.accept env method request response endpoints done j i)
  | noRoute {done} (huser : m.inUserCode) (hdone : done ∉ m.calls) :
      Trans (.noRoute done)
        { m.push (.done (some done) .kNoRoute .noRoute) with calls := done :: m.calls }
  | failUnknown {rpcId} (hrep : m.mayReport rpcId) (hne : rpcId ≠ 0)
      (hnone : m.st.mgr.findSessionNode rpcId = none) : Trans (.onSendRequestFailed rpcId) m
  | failRetry {rpcId i} (hrep : m.mayReport rpcId) (hne : rpcId ≠ 0)
      (hfind : m.st.mgr.findSessionNode rpcId = some i)
      (hidx : (m.bumped i).endpointIndex.toNat < (m.node i).endpointList.length) :
      Trans (.onSendRequestFailed rpcId) ((m.setNode i (m.bumped i)).push (m.retrySend i))
  | failLast {rpcId i} (hrep : m.mayReport rpcId) (hne : rpcId ≠ 0)
      (hfind : m.st.mgr.findSessionNode rpcId = some i)
      (hidx : (m.node i).endpointList.length ≤ (m.bumped i).endpointIndex.toNat) :
      Trans (.onSendRequestFailed rpcId)
        ((m.setNode i (m.bumped i)).push (.done (m.node i).done .kTimeout (.lastEndpoint i)))
  | respIgnored {service method rpcId rpcResult respBody} (hrep : m.mayReport rpcId)
      (hne : rpcId ≠ 0)
      (hbad : m.st.mgr.findSessionNode rpcId = none ∨
        ∃ i, m.st.mgr.findSessionNode rpcId = some i ∧
          ((m.node i).method.service.name ≠ service ∨ (m.node i).method.name ≠ method)) :
      Trans (.onRecvResponse service method rpcId rpcResult respBody) m
  | respUnparsed {service method rpcId rpcResult respBody i} (hrep : m.mayReport rpcId)
      (hne : rpcId ≠ 0) (hfind : m.st.mgr.findSessionNode rpcId = some i)
      (hnames : (m.node i).method.service.name = service ∧ (m.node i).method.name = method)
      (hparse : (m.parsed env i respBody).2 = false) :
      Trans (.onRecvResponse service method rpcId rpcResult respBody) (m.parseInto env i respBody)
  | respDone {service method rpcId rpcResult respBody i} (hrep : m.mayReport rpcId)
      (hne : rpcId ≠ 0) (hfind : m.st.mgr.findSessionNode rpcId = some i)
      (hnames : (m.node i).method.service.name = service ∧ (m.node i).method.name = method)
      (hparse : (m.parsed env i respBody).2 = true) :
      Trans (.onRecvResponse service method rpcId rpcResult respBody)
        ((m.parseInto env i respBody).push (.done (m.node i).done rpcResult (.response i)))
  | retLoose {cb rest} (hstack : m.stack = cb :: rest) (hslot : cb.slot? = none) :
      Trans .ret { m with stack := rest }
  | retClose {closure result site rest i} (hstack : m.stack = .done closure result site :: rest)
      (hslot : site.slot? = some i) :
      Trans .ret (m.close env site.cancels i rest)
  | advance (hstack : m.stack = []) (hdue : m.st.wheel.due = []) :
      Trans .advance
        { m with st := { m.st with wheel := { m.st.wheel with now := m.st.wheel.now + 1 } } }
  | collect {slot e} (hstack : m.stack = []) (harmed : m.st.wheel.armed slot = some e)
      (hdeadline : e.deadline ≤ m.st.wheel.now) : Trans (.collect slot) (m.collect env slot e)
  | expireFree {k e} (hstack : m.stack = []) (hdue : m.st.wheel.due[k]? = some e)
      (hfree : ¬ m.Live e.slot) :
      Trans (.expire k) { m with st := { m.st with
        wheel := { m.st.wheel with due := m.st.wheel.due.eraseIdx k } } }
  | expireLive {k e} (hstack : m.stack = []) (hdue : m.st.wheel.due[k]? = some e)
      (hlive : m.Live e.slot) :
      Trans (.expire k) { m.push (.done (m.node e.slot).done .kTimeout (.timeout e.slot)) with
        st := { m.st with wheel := { m.st.wheel with due := m.st.wheel.due.eraseIdx k } } }
  | write {mem} : Trans (.write mem) { m with st := { m.st with mem := mem } }

variable {env m}

theorem addSession_trans {method : MethodDescriptor} {request response : MsgRef}
    {endpoints : List Addr} {done : Closure} (huser : m.inUserCode) (hdone : done ∉ m.calls)
    (hne : endpoints ≠ []) :
    m.Trans env (.addSession method request response endpoints done)
      (m.addSession env method request response endpoints done) := by
  by_cases hlen : 65536 < endpoints.length
  · have h : m.addSession env method request response endpoints done =
        { m with calls := done :: m.calls } := by
      simp [addSession, SessionState.addSession, hlen, enter]
    rw [h]
    exact .tooLong huser hdone hlen
  · rcases m.st.mgr.allocSessionNode_cases with ⟨j, i, hff, halloc⟩ | ⟨hfull, halloc⟩
    · have h : m.addSession env method request response endpoints done =
          m.accept env method request response endpoints done j i := by
        simp [addSession, SessionState.addSession, hlen, halloc, enter, accept,
          SessionManager.setNode, SessionState.setNode, SessionState.node, TimerWheel.addTimer,
          TimerWheel.resetTimer]
        rfl
      rw [h]
      exact .accepted huser hdone hne (by omega) hff
    · have h : m.addSession env method request response endpoints done =
          { m.push (.done (some done) .kInError .refused) with
            st := { m.st with mgr := m.st.mgr.advance (2 ^ m.st.mgr.poolSizeOrder) }
            calls := done :: m.calls } := by
        simp [addSession, SessionState.addSession, hlen, halloc, enter, push]
      rw [h]
      exact .poolFull huser hdone (by omega) hfull

theorem onSendRequestFailed_trans {rpcId : UInt64} (hrep : m.mayReport rpcId) (hne : rpcId ≠ 0) :
    m.Trans env (.onSendRequestFailed rpcId) (m.onSendRequestFailed rpcId) := by
  cases hfind : m.st.mgr.findSessionNode rpcId with
  | none =>
    have h : m.onSendRequestFailed rpcId = m := by
      simp [onSendRequestFailed, SessionState.onSendRequestFailed, hfind, enter]
    rw [h]
    exact .failUnknown hrep hne hfind
  | some i =>
    by_cases hidx : ((m.st.node i).endpointIndex + 1).toNat < (m.st.node i).endpointList.length
    · have h : m.onSendRequestFailed rpcId = (m.setNode i (m.bumped i)).push (m.retrySend i) := by
        simp only [onSendRequestFailed, SessionState.onSendRequestFailed, hfind]
        rw [if_pos hidx]
        rfl
      rw [h]
      exact .failRetry hrep hne hfind hidx
    · have h : m.onSendRequestFailed rpcId = (m.setNode i (m.bumped i)).push
          (.done (m.node i).done .kTimeout (.lastEndpoint i)) := by
        simp only [onSendRequestFailed, SessionState.onSendRequestFailed, hfind]
        rw [if_neg hidx]
        rfl
      rw [h]
      exact .failLast hrep hne hfind (Nat.not_lt.mp hidx)

theorem onRecvResponse_trans {service method : Str} {rpcId : UInt64} {rpcResult : Result}
    {respBody : List UInt8} (hrep : m.mayReport rpcId) (hne : rpcId ≠ 0) :
    m.Trans env (.onRecvResponse service method rpcId rpcResult respBody)
      (m.onRecvResponse env service method rpcId rpcResult respBody) := by
  cases hfind : m.st.mgr.findSessionNode rpcId with
  | none =>
    have h : m.onRecvResponse env service method rpcId rpcResult respBody = m := by
      simp [onRecvResponse, SessionState.onRecvResponse, hfind, enter]
    rw [h]
    exact .respIgnored hrep hne (Or.inl hfind)
  | some i =>
    by_cases hnames : (m.node i).method.service.name = service ∧ (m.node i).method.name = method
    · have hguard : ¬ ((m.st.node i).method.service.name ≠ service ∨
          (m.st.node i).method.name ≠ method) := fun h =>
        h.elim (absurd hnames.1) (absurd hnames.2)
      cases hparse : (m.parsed env i respBody).2 with
      | false =>
        have h : m.onRecvResponse env service method rpcId rpcResult respBody =
            m.parseInto env i respBody := by
          simp only [onRecvResponse, SessionState.onRecvResponse, hfind, if_neg hguard]
          rw [if_pos (by simpa [parsed, node, SessionState.node] using hparse)]
          rfl
        rw [h]
        exact .respUnparsed hrep hne hfind hnames hparse
      | true =>
        have h : m.onRecvResponse env service method rpcId rpcResult respBody =
            (m.parseInto env i respBody).push
              (.done (m.node i).done rpcResult (.response i)) := by
          simp only [onRecvResponse, SessionState.onRecvResponse, hfind, if_neg hguard]
          rw [if_neg (by simpa [parsed, node, SessionState.node] using hparse)]
          rfl
        rw [h]
        exact .respDone hrep hne hfind hnames hparse
    · have hguard : (m.st.node i).method.service.name ≠ service ∨
          (m.st.node i).method.name ≠ method := not_and_or.mp hnames
      have h : m.onRecvResponse env service method rpcId rpcResult respBody = m := by
        simp only [onRecvResponse, SessionState.onRecvResponse, hfind, if_pos hguard, enter]
      rw [h]
      exact .respIgnored hrep hne (Or.inr ⟨i, hfind, hguard⟩)

theorem ret_trans {cb : Callback} {rest : List Callback} (hstack : m.stack = cb :: rest) :
    m.Trans env .ret { m with st := m.st.resume env cb, stack := rest } := by
  cases cb with
  | onSendRequest => exact .retLoose hstack rfl
  | done closure result site =>
    cases site with
    | noRoute => exact .retLoose hstack rfl
    | refused => exact .retLoose hstack rfl
    | lastEndpoint i => exact .retClose hstack rfl
    | response i => exact .retClose hstack rfl
    | timeout i => exact .retClose hstack rfl

theorem expire_trans {k : ℕ} {e : Expiry} (hstack : m.stack = [])
    (hdue : m.st.wheel.due[k]? = some e) : m.Trans env (.expire k) (m.expire k e) := by
  by_cases hlive : m.Live e.slot
  · have hid : (m.st.mgr.sessPool e.slot).rpcId ≠ 0 := hlive
    have h : m.Trans env (.expire k) _ := .expireLive hstack hdue hlive
    simpa [expire, SessionState.onSessionTimeout, SessionState.node, hid, enter, push, node] using h
  · have hid : (m.st.mgr.sessPool e.slot).rpcId = 0 := not_not.mp hlive
    have h : m.Trans env (.expire k) _ := .expireFree hstack hdue hlive
    simpa [expire, SessionState.onSessionTimeout, SessionState.node, hid, enter] using h

theorem step_trans {a : Action Msg} {m' : Machine Msg} (h : m.step env a = some m') :
    m.Trans env a m' := by
  cases a with
  | addSession method request response endpoints done =>
    obtain ⟨⟨huser, hdone, hne⟩, heq⟩ := Option.ite_none_right_eq_some.mp h
    cases heq
    exact addSession_trans huser hdone hne
  | noRoute done =>
    obtain ⟨⟨huser, hdone⟩, heq⟩ := Option.ite_none_right_eq_some.mp h
    cases heq
    exact .noRoute huser hdone
  | onSendRequestFailed rpcId =>
    obtain ⟨⟨hrep, hne⟩, heq⟩ := Option.ite_none_right_eq_some.mp h
    cases heq
    exact onSendRequestFailed_trans hrep hne
  | onRecvResponse service method rpcId rpcResult respBody =>
    obtain ⟨⟨hrep, hne⟩, heq⟩ := Option.ite_none_right_eq_some.mp h
    cases heq
    exact onRecvResponse_trans hrep hne
  | ret =>
    cases hstack : m.stack with
    | nil => simp [step, hstack] at h
    | cons cb rest =>
      simp only [step, hstack, Option.some.injEq] at h
      rw [← h]
      exact ret_trans hstack
  | advance =>
    obtain ⟨⟨hstack, hdue⟩, heq⟩ := Option.ite_none_right_eq_some.mp h
    cases heq
    exact .advance hstack hdue
  | collect slot =>
    cases hstack : m.stack with
    | cons cb rest => simp [step, hstack] at h
    | nil =>
      cases harmed : m.st.wheel.armed slot with
      | none => simp [step, hstack, harmed] at h
      | some e =>
        simp only [step, hstack, harmed, Option.ite_none_right_eq_some, Option.some.injEq] at h
        rw [← h.2]
        exact .collect hstack harmed h.1
  | expire k =>
    cases hstack : m.stack with
    | cons cb rest => simp [step, hstack] at h
    | nil =>
      cases hdue : m.st.wheel.due[k]? with
      | none => simp [step, hstack, hdue] at h
      | some e =>
        simp only [step, hstack, hdue, Option.some.injEq] at h
        rw [← h]
        exact expire_trans hstack hdue
  | write mem =>
    cases h
    exact .write

end Machine

end HyperRpc
