import HyperRpc.Core.Receive
import HyperRpc.Model.Process
import HyperRpc.Session.Invariant

/-!
# What one step of a process can do

`CoreStep` is a step of one core with all that the process does around it, `Recv` and
`SendFailed` are what a core makes of a packet and of a failed send, and `Trans` lists the
steps of the process. `step_trans` reads it off the definitions once; what holds of every run
is proved of `Trans`.
-/
namespace HyperRpc

open Lib

namespace Process

variable {Msg : Type} (env : RpcEnv Msg) (services : List (Service Msg)) (p : Process Msg)

/-- The packets a core gives to the transport in a step. -/
inductive Sends (c : ℕ) (p' : Process Msg) : Prop
  | nothing (hout : p'.outbox = p.outbox)
  | request {method request rpcId addr owner rpcHeader buf}
      (hlog : (p'.cores c).log =
        .onSendRequest method request rpcId addr owner :: (p.cores c).log)
      (hbuf : (onOutgoingRpcSend env rpcHeader method ((p'.cores c).st.mem request) rpcId).2 =
        some buf)
      (hout : p'.outbox = ⟨buf, addr, rpcId⟩ :: p.outbox)

/-- Core `c` makes a step; the others see the messages it has written. -/
structure CoreStep (c : ℕ) (a : Action Msg) (p' : Process Msg) : Prop where
  machine : (p.cores c).step env.toSessionEnv a = some (p'.cores c)
  others : ∀ d, d ≠ c → p'.cores d = (p.cores d).withMem (p'.cores c).st.mem
  sends : p.Sends env c p'
  tasks : p'.tasks = p.tasks
  contexts : p'.contexts = p.contexts
  invocations : p'.invocations = p.invocations
  completions : p'.completions = p.completions
  mgrCalls : p'.mgrCalls = a.mgrCalls c ++ p.mgrCalls
  issued : p'.issued = p.issued
  refused : p'.refused = p.refused

/-- A handler is invoked on worker `c`. -/
def invoke (c : ℕ) (service : Service Msg) (ctx : IncomingRpcContext Msg) : Process Msg :=
  { p with
    contexts := ⟨c, service, ctx⟩ :: p.contexts
    invocations := ⟨c, service, ctx⟩ :: p.invocations }

def issue (done : Closure) : Process Msg := { p with issued := done :: p.issued }

/-- The `k`-th context is completed with a response packet. -/
def complete (k : ℕ) (inv : Invocation Msg) (result : Result) (response : Msg) (buf : List UInt8) :
    Process Msg :=
  { p with
    contexts := p.contexts.eraseIdx k
    outbox := ⟨buf, inv.ctx.addr, 0⟩ :: p.outbox
    completions := (inv, result, response) :: p.completions }

/-- All cores see what other code has written to a message. -/
def wrote (ref : MsgRef) (msg : Msg) : Process Msg :=
  { p with cores := fun c => (p.cores c).withMem (Function.update (p.cores c).st.mem ref msg) }

def dropTask (k : ℕ) : Process Msg := { p with tasks := p.tasks.eraseIdx k }

/-- `OnRecvPacket` on core `c`. -/
inductive Recv (c : ℕ) (buf : List UInt8) (addr : Addr) : Process Msg → ℕ → Prop
  | dropped {ret}
      (h : RpcCore.Receives env (serviceMap services) c buf addr ret .dropped) :
      Recv c buf addr p ret
  | invoked {ret service ctx}
      (h : RpcCore.Receives env (serviceMap services) c buf addr ret (.invoke service ctx)) :
      Recv c buf addr (p.invoke c service ctx) ret
  | responded {ret service method rpcId rpcResult respBody p'}
      (h : RpcCore.Receives env (serviceMap services) c buf addr ret
        (.respond service method rpcId rpcResult respBody))
      (hstep : p.CoreStep env c (.onRecvResponse service method rpcId rpcResult respBody) p') :
      Recv c buf addr p' ret

/-- `OnSendPacketFailed` on core `c`. -/
inductive SendFailed (c : ℕ) (ctx : UInt64) : Process Msg → ℕ → Prop
  | elsewhere {ret} (hret : ret = c ∧ RpcCore.getCoreIdFromRpcId env ctx = none ∨
      ret ≠ c ∧ RpcCore.getCoreIdFromRpcId env ctx = some ret) : SendFailed c ctx p ret
  | reported {p'} (hid : RpcCore.getCoreIdFromRpcId env ctx = some c)
      (hstep : p.CoreStep env c (.onSendRequestFailed ctx) p') : SendFailed c ctx p' c

inductive Trans : ProcessAction Msg → Process Msg → Prop
  | recvPacket {c buf addr posted p' dst} (hidle : p.Idle env c)
      (h : p.Recv env services c buf addr p' dst) :
      Trans (.recvPacket c buf addr posted)
        (if dst ≠ c then p'.post (.recvPacket dst buf addr) posted else p')
  | sentOk {c ctx posted} : Trans (.sentResult c true ctx posted) p
  | sentFailed {c ctx posted p' dst} (hc : c < env.workerNum) (h : p.SendFailed env c ctx p' dst) :
      Trans (.sentResult c false ctx posted)
        (if dst ≠ c then p'.post (.sendPacketFailed dst ctx) posted else p')
  | callInWorker {c method request response done route p'} (hc : c < env.workerNum)
      (hdone : done ∉ p.issued)
      (h : (p.issue done).CoreStep env c (RpcCore.callMethod route method request response
        ((p.cores c).st.mem request) done) p') :
      Trans (.callInWorker c method request response done route) p'
  | callPosted {c method request response done} (hc : c < env.workerNum) (hdone : done ∉ p.issued) :
      Trans (.callOutside c method request response done true)
        ((p.issue done).post (.callMethod c method request response done) true)
  | callRefused {c method request response done} (hc : c < env.workerNum)
      (hdone : done ∉ p.issued) :
      Trans (.callOutside c method request response done false)
        { p.issue done with refused := done :: p.refused }
  | runRecv {k c buf addr route p' dst} (htask : p.tasks[k]? = some (.recvPacket c buf addr))
      (hidle : p.Idle env c) (h : (p.dropTask k).Recv env services c buf addr p' dst) :
      Trans (.runTask k route) p'
  | runFailed {k c ctx route p' dst} (htask : p.tasks[k]? = some (.sendPacketFailed c ctx))
      (hidle : p.Idle env c) (h : (p.dropTask k).SendFailed env c ctx p' dst) :
      Trans (.runTask k route) p'
  | runCall {k c method request response done route p'}
      (htask : p.tasks[k]? = some (.callMethod c method request response done))
      (hidle : p.Idle env c)
      (h : (p.dropTask k).CoreStep env c (RpcCore.callMethod route method request response
        ((p.cores c).st.mem request) done) p') :
      Trans (.runTask k route) p'
  | handlerDone {k inv result response buf} (hctx : p.contexts[k]? = some inv)
      (htype : env.typeOf response = env.typeOf inv.ctx.response)
      (hbuf : onIncomingRpcDone env inv.ctx result response = some buf) :
      Trans (.handlerDone k result response) (p.complete k inv result response buf)
  | core {c a p'} (hc : c < env.workerNum) (h : p.CoreStep env c a.toAction p') :
      Trans (.core c a) p'
  | write {ref msg} (htype : env.typeOf msg = env.typeOf ((p.cores 0).st.mem ref)) :
      Trans (.write ref msg) (p.wrote ref msg)

variable {env services p} {p' : Process Msg} {c : ℕ}

/-- A task that runs is counted once less. -/
theorem countP_dropTask {k : ℕ} {task : Task} (h : p.tasks[k]? = some task) (q : Task → Bool) :
    p.tasks.countP q = (p.dropTask k).tasks.countP q + if q task then 1 else 0 := by
  obtain ⟨hk, rfl⟩ := List.getElem?_eq_some_iff.mp h
  rw [← List.countP_cons, dropTask, (List.getElem_cons_eraseIdx_perm hk).countP_eq]

/-- A task that is posted is counted once more. -/
theorem countP_post (task : Task) (posted : Bool) (q : Task → Bool) :
    (p.post task posted).tasks.countP q =
      p.tasks.countP q + if posted ∧ q task then 1 else 0 := by
  cases posted <;> simp [post, List.countP_append, List.countP_cons]

theorem stepCore_spec {a : Action Msg} (h : p.stepCore env c a = some p') :
    p.CoreStep env c a p' := by
  obtain ⟨m, hm, h⟩ := Option.bind_eq_some_iff.mp h
  have hself : (p.setCore c a m).cores c = m := if_pos rfl
  have hothers : ∀ d, d ≠ c → (p.setCore c a m).cores d = (p.cores d).withMem m.st.mem :=
    fun d hd => if_neg hd
  have hquiet : p' = p.setCore c a m → p.CoreStep env c a p' := by
    rintro rfl
    exact ⟨hself.symm ▸ hm, hself.symm ▸ hothers, .nothing rfl, rfl, rfl, rfl, rfl, rfl, rfl, rfl⟩
  split at h
  · rename_i method request rpcId addr owner log hlog
    split at h
    · rename_i hlen
      obtain ⟨buf, hbuf, rfl⟩ := Option.map_eq_some_iff.mp h
      obtain rfl : log = (p.cores c).log := by
        rcases (Machine.step_trans hm).kind.log_cases with hsame | ⟨cb, hcons⟩
        · rw [← hsame, hlog, List.length_cons] at hlen
          omega
        · exact (List.cons.inj (hlog.symm.trans hcons)).2
      have hsent : p.Sends env c { p.setCore c a m with
          rpcHeaders := Function.update (p.setCore c a m).rpcHeaders c
            (onOutgoingRpcSend env ((p.setCore c a m).rpcHeaders c) method (m.st.mem request)
              rpcId).1
          outbox := ⟨buf, addr, rpcId⟩ :: (p.setCore c a m).outbox } :=
        .request (hself.symm ▸ hlog) (hself.symm ▸ hbuf) rfl
      exact ⟨hself.symm ▸ hm, hself.symm ▸ hothers, hsent, rfl, rfl, rfl, rfl, rfl, rfl, rfl⟩
    · exact hquiet (Option.some.inj h).symm
  · exact hquiet (Option.some.inj h).symm

theorem recvOn_spec {buf : List UInt8} {addr : Addr} {ret : ℕ}
    (h : p.recvOn env services c buf addr = some (p', ret)) :
    p.Recv env services c buf addr p' ret := by
  obtain ⟨r, received, hrecv, hcases⟩ :=
    RpcCore.onRecvPacket_receives env (serviceMap services) c buf addr
  rw [recvOn, hrecv, Option.bind_some] at h
  cases received with
  | dropped =>
    cases h
    exact .dropped hcases
  | invoke service ctx =>
    cases h
    exact .invoked hcases
  | respond service method rpcId rpcResult respBody =>
    obtain ⟨p₁, hstep, heq⟩ := Option.map_eq_some_iff.mp h
    cases heq
    exact .responded hcases (stepCore_spec hstep)

theorem sendFailedOn_spec {ctx : UInt64} {ret : ℕ}
    (h : p.sendFailedOn env c ctx = some (p', ret)) : p.SendFailed env c ctx p' ret := by
  rw [sendFailedOn, RpcCore.onSendPacketFailed_eq] at h
  cases hid : RpcCore.getCoreIdFromRpcId env ctx with
  | none =>
    simp only [hid, Option.some.injEq, Prod.mk.injEq] at h
    obtain ⟨rfl, rfl⟩ := h
    exact .elsewhere (Or.inl ⟨rfl, hid⟩)
  | some dst =>
    by_cases hdst : dst = c
    · subst hdst
      simp only [hid, ne_eq, not_true_eq_false, if_false] at h
      obtain ⟨p₁, hstep, heq⟩ := Option.map_eq_some_iff.mp h
      cases heq
      exact .reported hid (stepCore_spec hstep)
    · simp only [hid, ne_eq, hdst, not_false_eq_true, if_true, Option.some.injEq,
        Prod.mk.injEq] at h
      obtain ⟨rfl, rfl⟩ := h
      exact .elsewhere (Or.inr ⟨hdst, hid⟩)

/-- The index a core returns is that of a core. -/
theorem Recv.lt {buf : List UInt8} {addr : Addr} {dst : ℕ} (hc : c < env.workerNum)
    (h : p.Recv env services c buf addr p' dst) : dst < env.workerNum := by
  cases h with
  | dropped h => exact h.lt hc
  | invoked h => exact h.lt hc
  | responded h => exact h.lt hc

theorem Recv.tasks {buf : List UInt8} {addr : Addr} {dst : ℕ}
    (h : p.Recv env services c buf addr p' dst) : p'.tasks = p.tasks := by
  cases h with
  | dropped => rfl
  | invoked => rfl
  | responded _ hstep => exact hstep.tasks

theorem SendFailed.tasks {ctx : UInt64} {dst : ℕ} (h : p.SendFailed env c ctx p' dst) :
    p'.tasks = p.tasks := by
  cases h with
  | elsewhere => rfl
  | reported _ hstep => exact hstep.tasks

theorem step_trans {a : ProcessAction Msg} (h : p.step env services a = some p') :
    p.Trans env services a p' := by
  cases a with
  | recvPacket c buf addr posted =>
    obtain ⟨hidle, h⟩ := Option.ite_none_right_eq_some.mp h
    obtain ⟨⟨p₁, dst⟩, hrecv, rfl⟩ := Option.map_eq_some_iff.mp h
    have hspec := recvOn_spec hrecv
    have hlt := hspec.lt hidle.1
    simp only [hlt, and_true]
    exact .recvPacket hidle hspec
  | sentResult c success ctx posted =>
    obtain ⟨⟨hc, -⟩, h⟩ := Option.ite_none_right_eq_some.mp h
    cases success with
    | true =>
      cases h
      exact .sentOk
    | false =>
      obtain ⟨⟨p₁, dst⟩, hfail, rfl⟩ := Option.map_eq_some_iff.mp h
      exact .sentFailed hc (sendFailedOn_spec hfail)
  | callInWorker c method request response done route =>
    obtain ⟨⟨hc, hdone⟩, h⟩ := Option.ite_none_right_eq_some.mp h
    exact .callInWorker hc hdone (stepCore_spec h)
  | callOutside c method request response done posted =>
    obtain ⟨⟨hc, hdone⟩, h⟩ := Option.ite_none_right_eq_some.mp h
    cases posted with
    | true =>
      cases h
      exact .callPosted hc hdone
    | false =>
      cases h
      exact .callRefused hc hdone
  | runTask k route =>
    cases htask : p.tasks[k]? with
    | none => simp [step, htask] at h
    | some task =>
      simp only [step, htask] at h
      obtain ⟨hidle, h⟩ := Option.ite_none_right_eq_some.mp h
      cases task with
      | recvPacket c buf addr =>
        obtain ⟨⟨p₁, dst⟩, hrecv, rfl⟩ := Option.map_eq_some_iff.mp h
        exact .runRecv htask hidle (recvOn_spec hrecv)
      | sendPacketFailed c ctx =>
        obtain ⟨⟨p₁, dst⟩, hfail, rfl⟩ := Option.map_eq_some_iff.mp h
        exact .runFailed htask hidle (sendFailedOn_spec hfail)
      | callMethod c method request response done =>
        exact .runCall htask hidle (stepCore_spec h)
  | handlerDone k result response =>
    cases hctx : p.contexts[k]? with
    | none => simp [step, hctx] at h
    | some inv =>
      simp only [step, hctx] at h
      obtain ⟨htype, h⟩ := Option.ite_none_right_eq_some.mp h
      obtain ⟨buf, hbuf, rfl⟩ := Option.map_eq_some_iff.mp h
      exact .handlerDone hctx htype hbuf
  | core c a =>
    obtain ⟨hc, h⟩ := Option.ite_none_right_eq_some.mp h
    exact .core hc (stepCore_spec h)
  | write ref msg =>
    obtain ⟨htype, h⟩ := Option.ite_none_right_eq_some.mp h
    cases h
    exact .write htype

end Process

end HyperRpc
