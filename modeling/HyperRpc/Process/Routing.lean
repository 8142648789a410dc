import HyperRpc.Process.Dispatch

/-!
# Responses and failed sends find their core

The core an id belongs to is in its upper bits. A response or a failed send with an id of core
`c` leads to one call of the manager of core `c` and of no other, whichever worker observes it:
on another worker the packet is posted to worker `c`. A response handled by its own core is
posted to the first worker as well, where it does nothing.
-/
namespace HyperRpc

open Lib

variable {Msg : Type} {env : RpcEnv Msg} {services : List (Service Msg)}

def MgrCall.worker : MgrCall → ℕ
  | onRecvResponse worker .. => worker
  | onSendRequestFailed worker _ => worker

theorem LocalAction.mgrCalls_toAction (c : ℕ) (a : LocalAction) :
    (a.toAction : Action Msg).mgrCalls c = [] := by
  cases a <;> rfl

/-- A caller's step is neither of the two calls. -/
theorem RpcCore.mgrCalls_callMethod (c : ℕ) (route : Option (OnServiceRouting Msg))
    (method : MethodDescriptor) (request response : MsgRef) (msg : Msg) (done : Closure) :
    (callMethod route method request response msg done).mgrCalls c = [] := by
  cases route with
  | none => rfl
  | some f =>
    simp only [callMethod]
    split_ifs <;> rfl

/-- A packet with this content asks for the call. -/
def MgrCall.AskedBy (env : RpcEnv Msg) (buf : List UInt8) : MgrCall → Prop
  | onRecvResponse worker service method rpcId rpcResult respBody => ∃ header,
    RpcCore.Responds env buf header respBody rpcResult ∧ header.serviceName = service ∧
      header.methodName = method ∧ header.rpcId = rpcId ∧
      RpcCore.getCoreIdFromRpcId env rpcId = some worker
  | onSendRequestFailed _ _ => False

/-- A failed send with this context asks for the call. -/
def MgrCall.FailedBy (env : RpcEnv Msg) (ctx : UInt64) : MgrCall → Prop
  | onRecvResponse .. => False
  | onSendRequestFailed worker rpcId =>
    rpcId = ctx ∧ RpcCore.getCoreIdFromRpcId env ctx = some worker

/-- The task makes the call when it runs. -/
def Task.Makes (env : RpcEnv Msg) (call : MgrCall) : Task → Prop
  | .recvPacket worker buf _ => call.AskedBy env buf ∧ worker = call.worker
  | .sendPacketFailed worker ctx => call.FailedBy env ctx ∧ worker = call.worker
  | .callMethod .. => False

/-- The action leads to the call, now or in a posted task. -/
def ProcessAction.Causes (env : RpcEnv Msg) (call : MgrCall) : ProcessAction Msg → Prop
  | .recvPacket c buf _ posted => call.AskedBy env buf ∧ (c = call.worker ∨ posted)
  | .sentResult c false ctx posted => call.FailedBy env ctx ∧ (c = call.worker ∨ posted)
  | _ => False

/-- A response with this content is delivered to a worker. -/
def ProcessAction.DeliversResponse (env : RpcEnv Msg) (service method : Str) (rpcId : UInt64)
    (rpcResult : Result) (body : List UInt8) : ProcessAction Msg → Prop
  | .recvPacket _ buf _ _ => ∃ header, RpcCore.Responds env buf header body rpcResult ∧
    header.serviceName = service ∧ header.methodName = method ∧ header.rpcId = rpcId
  | _ => False

/-- A failed send of the id is reported to a worker. -/
def ProcessAction.ReportsFailure (rpcId : UInt64) : ProcessAction Msg → Prop
  | .sentResult _ false ctx _ => ctx = rpcId
  | _ => False

/-- If the action redirects to another worker, the task is posted. -/
def ProcessAction.PostSucceeds : ProcessAction Msg → Prop
  | .recvPacket _ _ _ posted => posted
  | .sentResult _ _ _ posted => posted
  | _ => True

theorem MgrCall.AskedBy.getCoreId {env : RpcEnv Msg} {buf : List UInt8} {call : MgrCall}
    {header : RpcHeader} {body : List UInt8} (h : call.AskedBy env buf)
    (hcarries : RpcCore.Carries env buf header body) :
    RpcCore.getCoreIdFromRpcId env header.rpcId = some call.worker := by
  cases call with
  | onSendRequestFailed => exact h.elim
  | onRecvResponse =>
    obtain ⟨header', hresp, -, -, rfl, hid⟩ := h
    rw [← (hresp.carries.unique hcarries).1]
    exact hid

/-- The session manager of the core is called exactly as the packet asks; on another worker the
answer is the worker of the call. -/
theorem RpcCore.Receives.askedBy {c : ℕ} {buf : List UInt8} {addr : Addr} {ret : ℕ}
    {received : Received Msg}
    (h : RpcCore.Receives env (serviceMap services) c buf addr ret received) (call : MgrCall) :
    (call.AskedBy env buf ∧ c = call.worker ↔ ∃ service method rpcId rpcResult respBody,
      received = .respond service method rpcId rpcResult respBody ∧
        call = .onRecvResponse c service method rpcId rpcResult respBody) ∧
      (call.AskedBy env buf → c ≠ call.worker → ret = call.worker) := by
  cases h with
  | @request header body svc method h =>
    have hno : ¬ call.AskedBy env buf := by
      cases call with
      | onSendRequestFailed => exact id
      | onRecvResponse =>
        rintro ⟨header', hresp, -⟩
        exact hresp.carries.not_validRequest hresp.type ⟨_, _, _, _, h⟩
    exact ⟨⟨fun hask => absurd hask.1 hno, by rintro ⟨_, _, _, _, _, hinv, -⟩; cases hinv⟩,
      fun hask => absurd hask hno⟩
  | @response header body rpcResult h hid =>
    refine ⟨⟨fun ⟨hask, _⟩ => ?_, ?_⟩, fun hask hne => ?_⟩
    · cases call with
      | onSendRequestFailed => exact hask.elim
      | onRecvResponse worker service method rpcId result body' =>
        obtain ⟨header', hresp, rfl, rfl, rfl, hid'⟩ := hask
        obtain ⟨rfl, rfl⟩ := hresp.carries.unique h.carries
        obtain rfl := Option.some.inj (hresp.result.symm.trans h.result)
        obtain rfl := Option.some.inj (hid'.symm.trans hid)
        exact ⟨_, _, _, _, _, rfl, rfl⟩
    · rintro ⟨service, method, rpcId, result, body', heq, rfl⟩
      cases heq
      exact ⟨⟨header, h, rfl, rfl, rfl, hid⟩, rfl⟩
    · exact absurd (Option.some.inj (hid.symm.trans (hask.getCoreId h.carries))) hne
  | redirect h htype hid hne =>
    refine ⟨⟨fun ⟨hask, heq⟩ => ?_, by rintro ⟨_, _, _, _, _, hinv, -⟩; cases hinv⟩,
      fun hask _ => Option.some.inj (hid.symm.trans (hask.getCoreId h))⟩
    exact absurd (Option.some.inj (hid.symm.trans (hask.getCoreId h))) (heq ▸ hne)
  | drop _ _ hnone =>
    have hno : ¬ call.AskedBy env buf := by
      cases call with
      | onSendRequestFailed => exact id
      | onRecvResponse =>
        rintro ⟨header', hresp, -, -, rfl, hid⟩
        rw [hnone _ _ _ hresp] at hid
        cases hid
    exact ⟨⟨fun hask => absurd hask.1 hno, by rintro ⟨_, _, _, _, _, hinv, -⟩; cases hinv⟩,
      fun hask => absurd hask hno⟩

namespace Process

section

open scoped Classical

variable {p p' : Process Msg} {c : ℕ}

/-- How often a call has been made or is still to be made. -/
noncomputable def making (env : RpcEnv Msg) (call : MgrCall) (p : Process Msg) : ℕ :=
  p.mgrCalls.count call + p.tasks.countP fun t => t.Makes env call

theorem making_post (call : MgrCall) (task : Task) (posted : Bool) :
    (p.post task posted).making env call =
      p.making env call + if posted ∧ task.Makes env call then 1 else 0 := by
  rw [making, countP_post, making, ← Nat.add_assoc]
  cases posted <;> simp [post]

theorem making_dropTask (call : MgrCall) {k : ℕ} {task : Task} (h : p.tasks[k]? = some task) :
    p.making env call =
      (p.dropTask k).making env call + if task.Makes env call then 1 else 0 := by
  simp only [making, countP_dropTask h, decide_eq_true_eq, Nat.add_assoc]
  rfl

/-- A step of a core is recorded if it is a call that is routed. -/
theorem CoreStep.making {a : Action Msg} (h : p.CoreStep env c a p') (call : MgrCall) :
    p'.making env call = p.making env call + (a.mgrCalls c).count call := by
  rw [Process.making, h.tasks, h.mgrCalls, List.count_append, Process.making]
  omega

/-- The other steps of a core leave the record alone. -/
theorem CoreStep.making_eq {a : Action Msg} (h : p.CoreStep env c a p') (hnil : a.mgrCalls c = [])
    (call : MgrCall) : p'.making env call = p.making env call := by
  rw [h.making, hnil, List.count_nil, Nat.add_zero]

/-- A packet makes the call it asks for on the worker of the call, and elsewhere the answer is
the index of that worker. -/
theorem Recv.making {buf : List UInt8} {addr : Addr} {dst : ℕ}
    (h : p.Recv env services c buf addr p' dst) (call : MgrCall) :
    p'.making env call = p.making env call +
        (if (Task.recvPacket c buf addr).Makes env call then 1 else 0) ∧
      (call.AskedBy env buf → c ≠ call.worker → dst = call.worker) := by
  have hmakes : (Task.recvPacket c buf addr).Makes env call ↔
    call.AskedBy env buf ∧ c = call.worker := Iff.rfl
  cases h with
  | dropped h =>
    refine ⟨?_, (h.askedBy call).2⟩
    rw [if_neg fun hask => by simp [hmakes, (h.askedBy call).1] at hask, Nat.add_zero]
  | invoked h =>
    refine ⟨?_, (h.askedBy call).2⟩
    rw [if_neg fun hask => by simp [hmakes, (h.askedBy call).1] at hask, Nat.add_zero]
    rfl
  | responded h hstep =>
    refine ⟨?_, (h.askedBy call).2⟩
    rw [hstep.making, Action.mgrCalls, List.count_singleton]
    simp only [beq_iff_eq]
    congr 1
    refine if_congr (Iff.trans ⟨fun heq => ⟨_, _, _, _, _, rfl, heq.symm⟩, ?_⟩
      (h.askedBy call).1.symm) rfl rfl
    rintro ⟨_, _, _, _, _, heq, rfl⟩
    cases heq
    rfl

theorem SendFailed.making {ctx : UInt64} {dst : ℕ} (h : p.SendFailed env c ctx p' dst)
    (call : MgrCall) :
    p'.making env call = p.making env call +
        (if (Task.sendPacketFailed c ctx).Makes env call then 1 else 0) ∧
      (call.FailedBy env ctx → c ≠ call.worker → dst = call.worker) := by
  have hworker : call.FailedBy env ctx →
      RpcCore.getCoreIdFromRpcId env ctx = some call.worker := by
    cases call with
    | onRecvResponse => exact False.elim
    | onSendRequestFailed => exact And.right
  cases h with
  | elsewhere hret =>
    constructor
    · rw [if_neg, Nat.add_zero]
      rintro ⟨hask, rfl⟩
      rcases hret with ⟨-, hnone⟩ | ⟨hne, hid⟩
      · simp [hworker hask] at hnone
      · exact hne (Option.some.inj (hid.symm.trans (hworker hask)))
    · intro hask hne
      rcases hret with ⟨-, hnone⟩ | ⟨-, hid⟩
      · simp [hworker hask] at hnone
      · exact Option.some.inj (hid.symm.trans (hworker hask))
  | reported hid hstep =>
    refine ⟨?_, fun hask hne => absurd (Option.some.inj (hid.symm.trans (hworker hask))) hne⟩
    rw [hstep.making, Action.mgrCalls, List.count_singleton]
    simp only [beq_iff_eq]
    congr 1
    refine if_congr ⟨?_, ?_⟩ rfl rfl
    · rintro rfl
      exact ⟨⟨rfl, hid⟩, rfl⟩
    · rintro ⟨hask, rfl⟩
      cases call with
      | onRecvResponse => exact hask.elim
      | onSendRequestFailed => rw [hask.1]; rfl

/-- A call that is asked for is made by this worker or by the task posted to its own. -/
theorem making_redirect {p₁ : Process Msg} {dst : ℕ} {call : MgrCall} {ask here cause : Prop}
    (task : Task) {posted : Bool} (hhere : here ↔ ask ∧ c = call.worker)
    (hp₁ : p₁.making env call = p.making env call + if here then 1 else 0)
    (hdst : ask → c ≠ call.worker → dst = call.worker)
    (htask : task.Makes env call ↔ ask ∧ dst = call.worker)
    (hcause : cause ↔ ask ∧ (c = call.worker ∨ posted)) :
    (if dst ≠ c then p₁.post task posted else p₁).making env call =
      p.making env call + if cause then 1 else 0 := by
  by_cases hask : ask
  swap
  · split_ifs <;> simp_all [making_post]
  by_cases hc : c = call.worker
  · have htwice : dst ≠ c → ¬ (posted = true ∧ task.Makes env call) := fun hd h =>
      hd ((htask.mp h.2).2.trans hc.symm)
    rw [if_pos (hhere.mpr ⟨hask, hc⟩)] at hp₁
    rw [if_pos (hcause.mpr ⟨hask, Or.inl hc⟩), ← hp₁]
    split_ifs with hd
    · rw [making_post, if_neg (htwice hd), Nat.add_zero]
    · rfl
  · have hd := hdst hask hc
    rw [if_pos (fun h => hc (h.symm.trans hd)), making_post, hp₁, if_neg fun h => hc (hhere.mp h).2,
      Nat.add_zero]
    simp [hcause, hask, hc, htask, hd]

/-- A step changes the number of times a call is made by one if the action causes it. -/
theorem Trans.making {a : ProcessAction Msg} (h : p.Trans env services a p') (call : MgrCall) :
    p'.making env call = p.making env call + if a.Causes env call then 1 else 0 := by
  have hnone : ∀ {a : ProcessAction Msg} {n : ℕ}, ¬ a.Causes env call →
      n = p.making env call → n = p.making env call + if a.Causes env call then 1 else 0 :=
    fun ha hn => by rw [if_neg ha, hn, Nat.add_zero]
  cases h with
  | @recvPacket c buf addr posted p₁ dst hidle h =>
    exact making_redirect (.recvPacket dst buf addr) Iff.rfl (h.making call).1 (h.making call).2
      Iff.rfl Iff.rfl
  | @sentFailed c ctx posted p₁ dst hc h =>
    exact making_redirect (.sendPacketFailed dst ctx) Iff.rfl (h.making call).1 (h.making call).2
      Iff.rfl Iff.rfl
  | runRecv htask _ h =>
    exact hnone id ((h.making call).1.trans (making_dropTask call htask).symm)
  | runFailed htask _ h =>
    exact hnone id ((h.making call).1.trans (making_dropTask call htask).symm)
  | runCall htask _ h =>
    refine hnone id ((h.making_eq (RpcCore.mgrCalls_callMethod ..) call).trans ?_)
    rw [making_dropTask call htask, if_neg (by exact id), Nat.add_zero]
  | callInWorker _ _ h => exact hnone id (h.making_eq (RpcCore.mgrCalls_callMethod ..) call)
  | @callPosted c method request response done _ _ =>
    refine hnone id ((making_post call _ true).trans ?_)
    rw [if_neg (fun h => h.2), Nat.add_zero]
    rfl
  | @core _ a _ _ h => exact hnone id (h.making_eq (LocalAction.mgrCalls_toAction _ a) call)
  | sentOk => exact hnone id rfl
  | callRefused => exact hnone id rfl
  | handlerDone => exact hnone id rfl
  | write => exact hnone id rfl

/-- What causes the call, once the id is known to belong to core `c`. -/
theorem causes_onRecvResponse {a : ProcessAction Msg} {rpcId : UInt64} {d : ℕ}
    {service method : Str} {rpcResult : Result} {body : List UInt8}
    (hid : RpcCore.getCoreIdFromRpcId env rpcId = some c) (hpost : a.PostSucceeds) :
    a.Causes env (.onRecvResponse d service method rpcId rpcResult body) ↔
      d = c ∧ a.DeliversResponse env service method rpcId rpcResult body := by
  cases a with
  | recvPacket e buf addr posted =>
    constructor
    · rintro ⟨⟨header, h, hs, hm, hx, hid'⟩, -⟩
      exact ⟨Option.some.inj (hid'.symm.trans hid), header, h, hs, hm, hx⟩
    · rintro ⟨rfl, header, h, hs, hm, hx⟩
      exact ⟨⟨header, h, hs, hm, hx, hid⟩, Or.inr hpost⟩
  | sentResult e success =>
    cases success <;> simp [ProcessAction.Causes, MgrCall.FailedBy, ProcessAction.DeliversResponse]
  | _ => simp [ProcessAction.Causes, ProcessAction.DeliversResponse]

theorem causes_onSendRequestFailed {a : ProcessAction Msg} {rpcId : UInt64} {d : ℕ}
    (hid : RpcCore.getCoreIdFromRpcId env rpcId = some c) (hpost : a.PostSucceeds) :
    a.Causes env (.onSendRequestFailed d rpcId) ↔ d = c ∧ a.ReportsFailure rpcId := by
  cases a with
  | sentResult e success ctx posted =>
    cases success with
    | true => simp [ProcessAction.Causes, ProcessAction.ReportsFailure]
    | false =>
      constructor
      · rintro ⟨⟨rfl, hid'⟩, -⟩
        exact ⟨Option.some.inj (hid'.symm.trans hid), rfl⟩
      · rintro ⟨rfl, rfl⟩
        exact ⟨⟨rfl, hid⟩, Or.inr hpost⟩
  | _ => simp [ProcessAction.Causes, ProcessAction.ReportsFailure, MgrCall.AskedBy]

theorem countP_causes {as : List (ProcessAction Msg)} {call : MgrCall} {owner : Prop}
    [Decidable owner] {q : ProcessAction Msg → Prop}
    (h : ∀ a ∈ as, (a.Causes env call ↔ owner ∧ q a)) :
    as.countP (fun a => a.Causes env call) = if owner then as.countP fun a => q a else 0 := by
  split_ifs with ho
  · exact List.countP_congr fun a ha => by simp [h a ha, ho]
  · exact List.countP_eq_zero.mpr fun a ha => by simp [h a ha, ho]

theorem mgrCalls_count {as : List (ProcessAction Msg)}
    (hrun : run (step env services) p as = some p') (hstart : p.tasks = [] ∧ p.mgrCalls = [])
    (htasks : p'.tasks = []) (call : MgrCall) :
    p'.mgrCalls.count call = as.countP fun a => a.Causes env call := by
  have hcount := run_countP (f := Process.making env call)
    (q := fun a => decide (a.Causes env call))
    (fun hstep => by simpa using (step_trans hstep).making call) hrun
  simpa [Process.making, hstart.1, hstart.2, htasks] using hcount

/-- For every id that core `c` may draw: once the tasks have run, the responses and the failed
sends with that id have led to one call each of the manager of core `c`, and to none of any
other, whichever workers observed them. Both decoders agree on every id. -/
theorem routed_to_owner (hW : env.workerNum < 2 ^ 16) (hc : c < env.workerNum) {size : UInt64}
    {rand : UInt32} {memory : ℕ → SessionNode} {mgr : SessionManager}
    (hinit : SessionManager.init size (UInt64.ofNat c) rand memory = some mgr) (n : ℕ)
    {as : List (ProcessAction Msg)} (hrun : run (step env services) p as = some p')
    (hstart : p.tasks = [] ∧ p.mgrCalls = []) (htasks : p'.tasks = [])
    (hposts : ∀ a ∈ as, a.PostSucceeds) :
    (∀ d service method rpcResult body,
        p'.mgrCalls.count (.onRecvResponse d service method (mgr.advance n).nextRpcId rpcResult
          body) = if d = c then as.countP fun a => a.DeliversResponse env service method
            (mgr.advance n).nextRpcId rpcResult body else 0) ∧
      (∀ d, p'.mgrCalls.count (.onSendRequestFailed d (mgr.advance n).nextRpcId) =
        if d = c then as.countP fun a => a.ReportsFailure (mgr.advance n).nextRpcId else 0) ∧
      (∀ x d, RpcCore.getCoreIdFromRpcId env x = some d → d < env.workerNum) ∧
      ∀ (onFindService : Str → Option (Service Msg)) buf header body d addr,
        RpcCore.Carries env buf header body → header.packetType = .response →
          RpcCore.onRecvPacket env onFindService d buf addr =
            some (match RpcCore.getCoreIdFromRpcId env header.rpcId with
              | none => (d, .dropped)
              | some dst =>
                if dst ≠ d then (dst, .dropped)
                else (0, RpcCore.onRecvResponseMessage header body)) := by
  have hid : RpcCore.getCoreIdFromRpcId env (mgr.advance n).nextRpcId = some c :=
    RpcCore.getCoreIdFromRpcId_drawn hc hW hinit n
  refine ⟨fun d service method rpcResult body => ?_, fun d => ?_,
    fun x d h => (RpcCore.getCoreIdFromRpcId_eq_some.mp h).2,
    fun _ _ _ _ _ _ hcarries htype => RpcCore.onRecvPacket_response hcarries htype⟩
  · rw [mgrCalls_count hrun hstart htasks]
    exact countP_causes fun a ha => causes_onRecvResponse hid (hposts a ha)
  · rw [mgrCalls_count hrun hstart htasks]
    exact countP_causes fun a ha => causes_onSendRequestFailed hid (hposts a ha)

end

/-- An answer to the first id of core 1. -/
def sampleResponse : List UInt8 :=
  packetOf (RpcHeader.wireSerialize
    ⟨some .response, some [80], some [112], some 0x2000000000001, some 0⟩) []

theorem sampleResponse_responds : RpcCore.Responds (wireEnv 2) sampleResponse
    ⟨some .response, some [80], some [112], some 0x2000000000001, some 0⟩ [] .kSuccess where
  carries := ⟨_, rfl, ⟨by decide +kernel, by decide, by decide +kernel⟩, by decide +kernel⟩
  type := rfl
  result := rfl

open scoped Classical in
/-- Worker 0 of two receives an answer for core 1, and a failed send of the same id. -/
theorem routed_to_owner_second : ∃ p', run (step (wireEnv 2) []) (start sampleBoot sampleManager)
    [.recvPacket 0 sampleResponse ⟨1, 1⟩ true, .sentResult 0 false 0x2000000000001 true,
      .runTask 1 none, .runTask 0 none] = some p' ∧
      p'.mgrCalls.count (.onRecvResponse 1 [80] [112] 0x2000000000001 .kSuccess []) = 1 ∧
      p'.mgrCalls.count (.onSendRequestFailed 1 0x2000000000001) = 1 ∧
      p'.mgrCalls.count (.onSendRequestFailed 0 0x2000000000001) = 0 := by
  obtain ⟨p', hrun, htasks⟩ := Option.map_eq_some_iff.mp
    (show (run (step (wireEnv 2) []) (start sampleBoot sampleManager)
      [.recvPacket 0 sampleResponse ⟨1, 1⟩ true, .sentResult 0 false 0x2000000000001 true,
        .runTask 1 none, .runTask 0 none]).map (fun p => p.tasks) = some [] by decide +kernel)
  have hid : ((sampleManager 1).advance 1).nextRpcId = 0x2000000000001 := by decide +kernel
  obtain ⟨hresp, hfail, -⟩ := routed_to_owner (show (wireEnv 2).workerNum < 2 ^ 16 by decide)
    (show 1 < (wireEnv 2).workerNum by decide) (sampleManager_started 2 1 (by decide)) 1 hrun
    ⟨rfl, rfl⟩ htasks (by simp [ProcessAction.PostSucceeds])
  rw [hid] at hresp hfail
  refine ⟨p', hrun, (hresp 1 [80] [112] .kSuccess []).trans ?_, (hfail 1).trans ?_, hfail 0⟩
  · have hdelivers : ProcessAction.DeliversResponse (wireEnv 2) [80] [112] 0x2000000000001
        .kSuccess [] (.recvPacket 0 sampleResponse ⟨1, 1⟩ true) :=
      ⟨_, sampleResponse_responds, rfl, rfl, rfl⟩
    rw [if_pos rfl, List.countP_cons_of_pos (by simpa using hdelivers), List.countP_eq_zero.mpr]
    simp only [List.forall_mem_cons, decide_eq_true_eq]
    exact ⟨id, id, id, List.forall_mem_nil _⟩
  · have hreports : (.sentResult 0 false 0x2000000000001 true :
        ProcessAction ValueMessage).ReportsFailure 0x2000000000001 := rfl
    rw [if_pos rfl, List.countP_cons_of_neg (of_decide_eq_true · |>.elim),
      List.countP_cons_of_pos (by simpa using hreports), List.countP_eq_zero.mpr]
    simp only [List.forall_mem_cons, decide_eq_true_eq]
    exact ⟨id, id, List.forall_mem_nil _⟩

end Process

end HyperRpc
