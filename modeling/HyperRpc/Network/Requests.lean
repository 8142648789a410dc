import HyperRpc.Network.EndToEnd

/-!
# A waiting call has its request out

As long as a call waits, the request that its message holds has been given to the transport under
its id, for the endpoint that its attempts have come to (`requests_out`). So does every state of
every run in which users leave the requests of pending calls alone.
-/
namespace HyperRpc

open Lib

variable {Msg : Type} {env : RpcEnv Msg} {services : List (Service Msg)}

/-- The endpoint that the attempts have come to. -/
def SessionNode.endpoint (node : SessionNode) : Addr :=
  getEndpoint node.endpointList node.endpointIndex.toNat

/-- The header of the packets that are sent for the call. -/
def SessionNode.requestHeader (node : SessionNode) : RpcHeader :=
  outgoingHeader .empty node.method node.rpcId

/-- The call-out that sends the request of the call. -/
def SessionNode.sends (node : SessionNode) : Callback :=
  .onSendRequest node.method node.request node.rpcId node.endpoint node.done

/-- The node is at the same attempt for the same call. -/
def SessionNode.SameAttempt (node node' : SessionNode) : Prop :=
  ∃ hasTimer, node' = { node with hasTimer }

theorem SessionNode.sameAttempt_of_view {node node' : SessionNode} (hview : node'.view = node.view)
    (hindex : node'.endpointIndex = node.endpointIndex) : node.SameAttempt node' := by
  cases node
  cases node'
  simp_all [view, SameAttempt]

namespace Machine

variable {env : SessionEnv Msg} {m m' : Machine Msg} {a : Action Msg} {i : ℕ}

theorem Steady.sends_retry (h : m.Steady m')
    (hindex : (m'.node i).endpointIndex = (m.node i).endpointIndex + 1) :
    (m'.node i).sends = m.retrySend i := by
  have hview : m'.node i = { m.bumped i with hasTimer := (m'.node i).hasTimer } := by
    have hsame := h.view i
    revert hsame hindex
    rw [bumped]
    cases m'.node i
    simp +contextual [SessionNode.view]
  rw [hview]
  rfl

/-- A call that waits after a step has waited before at the same attempt, or its request is sent in
the step. -/
theorem Kind.waiting_cases (h : m.Kind env a m') (hT : m.TableInv) (hi : m'.Unfinished i) :
    m.Unfinished i ∧ (m.node i).SameAttempt (m'.node i) ∨ m'.log = (m'.node i).sends :: m.log := by
  have hback : ∀ d ∈ m.calls, (m'.node i).done = some d → m.Unfinished i := fun d hd hdone =>
    (h.unfinished_back hd hi hdone).1
  have hsteady : m.Steady m' → (m'.node i).endpointIndex = (m.node i).endpointIndex →
      m.Unfinished i ∧ (m.node i).SameAttempt (m'.node i) := fun hs hindex => by
    obtain ⟨d, hd, hdone⟩ := hT.done_known ((hs.live i).mp hi.1)
    exact ⟨hback d hd ((hs.done i).trans hdone),
      SessionNode.sameAttempt_of_view (hs.view i) hindex⟩
  have hsame : m.Live i → m'.node i = m.node i →
      m.Unfinished i ∧ (m.node i).SameAttempt (m'.node i) := fun hlive hnode => by
    obtain ⟨d, hd, hdone⟩ := hT.done_known hlive
    exact ⟨hback d hd (hnode ▸ hdone), _, hnode⟩
  cases h with
  | quiet h => exact .inl (hsteady h.toSteady (h.index i))
  | refuse h => exact .inl (hsteady h.toSteady (h.index i))
  | loose h => exact .inl (hsteady h.toSteady (h.index i))
  | @accept method request response endpoints d j k =>
    by_cases hik : i = k
    · subst hik
      rw [accept_node_self]
      exact .inr rfl
    · have hlive := hi.1
      rw [Live, accept_node_of_ne hik] at hlive
      exact .inl (hsame hlive (accept_node_of_ne hik))
  | @retry _ _ k h _ _ hindex _ hlog =>
    by_cases hik : i = k
    · subst hik
      exact .inr (hlog.trans (by rw [h.sends_retry ((hindex i).trans (if_pos rfl))]))
    · exact .inl (hsteady h ((hindex i).trans (if_neg hik)))
  | @finish _ _ k r site h hlive _ _ hindex _ hlog =>
    by_cases hik : i = k
    · subst hik
      obtain ⟨d, -, hdone⟩ := hT.done_known hlive
      have hzero := hi.2 d ((h.done i).trans hdone)
      rw [doneCount_of_log_cons hlog, hdone] at hzero
      simp [Callback.isDone] at hzero
    · exact .inl (hsteady h (hindex i hik))
  | close =>
    obtain ⟨hik, hlive⟩ := close_live.mp hi.1
    exact .inl (hsame hlive (close_node_of_ne hik))

end Machine

namespace Process

variable {p p' : Process Msg} {c : ℕ}

/-! ## What a core sends -/

/-- The headers of the threads, which requests are sent with, have no result. -/
def HeadersInv (p : Process Msg) : Prop := ∀ c, (p.rpcHeaders c).rpcResult? = none

/-- A request that a core has sent in a step is the last packet of the outbox. -/
structure SendsOut (env : RpcEnv Msg) (p p' : Process Msg) : Prop where
  headers : p'.HeadersInv
  sent : ∀ c method request rpcId addr owner,
    (p'.cores c).log = .onSendRequest method request rpcId addr owner :: (p.cores c).log →
      ∃ buf, sendMessage env (outgoingHeader .empty method rpcId)
        ((p'.cores c).st.mem request) = some buf ∧ p'.outbox = ⟨buf, addr, rpcId⟩ :: p.outbox

theorem outgoingHeader_eq {rpcHeader : RpcHeader} (h : rpcHeader.rpcResult? = none)
    (method : MethodDescriptor) (rpcId : UInt64) :
    outgoingHeader rpcHeader method rpcId = outgoingHeader .empty method rpcId := by
  rw [outgoingHeader, outgoingHeader, h]
  rfl

/-- No core has sent anything. -/
theorem sendsOut_of_cores (hH : p'.HeadersInv) (hcores : p'.cores = p.cores) :
    SendsOut env p p' where
  headers := hH
  sent c method request rpcId addr owner hlog := by
    rw [hcores] at hlog
    simp at hlog

theorem send_out {method : MethodDescriptor} {request : Msg} {rpcId : UInt64} {addr : Addr}
    (hH : p.HeadersInv) (h : p.send env c method request rpcId addr = some p') :
    p'.HeadersInv ∧ ∃ buf, sendMessage env (outgoingHeader .empty method rpcId) request = some buf ∧
      p'.outbox = ⟨buf, addr, rpcId⟩ :: p.outbox := by
  obtain ⟨buf, hbuf, rfl⟩ := Option.map_eq_some_iff.mp h
  rw [onOutgoingRpcSend, outgoingHeader_eq (hH c)] at hbuf
  refine ⟨fun d => ?_, buf, hbuf, rfl⟩
  show (Function.update p.rpcHeaders c _ d).rpcResult? = none
  by_cases hd : d = c
  · rw [hd, Function.update_self]
    exact hH c
  · rw [Function.update_of_ne hd]
    exact hH d

theorem stepCore_sendsOut {a : Action Msg} (hH : p.HeadersInv)
    (h : p.stepCore env c a = some p') : SendsOut env p p' := by
  have hcore := stepCore_spec h
  have hothers : ∀ d ≠ c, ∀ cb, (p'.cores d).log ≠ cb :: (p.cores d).log := fun d hd cb hlog => by
    rw [hcore.others d hd] at hlog
    simp [Machine.withMem] at hlog
  obtain ⟨m, hm, h⟩ := Option.bind_eq_some_iff.mp h
  obtain rfl : m = p'.cores c := Option.some.inj (hm.symm.trans hcore.machine)
  have hH' : (p.setCore c a (p'.cores c)).HeadersInv := hH
  constructor
  · split at h
    · split at h
      · exact (send_out hH' h).1
      · exact Option.some.inj h ▸ hH'
    · exact Option.some.inj h ▸ hH'
  · intro d method request rpcId addr owner hlog
    by_cases hd : d = c
    · subst hd
      simp only [hlog, if_true] at h
      exact (send_out hH' h).2
    · exact absurd hlog (hothers d hd _)

theorem recvOn_sendsOut {buf : List UInt8} {addr : Addr} {dst : ℕ} (hH : p.HeadersInv)
    (h : p.recvOn env services c buf addr = some (p', dst)) : SendsOut env p p' := by
  obtain ⟨r, hr, h⟩ := Option.bind_eq_some_iff.mp h
  obtain ⟨ret, received⟩ := r
  cases received with
  | dropped =>
    cases h
    exact sendsOut_of_cores hH rfl
  | invoke service ctx =>
    cases h
    exact sendsOut_of_cores hH rfl
  | respond service method rpcId rpcResult respBody =>
    obtain ⟨p₁, hstep, heq⟩ := Option.map_eq_some_iff.mp h
    cases heq
    obtain ⟨hheaders, hsent⟩ := stepCore_sendsOut hH hstep
    exact ⟨hheaders, hsent⟩

theorem sendFailedOn_sendsOut {ctx : UInt64} {dst : ℕ} (hH : p.HeadersInv)
    (h : p.sendFailedOn env c ctx = some (p', dst)) : SendsOut env p p' := by
  rw [sendFailedOn] at h
  cases hid : (RpcCore.onSendPacketFailed env c ctx).2 with
  | none =>
    simp only [hid, Option.some.injEq, Prod.mk.injEq] at h
    exact h.1 ▸ sendsOut_of_cores hH rfl
  | some rpcId =>
    simp only [hid] at h
    obtain ⟨p₁, hstep, heq⟩ := Option.map_eq_some_iff.mp h
    cases heq
    obtain ⟨hheaders, hsent⟩ := stepCore_sendsOut hH hstep
    exact ⟨hheaders, hsent⟩

theorem SendsOut.post (h : SendsOut env p p') (task : Task) (posted : Bool) :
    SendsOut env p (p'.post task posted) := by
  cases posted with
  | false => exact h
  | true => exact ⟨h.headers, h.sent⟩

theorem step_sendsOut {a : ProcessAction Msg} (hH : p.HeadersInv)
    (h : p.step env services a = some p') : SendsOut env p p' := by
  cases a with
  | recvPacket c buf addr posted =>
    obtain ⟨-, h⟩ := Option.ite_none_right_eq_some.mp h
    obtain ⟨⟨p₁, dst⟩, hrecv, rfl⟩ := Option.map_eq_some_iff.mp h
    have hsent := recvOn_sendsOut hH hrecv
    simp only
    split_ifs
    · exact hsent.post _ _
    · exact hsent
  | sentResult c success ctx posted =>
    obtain ⟨-, h⟩ := Option.ite_none_right_eq_some.mp h
    cases success with
    | true =>
      cases h
      exact sendsOut_of_cores hH rfl
    | false =>
      obtain ⟨⟨p₁, dst⟩, hfail, rfl⟩ := Option.map_eq_some_iff.mp h
      have hsent := sendFailedOn_sendsOut hH hfail
      simp only
      split_ifs
      · exact hsent.post _ _
      · exact hsent
  | callInWorker c method request response done route =>
    obtain ⟨-, h⟩ := Option.ite_none_right_eq_some.mp h
    obtain ⟨hheaders, hsent⟩ := stepCore_sendsOut (p := p.issue done) hH h
    exact ⟨hheaders, hsent⟩
  | callOutside c method request response done posted =>
    obtain ⟨-, h⟩ := Option.ite_none_right_eq_some.mp h
    cases posted with
    | true =>
      cases h
      exact sendsOut_of_cores hH rfl
    | false =>
      cases h
      exact sendsOut_of_cores hH rfl
  | runTask k route =>
    cases htask : p.tasks[k]? with
    | none => simp [step, htask] at h
    | some task =>
      simp only [step, htask] at h
      obtain ⟨-, h⟩ := Option.ite_none_right_eq_some.mp h
      obtain ⟨hheaders, hsent⟩ : SendsOut env (p.dropTask k) p' := by
        cases task with
        | recvPacket c buf addr =>
          obtain ⟨⟨p₁, dst⟩, hrecv, rfl⟩ := Option.map_eq_some_iff.mp h
          exact recvOn_sendsOut hH hrecv
        | sendPacketFailed c ctx =>
          obtain ⟨⟨p₁, dst⟩, hfail, rfl⟩ := Option.map_eq_some_iff.mp h
          exact sendFailedOn_sendsOut hH hfail
        | callMethod => exact stepCore_sendsOut hH h
      exact ⟨hheaders, hsent⟩
  | handlerDone k result response =>
    cases hctx : p.contexts[k]? with
    | none => simp [step, hctx] at h
    | some inv =>
      simp only [step, hctx] at h
      obtain ⟨-, h⟩ := Option.ite_none_right_eq_some.mp h
      obtain ⟨buf, -, rfl⟩ := Option.map_eq_some_iff.mp h
      exact sendsOut_of_cores hH rfl
  | core c a =>
    obtain ⟨-, h⟩ := Option.ite_none_right_eq_some.mp h
    exact stepCore_sendsOut hH h
  | write ref msg =>
    obtain ⟨-, h⟩ := Option.ite_none_right_eq_some.mp h
    cases h
    refine ⟨hH, fun c method request rpcId addr owner hlog => ?_⟩
    simp at hlog

/-! ## Every waiting call has its request out -/

/-- The request of the call in a slot has been given to the transport, for the endpoint that its
attempts have come to. -/
def RequestOut (env : RpcEnv Msg) (p : Process Msg) (c i : ℕ) : Prop :=
  ∃ buf, sendMessage env ((p.cores c).node i).requestHeader
      ((p.cores c).st.mem ((p.cores c).node i).request) = some buf ∧
    ⟨buf, ((p.cores c).node i).endpoint, ((p.cores c).node i).rpcId⟩ ∈ p.outbox

structure RequestsInv (env : RpcEnv Msg) (p : Process Msg) : Prop where
  headers : p.HeadersInv
  out : ∀ c < env.workerNum, ∀ i, (p.cores c).Unfinished i → p.RequestOut env c i

theorem RequestsInv.step {a : ProcessAction Msg} (hI : p.RequestsInv env)
    (hT : ∀ c < env.workerNum, (p.cores c).TableInv) (hkept : RequestsKept p p')
    (h : p.step env services a = some p') : p'.RequestsInv env := by
  have hsends := step_sendsOut hI.headers h
  have htrans := step_trans h
  refine ⟨hsends.headers, fun c hc i hi => ?_⟩
  obtain ⟨act, hact, -⟩ := htrans.coreMoves c
  rcases (Machine.step_trans hact).kind.waiting_cases (hT c hc) hi with ⟨hwaits, hsame⟩ | hlog
  · obtain ⟨buf, hbuf, hmem⟩ := hI.out c hc i hwaits
    obtain ⟨d, -, hdone⟩ := (hT c hc).done_known hwaits.1
    obtain ⟨flag, hnode⟩ := hsame
    have hrequest := hkept c i d hwaits hi hdone (by rw [hnode, hdone])
    rw [RequestOut, hnode]
    exact ⟨buf, hrequest ▸ hbuf, htrans.effect.outbox_subset hmem⟩
  · obtain ⟨buf, hbuf, hout⟩ := hsends.sent c _ _ _ _ _ hlog
    exact ⟨buf, hbuf, hout ▸ List.mem_cons_self⟩

variable {boot : Boot Msg} {mgr : ℕ → SessionManager}

theorem requestsInv_start (hstarted : Started env boot mgr) :
    (start boot mgr).RequestsInv env where
  headers _ := rfl
  out c hc i hi := absurd ((SessionManager.init_fresh (hstarted c hc)).2 i).1 hi.1

/-- In every run in which the requests of waiting calls are left alone, every waiting call of every
core has its request out: what its message holds, under its id, for the endpoint that its attempts
have come to. -/
theorem requests_out (hstarted : Started env boot mgr)
    (hreach : Reaches (step env services)
      (fun p a => ∀ p', p.step env services a = some p' → p.RequestsKept p') (start boot mgr) p)
    (hc : c < env.workerNum) {i : ℕ} (hi : (p.cores c).Unfinished i) : p.RequestOut env c i := by
  have hI : p.RequestsInv env := by
    clear hi
    induction hreach with
    | refl => exact requestsInv_start hstarted
    | tail hbefore hkept hstep ih =>
      exact ih.step (fun d hd => (wellFormed_core hstarted hbefore hd).consistent.table)
        (hkept _ hstep) hstep
  exact hI.out c hc i hi

/-- The first endpoint of a call has failed: its request is out for the second. -/
theorem requests_out_retried : ∃ p,
    Reaches (step Network.emptyProtobuf [])
      (fun p a => ∀ p', p.step Network.emptyProtobuf [] a = some p' → p.RequestsKept p')
      (start (Network.emptyBoot ⟨1, 1⟩) sampleManager) p ∧
    ((p.cores 0).node 0).endpoint = ⟨3, 1⟩ ∧ p.RequestOut Network.emptyProtobuf 0 0 := by
  have hkept : ∀ (p : Process Unit) (a : ProcessAction Unit), true = true →
      ∀ p', p.step Network.emptyProtobuf [] a = some p' → p.RequestsKept p' :=
    fun _ _ _ _ _ _ _ _ _ _ _ _ => rfl
  obtain ⟨p, hp, hcheck⟩ := exists_reachesIf_of_run (step Network.emptyProtobuf [])
    (start (Network.emptyBoot ⟨1, 1⟩) sampleManager)
    [.callInWorker 0 Network.emptyMethod 0 1 10 (some fun _ _ _ => (true, [⟨2, 1⟩, ⟨3, 1⟩])),
      .core 0 .ret, .sentResult 0 false 0x1000000000001 true]
    (fun _ _ => true)
    (fun p => decide (((p.cores 0).node 0).endpoint = ⟨3, 1⟩ ∧ ((p.cores 0).node 0).rpcId ≠ 0 ∧
      ((p.cores 0).node 0).done = some 10 ∧ (p.cores 0).doneCount 10 = 0))
    hkept (by decide +kernel)
  obtain ⟨hendpoint, hlive, hdone, hzero⟩ := of_decide_eq_true hcheck
  have hstarted : Started Network.emptyProtobuf (Network.emptyBoot ⟨1, 1⟩) sampleManager :=
    fun c hc => sampleManager_started 1 c hc
  refine ⟨p, hp, hendpoint, requests_out hstarted hp Nat.zero_lt_one ⟨hlive, fun d hd => ?_⟩⟩
  obtain rfl := Option.some.inj (hdone.symm.trans hd)
  exact hzero

end Process

end HyperRpc
