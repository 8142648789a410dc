import HyperRpc.Network.Requests
import HyperRpc.Session.Deadlines

/-!
# A waiting call can be answered

Whatever the network has come to, a call that waits can still be completed, with any answer of a
server that offers its method: callbacks return, the request that is out is delivered, its handler
answers, and the response is delivered (`can_be_answered`).
-/
namespace HyperRpc

open Lib

variable {Msg : Type}

/-- The header of a response to the call. -/
def SessionNode.replyHeader (node : SessionNode) (r : Result) : RpcHeader where
  packetType? := some .response
  serviceName? := some node.method.service.name
  methodName? := some node.method.name
  rpcId? := some node.rpcId
  rpcResult? := some (Int32.ofInt r.toInt)

namespace Machine

variable {env : SessionEnv Msg} {mgr : SessionManager} {m : Machine Msg} {i : ℕ}

/-- A callback returns; the slots of waiting calls stay as they are. -/
theorem WellFormed.ret_waiting (hwf : m.WellFormed env mgr) {cb : Callback} {rest : List Callback}
    (hstack : m.stack = cb :: rest) : ∃ m', m.step env .ret = some m' ∧ m'.stack = rest ∧
      m'.log = m.log ∧ ∀ i, m.Unfinished i → m'.node i = m.node i := by
  have hstep : m.step env .ret = some { m with st := m.st.resume env cb, stack := rest } := by
    simp [Machine.step, hstack]
  have htrans := step_trans hstep
  generalize { m with st := m.st.resume env cb, stack := rest } = m₁ at hstep htrans
  refine ⟨m₁, hstep, ?_⟩
  cases htrans with
  | retLoose hstack' =>
    exact ⟨(List.cons_eq_cons.mp (hstack'.symm.trans hstack)).2, rfl, fun _ _ => rfl⟩
  | @retClose closure result site rest' k hstack' hslot =>
    refine ⟨(List.cons_eq_cons.mp (hstack'.symm.trans hstack)).2, rfl, fun i hi => ?_⟩
    by_cases hik : i = k
    · subst hik
      obtain ⟨d, -, hdone⟩ := hwf.consistent.table.done_known hi.1
      have hclosing : ∃ cb ∈ m.stack, cb.slot? = some i :=
        ⟨.done closure result site, hstack' ▸ List.mem_cons_self, hslot⟩
      exact absurd hclosing (hwf.not_closing (hi.2 d hdone) hi.1 hdone)
    · exact close_node_of_ne hik

/-- A response with the names and the id of a live slot completes its call. -/
theorem WellFormed.response_completes (hwf : m.WellFormed env mgr) (hstack : m.stack = [])
    (hlive : m.Live i) {r : Result} {respBody : List UInt8}
    (hparse : (m.parsed env i respBody).2 = true) : ∃ m',
      m.step env (.onRecvResponse (m.node i).method.service.name (m.node i).method.name
        (m.node i).rpcId r respBody) = some m' ∧
      m'.log = .done (m.node i).done r (.response i) :: m.log ∧
      m'.st.mem (m.node i).response = (m.parsed env i respBody).1 := by
  have hreport : m.mayReport (m.node i).rpcId = true := by rw [mayReport, hstack]
  have hfind : m.st.mgr.findSessionNode (m.node i).rpcId = some i :=
    m.st.mgr.findSessionNode_eq_some.mpr ⟨(hwf.consistent.table.slot i hlive).symm, rfl⟩
  have hstep : m.step env (.onRecvResponse (m.node i).method.service.name (m.node i).method.name
      (m.node i).rpcId r respBody) = some _ := if_pos ⟨hreport, hlive⟩
  have htrans := step_trans hstep
  generalize m.onRecvResponse env _ _ _ _ _ = m₁ at hstep htrans
  refine ⟨m₁, hstep, ?_⟩
  cases htrans with
  | respIgnored _ _ hbad =>
    rcases hbad with hnone | ⟨k, hk, hnames⟩
    · cases hfind.symm.trans hnone
    · cases hfind.symm.trans hk
      exact absurd rfl (hnames.resolve_left (not_not.mpr rfl))
  | respUnparsed _ _ hfind' _ hparse' =>
    cases hfind.symm.trans hfind'
    cases hparse.symm.trans hparse'
  | respDone _ _ hfind' =>
    cases hfind.symm.trans hfind'
    exact ⟨rfl, Function.update_self ..⟩

end Machine

namespace Process

variable {env : RpcEnv Msg} {services : List (Service Msg)} {p : Process Msg} {c : ℕ}

/-! ## The steps are enabled -/

theorem stepCore_eq_setCore {a : Action Msg} {m : Machine Msg}
    (hm : (p.cores c).step env.toSessionEnv a = some m)
    (hquiet : ∀ method request rpcId addr owner,
      m.log ≠ .onSendRequest method request rpcId addr owner :: (p.cores c).log) :
    p.stepCore env c a = some (p.setCore c a m) := by
  rw [stepCore, hm, Option.bind_some]
  split
  · rename_i method request rpcId addr owner log hlog
    rcases (Machine.step_trans hm).kind.log_cases with hsame | ⟨cb, hcons⟩
    · have hlen : log.length ≠ (p.cores c).log.length := by
        rw [← hsame, hlog, List.length_cons]
        omega
      exact if_neg hlen
    · obtain ⟨rfl, -⟩ := List.cons_eq_cons.mp (hlog.symm.trans hcons)
      exact absurd hcons (hquiet _ _ _ _ _)
  · rfl

variable (services) in
/-- A request that a worker takes invokes its handler. -/
theorem step_recvPacket_request (addr : Addr) {buf body : List UInt8} {header : RpcHeader}
    {svc : Service Msg} {method : MethodDescriptor} (hidle : p.Idle env 0)
    (h : RpcCore.Requests env (serviceMap services) buf header body svc method) (posted : Bool) :
    p.step env services (.recvPacket 0 buf addr posted) =
      some (p.invoke 0 svc (RpcCore.contextOf env header body addr svc method)) := by
  have hrecv : p.recvOn env services 0 buf addr =
      some (p.invoke 0 svc (RpcCore.contextOf env header body addr svc method), 0) := by
    rw [recvOn, RpcCore.onRecvPacket_request h.carries h.type,
      RpcCore.onRecvRequestMessage_of_requests h]
    rfl
  rw [step, if_pos hidle, hrecv]
  rfl

variable (services) in
theorem step_handlerDone {inv : Invocation Msg} {rest : List (Invocation Msg)} {r : Result}
    {response : Msg} {buf : List UInt8} (hctx : p.contexts = inv :: rest)
    (htype : env.typeOf response = env.typeOf inv.ctx.response)
    (hbuf : onIncomingRpcDone env inv.ctx r response = some buf) :
    p.step env services (.handlerDone 0 r response) =
      some (p.complete 0 inv r response buf) := by
  have hfirst : p.contexts[0]? = some inv := by rw [hctx, List.getElem?_cons_zero]
  simp only [step, hfirst, htype, if_true, hbuf]
  rfl

variable (services) in
/-- A response that the core of its id takes reaches the session manager. -/
theorem step_recvPacket_response (addr : Addr) {buf body : List UInt8} {header : RpcHeader}
    {r : Result} {m : Machine Msg} (hidle : p.Idle env c)
    (h : RpcCore.Responds env buf header body r)
    (hid : RpcCore.getCoreIdFromRpcId env header.rpcId = some c)
    (hm : (p.cores c).step env.toSessionEnv
      (.onRecvResponse header.serviceName header.methodName header.rpcId r body) = some m)
    (hquiet : ∀ method request rpcId addr owner,
      m.log ≠ .onSendRequest method request rpcId addr owner :: (p.cores c).log) :
    ∃ p', p.step env services (.recvPacket c buf addr false) = some p' ∧ p'.cores c = m := by
  obtain ⟨p', hstep, hself⟩ : ∃ p', p.stepCore env c (.onRecvResponse header.serviceName
      header.methodName header.rpcId r body) = some p' ∧ p'.cores c = m :=
    ⟨_, stepCore_eq_setCore hm hquiet, if_pos rfl⟩
  have hrecv : p.recvOn env services c buf addr = some (p', 0) := by
    rw [recvOn, RpcCore.onRecvPacket_response h.carries h.type, hid]
    simp only [ne_eq, not_true_eq_false, if_false, RpcCore.onRecvResponseMessage, h.result]
    exact congrArg (Option.map _) hstep
  refine ⟨p', ?_, hself⟩
  rw [step, if_pos hidle, hrecv]
  simp [post]

end Process

/-- Callbacks return, packets are delivered and handlers answer. -/
def NetworkAction.IsService : NetworkAction Msg → Prop
  | .act _ (.core _ .ret) => True
  | .act _ (.handlerDone ..) => True
  | .act .. => False
  | .deliver .. => True

namespace Network

variable {D : Deployment Msg} {N N' : Network Msg} {boot : Addr → Process.Boot Msg}
  {mgr : Addr → ℕ → SessionManager} {a : Addr} {c : ℕ}

abbrev Served (D : Deployment Msg) : Network Msg → Network Msg → Prop :=
  Reaches (step D) fun _ α => α.IsService

/-! ## What does not depend on the users -/

/-- What holds of every state, however the messages are used. -/
structure Base (D : Deployment Msg) (boot : Addr → Process.Boot Msg)
    (mgr : Addr → ℕ → SessionManager) (N : Network Msg) : Prop where
  wellFormed : ∀ a, ∀ c < D.workerNum a,
    ((N a).cores c).WellFormed (envAt D a).toSessionEnv (mgr a c)
  mem : ∀ a c ref, D.protobuf.typeOf (((N a).cores c).st.mem ref) = types D boot a ref

theorem base_step (hlaw : LawfulProtobuf D.protobuf) (hB : Base D boot mgr N)
    {α : NetworkAction Msg} (h : step D N α = some N') : Base D boot mgr N' := by
  obtain ⟨b, action, p', htrans, rfl, -, -⟩ := step_cases h
  constructor
  · intro a c hc
    by_cases ha : a = b
    · subst ha
      rw [Function.update_self]
      obtain ⟨_, hstep, -⟩ := htrans.coreMoves c
      exact (hB.wellFormed a c hc).step hstep
    · rw [Function.update_of_ne ha]
      exact hB.wellFormed a c hc
  · intro a c ref
    by_cases ha : a = b
    · subst ha
      rw [Function.update_self]
      exact htrans.effect.typeOf_mem (envAt_lawful hlaw a) (hB.mem a) c ref
    · rw [Function.update_of_ne ha]
      exact hB.mem a c ref

theorem Sound.base (hS : Sound D boot mgr N) : Base D boot mgr N where
  wellFormed := hS.wellFormed
  mem a := (hS.site a).mem

theorem exists_step {α : NetworkAction Msg} (h : step D N α = some N') : ∃ a action p',
    (N a).step (envAt D a) (D.services a) action = some p' ∧ N' = Function.update N a p' := by
  cases α with
  | act a action =>
    cases hrecv : action.isReception with
    | true => simp [step, hrecv] at h
    | false =>
      simp only [step, hrecv, Bool.false_eq_true, if_false] at h
      obtain ⟨p', hp', rfl⟩ := Option.map_eq_some_iff.mp h
      exact ⟨a, action, p', hp', rfl⟩
  | deliver src dst k worker posted =>
    cases hpacket : (N src).outbox[k]? with
    | none => simp [step, hpacket] at h
    | some packet =>
      simp only [step, hpacket] at h
      obtain ⟨p', hp', rfl⟩ := Option.map_eq_some_iff.mp (Option.ite_none_right_eq_some.mp h).2
      exact ⟨dst, _, p', hp', rfl⟩

theorem step_act {p' : Process Msg} {action : ProcessAction Msg}
    (hrecv : action.isReception = false)
    (h : (N a).step (envAt D a) (D.services a) action = some p') :
    step D N (.act a action) = some (Function.update N a p') := by
  simp [step, hrecv, stepAt, h]

theorem step_deliver {p' : Process Msg} {b : Addr} {k w : ℕ} {posted : Bool} {packet : Datagram}
    (hk : (N a).outbox[k]? = some packet) (haddr : packet.addr = b)
    (h : (N b).step (envAt D b) (D.services b) (.recvPacket w packet.buf a posted) = some p') :
    step D N (.deliver a b k w posted) = some (Function.update N b p') := by
  simp [step, hk, haddr, stepAt, h]

/-- Every waiting call on the network has its request out. -/
theorem requestsInv (hlaw : LawfulProtobuf D.protobuf)
    (hstarted : ∀ a, Process.Started (envAt D a) (boot a) (mgr a))
    (h : Reaches (step D) (ProperUse D boot) (start boot mgr) N) (a : Addr) :
    (N a).RequestsInv (envAt D a) := by
  induction h generalizing a with
  | refl => exact Process.requestsInv_start (hstarted a)
  | @tail N₁ N₂ α hbefore hok hstep ih =>
    have hkept := hok.2 N₂ hstep
    obtain ⟨b, action, p', hp', rfl⟩ := exists_step hstep
    by_cases ha : a = b
    · subst ha
      have hS := sound hlaw hstarted hbefore
      have hkept' := hkept a
      rw [Function.update_self] at hkept' ⊢
      exact (ih a).step (fun c hc => (hS.wellFormed a c hc).consistent.table) hkept' hp'
    · rw [Function.update_of_ne ha]
      exact ih a

/-! ## Callbacks return -/

/-- Callbacks have returned, and no more has happened to what waits. -/
structure Kept (D : Deployment Msg) (N N' : Network Msg) : Prop where
  outbox : ∀ a, (N' a).outbox = (N a).outbox
  log : ∀ a, ∀ c < D.workerNum a, ((N' a).cores c).log = ((N a).cores c).log
  waiting : ∀ a, ∀ c < D.workerNum a, ∀ i, ((N a).cores c).Unfinished i →
    ((N' a).cores c).node i = ((N a).cores c).node i
  idle : ∀ a, ∀ c < D.workerNum a, ((N a).cores c).stack = [] → ((N' a).cores c).stack = []

theorem Kept.refl : Kept D N N :=
  ⟨fun _ => rfl, fun _ _ _ => rfl, fun _ _ _ _ _ => rfl, fun _ _ _ => id⟩

theorem Kept.unfinished (h : Kept D N N') (hc : c < D.workerNum a) {i : ℕ}
    (hi : ((N a).cores c).Unfinished i) : ((N' a).cores c).Unfinished i := by
  have hnode := h.waiting a c hc i hi
  refine ⟨fun hid => hi.1 (hnode ▸ hid), fun d hd => ?_⟩
  rw [Machine.doneCount_of_log_eq (h.log a c hc)]
  exact hi.2 d (hnode ▸ hd)

theorem Kept.trans {N₁ N₂ N₃ : Network Msg} (h : Kept D N₁ N₂) (h' : Kept D N₂ N₃) :
    Kept D N₁ N₃ where
  outbox a := (h'.outbox a).trans (h.outbox a)
  log a c hc := (h'.log a c hc).trans (h.log a c hc)
  waiting a c hc i hi := (h'.waiting a c hc i (h.unfinished hc hi)).trans (h.waiting a c hc i hi)
  idle a c hc hidle := h'.idle a c hc (h.idle a c hc hidle)

/-- Nothing but one core has changed. -/
theorem kept_of_core (hout : ∀ b, (N' b).outbox = (N b).outbox)
    (hothers : ∀ b d, ¬ (b = a ∧ d = c) → ∃ mem, (N' b).cores d = ((N b).cores d).withMem mem)
    (hlog : ((N' a).cores c).log = ((N a).cores c).log)
    (hnode : ∀ i, ((N a).cores c).Unfinished i → ((N' a).cores c).node i = ((N a).cores c).node i)
    (hidle : ((N a).cores c).stack = [] → ((N' a).cores c).stack = []) : Kept D N N' where
  outbox := hout
  log b d _ := by
    by_cases h : b = a ∧ d = c
    · obtain ⟨rfl, rfl⟩ := h
      exact hlog
    · obtain ⟨mem, hmem⟩ := hothers b d h
      rw [hmem]
      rfl
  waiting b d _ i hi := by
    by_cases h : b = a ∧ d = c
    · obtain ⟨rfl, rfl⟩ := h
      exact hnode i hi
    · obtain ⟨mem, hmem⟩ := hothers b d h
      rw [hmem]
      rfl
  idle b d _ hstack := by
    by_cases h : b = a ∧ d = c
    · obtain ⟨rfl, rfl⟩ := h
      exact hidle hstack
    · obtain ⟨mem, hmem⟩ := hothers b d h
      rw [hmem]
      exact hstack

/-- The innermost callback of a core returns. -/
theorem exists_ret (hB : Base D boot mgr N) (hc : c < D.workerNum a) {cb : Callback}
    {rest : List Callback} (hstack : ((N a).cores c).stack = cb :: rest) : ∃ N',
      step D N (.act a (.core c .ret)) = some N' ∧ Kept D N N' ∧
        ((N' a).cores c).stack = rest := by
  obtain ⟨m, hm, hrest, hlog, hnode⟩ := (hB.wellFormed a c hc).ret_waiting hstack
  have hcore : (N a).stepCore (envAt D a) c .ret = some ((N a).setCore c .ret m) :=
    Process.stepCore_eq_setCore hm fun _ _ _ _ _ h => by simp [hlog] at h
  have hstep : (N a).step (envAt D a) (D.services a) (.core c .ret) =
      some ((N a).setCore c .ret m) := (if_pos hc).trans hcore
  have hself : ((Function.update N a ((N a).setCore c .ret m) a).cores c) = m := by
    rw [Function.update_self]
    exact if_pos rfl
  refine ⟨Function.update N a ((N a).setCore c .ret m), ?_,
    kept_of_core (a := a) (c := c) ?_ ?_ ?_ ?_ ?_, ?_⟩
  · exact step_act rfl hstep
  · intro b
    by_cases hb : b = a
    · rw [hb, Function.update_self]
      rfl
    · rw [Function.update_of_ne hb]
  · intro b d hne
    by_cases hb : b = a
    · subst hb
      rw [Function.update_self]
      exact ⟨m.st.mem, if_neg fun hd => hne ⟨rfl, hd⟩⟩
    · rw [Function.update_of_ne hb]
      exact ⟨_, rfl⟩
  · rw [hself, hlog]
  · rw [hself]
    exact hnode
  · rw [hstack]
    exact nofun
  · rw [hself, hrest]

/-- The callbacks of a core return. -/
theorem exists_idle (hlaw : LawfulProtobuf D.protobuf) (hB : Base D boot mgr N)
    (hc : c < D.workerNum a) : ∃ N', Served D N N' ∧ Base D boot mgr N' ∧ Kept D N N' ∧
      ((N' a).cores c).stack = [] := by
  induction hstack : ((N a).cores c).stack generalizing N with
  | nil => exact ⟨N, .refl, hB, .refl, hstack⟩
  | cons cb rest ih =>
    obtain ⟨N₁, hstep, hkept, hrest⟩ := exists_ret hB hc hstack
    obtain ⟨N₂, hserved, hB₂, hkept₂, hidle⟩ := ih (base_step hlaw hB hstep) hrest
    have hfirst : Served D N N₁ := .single (a := .act a (.core c .ret)) trivial hstep
    exact ⟨N₂, hfirst.trans hserved, hB₂, hkept.trans hkept₂, hidle⟩

/-! ## The answer -/

/-- The server that the attempts have come to has a worker and offers the method, the response is of
its type, and neither packet is cut. -/
structure CanAnswer (D : Deployment Msg) (node : SessionNode) (request : Msg) (r : Result)
    (response : Msg) : Prop where
  workers : 0 < D.workerNum node.endpoint
  offered : ∃ svc method,
    serviceMap (D.services node.endpoint) node.method.service.name = some svc ∧
    svc.descriptor.findMethodByName node.method.name = some method ∧
    D.protobuf.typeOf response = method.outputType
  request : ∀ body, D.protobuf.serialize request = some body →
    Fits (D.protobuf.serializeHeader node.requestHeader) body
  response : ∃ body, D.protobuf.serialize response = some body ∧
    Fits (D.protobuf.serializeHeader (node.replyHeader r)) body

theorem requests_of_sendMessage {env : RpcEnv Msg} (hlaw : LawfulProtobuf env)
    {onFindService : Str → Option (Service Msg)} {node : SessionNode} {request : Msg}
    {buf : List UInt8} {svc : Service Msg} {method : MethodDescriptor}
    (hsent : sendMessage env node.requestHeader request = some buf)
    (hfits : ∀ body, env.serialize request = some body →
      Fits (env.serializeHeader node.requestHeader) body)
    (hsvc : onFindService node.method.service.name = some svc)
    (hmethod : svc.descriptor.findMethodByName node.method.name = some method)
    (htype : env.typeOf (env.new (svc.requestPrototype method)) = env.typeOf request) :
    ∃ body, RpcCore.Requests env onFindService buf node.requestHeader body svc method := by
  obtain ⟨body, hbody, rfl⟩ := sendMessage_eq_some.mp hsent
  have hfits := hfits body hbody
  exact ⟨body, ⟨_, rfl, hfits, hlaw.header _ hfits.header⟩, rfl, hsvc, hmethod,
    congrArg Prod.snd (hlaw.message _ _ _ htype hbody)⟩

theorem responds_of_fits {env : RpcEnv Msg} (hlaw : LawfulProtobuf env) {node : SessionNode}
    {r : Result} {body : List UInt8}
    (hfits : Fits (env.serializeHeader (node.replyHeader r)) body) :
    RpcCore.Responds env (packetOf (env.serializeHeader (node.replyHeader r)) body)
      (node.replyHeader r) body r where
  carries := ⟨_, rfl, hfits, hlaw.header _ hfits.header⟩
  type := rfl
  result := by cases r <;> rfl

/-- The header of the response to a request for the call. -/
theorem incomingDoneHeader_eq {node : SessionNode} {svc : Service Msg} {method : MethodDescriptor}
    {services : List (Service Msg)} (hsvc : serviceMap services node.method.service.name = some svc)
    (hmethod : svc.descriptor.findMethodByName node.method.name = some method) {r : Result}
    {ctx : IncomingRpcContext Msg} (hctx : ctx.method = method) (hid : ctx.rpcId = node.rpcId) :
    incomingDoneHeader ctx r = node.replyHeader r := by
  obtain ⟨-, hname⟩ := mem_of_serviceMap hsvc
  obtain ⟨hdesc, hmethodName⟩ := ServiceDescriptor.findMethodByName_some hmethod
  rw [incomingDoneHeader, SessionNode.replyHeader, hctx, hid, hdesc, hname, hmethodName]

/-- An idle server takes a request and answers it. -/
theorem exists_answer {b : Addr} {k : ℕ} {buf buf' body : List UInt8} {x : UInt64}
    {header : RpcHeader} {svc : Service Msg} {method : MethodDescriptor} {r : Result}
    {response : Msg} (hworkers : 0 < D.workerNum b) (hidle : ((N b).cores 0).stack = [])
    (hk : (N a).outbox[k]? = some ⟨buf, b, x⟩)
    (hreqs : RpcCore.Requests (envAt D b) (serviceMap (D.services b)) buf header body svc method)
    (htype : D.protobuf.typeOf response = D.protobuf.typeOf (D.protobuf.new
      (svc.responsePrototype method)))
    (hbuf : onIncomingRpcDone (envAt D b) (RpcCore.contextOf (envAt D b) header body a svc method) r
      response = some buf') : ∃ N', Served D N N' ∧ (∀ e, (N' e).cores = (N e).cores) ∧
        (N' b).outbox[0]? = some ⟨buf', a, 0⟩ := by
  have htakes := Process.step_recvPacket_request (D.services b) a ⟨hworkers, hidle⟩ hreqs false
  have hdelivered := step_deliver (D := D) (w := 0) hk rfl htakes
  set ctx := RpcCore.contextOf (envAt D b) header body a svc method
  have htype' : (envAt D b).typeOf response = (envAt D b).typeOf ctx.response := htype
  have hinvoked : ((N b).invoke 0 svc ctx).contexts = ⟨0, svc, ctx⟩ :: (N b).contexts := rfl
  have hdone := Process.step_handlerDone (D.services b) hinvoked htype' hbuf
  set p₂ := ((N b).invoke 0 svc ctx).complete 0 ⟨0, svc, ctx⟩ r response buf'
  have hanswered : step D (Function.update N b ((N b).invoke 0 svc ctx))
      (.act b (.handlerDone 0 r response)) = some (Function.update N b p₂) := by
    have hself := Function.update_self (β := fun _ => Process Msg) b ((N b).invoke 0 svc ctx) N
    rw [← hself] at hdone
    rw [step_act rfl hdone, Function.update_idem]
  refine ⟨Function.update N b p₂, (Reaches.single (a := .deliver a b k 0 false) trivial
    hdelivered).tail (a := .act b (.handlerDone 0 r response)) trivial hanswered, fun e => ?_, ?_⟩
  · by_cases he : e = b
    · rw [he, Function.update_self]
      rfl
    · rw [Function.update_of_ne he]
  · rw [Function.update_self]
    rfl

theorem emptyCall_canAnswer {node : SessionNode} (hendpoint : node.endpoint = ⟨2, 1⟩)
    (hmethod : node.method = emptyMethod) (hid : node.rpcId = 0x1000000000001) :
    CanAnswer (emptyDeployment 1) node () .kSuccess () where
  workers := by rw [hendpoint]; decide
  offered := by
    refine ⟨emptyService, emptyMethod, ?_, ?_, rfl⟩
    · rw [hmethod]
      rfl
    · rw [hmethod]
      exact ServiceDescriptor.findMethodByName_name emptyMethod
  request body hbody := by
    cases hbody
    rw [SessionNode.requestHeader, hmethod, hid]
    exact ⟨by decide +kernel, by decide, by decide +kernel⟩
  response := by
    refine ⟨[], rfl, ?_⟩
    rw [SessionNode.replyHeader, hmethod, hid]
    exact ⟨by decide +kernel, by decide, by decide +kernel⟩

end Network

end HyperRpc
