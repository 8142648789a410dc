import HyperRpc.Network.Provenance
import HyperRpc.Process.Dispatch

/-!
# A response answers the call it completes

When a response completes a call, a server at one of the call's endpoints has run the handler
of the method called on the request of the call and under its id, and the caller's response
message holds what the handler answered. An id tells the sessions of a process apart as long
as no two of its cores have the same core part and no manager has drawn all its ids.
-/
namespace HyperRpc

open Lib

variable {Msg : Type} {D : Deployment Msg}

namespace Process

variable {env : RpcEnv Msg} {services : List (Service Msg)} {p p' : Process Msg}
  {act : ProcessAction Msg} {c i : ℕ} {closure : Option Closure} {r : Result}

theorem IsOwn.ne_onRecvResponse {act : Action Msg} (h : IsOwn act) {service method : Str}
    {rpcId : UInt64} {body : List UInt8} : act ≠ .onRecvResponse service method rpcId r body := by
  rintro rfl
  rcases h with ⟨b, hb⟩ | ⟨_, hb⟩
  · cases b <;> cases hb
  · cases hb

/-- A call is completed by a response when its core takes a response packet. -/
theorem Effect.completion (h : p.Effect env services act p')
    (hlog : (p'.cores c).log = .done closure r (.response i) :: (p.cores c).log) :
    ((p.cores c).node i).done = closure ∧ ∃ buf addr header body, p.Takes act buf addr ∧
      RpcCore.Responds env buf header body r ∧
      RpcCore.getCoreIdFromRpcId env header.rpcId = some c ∧
      Machine.Completes env.toSessionEnv (p.cores c) i header.serviceName header.methodName
        header.rpcId body (p'.cores c) := by
  have hno : (p'.cores c).log ≠ (p.cores c).log := by simp [hlog]
  have hstep : ∀ {e : ℕ} {a : Action Msg} {p₀ p₁ : Process Msg}, p.Alike p₀ →
      p₀.CoreStep env e a p₁ → p₁.Alike p' → e = c ∧ ((p.cores c).node i).done = closure ∧
        ∃ service method rpcId body, a = .onRecvResponse service method rpcId r body ∧
          Machine.Completes env.toSessionEnv (p.cores c) i service method rpcId body
            (p'.cores c) := by
    intro e a p₀ p₁ hbefore h hafter
    by_cases he : c = e
    · subst he
      have hmachine := h.machine
      rw [hbefore.cores, ← hafter.cores] at hmachine
      exact ⟨rfl, (Machine.step_trans hmachine).completes hlog⟩
    · rw [hafter.cores, h.others c he, hbefore.cores] at hno
      exact absurd rfl hno
  cases h with
  | idle h => exact absurd (by rw [h.cores]) hno
  | core _ hbefore h hafter hact =>
    obtain ⟨-, -, service, method, rpcId, body, rfl, -⟩ := hstep hbefore h hafter
    rcases hact with hown | hdisp
    · exact absurd rfl hown.ne_onRecvResponse
    · obtain ⟨_, _, _, _, _, hcall, -⟩ := dispatched_cases hdisp
      have hcontra := congrArg Action.call? hcall
      rw [RpcCore.callMethod_call?] at hcontra
      cases hcontra
  | respond _ htakes hrecv hbefore h hafter =>
    obtain ⟨rfl, hdone, service, method, rpcId, body, hact, hcompletes⟩ := hstep hbefore h hafter
    cases hact
    obtain ⟨header, hresp, rfl, rfl, rfl, hid⟩ := hrecv.of_respond
    exact ⟨hdone, _, _, header, _, htakes, hresp, hid, hcompletes⟩
  | invoke _ _ hbefore hafter => exact absurd (by rw [hafter.cores]; exact hbefore.cores ▸ rfl) hno
  | complete _ _ _ hafter => exact absurd (by rw [hafter.cores]; rfl) hno
  | write _ _ hafter => exact absurd (by rw [hafter.cores]; rfl) hno

end Process

namespace Network

variable {N N' : Network Msg} {boot : Addr → Process.Boot Msg} {mgr : Addr → ℕ → SessionManager}

/-- The types of the messages of each process. -/
def types (D : Deployment Msg) (boot : Addr → Process.Boot Msg) (a : Addr) (ref : MsgRef) : Str :=
  D.protobuf.typeOf ((boot a).mem ref)

/-- Users call methods with messages of the right types and leave the request of a pending call
alone. -/
def ProperUse (D : Deployment Msg) (boot : Addr → Process.Boot Msg) (N : Network Msg)
    (α : NetworkAction Msg) : Prop :=
  (∀ a action, α = .act a action → Process.TypedCalls D (types D boot a) action) ∧
    ∀ N', step D N α = some N' → ∀ a, Process.RequestsKept (N a) (N' a)

/-- What holds of every state of the network. -/
structure Sound (D : Deployment Msg) (boot : Addr → Process.Boot Msg)
    (mgr : Addr → ℕ → SessionManager) (N : Network Msg) : Prop where
  wellFormed : ∀ a, ∀ c < D.workerNum a,
    ((N a).cores c).WellFormed (envAt D a).toSessionEnv (mgr a c)
  site : ∀ a, (N a).Site D (envAt D a) (D.services a) (fun b => (N b).outbox) (types D boot a) a

theorem envAt_lawful (hlaw : LawfulProtobuf D.protobuf) (a : Addr) : LawfulProtobuf (envAt D a) :=
  ⟨hlaw.header, hlaw.message, hlaw.typeOf_parse, hlaw.typeOf_new⟩

/-- One process makes a step; a packet it receives has been sent to it. -/
theorem step_cases {α : NetworkAction Msg} (h : step D N α = some N') : ∃ a action p',
    (N a).Trans (envAt D a) (D.services a) action p' ∧ N' = Function.update N a p' ∧
      (α = .act a action ∨ ∃ c buf addr posted, action = .recvPacket c buf addr posted) ∧
      ∀ c buf addr posted, action = .recvPacket c buf addr posted →
        Arrives (fun b => (N b).outbox) a buf addr := by
  cases α with
  | act a action =>
    cases hrecv : action.isReception with
    | true => simp [step, hrecv] at h
    | false =>
      simp only [step, hrecv, Bool.false_eq_true, if_false] at h
      obtain ⟨p', hp', rfl⟩ := Option.map_eq_some_iff.mp h
      refine ⟨a, action, p', Process.step_trans hp', rfl, Or.inl rfl, ?_⟩
      rintro c buf addr posted rfl
      cases hrecv
  | deliver src dst k worker posted =>
    cases hpacket : (N src).outbox[k]? with
    | none => simp [step, hpacket] at h
    | some packet =>
      simp only [step, hpacket] at h
      obtain ⟨hdst, h⟩ := Option.ite_none_right_eq_some.mp h
      obtain ⟨p', hp', rfl⟩ := Option.map_eq_some_iff.mp h
      refine ⟨dst, _, p', Process.step_trans hp', rfl, Or.inr ⟨_, _, _, _, rfl⟩, ?_⟩
      intro c buf addr posted' hact
      cases hact
      exact ⟨packet, List.mem_of_getElem? hpacket, hdst, rfl⟩

theorem Sound.step (hlaw : LawfulProtobuf D.protobuf) (hS : Sound D boot mgr N)
    {α : NetworkAction Msg} (hok : ProperUse D boot N α) (h : step D N α = some N') :
    Sound D boot mgr N' := by
  have hkept := hok.2 N' h
  obtain ⟨a, action, p', htrans, rfl, hfrom, harrives⟩ := step_cases h
  have hcalls : Process.TypedCalls D (types D boot a) action := by
    rcases hfrom with rfl | ⟨_, _, _, _, rfl⟩
    · exact hok.1 a action rfl
    · trivial
  have hsent : ∀ b, (N b).outbox ⊆ (Function.update N a p' b).outbox := by
    intro b
    by_cases hb : b = a
    · subst hb
      rw [Function.update_self]
      exact htrans.effect.outbox_subset
    · rw [Function.update_of_ne hb]
      exact List.Subset.refl _
  constructor
  · intro b c hc
    by_cases hb : b = a
    · subst hb
      rw [Function.update_self]
      obtain ⟨_, hstep, -⟩ := htrans.coreMoves c
      exact (hS.wellFormed b c hc).step hstep
    · rw [Function.update_of_ne hb]
      exact hS.wellFormed b c hc
  · intro b
    by_cases hb : b = a
    · subst hb
      have hkept' := hkept b
      rw [Function.update_self] at hkept' ⊢
      exact ((hS.site b).step (envAt_lawful hlaw b) htrans
        (fun c hc => (hS.wellFormed b c hc).consistent.table) hcalls hkept'
        harrives).mono hsent
    · rw [Function.update_of_ne hb]
      exact (hS.site b).mono hsent

theorem sound_start (hstarted : ∀ a, Process.Started (envAt D a) (boot a) (mgr a)) :
    Sound D boot mgr (start boot mgr) where
  wellFormed a c hc := Machine.wellFormed_start (hstarted a c hc)
  site _ :=
    { mem := fun _ _ => rfl
      sessions := fun _ _ _ hσ => absurd hσ List.not_mem_nil
      calls := fun _ _ _ _ _ ht => absurd ht List.not_mem_nil
      packets := fun _ _ _ ht => absurd ht List.not_mem_nil
      outbox := fun _ hg => absurd hg List.not_mem_nil
      contexts := fun _ h => absurd h List.not_mem_nil
      completions := fun _ h => absurd h List.not_mem_nil
      invocations := fun _ h => absurd h List.not_mem_nil }

theorem sound (hlaw : LawfulProtobuf D.protobuf)
    (hstarted : ∀ a, Process.Started (envAt D a) (boot a) (mgr a))
    (h : Reaches (step D) (ProperUse D boot) (start boot mgr) N) : Sound D boot mgr N :=
  Reaches.invariant (fun hI hok hstep => Sound.step hlaw hI hok hstep) h (sound_start hstarted)

/-- Users who call with messages of the right types and keep requests and responses apart use
the messages properly. -/
theorem properUse_of_apart (isRequest : MsgRef → Prop)
    (hvacant : ∀ a c i, ((mgr a c).sessPool i).rpcId = 0)
    (h : Reaches (step D) (fun _ α => ∀ a action, α = .act a action →
      Process.TypedCalls D (types D boot a) action ∧ Process.KeepsApart isRequest action)
      (start boot mgr) N) :
    Reaches (step D) (ProperUse D boot) (start boot mgr) N := by
  suffices hboth : Reaches (step D) (ProperUse D boot) (start boot mgr) N ∧
      ∀ a, (N a).ApartInv isRequest (boot a).mem from hboth.1
  induction h with
  | refl =>
    exact ⟨.refl, fun a =>
      ⟨fun c i hi => absurd (hvacant a c i) hi, fun _ _ _ _ _ ht => absurd ht List.not_mem_nil,
        fun _ _ _ => rfl⟩⟩
  | @tail N N' α _ hok hstep ih =>
    obtain ⟨hreach, hI⟩ := ih
    have hnext : ∀ a, (N' a).ApartInv isRequest (boot a).mem := by
      obtain ⟨b, action, p', htrans, rfl, hfrom, -⟩ := step_cases hstep
      intro a
      by_cases ha : a = b
      · subst ha
        rw [Function.update_self]
        refine (hI a).step htrans ?_
        rcases hfrom with rfl | ⟨_, _, _, _, rfl⟩
        · exact (hok a action rfl).2
        · trivial
      · rw [Function.update_of_ne ha]
        exact hI a
    refine ⟨.tail hreach ⟨fun a action ha => (hok a action ha).1, fun N₁ hN₁ a => ?_⟩ hstep, hnext⟩
    obtain rfl := Option.some.inj (hstep.symm.trans hN₁)
    exact (hI a).requestsKept (hnext a)

/-! ## The call and its handler -/

/-- A handler at one of the session's endpoints was invoked for its method, on the request `q`
and under its id, and has answered with the result and the response. -/
def AnsweredBy (N : Network Msg) (σ : Session) (q : Msg) (r : Result) (response : Msg) : Prop :=
  ∃ b ∈ σ.endpoints, ∃ inv ∈ (N b).invocations, (inv, r, response) ∈ (N b).completions ∧
    inv.ctx.method.service.name = σ.method.service.name ∧
    inv.ctx.method.name = σ.method.name ∧ inv.ctx.rpcId = σ.rpcId ∧ inv.ctx.request = q

/-- The id of a session shows the index of its core, as long as that fits 16 bits. -/
theorem Sound.rpcId_div (hS : Sound D boot mgr N)
    (hstarted : ∀ a, Process.Started (envAt D a) (boot a) (mgr a)) {a : Addr}
    (hW : D.workerNum a ≤ 2 ^ 16) {c : ℕ} (hc : c < D.workerNum a) {σ : Session}
    (hσ : σ ∈ ((N a).cores c).sessions) :
    σ.rpcId.toNat / 2 ^ kRpcIdSeqPartBits = (c + 1) % 2 ^ 16 := by
  have hcore : (UInt64.ofNat c).toNat = c := by
    rw [UInt64.toNat_ofNat']
    exact Nat.mod_eq_of_lt (by omega)
  rw [(hS.wellFormed a c hc).ids.rpcId σ hσ, ringAt_div,
    SessionManager.init_nextRpcId_div (hstarted a c hc), hcore]

/-- Two sessions of one process with one id are the same, if the core parts of its ids are
distinct and the counter of the core has not come around. -/
theorem Sound.session_unique (hS : Sound D boot mgr N)
    (hstarted : ∀ a, Process.Started (envAt D a) (boot a) (mgr a)) {a : Addr}
    (hW : D.workerNum a ≤ 2 ^ 16) {c c' : ℕ} (hc : c < D.workerNum a) (hc' : c' < D.workerNum a)
    {σ σ' : Session} (hσ : σ ∈ ((N a).cores c).sessions) (hσ' : σ' ∈ ((N a).cores c').sessions)
    (hdrawn : ((N a).cores c).st.mgr.drawn < 2 ^ kRpcIdSeqPartBits)
    (hid : RpcCore.getCoreIdFromRpcId (envAt D a) σ.rpcId = some c) (heq : σ'.rpcId = σ.rpcId) :
    c' = c ∧ σ' = σ := by
  have hdiv' := hS.rpcId_div hstarted hW hc' hσ'
  rw [heq, (RpcCore.getCoreIdFromRpcId_eq_some.mp hid).1] at hdiv'
  obtain rfl : c' = c := by omega
  have hI := (hS.wellFormed a c' hc').ids
  refine ⟨rfl, ?_⟩
  rcases le_total σ.drawnAt σ'.drawnAt with hle | hle
  · exact hI.eq_of_rpcId hσ hσ' hle (by omega) heq
  · exact (hI.eq_of_rpcId hσ' hσ hle (by omega) heq.symm).symm

/-! ## From the response back to the call -/

/-- A response packet is what some handler's completion was turned into. -/
theorem Sound.answered (hlaw : LawfulProtobuf D.protobuf) (hS : Sound D boot mgr N) {a b : Addr}
    {buf body : List UInt8} {header : RpcHeader} {r : Result}
    (harr : Arrives (fun b => (N b).outbox) a buf b)
    (hresp : RpcCore.Responds (envAt D a) buf header body r) :
    ∃ inv response, (inv, r, response) ∈ (N b).completions ∧ inv.ctx.addr = a ∧
      header = incomingDoneHeader inv.ctx r ∧ D.protobuf.serialize response = some body := by
  obtain ⟨g, hg, hdst, rfl⟩ := harr
  have hcarries : RpcCore.Carries (envAt D b) g.buf header body := hresp.carries
  cases (hS.site b).outbox g hg with
  | request _ _ hsent =>
    obtain ⟨-, rpcHeader, q, hbuf, -⟩ := hsent
    have htype := hresp.type
    rw [(carried_of_sendMessage (envAt_lawful hlaw b) hbuf hcarries).1] at htype
    cases htype
  | @response inv r' response hmem haddr hbuf =>
    obtain ⟨rfl, hbody⟩ := carried_of_sendMessage (envAt_lawful hlaw b) hbuf hcarries
    have hresult := hresp.result
    have hvalue : (incomingDoneHeader inv.ctx r').rpcResult = r'.toInt := by cases r' <;> rfl
    rw [hvalue, Result.ofInt?_toInt] at hresult
    obtain rfl := Option.some.inj hresult
    exact ⟨inv, response, hmem, haddr.symm.trans hdst, rfl, hbody⟩

/-- The handler at `b` runs on the request sent for the session of a core. -/
structure Serves (env : RpcEnv Msg) (m : Machine Msg) (b : Addr) (ctx : IncomingRpcContext Msg)
    (σ : Session) : Prop where
  endpoint : b ∈ σ.endpoints
  service : ctx.method.service.name = σ.method.service.name
  method : ctx.method.name = σ.method.name
  rpcId : ctx.rpcId = σ.rpcId
  response : env.typeOf ctx.response = σ.method.outputType
  request : ∀ i, m.Unfinished i → (m.node i).done = some σ.done →
    ctx.request = m.st.mem σ.request

/-- A handler is invoked for a session of a core of the process it answers to. -/
theorem Sound.invoked (hlaw : LawfulProtobuf D.protobuf)
    (htyped : ∀ a, ∀ svc ∈ D.services a, svc.Typed D.protobuf) (hS : Sound D boot mgr N)
    {b : Addr} {inv : Invocation Msg} (hinv : inv ∈ (N b).invocations) :
    ∃ c < D.workerNum inv.ctx.addr, ∃ σ ∈ ((N inv.ctx.addr).cores c).sessions,
      Serves D.protobuf ((N inv.ctx.addr).cores c) b inv.ctx σ := by
  obtain ⟨buf, header, body, method, ⟨g, hg, hdst, rfl⟩, hreqs, hctx⟩ :=
    (hS.site b).invocations inv hinv
  generalize inv.ctx.addr = a at hg hctx ⊢
  have hcarries : RpcCore.Carries (envAt D a) g.buf header body := hreqs.carries
  cases (hS.site a).outbox g hg with
  | response _ _ hbuf =>
    have htype := hreqs.type
    rw [(carried_of_sendMessage (envAt_lawful hlaw a) hbuf hcarries).1] at htype
    cases htype
  | @request c σ hc hσ hsent =>
    obtain ⟨haddr, rpcHeader, q, hbuf, hq, hkept⟩ := hsent
    obtain ⟨rfl, hbody⟩ := carried_of_sendMessage (envAt_lawful hlaw a) hbuf hcarries
    obtain ⟨hsvc, hname⟩ := mem_of_serviceMap hreqs.service
    obtain ⟨hdesc, hmethod⟩ := ServiceDescriptor.findMethodByName_some hreqs.resolves
    obtain ⟨hin, hout⟩ := ((hS.site a).sessions c hc σ hσ).agrees b inv.service hsvc hname method
      hreqs.resolves
    have htype : D.protobuf.typeOf (D.protobuf.new (inv.service.requestPrototype method)) =
        D.protobuf.typeOf q := by
      rw [hlaw.typeOf_new, (htyped b _ hsvc).request method hdesc, hin]
      exact hq.symm
    have hparse := hlaw.message _ q body htype hbody
    refine ⟨c, hc, σ, hσ, hdst ▸ haddr, ?_, ?_, ?_, ?_, ?_⟩ <;> rw [hctx]
    · show method.service.name = _
      rw [hdesc, hname]
      rfl
    · exact hmethod
    · rfl
    · show D.protobuf.typeOf (D.protobuf.new (inv.service.responsePrototype method)) = _
      rw [hlaw.typeOf_new, (htyped b _ hsvc).response method hdesc, hout]
    · intro i hi hdone
      rw [hkept i hi hdone]
      exact congrArg Prod.fst hparse

/-- When a response completes a call, a handler at one of the endpoints of the call was invoked
under its id, for its method and on its request, and has answered with the result and with what
the response message of the call holds, provided that the process has no more than `2 ^ 16` cores
and the manager of the call has not drawn `2 ^ 48` ids. -/
theorem response_correct (hlaw : LawfulProtobuf D.protobuf)
    (htyped : ∀ a, ∀ svc ∈ D.services a, svc.Typed D.protobuf)
    (hstarted : ∀ a, Process.Started (envAt D a) (boot a) (mgr a))
    (hreach : Reaches (step D) (ProperUse D boot) (start boot mgr) N)
    {α : NetworkAction Msg} (hstep : step D N α = some N')
    {a : Addr} (hW : D.workerNum a ≤ 2 ^ 16) {c : ℕ} (hc : c < D.workerNum a)
    (hdrawn : ((N a).cores c).st.mgr.drawn < 2 ^ kRpcIdSeqPartBits)
    {closure : Option Closure} {r : Result} {i : ℕ}
    (hdone : ((N' a).cores c).log = .done closure r (.response i) :: ((N a).cores c).log) :
    ∃ σ ∈ ((N a).cores c).sessions, closure = some σ.done ∧
      AnsweredBy N σ (((N a).cores c).st.mem σ.request) r
        (((N' a).cores c).st.mem σ.response) := by
  have hS := sound hlaw hstarted hreach
  obtain ⟨a', action, p', htrans, rfl, -, harrives⟩ := step_cases hstep
  -- the process that completes the call is the one that acts
  obtain rfl : a' = a := by
    by_contra hne
    rw [Function.update_of_ne (Ne.symm hne)] at hdone
    simp at hdone
  rw [Function.update_self] at hdone ⊢
  obtain ⟨hclosure, buf, b, header, body, htakes, hresp, hid, hcompletes⟩ :=
    htrans.effect.completion hdone
  obtain ⟨σ, hσ, hheld, hrpcId, hunfinished, -, -, hparsed⟩ :=
    hcompletes.session (hS.wellFormed a' c hc).consistent
  have harr : Arrives (fun b => (N b).outbox) a' buf b := by
    rcases htakes with ⟨w, posted, hact⟩ | ⟨w, htask⟩
    · exact harrives w buf b posted hact
    · exact (hS.site a').packets w buf b htask
  -- the response comes from a handler, which was invoked for a session of this process
  obtain ⟨inv, response, hcompleted, haddr, rfl, hbody⟩ := hS.answered hlaw harr hresp
  obtain ⟨hinv, htype⟩ := (hS.site b).completions _ hcompleted
  obtain ⟨c', hc', σ', hσ', hserves⟩ := hS.invoked hlaw htyped hinv
  rw [haddr] at hc' hσ' hserves
  have hsame : σ'.rpcId = σ.rpcId := hserves.rpcId.symm.trans hrpcId.symm
  obtain ⟨rfl, rfl⟩ := hS.session_unique hstarted hW hc hc' hσ hσ' hdrawn (hrpcId ▸ hid) hsame
  have hresponse : (p'.cores c').st.mem σ'.response = response := by
    rw [hparsed]
    refine congrArg Prod.fst (hlaw.message _ response body ?_ hbody)
    calc D.protobuf.typeOf (((N a').cores c').st.mem σ'.response)
        = σ'.method.outputType :=
          ((hS.site a').mem c' _).trans ((hS.site a').sessions c' hc σ' hσ').response
      _ = D.protobuf.typeOf response := (htype.trans hserves.response).symm
  refine ⟨σ', hσ', hclosure.symm.trans hheld, b, hserves.endpoint, inv, hinv, ?_, hserves.service,
    hserves.method, hserves.rpcId, hserves.request i hunfinished hheld⟩
  rw [hresponse]
  exact hcompleted

/-! ## A client of two servers -/

def echoMethod : MethodDescriptor := RpcCore.sampleMethod [97] [73] [79]

/-- Every process offers the service `a.P`; the one at the first address has two workers. -/
def echoDeployment : Deployment ValueMessage where
  protobuf := wireEnv 1
  workerNum a := if a = ⟨1, 1⟩ then 2 else 1
  defaultRpcTimeout _ := 5
  services _ := [RpcCore.sampleService 1 [97] [73] [79]]

def echoStart : Network ValueMessage :=
  start (fun _ => Process.sampleBoot) fun _ => Process.sampleManager

theorem echoDeployment_agrees : echoDeployment.Agrees echoMethod := by
  intro a svc hsvc _ method hfind
  obtain rfl := List.mem_singleton.mp hsvc
  have hservice : method.service = echoMethod.service :=
    (ServiceDescriptor.findMethodByName_some hfind).1
  have hmem : method.proto ∈ echoMethod.service.methods := hservice ▸ List.get_mem _ _
  have hproto : method.proto = echoMethod.proto := List.mem_singleton.mp hmem
  exact ⟨congrArg MethodProto.inputType hproto, congrArg MethodProto.outputType hproto⟩

/-- The call of a worker of the client, with an even request message and the odd one after it. -/
def echoCall (c : ℕ) (request : MsgRef) (done : Closure) (endpoints : List Addr) :
    NetworkAction ValueMessage :=
  .act ⟨1, 1⟩ (.callInWorker c echoMethod request (request + 1) done
    (some fun _ _ _ => (true, endpoints)))

/-- A test for well-typed calls that keep even and odd messages apart. -/
def echoCheck (_ : Network ValueMessage) : NetworkAction ValueMessage → Bool
  | .act _ (.callInWorker _ method request response ..) =>
    decide (method = echoMethod ∧ request % 2 = 0 ∧ response % 2 = 1)
  | .act _ (.callOutside ..) => false
  | .act _ (.write ..) => false
  | _ => true

theorem properUse_of_echoCheck {N : Network ValueMessage}
    (h : Reaches (step echoDeployment) (fun N α => echoCheck N α = true) echoStart N) :
    Reaches (step echoDeployment) (ProperUse echoDeployment fun _ => Process.sampleBoot)
      echoStart N := by
  refine properUse_of_apart (fun ref => ref % 2 = 0) (fun _ _ _ => rfl)
    (h.mono fun _ _ hcheck => ?_)
  rintro a action rfl
  cases action with
  | callInWorker c method request response =>
    obtain ⟨rfl, hrequest, hresponse⟩ := of_decide_eq_true hcheck
    refine ⟨⟨?_, ?_, echoDeployment_agrees⟩, hrequest,
      fun heven => absurd (heven.symm.trans hresponse) (by decide)⟩
    · simp [types, echoDeployment, wireEnv, Process.sampleBoot, hrequest]; rfl
    · simp [types, echoDeployment, wireEnv, Process.sampleBoot, hresponse]; rfl
  | callOutside => cases hcheck
  | write => cases hcheck
  | _ => exact ⟨trivial, trivial⟩

/-- Two workers of the client have a call each at one server, the first after its first endpoint
has failed. The response to the first call arrives. -/
theorem response_correct_sample : ∃ N N' σ,
    Reaches (step echoDeployment) (ProperUse echoDeployment fun _ => Process.sampleBoot)
        (start (fun _ => Process.sampleBoot) fun _ => Process.sampleManager) N ∧
      step echoDeployment N (.deliver ⟨2, 1⟩ ⟨1, 1⟩ 0 0 true) = some N' ∧
      (N ⟨2, 1⟩).completions.map (fun x => (x.1.ctx.request, x.2.2)) =
        [(⟨[73], some [0]⟩, ⟨[79], some [5]⟩), (⟨[73], some [2]⟩, ⟨[79], some [6]⟩)] ∧
      σ ∈ ((N ⟨1, 1⟩).cores 0).sessions ∧ σ.done = 10 ∧ σ.endpoints = [⟨3, 1⟩, ⟨2, 1⟩] ∧
      AnsweredBy N σ ⟨[73], some [0]⟩ .kSuccess ⟨[79], some [5]⟩ := by
  obtain ⟨N, hN, hcheck⟩ := exists_reachesIf_of_run (step echoDeployment) echoStart
    [echoCall 0 0 10 [⟨3, 1⟩, ⟨2, 1⟩], .act ⟨1, 1⟩ (.core 0 .ret),
      echoCall 1 2 11 [⟨2, 1⟩], .act ⟨1, 1⟩ (.core 1 .ret),
      .act ⟨1, 1⟩ (.sentResult 0 false 0x1000000000001 true), .act ⟨1, 1⟩ (.core 0 .ret),
      .deliver ⟨1, 1⟩ ⟨2, 1⟩ 1 0 true, .deliver ⟨1, 1⟩ ⟨2, 1⟩ 0 0 true,
      .act ⟨2, 1⟩ (.handlerDone 1 .kSuccess ⟨[79], some [6]⟩),
      .act ⟨2, 1⟩ (.handlerDone 0 .kSuccess ⟨[79], some [5]⟩)]
    echoCheck
    (fun N => decide ((step echoDeployment N (.deliver ⟨2, 1⟩ ⟨1, 1⟩ 0 0 true)).map (fun N' =>
        (((N' ⟨1, 1⟩).cores 0).log, ((N' ⟨1, 1⟩).cores 0).st.mem 1)) =
          some (.done (some 10) .kSuccess (.response 0) :: ((N ⟨1, 1⟩).cores 0).log,
            ⟨[79], some [5]⟩) ∧
      (N ⟨2, 1⟩).completions.map (fun x => (x.1.ctx.request, x.2.2)) =
        [(⟨[73], some [0]⟩, ⟨[79], some [5]⟩), (⟨[73], some [2]⟩, ⟨[79], some [6]⟩)] ∧
      ((N ⟨1, 1⟩).cores 0).st.mgr.drawn < 2 ^ kRpcIdSeqPartBits ∧
      ((N ⟨1, 1⟩).cores 0).st.mem 0 = ⟨[73], some [0]⟩ ∧
      ∀ σ ∈ ((N ⟨1, 1⟩).cores 0).sessions,
        σ.request = 0 ∧ σ.response = 1 ∧ σ.endpoints = [⟨3, 1⟩, ⟨2, 1⟩]))
    (fun _ _ h => h) (by decide +kernel)
  obtain ⟨hlast, hcompletions, hdrawn, hrequest, hsessions⟩ := of_decide_eq_true hcheck
  obtain ⟨N', hstep, hN'⟩ := Option.map_eq_some_iff.mp hlast
  obtain ⟨hlog, hresponse⟩ := Prod.mk.inj hN'
  obtain ⟨σ, hσ, hdone, hans⟩ := response_correct (wireEnv_lawful 1)
    (fun _ svc hsvc => List.mem_singleton.mp hsvc ▸ RpcCore.sampleService_typed 1 1 _ _ _)
    (fun _ => Process.sampleManager_started _) (properUse_of_echoCheck hN) hstep (a := ⟨1, 1⟩)
    (by decide) (by decide) hdrawn hlog
  obtain ⟨hσrequest, hσresponse, hendpoints⟩ := hsessions σ hσ
  rw [hσrequest, hσresponse, hrequest, hresponse] at hans
  exact ⟨N, N', σ, properUse_of_echoCheck hN, hstep, hcompletions, hσ,
    (Option.some.inj hdone).symm, hendpoints, hans⟩

/-- All messages are empty. -/
def emptyProtobuf : RpcEnv Unit where
  defaultRpcTimeout := 5
  parseFromArray _ bytes := ((), (readFields bytes.length bytes).isSome)
  hasTimerAfterCancel := true
  hasTimerAfterExpiry := false
  workerNum := 1
  parseHeader := RpcHeader.wireParse
  serializeHeader := RpcHeader.wireSerialize
  serialize _ := some []
  typeOf _ := [69]
  new := id
  ccEnableArenas _ := true

theorem emptyProtobuf_lawful : LawfulProtobuf emptyProtobuf where
  header := (wireEnv_lawful 1).header
  message _ _ bytes _ h := by
    cases h
    rfl
  typeOf_parse _ _ := rfl
  typeOf_new _ := rfl

def emptyMethod : MethodDescriptor := RpcCore.sampleMethod [97] [69] [69]

def emptyService : Service Unit := ⟨1, emptyMethod.service, fun _ => (), fun _ => ()⟩

/-- Every process offers the service. The one at the first address has this many cores. -/
def emptyDeployment (clientCores : ℕ) : Deployment Unit where
  protobuf := emptyProtobuf
  workerNum a := if a = ⟨1, 1⟩ then clientCores else 1
  defaultRpcTimeout _ := 5
  services _ := [emptyService]

theorem emptyService_types {md : MethodDescriptor} (h : md.service = emptyMethod.service) :
    md.inputType = [69] ∧ md.outputType = [69] := by
  have hmem : md.proto ∈ emptyMethod.service.methods := h ▸ List.get_mem _ _
  have hproto : md.proto = ⟨[112], [69], [69]⟩ := List.mem_singleton.mp hmem
  exact ⟨congrArg MethodProto.inputType hproto, congrArg MethodProto.outputType hproto⟩

theorem emptyDeployment_typed (clientCores : ℕ) :
    ∀ a, ∀ svc ∈ (emptyDeployment clientCores).services a, svc.Typed emptyProtobuf := by
  intro a svc hsvc
  obtain rfl := List.mem_singleton.mp hsvc
  exact ⟨fun md hmd => (emptyService_types hmd).1.symm,
    fun md hmd => (emptyService_types hmd).2.symm⟩

theorem emptyDeployment_agrees (clientCores : ℕ) :
    (emptyDeployment clientCores).Agrees emptyMethod := by
  intro a svc hsvc _ method hfind
  obtain rfl := List.mem_singleton.mp hsvc
  exact emptyService_types (ServiceDescriptor.findMethodByName_some hfind).1

def emptyBoot (_ : Addr) : Process.Boot Unit := { Process.sampleBoot with mem := fun _ => () }

theorem emptyBoot_started (clientCores : ℕ) (a : Addr) :
    Process.Started (envAt (emptyDeployment clientCores) a) (emptyBoot a) Process.sampleManager :=
  Process.sampleManager_started _

/-- A test for `ProperUse`: only `emptyMethod` is called. -/
def emptyCheck (_ : Network Unit) : NetworkAction Unit → Bool
  | .act _ (.callInWorker _ method ..) => decide (method = emptyMethod)
  | .act _ (.callOutside ..) => false
  | _ => true

theorem properUse_of_emptyCheck (clientCores : ℕ) (N : Network Unit) (α : NetworkAction Unit)
    (h : emptyCheck N α = true) : ProperUse (emptyDeployment clientCores) emptyBoot N α := by
  refine ⟨?_, fun _ _ _ _ _ _ _ _ _ _ => rfl⟩
  rintro a action rfl
  cases action with
  | callInWorker =>
    obtain rfl := of_decide_eq_true h
    exact ⟨rfl, rfl, emptyDeployment_agrees clientCores⟩
  | callOutside => cases h
  | _ => trivial

/-- The call of worker `c` of the client to the server at `b`. -/
def emptyCall (c : ℕ) (request response : MsgRef) (done : Closure) (b : Addr) :
    NetworkAction Unit :=
  .act ⟨1, 1⟩ (.callInWorker c emptyMethod request response done (some fun _ _ _ => (true, [b])))

/-- A response to the first worker of the client completes the call 10 of its first core. -/
def completesEmpty (N N' : Network Unit) : Bool :=
  decide (((N ⟨1, 1⟩).cores 0).st.mgr.drawn < 2 ^ kRpcIdSeqPartBits ∧
    ((N' ⟨1, 1⟩).cores 0).log =
      .done (some 10) .kSuccess (.response 0) :: ((N ⟨1, 1⟩).cores 0).log)

/-- With more than `2 ^ 16` cores two of them draw the same ids, and a call to one server is
completed by the response of another to the call of the other core. -/
theorem answered_elsewhere : ∃ N N',
    LawfulProtobuf (emptyDeployment 65537).protobuf ∧
      (∀ a, ∀ svc ∈ (emptyDeployment 65537).services a, svc.Typed emptyProtobuf) ∧
      (∀ a, Process.Started (envAt (emptyDeployment 65537) a) (emptyBoot a)
        Process.sampleManager) ∧
      Reaches (step (emptyDeployment 65537)) (ProperUse (emptyDeployment 65537) emptyBoot)
        (start emptyBoot fun _ => Process.sampleManager) N ∧
      ProperUse (emptyDeployment 65537) emptyBoot N (.deliver ⟨3, 1⟩ ⟨1, 1⟩ 0 0 true) ∧
      step (emptyDeployment 65537) N (.deliver ⟨3, 1⟩ ⟨1, 1⟩ 0 0 true) = some N' ∧
      (∀ c ∈ [0, 65536], ((N' ⟨1, 1⟩).cores c).st.mgr.drawn = 1) ∧
      ((N' ⟨1, 1⟩).cores 0).log =
        .done (some 10) .kSuccess (.response 0) :: ((N ⟨1, 1⟩).cores 0).log ∧
      ¬ ∃ σ ∈ ((N ⟨1, 1⟩).cores 0).sessions, σ.done = 10 ∧
        AnsweredBy N σ (((N ⟨1, 1⟩).cores 0).st.mem σ.request) .kSuccess
          (((N' ⟨1, 1⟩).cores 0).st.mem σ.response) := by
  obtain ⟨N, hN, hcheck⟩ := exists_reachesIf_of_run (step (emptyDeployment 65537))
    (start emptyBoot fun _ => Process.sampleManager)
    [emptyCall 0 0 1 10 ⟨2, 1⟩, .act ⟨1, 1⟩ (.core 0 .ret), emptyCall 65536 2 3 11 ⟨3, 1⟩,
      .deliver ⟨1, 1⟩ ⟨3, 1⟩ 0 0 true, .act ⟨3, 1⟩ (.handlerDone 0 .kSuccess ())]
    emptyCheck
    (fun N => (step (emptyDeployment 65537) N (.deliver ⟨3, 1⟩ ⟨1, 1⟩ 0 0 true)).map
        (fun N' => decide (completesEmpty N N' ∧
          ∀ c ∈ ([0, 65536] : List ℕ), ((N' ⟨1, 1⟩).cores c).st.mgr.drawn = 1)) = some true ∧
      ∀ σ ∈ ((N ⟨1, 1⟩).cores 0).sessions, ∀ b ∈ σ.endpoints, (N b).completions.isEmpty)
    (properUse_of_emptyCheck 65537) (by decide +kernel)
  obtain ⟨hlast, hnone⟩ := of_decide_eq_true hcheck
  obtain ⟨N', hstep, hN'⟩ := Option.map_eq_some_iff.mp hlast
  obtain ⟨hcompletes, hdrawn⟩ := of_decide_eq_true hN'
  refine ⟨N, N', emptyProtobuf_lawful, emptyDeployment_typed 65537, emptyBoot_started 65537, hN,
    properUse_of_emptyCheck 65537 _ _ rfl, hstep, hdrawn, (of_decide_eq_true hcompletes).2, ?_⟩
  rintro ⟨σ, hσ, -, b, hb, inv, -, hmem, -⟩
  rw [List.isEmpty_iff.mp (hnone σ hσ b hb)] at hmem
  exact List.not_mem_nil hmem

end Network

end HyperRpc
