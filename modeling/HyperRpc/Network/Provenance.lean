import HyperRpc.Core.Services
import HyperRpc.Model.Network
import HyperRpc.Process.Cores
import HyperRpc.Session.Messages

/-!
# Where packets come from

Every packet on the network is a request sent for a session or a response to a handler's
completion, and every handler was invoked for such a request. `Site` says this of one process,
relative to the packets all processes have sent so far, which only become more.
-/
namespace HyperRpc

open Lib

variable {Msg : Type} {D : Deployment Msg}

/-- Every server takes a method of this service and this name to have the same types. -/
def Deployment.Agrees (D : Deployment Msg) (method : MethodDescriptor) : Prop :=
  ∀ a, ∀ svc ∈ D.services a, svc.descriptor.name = method.service.name →
    ∀ method', svc.descriptor.findMethodByName method.name = some method' →
      method'.inputType = method.inputType ∧ method'.outputType = method.outputType

/-- A call of the method with these messages is well typed. -/
structure Deployment.TypedCall (D : Deployment Msg) (types : MsgRef → Str)
    (method : MethodDescriptor) (request response : MsgRef) : Prop where
  request : types request = method.inputType
  response : types response = method.outputType
  agrees : D.Agrees method

/-- Somebody at `addr` has sent these bytes to `a`. -/
def Arrives (sent : Addr → List Datagram) (a : Addr) (buf : List UInt8) (addr : Addr) : Prop :=
  ∃ g ∈ sent addr, g.addr = a ∧ g.buf = buf

namespace Process

variable {p p' : Process Msg} {env : RpcEnv Msg} {services : List (Service Msg)} {a : Addr}
  {sent sent' : Addr → List Datagram} {types : MsgRef → Str} {c : ℕ}

/-- The packet is a request for the session, with what the session's request message holds as
long as the session is not finished. -/
def SentFor (env : RpcEnv Msg) (m : Machine Msg) (g : Datagram) (σ : Session) : Prop :=
  g.addr ∈ σ.endpoints ∧ ∃ rpcHeader q,
    (onOutgoingRpcSend env rpcHeader σ.method q σ.rpcId).2 = some g.buf ∧
      env.typeOf q = σ.method.inputType ∧
      ∀ i, m.Unfinished i → (m.node i).done = some σ.done → m.st.mem σ.request = q

/-- The packet is a request of one of the cores or answers a completed invocation. -/
inductive Genuine (env : RpcEnv Msg) (p : Process Msg) (g : Datagram) : Prop
  | request {c σ} (hc : c < env.workerNum) (hσ : σ ∈ (p.cores c).sessions)
      (hsent : SentFor env (p.cores c) g σ)
  | response {inv r response} (hmem : (inv, r, response) ∈ p.completions)
      (haddr : g.addr = inv.ctx.addr)
      (hbuf : onIncomingRpcDone env inv.ctx r response = some g.buf)

/-- The handler was invoked for a request packet that has arrived at `a`. -/
def InvokedFor (env : RpcEnv Msg) (services : List (Service Msg)) (sent : Addr → List Datagram)
    (a : Addr) (inv : Invocation Msg) : Prop :=
  ∃ buf header body method, Arrives sent a buf inv.ctx.addr ∧
    RpcCore.Requests env (serviceMap services) buf header body inv.service method ∧
    inv.ctx = RpcCore.contextOf env header body inv.ctx.addr inv.service method

/-- What holds of the process at `a`, given all packets sent so far. -/
structure Site (D : Deployment Msg) (env : RpcEnv Msg) (services : List (Service Msg))
    (sent : Addr → List Datagram) (types : MsgRef → Str) (a : Addr) (p : Process Msg) : Prop where
  mem : ∀ c ref, env.typeOf ((p.cores c).st.mem ref) = types ref
  sessions : ∀ c < env.workerNum, ∀ σ ∈ (p.cores c).sessions,
    D.TypedCall types σ.method σ.request σ.response
  calls : ∀ c method request response done,
    Task.callMethod c method request response done ∈ p.tasks →
      D.TypedCall types method request response
  packets : ∀ c buf addr, Task.recvPacket c buf addr ∈ p.tasks → Arrives sent a buf addr
  outbox : ∀ g ∈ p.outbox, Genuine env p g
  contexts : ∀ inv ∈ p.contexts, inv ∈ p.invocations
  completions : ∀ x ∈ p.completions, x.1 ∈ p.invocations ∧
    env.typeOf x.2.2 = env.typeOf x.1.ctx.response
  invocations : ∀ inv ∈ p.invocations, InvokedFor env services sent a inv

/-- More packets have been sent. -/
theorem Site.mono (h : p.Site D env services sent types a) (hsent : ∀ b, sent b ⊆ sent' b) :
    p.Site D env services sent' types a := by
  have harrives : ∀ {buf addr}, Arrives sent a buf addr → Arrives sent' a buf addr := by
    rintro buf addr ⟨g, hg, hdst⟩
    exact ⟨g, hsent addr hg, hdst⟩
  refine ⟨h.mem, h.sessions, h.calls, fun c buf addr ht => harrives (h.packets c buf addr ht),
    h.outbox, h.contexts, h.completions, fun inv hinv => ?_⟩
  obtain ⟨buf, header, body, method, harr, hrest⟩ := h.invocations inv hinv
  exact ⟨buf, header, body, method, harrives harr, hrest⟩

/-- The request message of a call stays as it is while the call is pending. -/
def RequestsKept (p p' : Process Msg) : Prop :=
  ∀ c i d, (p.cores c).Unfinished i → (p'.cores c).Unfinished i →
    ((p.cores c).node i).done = some d → ((p'.cores c).node i).done = some d →
      (p'.cores c).st.mem ((p.cores c).node i).request =
        (p.cores c).st.mem ((p.cores c).node i).request

/-! ## The steps of the cores -/

theorem CoreStep.sessions {act : Action Msg} (h : p.CoreStep env c act p') {d : ℕ} {σ : Session}
    (hσ : σ ∈ (p'.cores d).sessions) : σ ∈ (p.cores d).sessions ∨
      d = c ∧ act = .addSession σ.method σ.request σ.response σ.endpoints σ.done := by
  by_cases hd : d = c
  · subst hd
    exact ((Machine.step_trans h.machine).kind.sessions_cases hσ).imp_right fun heq => ⟨rfl, heq⟩
  · rw [h.others d hd] at hσ
    exact Or.inl hσ

theorem CoreStep.typeOf_mem (hlaw : LawfulProtobuf env) {act : Action Msg}
    (h : p.CoreStep env c act p') (hact : ∀ mem, act ≠ .write mem)
    (hmem : ∀ d ref, env.typeOf ((p.cores d).st.mem ref) = types ref) (d : ℕ) (ref : MsgRef) :
    env.typeOf ((p'.cores d).st.mem ref) = types ref := by
  have hself : env.typeOf ((p'.cores c).st.mem ref) = types ref := by
    rcases (Machine.step_trans h.machine).mem_cases with heq | ⟨i, body, -, heq⟩ | hwrite
    · rw [heq, hmem]
    · rw [heq]
      by_cases href : ref = ((p.cores c).node i).response
      · subst href
        simp only [Machine.parseInto, Function.update_self, Machine.parsed]
        rw [hlaw.typeOf_parse, hmem]
      · simp only [Machine.parseInto, Function.update_of_ne href, hmem]
    · exact absurd hwrite (hact _)
  by_cases hd : d = c
  · exact hd ▸ hself
  · rw [h.others d hd]
    exact hself

/-- A packet of an earlier session stays what it is. -/
theorem CoreMoves.sentFor {act : ProcessAction Msg} {d : ℕ} {g : Datagram} {σ : Session}
    (hmoves : p.CoreMoves env act d (p'.cores d)) (hT : (p.cores d).TableInv)
    (hkept : RequestsKept p p') (hσ : σ ∈ (p.cores d).sessions)
    (h : SentFor env (p.cores d) g σ) : SentFor env (p'.cores d) g σ := by
  obtain ⟨act', hstep, -⟩ := hmoves
  obtain ⟨haddr, rpcHeader, q, hbuf, htype, hq⟩ := h
  refine ⟨haddr, rpcHeader, q, hbuf, htype, fun i hi hdone => ?_⟩
  have hback := (Machine.step_trans hstep).kind.unfinished_back (hT.known σ hσ) hi hdone
  obtain ⟨τ, hτ, hh⟩ := hT.held i hback.1.1
  obtain rfl := hT.distinct τ hτ σ hσ (Option.some.inj (hh.done.symm.trans hback.2))
  have hsame := hkept d i τ.done hback.1 hi hback.2 hdone
  rw [hh.request] at hsame
  rw [hsame]
  exact hq i hback.1 hback.2

/-! ## Every step keeps the provenance -/

/-- A call from user code passes messages of the right types. -/
def TypedCalls (D : Deployment Msg) (types : MsgRef → Str) : ProcessAction Msg → Prop
  | .callInWorker _ method request response _ _ => D.TypedCall types method request response
  | .callOutside _ method request response _ _ => D.TypedCall types method request response
  | _ => True

variable {act : ProcessAction Msg}

theorem Effect.typeOf_mem (hlaw : LawfulProtobuf env) (h : p.Effect env services act p')
    (hmem : ∀ d ref, env.typeOf ((p.cores d).st.mem ref) = types ref) (d : ℕ) (ref : MsgRef) :
    env.typeOf ((p'.cores d).st.mem ref) = types ref := by
  cases h with
  | idle h => exact h.cores ▸ hmem d ref
  | core _ hbefore h hafter hact =>
    rw [hafter.cores]
    exact h.typeOf_mem hlaw (ne_write hact) (fun d ref => hbefore.cores ▸ hmem d ref) d ref
  | respond _ _ _ hbefore h hafter =>
    rw [hafter.cores]
    exact h.typeOf_mem hlaw (fun _ => nofun) (fun d ref => hbefore.cores ▸ hmem d ref) d ref
  | invoke _ _ hbefore hafter => exact hafter.cores.trans hbefore.cores ▸ hmem d ref
  | complete _ _ _ hafter => exact hafter.cores ▸ hmem d ref
  | @write ref' msg _ htype hafter =>
    rw [hafter.cores]
    show env.typeOf (Function.update (p.cores d).st.mem ref' msg ref) = _
    by_cases href : ref = ref'
    · rw [href, Function.update_self, htype, hmem]
    · rw [Function.update_of_ne href, hmem]

theorem Effect.sessions (h : p.Effect env services act p') (hS : p.Site D env services sent types a)
    (hcalls : TypedCalls D types act) {d : ℕ} (hd : d < env.workerNum) {σ : Session}
    (hσ : σ ∈ (p'.cores d).sessions) : D.TypedCall types σ.method σ.request σ.response := by
  have hold : p'.cores = p.cores → D.TypedCall types σ.method σ.request σ.response := fun heq =>
    hS.sessions d hd σ (heq ▸ hσ)
  cases h with
  | idle h => exact hold h.cores
  | core _ hbefore h hafter hact =>
    rw [hafter.cores] at hσ
    rcases h.sessions hσ with hσ | ⟨rfl, rfl⟩
    · exact hS.sessions d hd σ (hbefore.cores ▸ hσ)
    · rcases addSession_from hact with ⟨_, rfl⟩ | htask
      · exact hcalls
      · exact hS.calls _ _ _ _ _ htask
  | respond _ _ _ hbefore h hafter =>
    rw [hafter.cores] at hσ
    rcases h.sessions hσ with hσ | ⟨-, hact⟩
    · exact hS.sessions d hd σ (hbefore.cores ▸ hσ)
    · cases hact
  | invoke _ _ hbefore hafter => exact hold (hafter.cores.trans hbefore.cores)
  | complete _ _ _ hafter => exact hold hafter.cores
  | write _ _ hafter =>
    rw [hafter.cores] at hσ
    exact hS.sessions d hd σ hσ

/-- The handlers that are running or have completed change when one is invoked or completes. -/
theorem Effect.handlers (h : p.Effect env services act p') :
    (p'.contexts = p.contexts ∧ p'.completions = p.completions ∧ p'.invocations = p.invocations) ∨
      (∃ inv, p'.contexts = inv :: p.contexts ∧ p'.completions = p.completions ∧
        p'.invocations = inv :: p.invocations ∧ ∃ buf ret, p.Takes act buf inv.ctx.addr ∧
          RpcCore.Receives env (serviceMap services) inv.worker buf inv.ctx.addr ret
            (.invoke inv.service inv.ctx)) ∨
      ∃ k inv result response, p.contexts[k]? = some inv ∧
        env.typeOf response = env.typeOf inv.ctx.response ∧ p'.contexts = p.contexts.eraseIdx k ∧
        p'.completions = (inv, result, response) :: p.completions ∧
        p'.invocations = p.invocations := by
  cases h with
  | idle h => exact Or.inl ⟨h.contexts, h.completions, h.invocations⟩
  | core _ hbefore h hafter =>
    exact Or.inl ⟨(hafter.contexts.trans h.contexts).trans hbefore.contexts,
      (hafter.completions.trans h.completions).trans hbefore.completions,
      (hafter.invocations.trans h.invocations).trans hbefore.invocations⟩
  | respond _ _ _ hbefore h hafter =>
    exact Or.inl ⟨(hafter.contexts.trans h.contexts).trans hbefore.contexts,
      (hafter.completions.trans h.completions).trans hbefore.completions,
      (hafter.invocations.trans h.invocations).trans hbefore.invocations⟩
  | @invoke c buf addr ret service ctx p₀ htakes hrecv hbefore hafter =>
    obtain rfl : ctx.addr = addr := by
      obtain ⟨_, _, _, -, rfl⟩ := hrecv.of_invoke
      rfl
    exact Or.inr (Or.inl ⟨⟨c, service, ctx⟩, hbefore.contexts ▸ hafter.contexts,
      hbefore.completions ▸ hafter.completions, hbefore.invocations ▸ hafter.invocations,
      buf, ret, htakes, hrecv⟩)
  | @complete k inv result response buf hctx htype _ hafter =>
    exact Or.inr (Or.inr ⟨k, inv, result, response, hctx, htype, hafter.contexts,
      hafter.completions, hafter.invocations⟩)
  | write _ _ hafter => exact Or.inl ⟨hafter.contexts, hafter.completions, hafter.invocations⟩

theorem Effect.completions_subset (h : p.Effect env services act p') :
    p.completions ⊆ p'.completions := by
  rcases h.handlers with ⟨-, heq, -⟩ | ⟨_, -, heq, -⟩ | ⟨_, _, _, _, -, -, -, heq, -⟩
  · exact heq ▸ List.Subset.refl _
  · exact heq ▸ List.Subset.refl _
  · exact heq ▸ List.subset_cons_self _ _

/-- A genuine packet stays genuine. -/
theorem Trans.genuine (h : p.Trans env services act p')
    (hT : ∀ d < env.workerNum, (p.cores d).TableInv) (hkept : RequestsKept p p') {g : Datagram}
    (hg : Genuine env p g) : Genuine env p' g := by
  cases hg with
  | @request c σ hc hσ hsent =>
    have hmoves := h.coreMoves c
    refine .request hc ?_ (hmoves.sentFor (hT c hc) hkept hσ hsent)
    obtain ⟨_, hstep, -⟩ := hmoves
    exact (Machine.step_trans hstep).kind.mem_sessions hσ
  | response hmem haddr hbuf =>
    exact .response (h.effect.completions_subset hmem) haddr hbuf

/-- What a core sends in a step is a request for one of its sessions. -/
theorem Effect.outbox (h : p.Effect env services act p')
    (hT : ∀ d < env.workerNum, (p.cores d).TableInv)
    (hmem : ∀ d ref, env.typeOf ((p'.cores d).st.mem ref) = types ref)
    (hsessions : ∀ d < env.workerNum, ∀ σ ∈ (p'.cores d).sessions,
      D.TypedCall types σ.method σ.request σ.response) {g : Datagram} (hg : g ∈ p'.outbox) :
    g ∈ p.outbox ∨ Genuine env p' g := by
  have hcore : ∀ {c : ℕ} {a' : Action Msg} {p₀ p₁ : Process Msg}, c < env.workerNum → p.Alike p₀ →
      p₀.CoreStep env c a' p₁ → p₁.Alike p' → g ∈ p.outbox ∨ Genuine env p' g := by
    intro c a' p₀ p₁ hc hbefore h hafter
    rw [hafter.outbox] at hg
    cases h.sends with
    | nothing hout => exact Or.inl (by rwa [hout, hbefore.outbox] at hg)
    | @request method request rpcId addr owner rpcHeader buf hlog hbuf hout =>
      rw [hout, hbefore.outbox] at hg
      refine (List.mem_cons.mp hg).symm.imp_right ?_
      rintro rfl
      obtain ⟨σ, hσ, rfl, rfl, rfl, haddr⟩ := (Machine.step_trans h.machine).sent
        (hbefore.cores ▸ hT c hc) hlog
      rw [← hafter.cores] at hσ hbuf
      exact .request hc hσ ⟨haddr, rpcHeader, _, hbuf,
        (hmem c _).trans (hsessions c hc σ hσ).request, fun _ _ _ => rfl⟩
  cases h with
  | idle h => exact Or.inl (h.outbox ▸ hg)
  | core hc hbefore h hafter => exact hcore hc hbefore h hafter
  | respond hc _ _ hbefore h hafter => exact hcore hc hbefore h hafter
  | invoke _ _ hbefore hafter => exact Or.inl (hbefore.outbox ▸ hafter.outbox ▸ hg)
  | complete hctx htype hbuf hafter =>
    rw [hafter.outbox] at hg
    refine (List.mem_cons.mp hg).symm.imp_right ?_
    rintro rfl
    exact .response (hafter.completions ▸ List.mem_cons_self) rfl hbuf
  | write _ _ hafter => exact Or.inl (hafter.outbox ▸ hg)

theorem CoreStep.outbox_subset {act : Action Msg} (h : p.CoreStep env c act p') :
    p.outbox ⊆ p'.outbox := by
  cases h.sends with
  | nothing hout => exact hout ▸ List.Subset.refl _
  | request _ _ hout => exact hout ▸ List.subset_cons_self _ _

theorem Effect.outbox_subset (h : p.Effect env services act p') : p.outbox ⊆ p'.outbox := by
  cases h with
  | idle h => exact h.outbox ▸ List.Subset.refl _
  | core _ hbefore h hafter => exact hafter.outbox ▸ hbefore.outbox ▸ h.outbox_subset
  | respond _ _ _ hbefore h hafter => exact hafter.outbox ▸ hbefore.outbox ▸ h.outbox_subset
  | invoke _ _ hbefore hafter => exact hbefore.outbox ▸ hafter.outbox ▸ List.Subset.refl _
  | complete _ _ _ hafter => exact hafter.outbox ▸ List.subset_cons_self _ _
  | write _ _ hafter => exact hafter.outbox ▸ List.Subset.refl _

/-- What a step adds to a process comes from where it should, if the packets it takes do. -/
theorem Site.step (hlaw : LawfulProtobuf env) (hS : p.Site D env services sent types a)
    (h : p.Trans env services act p') (hT : ∀ d < env.workerNum, (p.cores d).TableInv)
    (hcalls : TypedCalls D types act) (hkept : RequestsKept p p')
    (harrives : ∀ c buf addr posted, act = .recvPacket c buf addr posted →
      Arrives sent a buf addr) : p'.Site D env services sent types a := by
  have heffect := h.effect
  have hmem : ∀ d ref, env.typeOf ((p'.cores d).st.mem ref) = types ref :=
    heffect.typeOf_mem hlaw hS.mem
  have hsessions : ∀ d < env.workerNum, ∀ σ ∈ (p'.cores d).sessions,
      D.TypedCall types σ.method σ.request σ.response := fun d hd σ hσ =>
    heffect.sessions hS hcalls hd hσ
  have htakes : ∀ {buf addr}, p.Takes act buf addr → Arrives sent a buf addr := by
    rintro buf addr (⟨c, posted, hact⟩ | ⟨c, htask⟩)
    · exact harrives c buf addr posted hact
    · exact hS.packets c buf addr htask
  refine ⟨hmem, hsessions, ?_, ?_, ?_, ?_, ?_, ?_⟩
  · intro c method request response done ht
    rcases h.tasks_cases ht with ht | hposts
    · exact hS.calls c method request response done ht
    · cases hposts
      exact hcalls
  · intro c buf addr ht
    rcases h.tasks_cases ht with ht | hposts
    · exact hS.packets c buf addr ht
    · cases hposts
      exact harrives _ _ _ _ rfl
  · intro g hg
    rcases heffect.outbox hT hmem hsessions hg with hold | hnew
    · exact h.genuine hT hkept (hS.outbox g hold)
    · exact hnew
  · intro inv hinv
    rcases heffect.handlers with ⟨hc, -, hi⟩ | ⟨_, hc, -, hi, -⟩ | ⟨k, _, _, _, -, -, hc, -, hi⟩
    · exact hi ▸ hS.contexts inv (hc ▸ hinv)
    · rw [hc] at hinv
      rw [hi]
      exact List.mem_cons.mpr ((List.mem_cons.mp hinv).imp_right (hS.contexts inv))
    · rw [hc] at hinv
      exact hi ▸ hS.contexts inv (List.mem_of_mem_eraseIdx hinv)
  · intro x hx
    rcases heffect.handlers with ⟨-, hc, hi⟩ | ⟨_, -, hc, hi, -⟩ |
      ⟨k, inv, result, response, hctx, htype, -, hc, hi⟩
    · exact hi ▸ hS.completions x (hc ▸ hx)
    · obtain ⟨hmem', htype⟩ := hS.completions x (hc ▸ hx)
      exact ⟨hi ▸ List.mem_cons_of_mem _ hmem', htype⟩
    · rw [hc] at hx
      rcases List.mem_cons.mp hx with rfl | hx
      · exact ⟨hi ▸ hS.contexts inv (List.mem_of_getElem? hctx), htype⟩
      · exact hi ▸ hS.completions x hx
  · intro inv hinv
    rcases heffect.handlers with ⟨-, -, hi⟩ | ⟨inv', -, -, hi, buf, ret, htake, hrecv⟩ |
      ⟨_, _, _, _, -, -, -, -, hi⟩
    · exact hS.invocations inv (hi ▸ hinv)
    · rw [hi] at hinv
      rcases List.mem_cons.mp hinv with rfl | hinv
      · obtain ⟨header, body, method, hreqs, hctx⟩ := hrecv.of_invoke
        exact ⟨buf, header, body, method, htakes htake, hreqs, hctx⟩
      · exact hS.invocations inv hinv
    · exact hS.invocations inv (hi ▸ hinv)

/-! ## Callers that keep requests and responses apart -/

/-- Calls take their requests from these messages and their responses from others, and no other
code writes to a request. -/
def KeepsApart (isRequest : MsgRef → Prop) : ProcessAction Msg → Prop
  | .callInWorker _ _ request response _ _ => isRequest request ∧ ¬ isRequest response
  | .callOutside _ _ request response _ _ => isRequest request ∧ ¬ isRequest response
  | .write ref _ => ¬ isRequest ref
  | _ => True

/-- The calls are of this kind, and the requests hold what they have always held. -/
structure ApartInv (isRequest : MsgRef → Prop) (mem : MsgRef → Msg) (p : Process Msg) : Prop where
  cores : ∀ c, (p.cores c).Apart isRequest
  tasks : ∀ c method request response done,
    Task.callMethod c method request response done ∈ p.tasks →
      isRequest request ∧ ¬ isRequest response
  mem : ∀ c ref, isRequest ref → (p.cores c).st.mem ref = mem ref

variable {isRequest : MsgRef → Prop} {mem : MsgRef → Msg}

theorem ApartInv.requestsKept (h : p.ApartInv isRequest mem) (h' : p'.ApartInv isRequest mem) :
    RequestsKept p p' := by
  intro c i d hi _ _ _
  have href := (h.cores c i hi.1).1
  exact (h'.mem c _ href).trans (h.mem c _ href).symm

theorem CoreStep.apart {act : Action Msg} (h : p.CoreStep env c act p')
    (hA : ∀ d, (p.cores d).Apart isRequest)
    (hmem : ∀ d ref, isRequest ref → (p.cores d).st.mem ref = mem ref)
    (hwrite : ∀ mem, act ≠ .write mem)
    (hcall : ∀ method request response endpoints d,
      act = .addSession method request response endpoints d →
        isRequest request ∧ ¬ isRequest response) (d : ℕ) :
    (p'.cores d).Apart isRequest ∧ ∀ ref, isRequest ref → (p'.cores d).st.mem ref = mem ref := by
  have htrans := Machine.step_trans h.machine
  have hself : ∀ ref, isRequest ref → (p'.cores c).st.mem ref = mem ref := fun ref href =>
    (htrans.mem_request (hA c) hwrite href).trans (hmem c ref href)
  by_cases hd : d = c
  · subst hd
    exact ⟨htrans.kind.apart (hA d) hcall, hself⟩
  · rw [h.others d hd]
    exact ⟨hA d, hself⟩

theorem Effect.apart (h : p.Effect env services act p') (hI : p.ApartInv isRequest mem)
    (hact : KeepsApart isRequest act) (d : ℕ) :
    (p'.cores d).Apart isRequest ∧ ∀ ref, isRequest ref → (p'.cores d).st.mem ref = mem ref := by
  have hold : p'.cores = p.cores → (p'.cores d).Apart isRequest ∧
      ∀ ref, isRequest ref → (p'.cores d).st.mem ref = mem ref := fun heq =>
    heq ▸ ⟨hI.cores d, hI.mem d⟩
  cases h with
  | idle h => exact hold h.cores
  | core _ hbefore h hafter hfrom =>
    rw [hafter.cores]
    refine h.apart (hbefore.cores ▸ hI.cores) (hbefore.cores ▸ hI.mem) (ne_write hfrom) ?_ d
    rintro method request response endpoints done rfl
    rcases addSession_from hfrom with ⟨_, rfl⟩ | htask
    · exact hact
    · exact hI.tasks _ _ _ _ _ htask
  | respond _ _ _ hbefore h hafter =>
    rw [hafter.cores]
    exact h.apart (hbefore.cores ▸ hI.cores) (hbefore.cores ▸ hI.mem) (fun _ => nofun)
      (fun _ _ _ _ _ => nofun) d
  | invoke _ _ hbefore hafter => exact hold (hafter.cores.trans hbefore.cores)
  | complete _ _ _ hafter => exact hold hafter.cores
  | @write ref' msg hwrite _ hafter =>
    subst hwrite
    rw [hafter.cores]
    refine ⟨hI.cores d, fun ref href => ?_⟩
    have hne : ref ≠ ref' := fun h => hact (h ▸ href)
    exact (Function.update_of_ne hne _ _).trans (hI.mem d ref href)

theorem ApartInv.step (hI : p.ApartInv isRequest mem) (h : p.Trans env services act p')
    (hact : KeepsApart isRequest act) : p'.ApartInv isRequest mem where
  cores d := (h.effect.apart hI hact d).1
  tasks c method request response done ht := by
    rcases h.tasks_cases ht with ht | hposts
    · exact hI.tasks c method request response done ht
    · cases hposts
      exact hact
  mem d := (h.effect.apart hI hact d).2

end Process

end HyperRpc
