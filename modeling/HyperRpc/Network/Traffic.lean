import HyperRpc.Network.Requests
import HyperRpc.Process.Calls
import HyperRpc.Session.Retries

/-!
# How much goes over the wire

Every packet that a process gives to the transport is the request of one call-out of one core or
the response of one completed handler, and its id tells which (`packets_accounted`). A core sends
no more requests for a call than the call has endpoints, and a delivered request invokes at most
two handlers. So a process sends at most two packets for each one from outside, apart from those
for its own calls (`traffic_bounded`).
-/
namespace HyperRpc

open Lib

variable {Msg : Type} {env : RpcEnv Msg} {services : List (Service Msg)}

/-- The address and the id of a packet. -/
def Datagram.label (g : Datagram) : Addr × UInt64 := (g.addr, g.ctx)

/-- The address and the id of the packet that a call-out sends. -/
def Callback.label? : Callback → Option (Addr × UInt64)
  | .onSendRequest _ _ rpcId addr _ => some (addr, rpcId)
  | .done .. => none

/-- If the callback sends a request, then for one of the sessions. -/
def Callback.SentIn (sessions : List Session) (cb : Callback) : Prop :=
  ∀ x, cb.sendId = some x → ∃ σ ∈ sessions, cb.owner = some σ.done ∧ σ.rpcId = x

namespace Machine

variable {env : SessionEnv Msg} {m m' : Machine Msg} {a : Action Msg}

/-- The packets that the call-outs have sent, the last one first. -/
def requests (m : Machine Msg) : List (Addr × UInt64) := m.log.filterMap Callback.label?

theorem requests_of_log_cons {cb : Callback} (hlog : m'.log = cb :: m.log) :
    m'.requests = cb.label?.toList ++ m.requests := by
  rw [requests, hlog, requests]
  cases cb <;> rfl

/-- What a step adds to the log has started in it. -/
theorem Kind.log_started (h : m.Kind env a m') :
    m'.log = m.log ∨ ∃ cb ∈ m'.stack, m'.log = cb :: m.log := by
  cases h with
  | quiet _ _ hlog => exact .inl hlog
  | refuse _ _ _ _ _ hstack hlog => exact .inr ⟨_, hstack ▸ List.mem_cons_self, hlog⟩
  | accept => exact .inr ⟨_, List.mem_cons_self, rfl⟩
  | retry _ _ _ _ hstack hlog => exact .inr ⟨_, hstack ▸ List.mem_cons_self, hlog⟩
  | finish _ _ _ _ _ hstack hlog => exact .inr ⟨_, hstack ▸ List.mem_cons_self, hlog⟩
  | loose _ _ _ hlog => exact .inl hlog
  | close => exact .inl rfl

/-- Every request was sent for an accepted session, under its id. -/
def SendsKnown (m : Machine Msg) : Prop := ∀ cb ∈ m.log, cb.SentIn m.sessions

theorem SendsKnown.step (hS : m.SendsKnown) (hC : m'.Consistent) (h : m.Kind env a m') :
    m'.SendsKnown := by
  have hbefore : ∀ cb ∈ m.log, cb.SentIn m'.sessions := fun cb hcb x hx => by
    obtain ⟨σ, hσ, howner, hid⟩ := hS cb hcb x hx
    exact ⟨σ, h.mem_sessions hσ, howner, hid⟩
  intro cb hcb
  rcases h.log_started with hlog | ⟨new, hnew, hlog⟩
  · exact hbefore cb (hlog ▸ hcb)
  · rcases List.mem_cons.mp (hlog ▸ hcb) with rfl | hcb
    · exact hC.stack.sends cb hnew
    · exact hbefore cb hcb

variable {mgr : SessionManager} {size core : UInt64} {rand : UInt32} {memory : ℕ → SessionNode}
  {now : ℕ} {mem : MsgRef → Msg}

theorem sendsKnown (hinit : SessionManager.init size core rand memory = some mgr)
    (h : Reachable env mgr now mem m) : m.SendsKnown := by
  induction h with
  | refl => simp [SendsKnown, start]
  | @tail t u a hbefore _ hstep ih =>
    have hwf : t.WellFormed env mgr := ReachableIf.wellFormed hinit hbefore
    exact ih.step (hwf.step hstep).consistent (step_trans hstep).kind

/-- The requests are no more than those for each of the sessions together. -/
theorem length_filterMap_label?_le {sessions : List Session} {log : List Callback}
    (hlog : ∀ cb ∈ log, cb.SentIn sessions) : (log.filterMap Callback.label?).length ≤
      (sessions.map fun σ => log.countP (Callback.isSend σ.done)).sum := by
  induction log with
  | nil => simp
  | cons cb log ih =>
    have hrest := ih fun cb hcb => hlog cb (List.mem_cons_of_mem _ hcb)
    simp only [List.countP_cons, List.sum_map_add]
    cases cb with
    | done => exact Nat.le_add_right_of_le hrest
    | onSendRequest method request rpcId addr owner =>
      obtain ⟨σ, hσ, howner, -⟩ := hlog _ List.mem_cons_self rpcId rfl
      have hsend : Callback.isSend σ.done (.onSendRequest method request rpcId addr owner) =
          true := decide_eq_true howner
      have hone := List.single_le_sum
        (l := sessions.map fun σ => if Callback.isSend σ.done
          (.onSendRequest method request rpcId addr owner) then 1 else 0)
        (fun _ _ => Nat.zero_le _) _ (List.mem_map_of_mem hσ)
      rw [if_pos hsend] at hone
      simp only [List.filterMap_cons, Callback.label?, List.length_cons]
      omega

/-- A core sends no more requests than its calls have endpoints. -/
theorem length_requests_le (hinit : SessionManager.init size core rand memory = some mgr)
    (h : Reachable env mgr now mem m) (hshort : ∀ σ ∈ m.sessions, σ.endpoints.length < 65536) :
    m.requests.length ≤ (m.sessions.map fun σ => σ.endpoints.length).sum := by
  refine (length_filterMap_label?_le (sendsKnown hinit h)).trans (List.sum_le_sum fun σ hσ => ?_)
  obtain ⟨k, hk⟩ := exists_failing h σ.done
  exact ((hk.retrying hinit).retries.attempted σ hσ rfl).bound (hshort σ hσ)

end Machine

namespace Process

variable {p p' : Process Msg} {c : ℕ}

/-- The packets with such a label among those that the cores have sent. -/
def requestCount (env : RpcEnv Msg) (p : Process Msg) (q : Addr × UInt64 → Bool) : ℕ :=
  ∑ c ∈ Finset.range env.workerNum, (p.cores c).requests.countP q

/-- The packets with such a label among the responses, which have no id. -/
def responseCount (p : Process Msg) (q : Addr × UInt64 → Bool) : ℕ :=
  p.completions.countP fun x => q (x.1.ctx.addr, 0)

def outCount (p : Process Msg) (q : Addr × UInt64 → Bool) : ℕ :=
  p.outbox.countP fun g => q g.label

/-- What a core sends in a step is a request of its own. -/
theorem CoreStep.counts {act : Action Msg} (h : p.CoreStep env c act p') (hc : c < env.workerNum)
    (hsent : ∀ method request rpcId addr owner,
      (p'.cores c).log = .onSendRequest method request rpcId addr owner :: (p.cores c).log →
        ∃ buf, p'.outbox = ⟨buf, addr, rpcId⟩ :: p.outbox) (q : Addr × UInt64 → Bool) :
    ∃ k, p'.outCount q = p.outCount q + k ∧ p'.requestCount env q = p.requestCount env q + k := by
  have hrequests : ∀ k, (p'.cores c).requests.countP q = (p.cores c).requests.countP q + k →
      p'.requestCount env q = p.requestCount env q + k := fun k hk =>
    sum_of_one hc hk fun d hd => by rw [h.others d hd]; rfl
  have hquiet : p'.outbox = p.outbox → (p'.cores c).requests = (p.cores c).requests →
      ∃ k, p'.outCount q = p.outCount q + k ∧
        p'.requestCount env q = p.requestCount env q + k := fun hout hreqs =>
    ⟨0, by rw [outCount, hout]; rfl, hrequests 0 (by rw [hreqs]; rfl)⟩
  have hnothing : (∀ method request rpcId addr owner,
      (p'.cores c).log ≠ .onSendRequest method request rpcId addr owner :: (p.cores c).log) →
      p'.outbox = p.outbox := fun hno => by
    cases h.sends with
    | nothing hout => exact hout
    | request hlog => exact absurd hlog (hno _ _ _ _ _)
  rcases (Machine.step_trans h.machine).kind.log_cases with hlog | ⟨cb, hlog⟩
  · refine hquiet (hnothing fun _ _ _ _ _ hcons => ?_) (by rw [Machine.requests, hlog]; rfl)
    simp [hlog] at hcons
  · have hreqs := Machine.requests_of_log_cons hlog
    cases cb with
    | done => exact hquiet (hnothing fun _ _ _ _ _ hcons => by simp [hlog] at hcons) hreqs
    | onSendRequest method request rpcId addr owner =>
      obtain ⟨buf, hout⟩ := hsent _ _ _ _ _ hlog
      refine ⟨if q (addr, rpcId) then 1 else 0, ?_, hrequests _ ?_⟩
      · rw [outCount, hout, List.countP_cons]
        rfl
      · rw [hreqs]
        exact List.countP_cons

/-- What has gone out, and what has become of the handler invocations. -/
structure TrafficInv (env : RpcEnv Msg) (p : Process Msg) : Prop where
  out : ∀ q, p.outCount q = p.requestCount env q + p.responseCount q
  handled : p.invocations.Perm (p.completions.map Prod.fst ++ p.contexts)

theorem TrafficInv.of_alike (hI : p.TrafficInv env) (h : p.Alike p') : p'.TrafficInv env := by
  obtain ⟨hcores, hout, hctx, hinv, hcomp⟩ := h
  constructor
  · intro q
    rw [outCount, hout, requestCount, hcores, responseCount, hcomp]
    exact hI.out q
  · rw [hinv, hcomp, hctx]
    exact hI.handled

theorem TrafficInv.core {act : Action Msg} (hI : p.TrafficInv env) (h : p.CoreStep env c act p')
    (hc : c < env.workerNum) (hsent : ∀ method request rpcId addr owner,
      (p'.cores c).log = .onSendRequest method request rpcId addr owner :: (p.cores c).log →
        ∃ buf, p'.outbox = ⟨buf, addr, rpcId⟩ :: p.outbox) : p'.TrafficInv env := by
  constructor
  · intro q
    obtain ⟨k, hout, hreqs⟩ := h.counts hc hsent q
    rw [hout, hreqs, responseCount, h.completions, hI.out q, responseCount]
    omega
  · rw [h.invocations, h.completions, h.contexts]
    exact hI.handled

theorem TrafficInv.invoke (hI : p.TrafficInv env) (svc : Service Msg)
    (ctx : IncomingRpcContext Msg) : (p.invoke c svc ctx).TrafficInv env where
  out := hI.out
  handled := (hI.handled.cons _).trans List.perm_middle.symm

theorem TrafficInv.complete (hI : p.TrafficInv env) {k : ℕ} {inv : Invocation Msg}
    (hctx : p.contexts[k]? = some inv) (r : Result) (response : Msg) (buf : List UInt8) :
    (p.complete k inv r response buf).TrafficInv env where
  out q := by
    have hout := hI.out q
    have hone : (p.complete k inv r response buf).outCount q =
        p.outCount q + if q (inv.ctx.addr, 0) then 1 else 0 := List.countP_cons
    have hresponse : (p.complete k inv r response buf).responseCount q =
        p.responseCount q + if q (inv.ctx.addr, 0) then 1 else 0 := List.countP_cons
    have hsame : (p.complete k inv r response buf).requestCount env q = p.requestCount env q := rfl
    omega
  handled := by
    obtain ⟨hk, rfl⟩ := List.getElem?_eq_some_iff.mp hctx
    have herase := List.getElem_cons_eraseIdx_perm hk
    exact hI.handled.trans ((herase.symm.append_left _).trans List.perm_middle)

theorem TrafficInv.step {a : ProcessAction Msg} (hI : p.TrafficInv env) (hH : p.HeadersInv)
    (h : p.step env services a = some p') : p'.TrafficInv env := by
  have hsends := step_sendsOut hH h
  -- the core that moves sends what the whole step sends
  have hsent : ∀ {p₀ p₁ : Process Msg} {c}, p.Alike p₀ → p₁.Alike p' →
      ∀ method request rpcId addr owner,
        (p₁.cores c).log = .onSendRequest method request rpcId addr owner :: (p₀.cores c).log →
          ∃ buf, p₁.outbox = ⟨buf, addr, rpcId⟩ :: p₀.outbox :=
    fun hbefore hafter method request rpcId addr owner hlog => by
      rw [hbefore.cores, ← hafter.cores] at hlog
      obtain ⟨buf, -, hout⟩ := hsends.sent _ _ _ _ _ _ hlog
      exact ⟨buf, by rw [← hafter.outbox, hout, hbefore.outbox]⟩
  cases (step_trans h).effect with
  | idle h => exact hI.of_alike h
  | core hc hbefore h hafter =>
    exact ((hI.of_alike hbefore).core h hc (hsent hbefore hafter)).of_alike hafter
  | respond hc _ _ hbefore h hafter =>
    exact ((hI.of_alike hbefore).core h hc (hsent hbefore hafter)).of_alike hafter
  | invoke _ _ hbefore hafter => exact ((hI.of_alike hbefore).invoke _ _).of_alike hafter
  | complete hctx _ _ hafter => exact (hI.complete hctx _ _ _).of_alike hafter
  | @write ref msg _ _ hafter =>
    have hwrote : (p.wrote ref msg).TrafficInv env := ⟨hI.out, hI.handled⟩
    exact hwrote.of_alike hafter

variable {boot : Boot Msg} {mgr : ℕ → SessionManager} {as : List (ProcessAction Msg)}

theorem trafficInv_start : (start boot mgr).TrafficInv env where
  out q := by simp [outCount, requestCount, responseCount, start, Machine.requests, Machine.start]
  handled := .refl _

theorem trafficInv (hreach : Reaches (step env services) (fun _ _ => True) (start boot mgr) p) :
    p.TrafficInv env := by
  have hboth : p.TrafficInv env ∧ p.HeadersInv := by
    induction hreach with
    | refl => exact ⟨trafficInv_start, fun _ => rfl⟩
    | tail _ _ hstep ih => exact ⟨ih.1.step ih.2 hstep, (step_sendsOut ih.2 hstep).headers⟩
  exact hboth.1

open scoped Classical in
/-- What has gone over the wire in a run, to the last packet. -/
structure Accounted (env : RpcEnv Msg) (services : List (Service Msg))
    (as : List (ProcessAction Msg)) (p : Process Msg) : Prop where
  /-- Requests and responses are all that has gone out. -/
  out : ∀ q, p.outCount q = p.requestCount env q + p.responseCount q
  /-- A request has an id of the core that has sent it, a response has none. -/
  owned : ∀ c < env.workerNum, ∀ label ∈ (p.cores c).requests,
    RpcCore.getCoreIdFromRpcId env label.2 = some c
  handled : p.invocations.Perm (p.completions.map Prod.fst ++ p.contexts)
  received : p.invocations.length + p.tasks.countP (fun t => t.IsRequest env services) =
    as.countP (fun a => a.DeliversRequest env services) +
      as.countP fun a => a.Reposts env services

theorem reachable_of_run (hrun : run (step env services) (start boot mgr) as = some p) :
    Reaches (step env services) (fun _ _ => True) (start boot mgr) p :=
  reaches_of_run (fun _ _ _ => trivial) hrun

theorem reachable_core_of_run (hrun : run (step env services) (start boot mgr) as = some p)
    (c : ℕ) : Machine.Reachable env.toSessionEnv (mgr c) boot.now boot.mem (p.cores c) :=
  reachable_core (fun _ _ _ _ _ _ => trivial) (reachable_of_run hrun) c

theorem owned_of_run (hstarted : Started env boot mgr) (hW : env.workerNum < 2 ^ 16)
    (hrun : run (step env services) (start boot mgr) as = some p) (hc : c < env.workerNum)
    {label : Addr × UInt64} (hlabel : label ∈ (p.cores c).requests) :
    RpcCore.getCoreIdFromRpcId env label.2 = some c := by
  obtain ⟨cb, hcb, hsome⟩ := List.mem_filterMap.mp hlabel
  cases cb with
  | done => cases hsome
  | onSendRequest method request rpcId addr owner =>
    cases hsome
    obtain ⟨σ, hσ, -, hid⟩ := Machine.sendsKnown (hstarted c hc) (reachable_core_of_run hrun c) _
      hcb rpcId rfl
    have hring := (wellFormed_core hstarted (reachable_of_run hrun) hc).ids.rpcId σ hσ
    have hcore : (UInt64.ofNat c).toNat = c := by
      rw [UInt64.toNat_ofNat']
      exact Nat.mod_eq_of_lt (by omega)
    refine RpcCore.getCoreIdFromRpcId_eq_some.mpr ⟨?_, hc⟩
    rw [← hid, hring, ringAt_div, SessionManager.init_nextRpcId_div (hstarted c hc), hcore,
      Nat.mod_eq_of_lt (by omega)]

open scoped Classical in
theorem handlings_of_run (hrun : run (step env services) (start boot mgr) as = some p) :
    p.handlings env services = as.countP (fun a => a.DeliversRequest env services) +
      as.countP fun a => a.Reposts env services := by
  have hcount := run_weight (I := fun _ => True) (f := handlings env services)
    (fun _ _ => trivial) (fun _ hstep => (step_trans hstep).handlings) trivial hrun
  have hzero : (start boot mgr).handlings env services = 0 := rfl
  rw [sum_weight, hzero, Nat.zero_add] at hcount
  exact hcount

open scoped Classical in
theorem countP_reposts_le (env : RpcEnv Msg) (services : List (Service Msg))
    (as : List (ProcessAction Msg)) : as.countP (fun a => a.Reposts env services) ≤
      as.countP fun a => a.DeliversRequest env services := by
  refine List.countP_mono_left fun a _ ha => ?_
  cases a with
  | recvPacket => exact decide_eq_true (of_decide_eq_true ha).1
  | _ => exact absurd (of_decide_eq_true ha) id

/-- In every run, the packets given to the transport are the requests of the call-outs and the
responses of the completed handlers, each once; every invoked handler has completed or has its
context; and as many have been invoked as requests have been delivered and redirected. -/
theorem packets_accounted (hstarted : Started env boot mgr) (hW : env.workerNum < 2 ^ 16)
    (hrun : run (step env services) (start boot mgr) as = some p) :
    p.Accounted env services as where
  out := (trafficInv (reachable_of_run hrun)).out
  owned _ hc _ hlabel := owned_of_run hstarted hW hrun hc hlabel
  handled := (trafficInv (reachable_of_run hrun)).handled
  received := handlings_of_run hrun

/-- A call is tried at two endpoints, and the second worker receives a request, which both
handle. -/
def sampleTraffic : List (ProcessAction ValueMessage) :=
  [.callInWorker 0 (RpcCore.sampleMethod [97] [73] [79]) 0 1 10
      (some fun _ _ _ => (true, [⟨2, 1⟩, ⟨3, 1⟩])),
    .core 0 .ret, .sentResult 0 false 0x1000000000001 true, .core 0 .ret,
    .recvPacket 1 RpcCore.sampleRequest ⟨1, 1⟩ true, .runTask 0 none,
    .handlerDone 0 .kSuccess ⟨[79], some [2]⟩, .handlerDone 0 .kSuccess ⟨[79], some [2]⟩]

theorem packets_accounted_sample : ∃ p,
    run (step (wireEnv 2) [RpcCore.sampleService 1 [97] [73] [79]])
      (start sampleBoot sampleManager) sampleTraffic = some p ∧
    p.outbox.map Datagram.label =
      [(⟨1, 1⟩, 0), (⟨1, 1⟩, 0), (⟨3, 1⟩, 0x1000000000001), (⟨2, 1⟩, 0x1000000000001)] ∧
    p.Accounted (wireEnv 2) [RpcCore.sampleService 1 [97] [73] [79]] sampleTraffic := by
  obtain ⟨p, hrun, hout⟩ := Option.map_eq_some_iff.mp
    (show (run (step (wireEnv 2) [RpcCore.sampleService 1 [97] [73] [79]])
      (start sampleBoot sampleManager) sampleTraffic).map (fun p => p.outbox.map Datagram.label) =
        some [(⟨1, 1⟩, 0), (⟨1, 1⟩, 0), (⟨3, 1⟩, 0x1000000000001), (⟨2, 1⟩, 0x1000000000001)] by
      decide +kernel)
  exact ⟨p, hrun, hout, packets_accounted (sampleManager_started 2) (by decide) hrun⟩

open scoped Classical in
/-- In every run, a process sends no more packets than its accepted calls have endpoints and twice
as many as requests have been delivered to it. A list of 65536 endpoints is tried without end. -/
theorem traffic_bounded (hstarted : Started env boot mgr)
    (hrun : run (step env services) (start boot mgr) as = some p)
    (hshort : ∀ c < env.workerNum, ∀ σ ∈ (p.cores c).sessions, σ.endpoints.length < 65536) :
    p.outbox.length ≤
      ∑ c ∈ Finset.range env.workerNum,
        ((p.cores c).sessions.map fun σ => σ.endpoints.length).sum +
      2 * as.countP fun a => a.DeliversRequest env services := by
  have hI := trafficInv (reachable_of_run hrun)
  have hall : p.outbox.length = p.requestCount env (fun _ => true) + p.completions.length := by
    simpa [outCount, responseCount] using hI.out fun _ => true
  have hrequests : p.requestCount env (fun _ => true) ≤
      ∑ c ∈ Finset.range env.workerNum,
        ((p.cores c).sessions.map fun σ => σ.endpoints.length).sum :=
    Finset.sum_le_sum fun c hc => by
      have hlt := Finset.mem_range.mp hc
      rw [List.countP_true]
      exact Machine.length_requests_le (hstarted c hlt) (reachable_core_of_run hrun c)
        (hshort c hlt)
  have hhandled := hI.handled.length_eq
  have hinvoked := handlings_of_run hrun
  have hreposts := countP_reposts_le env services as
  rw [handlings] at hinvoked
  rw [List.length_append, List.length_map] at hhandled
  omega

open scoped Classical in
/-- The bound is met: four packets, for two endpoints and one request. -/
theorem traffic_bounded_attained : ∃ p,
    run (step (wireEnv 2) [RpcCore.sampleService 1 [97] [73] [79]])
      (start sampleBoot sampleManager) sampleTraffic = some p ∧ p.outbox.length = 4 ∧
    p.outbox.length ≤ 2 + 2 * sampleTraffic.countP fun a =>
      a.DeliversRequest (wireEnv 2) [RpcCore.sampleService 1 [97] [73] [79]] := by
  obtain ⟨p, hrun, hp⟩ := Option.map_eq_some_iff.mp
    (show (run (step (wireEnv 2) [RpcCore.sampleService 1 [97] [73] [79]])
      (start sampleBoot sampleManager) sampleTraffic).map (fun p => (p.outbox.length,
        (List.range 2).map fun c => (p.cores c).sessions.map fun σ => σ.endpoints.length)) =
        some (4, [[2], []]) by decide +kernel)
  obtain ⟨hlength, hlists⟩ := Prod.mk.inj hp
  obtain ⟨hfirst, hsecond⟩ : ((p.cores 0).sessions.map fun σ => σ.endpoints.length) = [2] ∧
      ((p.cores 1).sessions.map fun σ => σ.endpoints.length) = [] := by
    simpa [List.range_succ] using hlists
  have hbound := traffic_bounded (sampleManager_started 2) hrun fun c hc σ hσ => by
    have hmem := List.mem_map_of_mem (f := fun σ : Session => σ.endpoints.length) hσ
    obtain rfl | rfl : c = 0 ∨ c = 1 := by
      change c < 2 at hc
      omega
    · rw [hfirst, List.mem_singleton] at hmem
      omega
    · rw [hsecond] at hmem
      exact absurd hmem List.not_mem_nil
  have hsum : ∑ c ∈ Finset.range (wireEnv 2).workerNum,
      ((p.cores c).sessions.map fun σ => σ.endpoints.length).sum = 2 := by
    rw [show (wireEnv 2).workerNum = 2 from rfl, Finset.sum_range_succ, Finset.sum_range_succ,
      Finset.sum_range_zero, hfirst, hsecond]
    rfl
  rw [hsum] at hbound
  exact ⟨p, hrun, hlength, hbound⟩

end Process

end HyperRpc
