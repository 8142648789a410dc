import HyperRpc.Core.HeaderCodec
import HyperRpc.Session.Accounting
import HyperRpc.Session.Messages

/-!
# Rejected responses

A response is rejected by its id, by its names or because its body does not parse. The first two
change nothing. The body is parsed into the caller's message, though, and what a failed parse has
left there stays when the call goes on. Whatever a body that does not parse leaves, it destroys
some content of the message.
-/
namespace HyperRpc

open Lib

namespace Machine

variable {Msg : Type}

section Responses

variable (env : SessionEnv Msg) (m : Machine Msg)

/-- The response is for the session in slot `i`: its id and its names are those of the session. -/
structure RespondsTo (i : ℕ) (service method : Str) (rpcId : UInt64) : Prop where
  live : m.Live i
  rpcId : (m.node i).rpcId = rpcId
  service : (m.node i).method.service.name = service
  method : (m.node i).method.name = method

/-- The response completes a session. -/
def CompletedBy (service method : Str) (rpcId : UInt64) (respBody : List UInt8) : Prop :=
  ∃ i, m.RespondsTo i service method rpcId ∧ (m.parsed env i respBody).2 = true

/-- All that a response can change without completing a session: the response message of the
session it is for. -/
structure AltersOnlyTarget (service method : Str) (rpcId : UInt64) (m' : Machine Msg) : Prop where
  mgr : m'.st.mgr = m.st.mgr
  wheel : m'.st.wheel = m.st.wheel
  log : m'.log = m.log
  mem : ∀ ref, (∀ i, m.RespondsTo i service method rpcId → (m.node i).response ≠ ref) →
    m'.st.mem ref = m.st.mem ref

/-- The session table, the id counter, the timers and all messages are as before. -/
structure LeavesNoTrace (m' : Machine Msg) : Prop where
  mgr : m'.st.mgr = m.st.mgr
  wheel : m'.st.wheel = m.st.wheel
  mem : m'.st.mem = m.st.mem

/-- The response leaves no trace in this state, whatever the messages hold. -/
def Traceless (sameType : Msg → Msg → Prop) (service method : Str) (rpcId : UInt64)
    (rpcResult : Result) (respBody : List UInt8) : Prop :=
  ∀ mem, (∀ ref, sameType (m.st.mem ref) (mem ref)) → ∀ m',
    (m.withMem mem).step env (.onRecvResponse service method rpcId rpcResult respBody) = some m' →
      (m.withMem mem).LeavesNoTrace m'

/-- What is assumed of `ParseFromArray`: it clears its target first, so that its outcome depends
on the type of the message and the body only; and every type has more than one message. -/
structure ClearsFirst (sameType : Msg → Msg → Prop) : Prop where
  refl : ∀ msg, sameType msg msg
  cleared : ∀ old old' body, sameType old old' →
    env.parseFromArray old body = env.parseFromArray old' body
  other : ∀ old msg, ∃ old', sameType old old' ∧ old' ≠ msg

/-- The step does not touch the response message of the session, unless it is a response that
completes the session: user code does not write to it, no other session is completed into it, and
no response is rejected after its id and names have led to the message. -/
structure Spares (σ : Session) (a : Action Msg) : Prop where
  write : ∀ mem, a = .write mem → mem σ.response = m.st.mem σ.response
  others : ∀ service method rpcId rpcResult respBody i,
    a = .onRecvResponse service method rpcId rpcResult respBody →
    m.RespondsTo i service method rpcId → (m.parsed env i respBody).2 = true →
    (m.node i).response = σ.response → (m.node i).done = some σ.done
  rejected : ∀ service method rpcId rpcResult respBody,
    a = .onRecvResponse service method rpcId rpcResult respBody →
    ¬ m.CompletedBy env service method rpcId respBody →
    ∀ i, m.RespondsTo i service method rpcId → (m.node i).response ≠ σ.response

end Responses

variable {env : SessionEnv Msg} {m m' : Machine Msg}

theorem respondsTo_of_found {service method : Str} {rpcId : UInt64} {i : ℕ} (hne : rpcId ≠ 0)
    (hfind : m.st.mgr.findSessionNode rpcId = some i)
    (hnames : (m.node i).method.service.name = service ∧ (m.node i).method.name = method) :
    m.RespondsTo i service method rpcId :=
  ⟨(found hne hfind).1, (found hne hfind).2, hnames.1, hnames.2⟩

/-- The slot of a session is where its id leads. -/
theorem RespondsTo.found (hT : m.TableInv) {service method : Str} {rpcId : UInt64} {i : ℕ}
    (h : m.RespondsTo i service method rpcId) : m.st.mgr.findSessionNode rpcId = some i := by
  refine (m.st.mgr.findSessionNode_eq_some).mpr ⟨?_, h.rpcId⟩
  rw [← h.rpcId]
  exact (hT.slot i h.live).symm

/-- A rejected response is ignored or leaves the rest of a failed parse. -/
theorem Trans.rejected {service method : Str} {rpcId : UInt64} {rpcResult : Result}
    {respBody : List UInt8}
    (h : m.Trans env (.onRecvResponse service method rpcId rpcResult respBody) m')
    (hT : m.TableInv) (hrej : ¬ m.CompletedBy env service method rpcId respBody) :
    m' = m ∧ (∀ i, ¬ m.RespondsTo i service method rpcId) ∨
      ∃ i, m.RespondsTo i service method rpcId ∧ m' = m.parseInto env i respBody := by
  cases h with
  | respIgnored _ hne hbad =>
    refine Or.inl ⟨rfl, fun i hi => ?_⟩
    have hfind := hi.found hT
    rcases hbad with hnone | ⟨k, hk, hnames⟩
    · exact absurd (hnone.symm.trans hfind) (by simp)
    · obtain rfl := Option.some.inj (hk.symm.trans hfind)
      exact hnames.elim (absurd hi.service) (absurd hi.method)
  | respUnparsed _ hne hfind hnames =>
    exact Or.inr ⟨_, respondsTo_of_found hne hfind hnames, rfl⟩
  | respDone _ hne hfind hnames hparse =>
    exact absurd ⟨_, respondsTo_of_found hne hfind hnames, hparse⟩ hrej

theorem parseInto_mem (m : Machine Msg) (i : ℕ) (respBody : List UInt8) :
    (m.parseInto env i respBody).st.mem =
      Function.update m.st.mem (m.node i).response (m.parsed env i respBody).1 := rfl

theorem RespondsTo.unique (hT : m.TableInv) {service method : Str} {rpcId : UInt64} {i j : ℕ}
    (hi : m.RespondsTo i service method rpcId) (hj : m.RespondsTo j service method rpcId) :
    i = j :=
  Option.some.inj ((hi.found hT).symm.trans (hj.found hT))

theorem RespondsTo.not_completed (hT : m.TableInv) {service method : Str} {rpcId : UInt64} {i : ℕ}
    {respBody : List UInt8} (hi : m.RespondsTo i service method rpcId)
    (hfalse : (m.parsed env i respBody).2 = false) :
    ¬ m.CompletedBy env service method rpcId respBody := by
  rintro ⟨k, hk, hparse⟩
  rw [hk.unique hT hi, hfalse] at hparse
  cases hparse

theorem Trans.altersOnlyTarget {service method : Str} {rpcId : UInt64} {rpcResult : Result}
    {respBody : List UInt8}
    (h : m.Trans env (.onRecvResponse service method rpcId rpcResult respBody) m')
    (hT : m.TableInv) (hrej : ¬ m.CompletedBy env service method rpcId respBody) :
    m.AltersOnlyTarget service method rpcId m' := by
  rcases h.rejected hT hrej with ⟨rfl, -⟩ | ⟨i, hi, rfl⟩
  · exact ⟨rfl, rfl, rfl, fun _ _ => rfl⟩
  · refine ⟨rfl, rfl, rfl, fun ref href => ?_⟩
    rw [parseInto_mem, Function.update_of_ne (href i hi).symm]

/-- Without a session to respond to there is no message to alter. -/
theorem AltersOnlyTarget.leavesNoTrace {service method : Str} {rpcId : UInt64}
    (h : m.AltersOnlyTarget service method rpcId m')
    (hnone : ∀ i, ¬ m.RespondsTo i service method rpcId) : m.LeavesNoTrace m' :=
  ⟨h.mgr, h.wheel, funext fun ref => h.mem ref fun i hi => absurd hi (hnone i)⟩

/-! ## Whatever the messages hold -/

/-- What the messages hold decides neither which session a response is for nor whether it is
completed. -/
theorem completedBy_withMem {sameType : Msg → Msg → Prop} (hclears : ClearsFirst env sameType)
    {mem : MsgRef → Msg} (hsame : ∀ ref, sameType (m.st.mem ref) (mem ref)) {service method : Str}
    {rpcId : UInt64} {respBody : List UInt8}
    (h : (m.withMem mem).CompletedBy env service method rpcId respBody) :
    m.CompletedBy env service method rpcId respBody := by
  obtain ⟨i, ⟨hlive, hid, hservice, hmethod⟩, hparse⟩ := h
  refine ⟨i, ⟨hlive, hid, hservice, hmethod⟩, ?_⟩
  rw [parsed, hclears.cleared _ _ respBody (hsame (m.node i).response)]
  exact hparse

/-- A body that does not parse destroys some content of the message. -/
theorem RespondsTo.not_traceless {sameType : Msg → Msg → Prop} (hclears : ClearsFirst env sameType)
    (hT : m.TableInv) {service method : Str} {rpcId : UInt64} {i : ℕ}
    (hi : m.RespondsTo i service method rpcId) (hrep : m.mayReport rpcId) (hne : rpcId ≠ 0)
    {rpcResult : Result} {respBody : List UInt8}
    (hrej : ¬ m.CompletedBy env service method rpcId respBody) :
    ¬ m.Traceless env sameType service method rpcId rpcResult respBody := by
  intro htraceless
  obtain ⟨content, htype, hother⟩ :=
    hclears.other (m.st.mem (m.node i).response) (m.parsed env i respBody).1
  let mem := Function.update m.st.mem (m.node i).response content
  have hmem : mem (m.node i).response = content := Function.update_self _ _ _
  have hsame : ∀ ref, sameType (m.st.mem ref) (mem ref) := by
    intro ref
    by_cases href : ref = (m.node i).response
    · rwa [href, hmem]
    · rw [show mem ref = m.st.mem ref from Function.update_of_ne href _ _]
      exact hclears.refl _
  have hstep : (m.withMem mem).step env
      (.onRecvResponse service method rpcId rpcResult respBody) = some _ := if_pos ⟨hrep, hne⟩
  have hi' : (m.withMem mem).RespondsTo i service method rpcId :=
    ⟨hi.live, hi.rpcId, hi.service, hi.method⟩
  have hT' : (m.withMem mem).TableInv :=
    ⟨hT.slot, hT.held, hT.inj, hT.known, hT.distinct, hT.free⟩
  have hkept := htraceless mem hsame _ hstep
  rcases (step_trans hstep).rejected hT' fun h => hrej (completedBy_withMem hclears hsame h) with
    ⟨-, hnone⟩ | ⟨k, hk, heq⟩
  · exact hnone i hi'
  · obtain rfl := hk.unique hT' hi'
    have hleft : (m.withMem mem).parsed env k respBody = m.parsed env k respBody :=
      (hclears.cleared _ _ respBody (hsame (m.node k).response)).symm
    -- the message holds what the parse has left, not what it held before
    have hcontent := congrFun hkept.mem (m.node k).response
    rw [heq, parseInto_mem, hleft] at hcontent
    exact hother (hmem.symm.trans (hcontent.symm.trans (Function.update_self _ _ _)))

theorem traceless_iff {sameType : Msg → Msg → Prop} (hclears : ClearsFirst env sameType)
    (hT : m.TableInv) {service method : Str} {rpcId : UInt64} (hrep : m.mayReport rpcId)
    (hne : rpcId ≠ 0) {rpcResult : Result} {respBody : List UInt8}
    (hrej : ¬ m.CompletedBy env service method rpcId respBody) :
    m.Traceless env sameType service method rpcId rpcResult respBody ↔
      ∀ i, ¬ m.RespondsTo i service method rpcId := by
  refine ⟨fun h i hi => hi.not_traceless hclears hT hrep hne hrej h, fun hnone => ?_⟩
  intro mem hsame m' hstep
  have hT' : (m.withMem mem).TableInv :=
    ⟨hT.slot, hT.held, hT.inj, hT.known, hT.distinct, hT.free⟩
  have halters := (step_trans hstep).altersOnlyTarget hT' fun h =>
    hrej (completedBy_withMem hclears hsame h)
  exact halters.leavesNoTrace fun i hi => hnone i ⟨hi.live, hi.rpcId, hi.service, hi.method⟩

/-! ## Until the time-out -/

/-- The manager has completed the call by a time-out, not by a response. -/
def TimedOut (m : Machine Msg) (c : Closure) : Prop :=
  ∃ site, (∀ i, site ≠ .response i) ∧ .done (some c) .kTimeout site ∈ m.log

def Responded (m : Machine Msg) (c : Closure) : Prop :=
  ∃ r i, .done (some c) r (.response i) ∈ m.log

theorem Trans.responded {a : Action Msg} (h : m.Trans env a m') {c : Closure}
    (hc : m.Responded c) : m'.Responded c := by
  obtain ⟨r, i, hmem⟩ := hc
  rcases h.kind.log_cases with hlog | ⟨cb, hlog⟩
  · exact ⟨r, i, hlog ▸ hmem⟩
  · exact ⟨r, i, hlog ▸ List.mem_cons_of_mem cb hmem⟩

/-- A spared message keeps its content or belongs to the call that is completed. -/
theorem Trans.spares {a : Action Msg} {σ : Session} (h : m.Trans env a m') (hT : m.TableInv)
    (hspare : m.Spares env σ a) :
    m'.st.mem σ.response = m.st.mem σ.response ∨ m'.Responded σ.done := by
  have htrans := h
  cases h with
  | @respUnparsed service method rpcId _ respBody i _ hne hfind hnames hfalse =>
    have hrej := (respondsTo_of_found hne hfind hnames).not_completed hT hfalse
    exact Or.inl ((htrans.altersOnlyTarget hT hrej).mem _ (hspare.rejected _ _ _ _ _ rfl hrej))
  | @respDone _ _ _ rpcResult respBody i _ hne hfind hnames hparse =>
    have hi := respondsTo_of_found hne hfind hnames
    by_cases hresp : (m.node i).response = σ.response
    · have hown := hspare.others _ _ _ _ _ i rfl hi hparse hresp
      exact Or.inr ⟨rpcResult, i, hown ▸ List.mem_cons_self⟩
    · refine Or.inl ?_
      change (m.parseInto env i respBody).st.mem σ.response = _
      rw [parseInto_mem, Function.update_of_ne (Ne.symm hresp)]
  | write => exact Or.inl (hspare.write _ rfl)
  | @retClose _ _ site => cases hc : site.cancels <;> exact Or.inl rfl
  | _ => exact Or.inl rfl

theorem spared_of_reaches {σ : Session} (hC : m.Consistent)
    (h : Reaches (step env) (fun s a => s.Spares env σ a) m m') :
    m'.Consistent ∧ (m'.st.mem σ.response = m.st.mem σ.response ∨ m'.Responded σ.done) := by
  induction h with
  | refl => exact ⟨hC, Or.inl rfl⟩
  | tail _ hspare hstep ih =>
    obtain ⟨hC', hmem⟩ := ih
    have htrans := step_trans hstep
    refine ⟨hC'.step hstep, ?_⟩
    rcases hmem with heq | hresp
    · rw [← heq]
      exact htrans.spares hC'.table hspare
    · exact Or.inr (htrans.responded hresp)

/-- No call is completed both ways. -/
theorem Consistent.not_responded (h : m.Consistent) {c : Closure} (htimeout : m.TimedOut c) :
    ¬ m.Responded c := by
  obtain ⟨site, hsite, hmem⟩ := htimeout
  rintro ⟨r, i, hmem'⟩
  have hne : Callback.done (some c) r (.response i) ≠ .done (some c) .kTimeout site := by
    intro heq
    exact hsite i (Callback.done.inj heq).2.2.symm
  have hmem₂ := (List.mem_erase_of_ne hne).mpr hmem'
  have hperm := (List.perm_cons_erase hmem).countP_eq (Callback.isDone c)
  have hpos : 0 < (m.log.erase (.done (some c) .kTimeout site)).countP (Callback.isDone c) :=
    List.countP_pos_iff.mpr ⟨_, hmem₂, by simp [Callback.isDone]⟩
  have honce := h.ledger.once c
  rw [doneCount, hperm, List.countP_cons_of_pos (by simp [Callback.isDone])] at honce
  omega

variable {size core : UInt64} {rand : UInt32} {memory : ℕ → SessionNode} {mgr : SessionManager}
  {now : ℕ} {mem : MsgRef → Msg}

/-- A response that completes no session alters nothing but the response message of the session
it is for. It leaves no trace if there is no such session, and only then does it leave none
whatever the messages hold. A call that times out leaves its caller the response message as it
was, if no step since has touched it. -/
theorem rejected_leaves_no_trace_iff
    (hinit : SessionManager.init size core rand memory = some mgr)
    (hm : Reachable env mgr now mem m) :
    (∀ service method rpcId rpcResult respBody m',
      m.step env (.onRecvResponse service method rpcId rpcResult respBody) = some m' →
      ¬ m.CompletedBy env service method rpcId respBody →
      m.AltersOnlyTarget service method rpcId m' ∧
        ((∀ i, ¬ m.RespondsTo i service method rpcId) → m.LeavesNoTrace m') ∧
        ∀ sameType, ClearsFirst env sameType →
          (m.Traceless env sameType service method rpcId rpcResult respBody ↔
            ∀ i, ¬ m.RespondsTo i service method rpcId)) ∧
    ∀ σ m', Reaches (step env) (fun s a => s.Spares env σ a) m m' → m'.TimedOut σ.done →
      m'.st.mem σ.response = m.st.mem σ.response := by
  have hC := (ReachableIf.wellFormed hinit hm).consistent
  constructor
  · intro service method rpcId rpcResult respBody m' hstep hrej
    have halters := (step_trans hstep).altersOnlyTarget hC.table hrej
    obtain ⟨⟨hrep, hne⟩, -⟩ := Option.ite_none_right_eq_some.mp hstep
    exact ⟨halters, halters.leavesNoTrace, fun sameType hclears =>
      traceless_iff hclears hC.table hrep hne hrej⟩
  · intro σ m' hrun htimeout
    obtain ⟨hC', hmem⟩ := spared_of_reaches hC hrun
    exact hmem.resolve_right (hC'.not_responded htimeout)

/-- Call 10 waits in slot 1, and its response message holds this value. -/
def holdsCall (value : Option Str) (m : Machine ValueMessage) : Bool :=
  m.stack = [] ∧ m.st.mgr.findSessionNode 0x1000000000001 = some 1 ∧
    (m.node 1).method = pingMethod ∧ m.st.mem (m.node 1).response = ⟨[], value⟩

theorem respondsTo_of_holdsCall {m : Machine ValueMessage} {value : Option Str}
    (h : m.holdsCall value = true) : m.RespondsTo 1 [80] [112] 0x1000000000001 := by
  obtain ⟨-, hfind, hmethod, -⟩ := of_decide_eq_true h
  exact respondsTo_of_found (by decide) hfind (by rw [hmethod]; decide)

/-- Another method's name leads to no session. -/
theorem not_respondsTo_of_holdsCall {m : Machine ValueMessage} {value : Option Str}
    (hT : m.TableInv) (h : m.holdsCall value = true) (i : ℕ) :
    ¬ m.RespondsTo i [80] [113] 0x1000000000001 := by
  intro hi
  obtain ⟨-, hfind, -⟩ := of_decide_eq_true h
  obtain rfl : i = 1 := Option.some.inj ((hi.found hT).symm.trans hfind)
  exact absurd (hi.method.symm.trans (respondsTo_of_holdsCall h).method) (by decide)

theorem step_of_holdsCall {m : Machine ValueMessage} {value : Option Str}
    (h : m.holdsCall value = true) (method : Str) : ∃ m', m.step (wireEnv 1).toSessionEnv
      (.onRecvResponse [80] method 0x1000000000001 .kSuccess [255]) = some m' := by
  obtain ⟨hidle, -⟩ := of_decide_eq_true h
  exact ⟨_, if_pos ⟨by simp [mayReport, hidle], by decide⟩⟩

/-- A body that does not parse, and clears the message. -/
theorem parsed_of_holdsCall {m : Machine ValueMessage} {value : Option Str}
    (h : m.holdsCall value = true) :
    m.parsed (wireEnv 1).toSessionEnv 1 [255] = (⟨[], none⟩, false) := by
  obtain ⟨-, -, -, hmem⟩ := of_decide_eq_true h
  rw [parsed, hmem]
  rfl

theorem clearsFirst_wireEnv (workerNum : ℕ) :
    ClearsFirst (wireEnv workerNum).toSessionEnv fun old msg => old.type = msg.type where
  refl _ := rfl
  cleared old old' body h := by
    change old.wireParse body = old'.wireParse body
    rw [ValueMessage.wireParse, ValueMessage.wireParse, h]
  other old msg := by
    by_cases hmsg : msg.value? = none
    · refine ⟨⟨old.type, some []⟩, rfl, ?_⟩
      rintro rfl
      cases hmsg
    · refine ⟨⟨old.type, none⟩, rfl, ?_⟩
      rintro rfl
      exact hmsg rfl

theorem spares_of_calm {env : SessionEnv Msg} {m : Machine Msg} {σ : Session} {a : Action Msg}
    (hwrite : ∀ mem, a ≠ .write mem)
    (hresponse : ∀ service method rpcId rpcResult respBody,
      a = .onRecvResponse service method rpcId rpcResult respBody →
        ∀ i, ¬ m.RespondsTo i service method rpcId) : m.Spares env σ a where
  write mem h := absurd h (hwrite mem)
  others _ _ _ _ _ i h hi := absurd hi (hresponse _ _ _ _ _ h i)
  rejected _ _ _ _ _ h _ i hi := absurd hi (hresponse _ _ _ _ _ h i)

/-- The failure of a send and the return of a callback write to no message. -/
theorem spares_failure {env : SessionEnv Msg} {σ : Session} {rpcId : UInt64} (m : Machine Msg) :
    ∀ a ∈ [Action.onSendRequestFailed rpcId, .ret], m.Spares env σ a := by
  intro a ha
  simp only [List.mem_cons, List.not_mem_nil, or_false] at ha
  rcases ha with rfl | rfl
  · exact spares_of_calm (fun mem => nofun) fun _ _ _ _ _ => nofun
  · exact spares_of_calm (fun mem => nofun) fun _ _ _ _ _ => nofun

/-- A response with another method's name leaves the call as it was, and after the time-out of
the call its message holds the value it held before. With the right name the same response would
not have left every message alone. -/
theorem rejected_leaves_no_trace_named : ∃ m m' m'' σ,
    Reachable (wireEnv 1).toSessionEnv pairManager 0 (fun _ => ⟨[], some [1]⟩) m ∧
      σ ∈ m.sessions ∧ m.st.mem σ.response = ⟨[], some [1]⟩ ∧
      m.step (wireEnv 1).toSessionEnv
        (.onRecvResponse [80] [113] 0x1000000000001 .kSuccess [255]) = some m' ∧
      m.LeavesNoTrace m' ∧
      ¬ m.Traceless (wireEnv 1).toSessionEnv (fun old msg => old.type = msg.type) [80] [112]
        0x1000000000001 .kSuccess [255] ∧
      run (step (wireEnv 1).toSessionEnv) m' [.onSendRequestFailed 0x1000000000001, .ret] =
        some m'' ∧
      m''.TimedOut σ.done ∧ m''.st.mem σ.response = ⟨[], some [1]⟩ := by
  obtain ⟨m, hm, hp⟩ := exists_reaches_of_run (step (wireEnv 1).toSessionEnv)
    (start pairManager 0 fun _ => ⟨[], some [1]⟩) [.addSession pingMethod 0 1 [⟨1, 1⟩] 10, .ret]
    (fun m => m.holdsCall (some [1]) && decide (∃ σ ∈ m.sessions, σ.done = 10 ∧
        m.st.mem σ.response = ⟨[], some [1]⟩) &&
      decide ((run (step (wireEnv 1).toSessionEnv) m
        [.onRecvResponse [80] [113] 0x1000000000001 .kSuccess [255],
          .onSendRequestFailed 0x1000000000001, .ret]).map (fun m'' => m''.log.head?) =
        some (some (.done (some 10) .kTimeout (.lastEndpoint 1)))))
    (by decide +kernel)
  obtain ⟨⟨hholds, σ, hσ, hdone, hmem⟩, hrun⟩ : (m.holdsCall (some [1]) = true ∧
      ∃ σ ∈ m.sessions, σ.done = 10 ∧ m.st.mem σ.response = ⟨[], some [1]⟩) ∧ _ := by
    simpa only [Bool.and_eq_true, decide_eq_true_eq] using hp
  have hT := (ReachableIf.wellFormed pairManager_init hm).consistent.table
  have hresp := respondsTo_of_holdsCall hholds
  obtain ⟨hrejected, htimeout⟩ := rejected_leaves_no_trace_iff pairManager_init hm
  have hnone := not_respondsTo_of_holdsCall hT hholds
  obtain ⟨m'', hrun, hlog⟩ := Option.map_eq_some_iff.mp hrun
  obtain ⟨m', hstep, hrest⟩ := run_cons_eq_some.mp hrun
  obtain ⟨-, hkept, -⟩ := hrejected _ _ _ _ _ m' hstep fun ⟨i, hi, _⟩ => hnone i hi
  obtain ⟨m₀, hstep₀⟩ := step_of_holdsCall hholds [112]
  have hparsed := parsed_of_holdsCall hholds
  obtain ⟨-, -, hexact⟩ := hrejected _ _ _ _ _ m₀ hstep₀
    (hresp.not_completed hT (by rw [hparsed]))
  have hfirst : m.Spares (wireEnv 1).toSessionEnv σ
      (.onRecvResponse [80] [113] 0x1000000000001 .kSuccess [255]) := by
    refine spares_of_calm (fun mem => nofun) fun _ _ _ _ _ h => ?_
    cases h
    exact hnone
  have hspared : Reaches (step (wireEnv 1).toSessionEnv)
      (fun s a => s.Spares (wireEnv 1).toSessionEnv σ a) m m'' :=
    .trans (.single hfirst hstep) (reaches_of_run spares_failure hrest)
  have htimed : m''.TimedOut σ.done :=
    ⟨.lastEndpoint 1, by simp, hdone.symm ▸ List.mem_of_mem_head? hlog⟩
  refine ⟨m, m', m'', σ, hm, hσ, hmem, hstep, hkept hnone, fun h => ?_, hrest, htimed, ?_⟩
  · exact (hexact _ (clearsFirst_wireEnv 1)).mp h 1 hresp
  · rw [htimeout σ m'' hspared htimed, hmem]

/-- The response message held a value. The response that does not parse clears it, and after the
time-out of the call the caller finds it empty. -/
theorem rejected_clears_message : ∃ m m' m'',
    Reachable (wireEnv 1).toSessionEnv pairManager 0 (fun _ => ⟨[], some [1]⟩) m ∧
      m.step (wireEnv 1).toSessionEnv
        (.onRecvResponse [80] [112] 0x1000000000001 .kSuccess [255]) = some m' ∧
      ¬ m.CompletedBy (wireEnv 1).toSessionEnv [80] [112] 0x1000000000001 [255] ∧
      ¬ m.LeavesNoTrace m' ∧
      run (step (wireEnv 1).toSessionEnv) m' [.onSendRequestFailed 0x1000000000001, .ret] =
        some m'' ∧
      m''.TimedOut 10 ∧ m.st.mem 1 = ⟨[], some [1]⟩ ∧ m''.st.mem 1 = ⟨[], none⟩ := by
  obtain ⟨m, hm, hp⟩ := exists_reaches_of_run (step (wireEnv 1).toSessionEnv)
    (start pairManager 0 fun _ => ⟨[], some [1]⟩) [.addSession pingMethod 0 1 [⟨1, 1⟩] 10, .ret]
    (fun m => m.holdsCall (some [1]) && decide (m.st.mem 1 = ⟨[], some [1]⟩) &&
      decide ((run (step (wireEnv 1).toSessionEnv) m
        [.onRecvResponse [80] [112] 0x1000000000001 .kSuccess [255],
          .onSendRequestFailed 0x1000000000001, .ret]).map
          (fun m'' => (m''.log.head?, m''.st.mem 1)) =
        some (some (.done (some 10) .kTimeout (.lastEndpoint 1)), ⟨[], none⟩)))
    (by decide +kernel)
  obtain ⟨⟨hholds, hmem⟩, hrun⟩ : (m.holdsCall (some [1]) = true ∧
      m.st.mem 1 = ⟨[], some [1]⟩) ∧ _ := by
    simpa only [Bool.and_eq_true, decide_eq_true_eq] using hp
  have hT := (ReachableIf.wellFormed pairManager_init hm).consistent.table
  have hresp := respondsTo_of_holdsCall hholds
  have hparsed := parsed_of_holdsCall hholds
  have hrej : ¬ m.CompletedBy (wireEnv 1).toSessionEnv [80] [112] 0x1000000000001 [255] :=
    hresp.not_completed hT (by rw [hparsed])
  obtain ⟨m'', hrun, hout⟩ := Option.map_eq_some_iff.mp hrun
  obtain ⟨m', hstep, hrun⟩ := run_cons_eq_some.mp hrun
  obtain ⟨hlog, hmem''⟩ := Prod.mk.inj hout
  refine ⟨m, m', m'', hm, hstep, hrej, fun hno => ?_, hrun, ?_, hmem, hmem''⟩
  · rcases (step_trans hstep).rejected hT hrej with ⟨-, hnone⟩ | ⟨i, hi, rfl⟩
    · exact hnone 1 hresp
    · obtain rfl := hi.unique hT hresp
      obtain ⟨-, -, -, hheld⟩ := of_decide_eq_true hholds
      have hcleared := congrFun hno.mem (m.node 1).response
      rw [parseInto_mem, Function.update_self, hparsed, hheld] at hcleared
      cases hcleared
  · exact ⟨.lastEndpoint 1, by simp, List.mem_of_mem_head? hlog⟩

end Machine

end HyperRpc
