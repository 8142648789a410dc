import HyperRpc.Session.Answers

/-!
# Messages and sends

What a step of a session machine makes of the messages of its callers and of the sessions it
works for: which session a request is sent for, what a completion by a response has found, and
which steps write to a message.
-/
namespace HyperRpc

open Lib

namespace Machine

variable {Msg : Type} {env : SessionEnv Msg} {m m' : Machine Msg} {a : Action Msg}

/-- The session in slot `i` has not been completed. -/
def Unfinished (m : Machine Msg) (i : ℕ) : Prop :=
  m.Live i ∧ ∀ d, (m.node i).done = some d → m.doneCount d = 0

theorem getEndpoint_mem {endpoints : List Addr} {k : ℕ} (hk : k < endpoints.length) :
    getEndpoint endpoints k ∈ endpoints := by
  rw [getEndpoint, List.getD_eq_getElem _ _ hk]
  exact List.getElem_mem hk

/-- A request is sent for an accepted session, to one of its endpoints. -/
theorem Trans.sent (h : m.Trans env a m') (hT : m.TableInv) {method : MethodDescriptor}
    {request : MsgRef} {rpcId : UInt64} {addr : Addr} {owner : Option Closure}
    (hlog : m'.log = .onSendRequest method request rpcId addr owner :: m.log) :
    ∃ σ ∈ m'.sessions, σ.method = method ∧ σ.request = request ∧ σ.rpcId = rpcId ∧
      addr ∈ σ.endpoints := by
  have hnot : m'.log ≠ m.log := by simp [hlog]
  cases h with
  | accepted _ _ hne =>
    cases hlog
    exact ⟨_, List.mem_cons_self, rfl, rfl, rfl, getEndpoint_mem (List.length_pos_iff.mpr hne)⟩
  | failRetry _ hne hfind hidx =>
    obtain ⟨σ, hσ, hh⟩ := hT.held _ (found hne hfind).1
    cases hlog
    exact ⟨σ, hσ, hh.method.symm, hh.request.symm, hh.rpcId.symm,
      hh.endpoints ▸ getEndpoint_mem hidx⟩
  | poolFull => cases hlog
  | noRoute => cases hlog
  | failLast => cases hlog
  | respDone => cases hlog
  | expireLive => cases hlog
  | _ => exact absurd rfl hnot

/-- What a response has found when it completes the session of a slot. -/
structure Completes (env : SessionEnv Msg) (m : Machine Msg) (i : ℕ) (service method : Str)
    (rpcId : UInt64) (respBody : List UInt8) (m' : Machine Msg) : Prop where
  reported : m.mayReport rpcId
  nonzero : rpcId ≠ 0
  found : m.st.mgr.findSessionNode rpcId = some i
  names : (m.node i).method.service.name = service ∧ (m.node i).method.name = method
  parses : (m.parsed env i respBody).2 = true
  mem : m'.st.mem = (m.parseInto env i respBody).st.mem

/-- The completed session is that of the slot and had not been completed before. Its response
message then holds what the body parses to. -/
theorem Completes.session {i : ℕ} {service method : Str} {rpcId : UInt64} {respBody : List UInt8}
    (h : Completes env m i service method rpcId respBody m') (hcons : m.Consistent) :
    ∃ σ ∈ m.sessions, (m.node i).done = some σ.done ∧ σ.rpcId = rpcId ∧ m.Unfinished i ∧
      σ.method.service.name = service ∧ σ.method.name = method ∧
      m'.st.mem σ.response = (env.parseFromArray (m.st.mem σ.response) respBody).1 := by
  obtain ⟨hlive, hid⟩ := Machine.found h.nonzero h.found
  obtain ⟨σ, hσ, hh⟩ := hcons.table.held i hlive
  have hunfinished : m.Unfinished i := ⟨hlive, fun d hd =>
    hcons.ledger.idle hcons.stack hlive (hid.symm ▸ h.reported) hd⟩
  refine ⟨σ, hσ, hh.done, hh.rpcId.symm.trans hid, hunfinished, hh.method ▸ h.names.1,
    hh.method ▸ h.names.2, ?_⟩
  rw [h.mem, ← hh.response]
  simp [parseInto, parsed]

/-- Only `OnRecvResponse` completes a session by a response. -/
theorem Trans.completes (h : m.Trans env a m') {closure : Option Closure} {r : Result} {i : ℕ}
    (hlog : m'.log = .done closure r (.response i) :: m.log) :
    (m.node i).done = closure ∧ ∃ service method rpcId respBody,
      a = .onRecvResponse service method rpcId r respBody ∧
        Completes env m i service method rpcId respBody m' := by
  have hnot : m'.log ≠ m.log := by simp [hlog]
  cases h with
  | respDone hrep hne hfind hnames hparse =>
    cases hlog
    exact ⟨rfl, _, _, _, _, rfl, hrep, hne, hfind, hnames, hparse, rfl⟩
  | poolFull => cases hlog
  | accepted => cases hlog
  | noRoute => cases hlog
  | failRetry => cases hlog
  | failLast => cases hlog
  | expireLive => cases hlog
  | _ => exact absurd rfl hnot

/-- What becomes of the messages. -/
theorem Trans.mem_cases (h : m.Trans env a m') : m'.st.mem = m.st.mem ∨
    (∃ i respBody, m.Live i ∧ m'.st.mem = (m.parseInto env i respBody).st.mem) ∨
      a = .write m'.st.mem := by
  cases h with
  | respUnparsed _ hne hfind => exact Or.inr (Or.inl ⟨_, _, (found hne hfind).1, rfl⟩)
  | respDone _ hne hfind => exact Or.inr (Or.inl ⟨_, _, (found hne hfind).1, rfl⟩)
  | write => exact Or.inr (Or.inr rfl)
  | @retClose _ _ site => cases hc : site.cancels <;> exact Or.inl rfl
  | _ => exact Or.inl rfl

/-- A session is added by `AddSession` only, with what was passed to it. -/
theorem Kind.sessions_cases (h : m.Kind env a m') {σ : Session} (hσ : σ ∈ m'.sessions) :
    σ ∈ m.sessions ∨ a = .addSession σ.method σ.request σ.response σ.endpoints σ.done := by
  cases h with
  | quiet h => exact Or.inl (h.sessions ▸ hσ)
  | refuse h => exact Or.inl (h.sessions ▸ hσ)
  | accept =>
    rcases List.mem_cons.mp hσ with rfl | hσ
    · exact Or.inr rfl
    · exact Or.inl hσ
  | retry h => exact Or.inl (h.sessions ▸ hσ)
  | finish h => exact Or.inl (h.sessions ▸ hσ)
  | loose h => exact Or.inl (h.sessions ▸ hσ)
  | close => exact Or.inl hσ

/-- The slot of an earlier call has been its slot before. -/
theorem Kind.live_back (h : m.Kind env a m') {i : ℕ} {d : Closure} (hd : d ∈ m.calls)
    (hlive : m'.Live i) (hdone : (m'.node i).done = some d) :
    m.Live i ∧ (m.node i).done = some d := by
  have hsteady : m.Steady m' → m.Live i ∧ (m.node i).done = some d := fun hs =>
    ⟨(hs.live i).mp hlive, (hs.done i).symm.trans hdone⟩
  cases h with
  | quiet h => exact hsteady h.toSteady
  | refuse h => exact hsteady h.toSteady
  | @accept _ _ _ _ d' j k _ hnew =>
    by_cases hik : i = k
    · rw [hik, accept_node_self] at hdone
      exact absurd hd (Option.some.inj hdone ▸ hnew)
    · rw [accept_node_of_ne hik] at hdone
      rw [Live, accept_node_of_ne hik] at hlive
      exact ⟨hlive, hdone⟩
  | retry h => exact hsteady h
  | finish h => exact hsteady h
  | loose h => exact hsteady h.toSteady
  | close =>
    obtain ⟨hik, hlive⟩ := close_live.mp hlive
    rw [close_node_of_ne hik] at hdone
    exact ⟨hlive, hdone⟩

theorem Kind.unfinished_back (h : m.Kind env a m') {i : ℕ} {d : Closure} (hd : d ∈ m.calls)
    (hi : m'.Unfinished i) (hdone : (m'.node i).done = some d) :
    m.Unfinished i ∧ (m.node i).done = some d := by
  obtain ⟨hlive, hdone'⟩ := h.live_back hd hi.1 hdone
  refine ⟨⟨hlive, fun c hc => ?_⟩, hdone'⟩
  obtain rfl := Option.some.inj (hdone'.symm.trans hc)
  have hle := h.doneCount_le d
  have hzero := hi.2 d hdone
  omega

/-! ## Requests and responses kept apart -/

/-- The request messages of the sessions are among these, the response messages are not. -/
def Apart (isRequest : MsgRef → Prop) (m : Machine Msg) : Prop :=
  ∀ i, m.Live i → isRequest (m.node i).request ∧ ¬ isRequest (m.node i).response

variable {isRequest : MsgRef → Prop}

theorem Kind.apart (h : m.Kind env a m') (hA : m.Apart isRequest)
    (hcall : ∀ method request response endpoints d,
      a = .addSession method request response endpoints d →
        isRequest request ∧ ¬ isRequest response) : m'.Apart isRequest := by
  have hsteady : m.Steady m' → m'.Apart isRequest := by
    intro hs i hi
    have hview := hs.view i
    simp only [SessionNode.view, SessionNode.mk.injEq] at hview
    obtain ⟨-, -, hreq, hresp, -⟩ := hview
    rw [hreq, hresp]
    exact hA i ((hs.live i).mp hi)
  cases h with
  | quiet h => exact hsteady h.toSteady
  | refuse h => exact hsteady h.toSteady
  | @accept _ _ _ _ _ j k =>
    intro i hi
    by_cases hik : i = k
    · rw [hik, accept_node_self]
      exact hcall _ _ _ _ _ rfl
    · rw [Live, accept_node_of_ne hik] at hi
      rw [accept_node_of_ne hik]
      exact hA i hi
  | retry h => exact hsteady h
  | finish h => exact hsteady h
  | loose h => exact hsteady h.toSteady
  | close =>
    intro i hi
    obtain ⟨hik, hlive⟩ := close_live.mp hi
    rw [close_node_of_ne hik]
    exact hA i hlive

/-- What comes in is not written to a request. -/
theorem Trans.mem_request (h : m.Trans env a m') (hA : m.Apart isRequest)
    (hwrite : ∀ mem, a ≠ .write mem) {ref : MsgRef} (href : isRequest ref) :
    m'.st.mem ref = m.st.mem ref := by
  rcases h.mem_cases with heq | ⟨i, body, hlive, heq⟩ | hact
  · rw [heq]
  · have hne : ref ≠ (m.node i).response := fun h => (hA i hlive).2 (h ▸ href)
    rw [heq]
    exact Function.update_of_ne hne _ _
  · exact absurd hact (hwrite _)

end Machine

end HyperRpc
