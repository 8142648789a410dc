import HyperRpc.Session.Steps

/-!
# The invariants of every run

Three invariants hold of every machine state, also in the middle of nested callbacks and
whatever left-over expiries do: the live slots hold accepted sessions (`TableInv`), the
running callbacks belong to the slots they will free (`StackInv`), and `done` has been
invoked for a session that still occupies a slot exactly if that invocation is still running
(`LedgerInv`). For them a step is one of seven kinds (`Kind`).
-/
namespace HyperRpc

open Lib

/-- The node holds exactly what `AddSession` was given for the session. -/
structure SessionNode.Holds (node : SessionNode) (σ : Session) : Prop where
  rpcId : node.rpcId = σ.rpcId
  method : node.method = σ.method
  request : node.request = σ.request
  response : node.response = σ.response
  done : node.done = some σ.done
  endpoints : node.endpointList = σ.endpoints

/-- A node without its attempt counter and its timer flag. -/
def SessionNode.view (node : SessionNode) : SessionNode :=
  { node with hasTimer := false, endpointIndex := 0 }

theorem SessionNode.Holds.of_view {node node' : SessionNode} {σ : Session} (h : node.Holds σ)
    (hview : node'.view = node.view) : node'.Holds σ := by
  simp only [view, SessionNode.mk.injEq] at hview
  obtain ⟨hid, hmethod, hreq, hresp, hdone, -, -, hlist⟩ := hview
  exact ⟨hid.trans h.rpcId, hmethod.trans h.method, hreq.trans h.request, hresp.trans h.response,
    hdone.trans h.done, hlist.trans h.endpoints⟩

namespace Machine

variable {Msg : Type} (env : SessionEnv Msg) (m : Machine Msg)

/-! ## Kinds of steps -/

/-- No slot is taken or freed and no session is accepted; ids may be drawn. -/
structure Steady (m' : Machine Msg) : Prop where
  view : ∀ i, (m'.node i).view = (m.node i).view
  mgr : m.st.mgr.Draws m'.st.mgr
  sessions : m'.sessions = m.sessions
  calls : ∀ c ∈ m.calls, c ∈ m'.calls

/-- Moreover no attempt counter moves. -/
structure Calm (m' : Machine Msg) : Prop extends m.Steady m' where
  index : ∀ i, (m'.node i).endpointIndex = (m.node i).endpointIndex

/-- What the wheel does while no callback starts or returns. -/
inductive Turn (wheel : TimerWheel) : Prop
  | still (h : wheel = m.st.wheel)
  | tick (hdue : m.st.wheel.due = []) (h : wheel = { m.st.wheel with now := m.st.wheel.now + 1 })
  | collect {slot e} (harmed : m.st.wheel.armed slot = some e)
      (hdeadline : e.deadline ≤ m.st.wheel.now)
      (h : wheel = { m.st.wheel.disarm slot with due := m.st.wheel.due ++ [e] })
  | drop {k e} (hdue : m.st.wheel.due[k]? = some e) (hfree : ¬ m.Live e.slot)
      (h : wheel = { m.st.wheel with due := m.st.wheel.due.eraseIdx k })

/-- An expiry of slot `i` has started `done`. -/
def Fires (i : ℕ) (site : DoneSite) (wheel : TimerWheel) : Prop :=
  site = .timeout i ∧ m.stack = [] ∧ ∃ k e, m.st.wheel.due[k]? = some e ∧ e.slot = i ∧
    wheel = { m.st.wheel with due := m.st.wheel.due.eraseIdx k }

/-- What a step does to the stack, the log and the wheel. -/
inductive Kind : Action Msg → Machine Msg → Prop
  | quiet {a m'} (h : m.Calm m') (hstack : m'.stack = m.stack) (hlog : m'.log = m.log)
      (hturn : m.Turn m'.st.wheel) : Kind a m'
  | refuse {a m' d r site} (h : m.Calm m') (huser : m.inUserCode) (hd : d ∉ m.calls)
      (hd' : d ∈ m'.calls) (hsite : site.slot? = none)
      (hstack : m'.stack = .done (some d) r site :: m.stack)
      (hlog : m'.log = .done (some d) r site :: m.log) (hwheel : m'.st.wheel = m.st.wheel) :
      Kind a m'
  | accept {method request response endpoints d j i} (huser : m.inUserCode) (hd : d ∉ m.calls)
      (hfree : m.st.mgr.FirstFree j i) :
      Kind (.addSession method request response endpoints d)
        (m.accept env method request response endpoints d j i)
  | retry {a m' i} (h : m.Steady m') (hlive : m.Live i) (hrep : m.mayReport (m.node i).rpcId)
      (hindex : ∀ k, (m'.node k).endpointIndex =
        if k = i then (m.node i).endpointIndex + 1 else (m.node k).endpointIndex)
      (hstack : m'.stack = m.retrySend i :: m.stack) (hlog : m'.log = m.retrySend i :: m.log)
      (hwheel : m'.st.wheel = m.st.wheel) : Kind a m'
  | finish {a m' i r site} (h : m.Steady m') (hlive : m.Live i)
      (hrep : m.mayReport (m.node i).rpcId) (hsite : site.slot? = some i)
      (hindex : ∀ k ≠ i, (m'.node k).endpointIndex = (m.node k).endpointIndex)
      (hstack : m'.stack = .done (m.node i).done r site :: m.stack)
      (hlog : m'.log = .done (m.node i).done r site :: m.log)
      (hwheel : site ≠ .timeout i ∧ m'.st.wheel = m.st.wheel ∨ m.Fires i site m'.st.wheel) :
      Kind a m'
  | loose {a m' cb} (h : m.Calm m') (hstack : m.stack = cb :: m'.stack) (hslot : cb.slot? = none)
      (hlog : m'.log = m.log) (hwheel : m'.st.wheel = m.st.wheel) : Kind a m'
  | close {a closure result site rest i} (hstack : m.stack = .done closure result site :: rest)
      (hslot : site.slot? = some i) : Kind a (m.close env site.cancels i rest)

variable {env m} {m' : Machine Msg}

namespace Steady

variable (h : m.Steady m')
include h

theorem rpcId (i : ℕ) : (m'.node i).rpcId = (m.node i).rpcId := by
  have hid := congrArg SessionNode.rpcId (h.view i)
  exact hid

theorem done (i : ℕ) : (m'.node i).done = (m.node i).done := by
  have hd := congrArg SessionNode.done (h.view i)
  exact hd

theorem live (i : ℕ) : m'.Live i ↔ m.Live i := by rw [Live, Live, h.rpcId]

theorem slotOf (x : UInt64) : m'.st.mgr.slotOf x = m.st.mgr.slotOf x := by
  obtain ⟨n, -, -, -, hmask⟩ := h.mgr
  rw [SessionManager.slotOf, hmask, SessionManager.slotOf]

end Steady

theorem calm_of_nodes (hnode : m'.st.mgr.sessPool = m.st.mgr.sessPool)
    (hmgr : m.st.mgr.Draws m'.st.mgr) (hsess : m'.sessions = m.sessions)
    (hcalls : ∀ c ∈ m.calls, c ∈ m'.calls) : m.Calm m' where
  view i := by rw [node, hnode, node]
  mgr := hmgr
  sessions := hsess
  calls := hcalls
  index i := by rw [node, hnode, node]

/-- Writing back a node with the same view changes nothing the invariants see. -/
theorem steady_of_update {i : ℕ} {n : SessionNode} (hnode : m'.st.mgr = m.st.mgr.setNode i n)
    (hview : n.view = (m.node i).view) (hsess : m'.sessions = m.sessions)
    (hcalls : m'.calls = m.calls) : m.Steady m' where
  view k := by
    rw [node, hnode, SessionManager.setNode_sessPool]
    by_cases hk : k = i
    · subst hk
      rw [Function.update_self, hview]
    · rw [Function.update_of_ne hk, node]
  mgr := hnode ▸ ⟨0, rfl, rfl, rfl, rfl⟩
  sessions := hsess
  calls c hc := by rwa [hcalls]

theorem index_of_update {i : ℕ} {n : SessionNode}
    (hnode : m'.st.mgr.sessPool = Function.update m.st.mgr.sessPool i n) (k : ℕ) :
    (m'.node k).endpointIndex =
      if k = i then n.endpointIndex else (m.node k).endpointIndex := by
  rw [node, hnode]
  by_cases hk : k = i
  · simp [hk]
  · simp [hk, node]

theorem collect_calm {slot : ℕ} {e : Expiry} : m.Calm (m.collect env slot e) where
  toSteady := steady_of_update rfl rfl rfl rfl
  index k := by
    have hpool : (m.collect env slot e).st.mgr.sessPool =
        Function.update m.st.mgr.sessPool slot _ := rfl
    have hindex := index_of_update hpool k
    by_cases hk : k = slot
    · rw [hindex, if_pos hk, hk]
    · rw [hindex, if_neg hk]

theorem found {x : UInt64} {i : ℕ} (hne : x ≠ 0) (hfind : m.st.mgr.findSessionNode x = some i) :
    m.Live i ∧ (m.node i).rpcId = x := by
  have h := (m.st.mgr.findSessionNode_eq_some.mp hfind).2
  exact ⟨fun h0 => hne (h.symm.trans h0), h⟩

theorem Trans.kind {a : Action Msg} (h : m.Trans env a m') : m.Kind env a m' := by
  have hmem : ∀ d : Closure, ∀ c ∈ m.calls, c ∈ d :: m.calls := fun d c hc =>
    List.mem_cons_of_mem d hc
  cases h with
  | tooLong => exact .quiet (calm_of_nodes rfl (.refl _) rfl (hmem _)) rfl rfl (.still rfl)
  | poolFull huser hdone =>
    exact .refuse (calm_of_nodes (by simp) ⟨_, rfl, by simp, by simp, by simp⟩ rfl (hmem _))
      huser hdone List.mem_cons_self rfl rfl rfl rfl
  | accepted huser hdone _ _ hfree => exact .accept huser hdone hfree
  | noRoute huser hdone =>
    exact .refuse (calm_of_nodes rfl (.refl _) rfl (hmem _)) huser hdone List.mem_cons_self rfl rfl
      rfl rfl
  | failUnknown => exact .quiet (calm_of_nodes rfl (.refl _) rfl fun _ => id) rfl rfl (.still rfl)
  | failRetry hrep hne hfind =>
    obtain ⟨hlive, hid⟩ := found hne hfind
    exact .retry (steady_of_update rfl rfl rfl rfl) hlive (hid ▸ hrep)
      (fun k => index_of_update (n := m.bumped _) rfl k) rfl rfl rfl
  | failLast hrep hne hfind =>
    obtain ⟨hlive, hid⟩ := found hne hfind
    exact .finish (steady_of_update rfl rfl rfl rfl) hlive (hid ▸ hrep) rfl
      (fun k hk => (index_of_update rfl k).trans (if_neg hk)) rfl rfl (Or.inl ⟨by simp, rfl⟩)
  | respIgnored => exact .quiet (calm_of_nodes rfl (.refl _) rfl fun _ => id) rfl rfl (.still rfl)
  | respUnparsed => exact .quiet (calm_of_nodes rfl (.refl _) rfl fun _ => id) rfl rfl (.still rfl)
  | respDone hrep hne hfind =>
    obtain ⟨hlive, hid⟩ := found hne hfind
    exact .finish (Calm.toSteady (calm_of_nodes rfl (.refl _) rfl fun _ => id)) hlive
      (hid ▸ hrep) rfl (fun _ _ => rfl) rfl rfl (Or.inl ⟨by simp, rfl⟩)
  | retLoose hstack hslot =>
    exact .loose (calm_of_nodes rfl (.refl _) rfl fun _ => id) hstack hslot rfl rfl
  | retClose hstack hslot => exact .close hstack hslot
  | advance _ hdue =>
    exact .quiet (calm_of_nodes rfl (.refl _) rfl fun _ => id) rfl rfl (.tick hdue rfl)
  | collect _ harmed hdeadline =>
    exact .quiet collect_calm rfl rfl (.collect harmed hdeadline rfl)
  | expireFree _ hdue hfree =>
    exact .quiet (calm_of_nodes rfl (.refl _) rfl fun _ => id) rfl rfl (.drop hdue hfree rfl)
  | expireLive hstack hdue hlive =>
    exact .finish (Calm.toSteady (calm_of_nodes rfl (.refl _) rfl fun _ => id)) hlive
      (by simp [mayReport, hstack]) rfl (fun _ _ => rfl) rfl rfl
      (Or.inr ⟨rfl, hstack, _, _, hdue, rfl, rfl⟩)
  | write => exact .quiet (calm_of_nodes rfl (.refl _) rfl fun _ => id) rfl rfl (.still rfl)

/-- At most one callback starts in a step. -/
theorem Kind.log_cases {a : Action Msg} (h : m.Kind env a m') :
    m'.log = m.log ∨ ∃ cb, m'.log = cb :: m.log := by
  cases h with
  | quiet _ _ hlog => exact Or.inl hlog
  | refuse _ _ _ _ _ _ hlog => exact Or.inr ⟨_, hlog⟩
  | accept => exact Or.inr ⟨_, rfl⟩
  | retry _ _ _ _ _ hlog => exact Or.inr ⟨_, hlog⟩
  | finish _ _ _ _ _ _ hlog => exact Or.inr ⟨_, hlog⟩
  | loose _ _ _ hlog => exact Or.inl hlog
  | close => exact Or.inl rfl

/-! ## The slots after taking and freeing one -/

theorem accept_node_self {method request response endpoints d j i} :
    (m.accept env method request response endpoints d j i).node i =
      ⟨(m.st.mgr.advance (j + 1)).nextRpcId, method, request, response, some d, true, 0,
        endpoints⟩ := by
  simp [accept, node]

theorem accept_node_of_ne {method request response endpoints d j i k} (hk : k ≠ i) :
    (m.accept env method request response endpoints d j i).node k = m.node k := by
  simp [accept, node, hk]

@[simp] theorem accept_slotOf {method request response endpoints d j i} (x : UInt64) :
    (m.accept env method request response endpoints d j i).st.mgr.slotOf x = m.st.mgr.slotOf x := by
  simp [accept, SessionManager.slotOf, SessionManager.setNode]

theorem close_node_self {cancel : Bool} {i : ℕ} {rest : List Callback} :
    ((m.close env cancel i rest).node i).rpcId = 0 ∧
      ((m.close env cancel i rest).node i).done = none := by
  simp [close, node, SessionState.freeSessionNode, SessionManager.freeSessionNode]

theorem close_node_of_ne {cancel : Bool} {i k : ℕ} {rest : List Callback} (hk : k ≠ i) :
    (m.close env cancel i rest).node k = m.node k := by
  cases cancel <;>
    simp [close, node, SessionState.freeSessionNode, SessionManager.freeSessionNode,
      SessionState.cancelTimer, SessionState.setNode, hk]

@[simp] theorem close_slotOf {cancel : Bool} {i : ℕ} {rest : List Callback} (x : UInt64) :
    (m.close env cancel i rest).st.mgr.slotOf x = m.st.mgr.slotOf x := by
  cases cancel <;> rfl

theorem close_live {cancel : Bool} {i k : ℕ} {rest : List Callback} :
    (m.close env cancel i rest).Live k ↔ k ≠ i ∧ m.Live k := by
  by_cases hk : k = i
  · subst hk
    simp [Live, close_node_self]
  · simp [Live, close_node_of_ne hk, hk]

/-! ## The session table -/

/-- What the slots hold. A slot keeps a closure after it was freed only if some session was
given the id zero. -/
structure TableInv (m : Machine Msg) : Prop where
  slot : ∀ i, m.Live i → m.st.mgr.slotOf (m.node i).rpcId = i
  held : ∀ i, m.Live i → ∃ σ ∈ m.sessions, (m.node i).Holds σ
  inj : ∀ i j, m.Live i → m.Live j → (m.node i).done = (m.node j).done → i = j
  known : ∀ σ ∈ m.sessions, σ.done ∈ m.calls
  distinct : ∀ σ ∈ m.sessions, ∀ τ ∈ m.sessions, σ.done = τ.done → σ = τ
  free : (∀ σ ∈ m.sessions, σ.rpcId ≠ 0) → ∀ i, ¬ m.Live i → (m.node i).done = none

/-- The closure in a live slot is that of a call. -/
theorem TableInv.done_known (hT : m.TableInv) {i : ℕ} (hlive : m.Live i) :
    ∃ c ∈ m.calls, (m.node i).done = some c := by
  obtain ⟨σ, hσ, hh⟩ := hT.held i hlive
  exact ⟨σ.done, hT.known σ hσ, hh.done⟩

theorem TableInv.steady (hT : m.TableInv) (h : m.Steady m') : m'.TableInv where
  slot i hi := by rw [h.slotOf, h.rpcId, hT.slot i ((h.live i).mp hi)]
  held i hi := by
    obtain ⟨σ, hσ, hh⟩ := hT.held i ((h.live i).mp hi)
    exact ⟨σ, h.sessions ▸ hσ, hh.of_view (h.view i)⟩
  inj i j hi hj hd := by
    rw [h.done, h.done] at hd
    exact hT.inj i j ((h.live i).mp hi) ((h.live j).mp hj) hd
  known σ hσ := h.calls _ (hT.known σ (h.sessions ▸ hσ))
  distinct σ hσ τ hτ := hT.distinct σ (h.sessions ▸ hσ) τ (h.sessions ▸ hτ)
  free hid i hi := by
    rw [h.done]
    exact hT.free (fun σ hσ => hid σ (h.sessions ▸ hσ)) i ((h.live i).not.mp hi)

theorem TableInv.accept {method request response endpoints d j i} (hT : m.TableInv)
    (hd : d ∉ m.calls) (hfree : m.st.mgr.FirstFree j i) :
    (m.accept env method request response endpoints d j i).TableInv := by
  have hold : ∀ k, (m.accept env method request response endpoints d j i).Live k → k ≠ i →
      m.Live k := by
    intro k hk hne
    rwa [Live, accept_node_of_ne hne] at hk
  have hfresh : ∀ k, m.Live k → (m.node k).done ≠ some d := by
    intro k hk heq
    obtain ⟨c, hc, hcd⟩ := hT.done_known hk
    exact hd (Option.some.inj (hcd.symm.trans heq) ▸ hc)
  constructor
  · intro k hk
    by_cases hki : k = i
    · subst hki
      rw [accept_slotOf, accept_node_self]
      exact hfree.slot
    · rw [accept_slotOf, accept_node_of_ne hki]
      exact hT.slot k (hold k hk hki)
  · intro k hk
    by_cases hki : k = i
    · subst hki
      rw [accept_node_self]
      exact ⟨_, List.mem_cons_self, ⟨rfl, rfl, rfl, rfl, rfl, rfl⟩⟩
    · obtain ⟨σ, hσ, hh⟩ := hT.held k (hold k hk hki)
      rw [accept_node_of_ne hki]
      exact ⟨σ, List.mem_cons_of_mem _ hσ, hh⟩
  · intro k l hk hl heq
    by_cases hki : k = i <;> by_cases hli : l = i
    · rw [hki, hli]
    · rw [hki, accept_node_self, accept_node_of_ne hli] at heq
      exact absurd heq.symm (hfresh l (hold l hl hli))
    · rw [hli, accept_node_self, accept_node_of_ne hki] at heq
      exact absurd heq (hfresh k (hold k hk hki))
    · rw [accept_node_of_ne hki, accept_node_of_ne hli] at heq
      exact hT.inj k l (hold k hk hki) (hold l hl hli) heq
  · intro σ hσ
    rcases List.mem_cons.mp hσ with rfl | hσ
    · exact List.mem_cons_self
    · exact List.mem_cons_of_mem _ (hT.known σ hσ)
  · intro σ hσ τ hτ heq
    rcases List.mem_cons.mp hσ with rfl | hσ <;> rcases List.mem_cons.mp hτ with rfl | hτ
    · rfl
    · exact absurd (hT.known τ hτ) (fun hmem => hd (by rwa [← heq] at hmem))
    · exact absurd (hT.known σ hσ) (fun hmem => hd (by rwa [heq] at hmem))
    · exact hT.distinct σ hσ τ hτ heq
  · intro hid k hk
    have hki : k ≠ i := by
      rintro rfl
      exact hk (by rw [Live, accept_node_self]; exact hid _ List.mem_cons_self)
    rw [Live, accept_node_of_ne hki] at hk
    rw [accept_node_of_ne hki]
    exact hT.free (fun σ hσ => hid σ (List.mem_cons_of_mem _ hσ)) k hk

theorem TableInv.close {cancel : Bool} {i : ℕ} {rest : List Callback} (hT : m.TableInv) :
    (m.close env cancel i rest).TableInv := by
  constructor
  · intro k hk
    obtain ⟨hki, hk⟩ := close_live.mp hk
    rw [close_slotOf, close_node_of_ne hki, hT.slot k hk]
  · intro k hk
    obtain ⟨hki, hk⟩ := close_live.mp hk
    rw [close_node_of_ne hki]
    exact hT.held k hk
  · intro k l hk hl heq
    obtain ⟨hki, hk⟩ := close_live.mp hk
    obtain ⟨hli, hl⟩ := close_live.mp hl
    rw [close_node_of_ne hki, close_node_of_ne hli] at heq
    exact hT.inj k l hk hl heq
  · exact hT.known
  · exact hT.distinct
  · intro hid k hk
    by_cases hki : k = i
    · rw [hki, close_node_self.2]
    · rw [close_live] at hk
      rw [close_node_of_ne hki]
      exact hT.free hid k fun hlive => hk ⟨hki, hlive⟩

theorem TableInv.step {a : Action Msg} (hT : m.TableInv) (h : m.Kind env a m') : m'.TableInv := by
  cases h with
  | quiet h => exact hT.steady h.toSteady
  | refuse h => exact hT.steady h.toSteady
  | accept _ hd hfree => exact hT.accept hd hfree
  | retry h => exact hT.steady h
  | finish h => exact hT.steady h
  | loose h => exact hT.steady h.toSteady
  | close => exact hT.close

end Machine

end HyperRpc
