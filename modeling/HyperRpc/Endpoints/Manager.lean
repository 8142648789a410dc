import HyperRpc.Endpoints.Refinement
import HyperRpc.Model.CoreMemory
import HyperRpc.Session.Refinement

/-!
# The manager with its lists in memory refines the one with plain lists

`Bare` machines do nothing with endpoint lists. A core with its lists in memory is the bare
machine of one that holds plain lists, with an object for the list of every slot and of every
`CallMethod` that has not returned (`Refines`). Both levels run through the same actions and make
the same callbacks; the buffers belong to the slots and to the calls that are running, and when
nothing runs, to the slots alone.
-/
namespace HyperRpc

open Lib

/-! ## Without the lists -/

def SessionNode.bare (node : SessionNode) : SessionNode := { node with endpointList := [] }

namespace SessionManager

def bare (mgr : SessionManager) : SessionManager :=
  { mgr with sessPool := fun i => (mgr.sessPool i).bare }

theorem bare_setNode (mgr : SessionManager) (i : ℕ) (node : SessionNode) :
    (mgr.setNode i node).bare = mgr.bare.setNode i node.bare := by
  simp only [bare, setNode, mk.injEq, true_and, and_true]
  exact Function.comp_update SessionNode.bare mgr.sessPool i node

theorem bare_allocLoop (n : ℕ) (mgr : SessionManager) :
    allocLoop n mgr.bare = ((allocLoop n mgr).1.bare, (allocLoop n mgr).2) := by
  induction n generalizing mgr with
  | zero => rfl
  | succ n ih =>
    have hsame : (mgr.bare.drawRpcId.sessPool
        (mgr.bare.drawRpcId.slotOf mgr.bare.drawRpcId.nextRpcId)).rpcId =
      (mgr.drawRpcId.sessPool (mgr.drawRpcId.slotOf mgr.drawRpcId.nextRpcId)).rpcId := rfl
    rw [allocLoop, allocLoop, hsame]
    split_ifs with hfree
    · rw [bare_setNode]
      rfl
    · exact ih mgr.drawRpcId

end SessionManager

namespace Machine

variable {Msg : Type} {env : SessionEnv Msg} {m m' : Machine Msg}

/-- The machine without the lists. -/
def bare (m : Machine Msg) : Machine Msg :=
  { m with st := { m.st with mgr := m.st.mgr.bare }, sessions := [] }

theorem bare_enter (st : SessionState Msg) (cb : Option Callback) :
    (m.enter st cb).bare = m.bare.enter { st with mgr := st.mgr.bare } cb := by
  cases cb <;> rfl

theorem bare_freeSessionNode (s : SessionState Msg) (i : ℕ) :
    ({ s with mgr := s.mgr.bare }).freeSessionNode i =
      { s.freeSessionNode i with mgr := (s.freeSessionNode i).mgr.bare } := by
  simp only [SessionState.freeSessionNode, SessionManager.freeSessionNode,
    SessionManager.bare_setNode]
  rfl

theorem bare_cancelTimer (s : SessionState Msg) (i : ℕ) :
    ({ s with mgr := s.mgr.bare }).cancelTimer env i =
      { s.cancelTimer env i with mgr := (s.cancelTimer env i).mgr.bare } := by
  simp only [SessionState.cancelTimer, SessionState.setNode, SessionManager.bare_setNode]
  rfl

theorem bare_resume (s : SessionState Msg) (cb : Callback) :
    ({ s with mgr := s.mgr.bare }).resume env cb =
      { s.resume env cb with mgr := (s.resume env cb).mgr.bare } := by
  cases cb with
  | onSendRequest => rfl
  | done closure result site =>
    cases site with
    | noRoute => rfl
    | refused => rfl
    | lastEndpoint i => simp only [SessionState.resume, bare_cancelTimer, bare_freeSessionNode]
    | response i => simp only [SessionState.resume, bare_cancelTimer, bare_freeSessionNode]
    | timeout i => exact bare_freeSessionNode s i

theorem bare_onRecvResponse {service method : Str} {x : UInt64} {result : Result}
    {respBody : List UInt8} :
    m.bare.onRecvResponse env service method x result respBody =
      (m.onRecvResponse env service method x result respBody).bare := by
  have hfind : m.bare.st.mgr.findSessionNode x = m.st.mgr.findSessionNode x := rfl
  rw [onRecvResponse, onRecvResponse, bare_enter, SessionState.onRecvResponse,
    SessionState.onRecvResponse, hfind]
  cases m.st.mgr.findSessionNode x with
  | none => rfl
  | some i =>
    have hnode : m.bare.st.node i = (m.st.node i).bare := rfl
    have hmem : m.bare.st.mem = m.st.mem := rfl
    simp only [hnode, hmem, SessionNode.bare]
    split_ifs <;> rfl

theorem bare_onSessionTimeout (s : SessionState Msg) (i : ℕ) :
    ({ s with mgr := s.mgr.bare }).onSessionTimeout i =
      ({ (s.onSessionTimeout i).1 with mgr := (s.onSessionTimeout i).1.mgr.bare },
        (s.onSessionTimeout i).2) := by
  have hid : (({ s with mgr := s.mgr.bare } : SessionState Msg).node i).rpcId =
      (s.node i).rpcId := rfl
  rw [SessionState.onSessionTimeout, SessionState.onSessionTimeout, hid]
  split_ifs <;> rfl

theorem bare_expire {k : ℕ} {e : Expiry} : m.bare.expire k e = (m.expire k e).bare := by
  rw [expire, expire, bare_enter]
  exact congrArg (fun r => m.bare.enter r.1 r.2) (bare_onSessionTimeout
    { m.st with wheel := { m.st.wheel with due := m.st.wheel.due.eraseIdx k } } e.slot)

theorem bare_collect {slot : ℕ} {e : Expiry} :
    m.bare.collect env slot e = (m.collect env slot e).bare := by
  simp only [collect, bare, SessionState.setNode, SessionManager.bare_setNode]
  rfl

/-- What works without the lists. -/
theorem bare_step {a : CoreAction Msg} (hcall : ∀ method request response done route,
    a ≠ .callMethod method request response done route) (hfail : ∀ x, a ≠ .onSendRequestFailed x) :
    m.bare.step env (a.toAction m.st.mem) = (m.step env (a.toAction m.st.mem)).map bare := by
  cases a with
  | callMethod method request response done route =>
    exact absurd rfl (hcall method request response done route)
  | onSendRequestFailed x => exact absurd rfl (hfail x)
  | onRecvResponse service method x result respBody =>
    simp only [CoreAction.toAction, step, bare_onRecvResponse, apply_ite (Option.map bare)]
    rfl
  | ret =>
    simp only [CoreAction.toAction, step]
    cases hstack : m.stack with
    | nil => simp [bare, hstack]
    | cons cb rest =>
      have hbare : m.bare.stack = cb :: rest := hstack
      simp only [hbare, Option.map_some]
      exact congrArg (fun st => some { m.bare with st := st, stack := rest }) (bare_resume m.st cb)
  | advance =>
    simp only [CoreAction.toAction, step, apply_ite (Option.map bare)]
    rfl
  | collect slot =>
    have hwheel : m.bare.st.wheel = m.st.wheel := rfl
    have hstack : m.bare.stack = m.stack := rfl
    simp only [CoreAction.toAction, step, hwheel, hstack, bare_collect]
    split <;> simp only [apply_ite (Option.map bare), Option.map_some, Option.map_none]
  | expire k =>
    have hwheel : m.bare.st.wheel = m.st.wheel := rfl
    have hstack : m.bare.stack = m.stack := rfl
    simp only [CoreAction.toAction, step, hwheel, hstack, bare_expire]
    split <;> rfl
  | write mem => rfl

/-- Only `AddSession` assigns to the list of a slot, and only returning shortens the stack. -/
theorem Trans.keeps_lists {a : Action Msg} (h : m.Trans env a m')
    (hadd : ∀ method request response endpoints done,
      a ≠ .addSession method request response endpoints done) (hret : a ≠ .ret) :
    (∀ i, (m'.node i).endpointList = (m.node i).endpointList) ∧
      m.stack.length ≤ m'.stack.length := by
  have hfields : m.Steady m' → ∀ i, (m'.node i).endpointList = (m.node i).endpointList :=
    fun hs i => (hs.fields i).2.2.2
  cases h with
  | tooLong => exact absurd rfl (hadd _ _ _ _ _)
  | poolFull => exact absurd rfl (hadd _ _ _ _ _)
  | accepted => exact absurd rfl (hadd _ _ _ _ _)
  | noRoute => exact ⟨fun _ => rfl, Nat.le_succ _⟩
  | failUnknown => exact ⟨fun _ => rfl, le_rfl⟩
  | failRetry => exact ⟨hfields (steady_of_update rfl rfl rfl rfl), Nat.le_succ _⟩
  | failLast => exact ⟨hfields (steady_of_update rfl rfl rfl rfl), Nat.le_succ _⟩
  | respIgnored => exact ⟨fun _ => rfl, le_rfl⟩
  | respUnparsed => exact ⟨fun _ => rfl, le_rfl⟩
  | respDone => exact ⟨fun _ => rfl, Nat.le_succ _⟩
  | retLoose => exact absurd rfl hret
  | retClose => exact absurd rfl hret
  | advance => exact ⟨fun _ => rfl, le_rfl⟩
  | collect => exact ⟨hfields collect_calm.toSteady, le_rfl⟩
  | expireFree => exact ⟨fun _ => rfl, le_rfl⟩
  | expireLive => exact ⟨fun _ => rfl, Nat.le_succ _⟩
  | write => exact ⟨fun _ => rfl, le_rfl⟩

theorem close_endpointList {cancel : Bool} {i : ℕ} {rest : List Callback} (k : ℕ) :
    ((m.close env cancel i rest).node k).endpointList = (m.node k).endpointList := by
  by_cases hk : k = i
  · subst hk
    cases cancel <;> simp [close, node, SessionState.freeSessionNode,
      SessionManager.freeSessionNode, SessionState.cancelTimer, SessionState.setNode,
      SessionState.node]
  · rw [close_node_of_ne hk]

theorem Trans.ret_lists (h : m.Trans env .ret m') (i : ℕ) :
    (m'.node i).endpointList = (m.node i).endpointList := by
  cases h with
  | retLoose => rfl
  | retClose => exact close_endpointList i

end Machine

/-! ## The lists in memory -/

theorem EndpointList.Represents.empty_iff {heap : Heap Addr} {this : EndpointList} {l : List Addr}
    (hr : Represents heap this l) : this.empty ↔ l = [] := by
  rw [EndpointList.empty, beq_iff_eq, ← UInt64.toNat_inj, hr.size, UInt64.toNat_zero,
    List.length_eq_zero_iff]

/-- An object gives the endpoints of the list it represents. -/
theorem EndpointList.Represents.getEndpoint_eq {heap : Heap Addr} {this : EndpointList}
    {l : List Addr} (hr : Represents heap this l) {index : UInt64} (hi : index.toNat < l.length) :
    this.getEndpoint heap index = .ok (HyperRpc.getEndpoint l index.toNat) := by
  rw [getEndpoint_spec hr hi, HyperRpc.getEndpoint, List.getD_eq_getElem _ _ hi]

/-- The lists a routing callback makes fit into memory. -/
def CoreAction.Fits {Msg : Type} : CoreAction Msg → Prop
  | .callMethod _ _ _ _ onServiceRouting => ∀ route ∈ onServiceRouting, ∀ service method msg,
    (route service method msg).2.length ≤ maxListSize
  | _ => True

/-- No list a routing callback makes is the one that is just too long to count. -/
def CoreAction.Countable {Msg : Type} : CoreAction Msg → Prop
  | .callMethod _ _ _ _ onServiceRouting => ∀ route ∈ onServiceRouting, ∀ service method msg,
    (route service method msg).2.length ≠ 65536
  | _ => True

theorem CoreAction.Countable.toAction {Msg : Type} {a : CoreAction Msg} (h : a.Countable)
    (mem : MsgRef → Msg) : (a.toAction mem).Countable := by
  cases a with
  | callMethod method request response done route =>
    cases route with
    | none => trivial
    | some route =>
      simp only [CoreAction.toAction, RpcCore.callMethod]
      split_ifs
      · trivial
      · exact h route rfl _ _ _
  | _ => trivial

theorem CoreAction.toAction_ne {Msg : Type} {a : CoreAction Msg} (mem : MsgRef → Msg)
    (hcall : ∀ method request response done route,
      a ≠ .callMethod method request response done route) (hret : a ≠ .ret) :
    (∀ method request response endpoints done,
      a.toAction mem ≠ .addSession method request response endpoints done) ∧
      a.toAction mem ≠ .ret := by
  cases a with
  | callMethod method request response done route =>
    exact absurd rfl (hcall method request response done route)
  | ret => exact absurd rfl hret
  | _ => exact ⟨by simp [toAction], by simp [toAction]⟩

namespace CoreMemory

variable {Msg : Type} {env : SessionEnv Msg} {c : CoreMemory Msg} {m m' : Machine Msg}
  {mgr : SessionManager} {lists : PlainLists}

theorem frameList_ne_slotList (depth i : ℕ) : frameList depth ≠ slotList i := by
  unfold frameList slotList
  omega

theorem slotList_inj {i k : ℕ} : slotList i = slotList k ↔ i = k := by
  unfold slotList
  omega

theorem frameList_inj {d e : ℕ} : frameList d = frameList e ↔ d = e := by
  unfold frameList
  omega

/-- The names that have an object: those of the slots and of the running calls. -/
def Named (order : ℕ) (frames : List ℕ) (x : ℕ) : Prop :=
  (∃ i < 2 ^ order, x = slotList i) ∨ ∃ d ∈ frames, x = frameList d

/-- The core does what a machine with these lists in its slots does. -/
structure Refines (c : CoreMemory Msg) (order : ℕ) (m : Machine Msg) (lists : PlainLists) :
    Prop where
  core : c.core = m.bare
  store : c.store.Refines lists
  slots : ∀ i < 2 ^ order, lists (slotList i) = some (m.node i).endpointList
  named : ∀ x, (lists x).isSome ↔ Named order c.frames x
  sorted : c.frames.Pairwise (· > ·)
  depth : ∀ d ∈ c.frames, d < m.stack.length

theorem addEndpoints_refines {s : EndpointStore} {x : ℕ} {l endpoints : List Addr}
    (hR : s.Refines lists) (hx : lists x = some l)
    (hfits : (l ++ endpoints).length ≤ maxListSize) :
    ∃ s', addEndpoints x s endpoints = .ok s' ∧
      s'.Refines (Function.update lists x (some (l ++ endpoints))) := by
  induction endpoints generalizing s l lists with
  | nil =>
    refine ⟨s, rfl, ?_⟩
    rwa [List.append_nil, ← hx, Function.update_eq_self]
  | cons endpoint endpoints ih =>
    rcases EndpointStore.pushBack_refines hR hx endpoint with ⟨s₁, hpush, hR₁⟩ | ⟨-, hfull⟩
    · have hmore : (l ++ [endpoint]) ++ endpoints = l ++ endpoint :: endpoints := by simp
      obtain ⟨s', hrest, hR'⟩ := ih hR₁ (Function.update_self ..) (hmore ▸ hfits)
      rw [Function.update_idem, hmore] at hR'
      refine ⟨s', ?_, hR'⟩
      rw [addEndpoints, hpush]
      exact hrest
    · rw [List.length_append, List.length_cons] at hfits
      omega

namespace Refines

variable {order : ℕ}

/-- A call of `CallMethod` that begins now finds its name free. -/
theorem fresh (h : c.Refines order m lists) : lists (frameList m.stack.length) = none := by
  rw [← Option.not_isSome_iff_eq_none, h.named]
  rintro (⟨i, -, heq⟩ | ⟨d, hd, heq⟩)
  · exact frameList_ne_slotList _ _ heq
  · exact absurd (h.depth d hd) (frameList_inj.mp heq ▸ lt_irrefl _)

theorem construct (h : c.Refines order m lists) :
    ∃ store, c.store.step (.construct (frameList m.stack.length)) = .ok store ∧
      store.Refines (Function.update lists (frameList m.stack.length) (some [])) := by
  have hnew : (lists (frameList m.stack.length)).isNone := by
    rw [h.fresh, Option.isNone_none]
  refine ⟨c.store.put (frameList m.stack.length) .default, ?_,
    h.store.put_default (h.store.owns_of_none hnew)⟩
  rw [EndpointStore.step, h.store.construct_eq hnew]

/-- A call of `CallMethod` has made a callback. -/
theorem enter (h : c.Refines order m lists) {core : Machine Msg} {store : EndpointStore}
    {lists' : PlainLists} (hcore : core = m'.bare) (hstore : store.Refines lists')
    (hslots : ∀ i < 2 ^ order, lists' (slotList i) = some (m'.node i).endpointList)
    (hnamed : ∀ x, (lists' x).isSome ↔ (lists x).isSome ∨ x = frameList m.stack.length)
    (hstack : m'.stack.length = m.stack.length + 1) :
    Refines ⟨core, store, m.stack.length :: c.frames⟩ order m' lists' where
  core := hcore
  store := hstore
  slots := hslots
  named x := by
    rw [hnamed, h.named, Named, Named, List.exists_mem_cons_iff, or_assoc]
    exact or_congr_right or_comm
  sorted := List.pairwise_cons.mpr ⟨h.depth, h.sorted⟩
  depth d hd := by
    rw [hstack]
    rcases List.mem_cons.mp hd with rfl | hd
    · exact Nat.lt_succ_self _
    · exact Nat.lt_succ_of_lt (h.depth d hd)

theorem isSome_update {x y : ℕ} {l : List Addr} :
    (Function.update lists x (some l) y).isSome ↔ (lists y).isSome ∨ y = x := by
  by_cases hyx : y = x
  · simp [hyx]
  · simp [hyx]

variable (env) in
theorem addSession (h : c.Refines order m lists) (hsized : m.st.mgr.Sized)
    (horder : m.st.mgr.poolSizeOrder = order) {method : MethodDescriptor}
    {request response : MsgRef} {done : Closure} {l : List Addr} {store : EndpointStore}
    (hstore : store.Refines (Function.update lists (frameList m.stack.length) (some l)))
    (hnew : lists (frameList m.stack.length) = none) (hne : l ≠ []) :
    ∃ c' lists', CoreMemory.addSession env { c with store := store } m.stack.length method request
        response done = .ok c' ∧
      c'.Refines order (m.addSession env method request response l done) lists' := by
  obtain ⟨core, store₀, frames⟩ := c
  obtain rfl : core = m.bare := h.core
  obtain ⟨object, hobj, hrep⟩ := hstore.object (Function.update_self _ _ lists)
  have hsize : object.size > 65536 ↔ 65536 < l.length := by
    rw [← hrep.size, gt_iff_lt, UInt64.lt_iff_toNat_lt]
    exact Iff.rfl
  have halloc : m.bare.st.mgr.allocSessionNode =
      (m.st.mgr.allocSessionNode.1.bare, m.st.mgr.allocSessionNode.2) :=
    SessionManager.bare_allocLoop _ _
  simp only [CoreMemory.addSession, Machine.addSession, SessionState.addSession, hobj, deref_some,
    ok_bind, hsize, gt_iff_lt, halloc]
  by_cases hlen : 65536 < l.length
  · obtain ⟨store', hdestroy, hR'⟩ := EndpointStore.destroy_refines hstore
      (Function.update_self _ _ lists)
    rw [Function.update_idem, ← hnew, Function.update_eq_self] at hR'
    simp only [hlen, ↓reduceIte, hdestroy, ok_bind]
    exact ⟨_, lists, rfl, rfl, hR', h.slots, h.named, h.sorted, h.depth⟩
  · simp only [hlen, ↓reduceIte]
    rcases m.st.mgr.allocSessionNode_cases with ⟨j, i, hff, heq⟩ | ⟨hfull, heq⟩
    · simp only [heq]
      have hi : i < 2 ^ order := by
        rw [← hff.slot, ← horder]
        exact hsized.slotOf_lt _
      have hslot := (Function.update_of_ne (frameList_ne_slotList m.stack.length i).symm
        (some l) lists).trans (h.slots i hi)
      obtain ⟨store', hassign, hR'⟩ := EndpointStore.copyAssign_refines hstore hslot
        (frameList_ne_slotList m.stack.length i).symm (Function.update_self _ _ lists)
      obtain ⟨copy, hcopy, hrep'⟩ := hR'.object (Function.update_self _ _ _)
      have hpos : (0 : UInt64).toNat < l.length := List.length_pos_iff.mpr hne
      have hfirst := hrep'.getEndpoint_eq hpos
      simp only [hassign, ok_bind, hcopy, deref_some, hfirst]
      refine ⟨_, _, rfl, h.enter ?_ hR' ?_ ?_ ?_⟩
      · simp only [Machine.bare, Machine.enter, SessionState.setNode, SessionState.node,
          SessionManager.bare_setNode]
        simp [SessionManager.setNode, SessionNode.bare, SessionManager.bare]
      · intro k hk
        by_cases hki : k = i
        · subst hki
          simp [Machine.enter, Machine.node, SessionState.setNode, SessionManager.setNode]
        · have hne : slotList k ≠ slotList i := slotList_inj.not.mpr hki
          rw [Function.update_of_ne hne,
            Function.update_of_ne (frameList_ne_slotList _ k).symm, h.slots k hk]
          simp [Machine.enter, Machine.node, SessionState.setNode, SessionManager.setNode, hki]
      · intro x
        rw [isSome_update, isSome_update, or_iff_left_of_imp]
        rintro rfl
        exact Or.inl (by rw [h.slots i hi, Option.isSome_some])
      · rfl
    · simp only [heq]
      refine ⟨_, _, rfl, h.enter ?_ hstore (fun i hi => ?_) (fun x => isSome_update) ?_⟩
      · rfl
      · rw [Function.update_of_ne (frameList_ne_slotList _ i).symm, h.slots i hi]
        simp [Machine.enter, Machine.node]
      · rfl

theorem callMethod (h : c.Refines order m lists) (hsized : m.st.mgr.Sized)
    (horder : m.st.mgr.poolSizeOrder = order) {method : MethodDescriptor}
    {request response : MsgRef} {done : Closure}
    {onServiceRouting : Option (RpcCore.OnServiceRouting Msg)}
    (hfits : ∀ route ∈ onServiceRouting, ∀ service method msg,
      (route service method msg).2.length ≤ maxListSize) (huser : m.inUserCode)
    (hdone : done ∉ m.calls) :
    ∃ m' c' lists', m.coreStep env (.callMethod method request response done onServiceRouting) =
        some m' ∧ c.callMethod env method request response done onServiceRouting = .ok c' ∧
      c'.Refines order m' lists' := by
  obtain ⟨core, store₀, frames⟩ := c
  obtain rfl : core = m.bare := h.core
  obtain ⟨store, hconstruct, hstore⟩ := h.construct
  have hdepth : m.bare.stack.length = m.stack.length := rfl
  have hnoRoute : m.step env (.noRoute done) = some (m.noRoute done) := if_pos ⟨huser, hdone⟩
  have hslots : ∀ l, ∀ i < 2 ^ order,
      Function.update lists (frameList m.stack.length) (some l) (slotList i) =
        some ((m.noRoute done).node i).endpointList := by
    intro l i hi
    rw [Function.update_of_ne (frameList_ne_slotList _ i).symm, h.slots i hi]
    rfl
  rw [Machine.coreStep, CoreAction.toAction]
  simp only [CoreMemory.callMethod, hdepth, hconstruct, ok_bind]
  cases onServiceRouting with
  | none =>
    exact ⟨_, _, _, hnoRoute, rfl, h.enter rfl hstore (hslots []) (fun _ => isSome_update) rfl⟩
  | some route =>
    obtain ⟨store', hadd, hstore'⟩ := addEndpoints_refines hstore (Function.update_self _ _ lists)
      (hfits route rfl method.service.name method.name (m.st.mem request))
    rw [Function.update_idem, List.nil_append] at hstore'
    obtain ⟨object, hobj, hrep⟩ := hstore'.object (Function.update_self _ _ lists)
    have hmem : m.bare.st.mem = m.st.mem := rfl
    simp only [RpcCore.callMethod, hmem, hadd, ok_bind, hobj, deref_some, hrep.empty_iff]
    split_ifs with hrefused
    · exact ⟨_, _, _, hnoRoute, rfl, h.enter rfl hstore' (hslots _) (fun _ => isSome_update) rfl⟩
    · obtain ⟨-, hne⟩ := not_or.mp hrefused
      obtain ⟨c', lists', hc', hR'⟩ := h.addSession env hsized horder hstore' h.fresh hne
      exact ⟨_, c', lists', if_pos ⟨huser, hdone, hne⟩, hc', hR'⟩

/-- Everything but the calls of `CallMethod` and their returns leaves the lists alone. -/
theorem keep (h : c.Refines order m lists) {core : Machine Msg} (hcore : core = m'.bare)
    {a : Action Msg} (htrans : m.Trans env a m')
    (hadd : ∀ method request response endpoints done,
      a ≠ .addSession method request response endpoints done) (hret : a ≠ .ret) :
    Refines { c with core := core } order m' lists := by
  obtain ⟨hlists, hstack⟩ := htrans.keeps_lists hadd hret
  refine ⟨hcore, h.store, fun i hi => ?_, h.named, h.sorted, fun d hd => ?_⟩
  · rw [hlists, h.slots i hi]
  · exact (h.depth d hd).trans_le hstack

theorem onSendRequestFailed (h : c.Refines order m lists) (hsized : m.st.mgr.Sized)
    (horder : m.st.mgr.poolSizeOrder = order) (x : UInt64) :
    c.onSendRequestFailed x = .ok { c with core := (m.onSendRequestFailed x).bare } := by
  obtain ⟨core, store, frames⟩ := c
  obtain rfl : core = m.bare := h.core
  have hstore : store.Refines lists := h.store
  have hfind : m.bare.st.mgr.findSessionNode x = m.st.mgr.findSessionNode x := rfl
  rw [CoreMemory.onSendRequestFailed, hfind, Machine.onSendRequestFailed,
    SessionState.onSendRequestFailed]
  cases hslot : m.st.mgr.findSessionNode x with
  | none => rfl
  | some i =>
    have hi : i < 2 ^ order := by
      rw [(m.st.mgr.findSessionNode_eq_some.mp hslot).1, ← horder]
      exact hsized.slotOf_lt x
    obtain ⟨object, hobj, hrep⟩ := hstore.object (h.slots i hi)
    have hindex : (m.bare.node i).endpointIndex = (m.st.node i).endpointIndex := rfl
    have hlist : (m.node i).endpointList = (m.st.node i).endpointList := rfl
    have hlt : ((m.st.node i).endpointIndex + 1).toUInt64 < object.size ↔
        ((m.st.node i).endpointIndex + 1).toNat < (m.st.node i).endpointList.length := by
      rw [UInt64.lt_iff_toNat_lt, UInt16.toNat_toUInt64, hrep.size, hlist]
    simp only [hobj, deref_some, ok_bind, hindex, hlt]
    split_ifs with hnext
    · rw [hrep.getEndpoint_eq (by rwa [UInt16.toNat_toUInt64]), UInt16.toNat_toUInt64]
      simp only [ok_bind, Machine.bare_enter, SessionState.setNode, SessionManager.bare_setNode]
      rfl
    · simp only [Machine.bare_enter, SessionState.setNode, SessionManager.bare_setNode]
      rfl

/-- A callback returns, and with it the `CallMethod` that made it. -/
theorem leave (h : c.Refines order m lists) {core : Machine Msg} (hcore : core = m'.bare)
    (hlists : ∀ i, (m'.node i).endpointList = (m.node i).endpointList)
    (hstack : m.stack.length = m'.stack.length + 1) :
    ∃ c' lists', CoreMemory.leave { c with core := core } m'.stack.length = .ok c' ∧
      c'.Refines order m' lists' := by
  obtain ⟨core₀, store, frames⟩ := c
  have hstore : store.Refines lists := h.store
  have hslots : ∀ i < 2 ^ order, lists (slotList i) = some (m'.node i).endpointList := by
    intro i hi
    rw [hlists, h.slots i hi]
  have hdepth : ∀ d ∈ frames, d ≤ m'.stack.length := by
    intro d hd
    have hlt := h.depth d hd
    omega
  cases frames with
  | nil =>
    exact ⟨_, lists, rfl, hcore, hstore, hslots, h.named, h.sorted, by simp⟩
  | cons frame rest =>
    obtain ⟨habove, hsorted⟩ := List.pairwise_cons.mp h.sorted
    rw [CoreMemory.leave]
    by_cases hframe : frame = m'.stack.length
    · subst hframe
      obtain ⟨l, hl⟩ := Option.isSome_iff_exists.mp
        ((h.named _).mpr (Or.inr ⟨_, List.mem_cons_self, rfl⟩))
      obtain ⟨store', hdestroy, hstore'⟩ := EndpointStore.destroy_refines hstore hl
      simp only [↓reduceIte, hdestroy, ok_bind]
      refine ⟨_, _, rfl, hcore, hstore', fun i hi => ?_, fun x => ?_, hsorted, fun d hd => ?_⟩
      · rw [Function.update_of_ne (frameList_ne_slotList _ i).symm, hslots i hi]
      · by_cases hx : x = frameList m'.stack.length
        · subst hx
          simp only [Function.update_self, Option.isSome_none, Bool.false_eq_true, false_iff]
          rintro (⟨i, -, heq⟩ | ⟨d, hd, heq⟩)
          · exact frameList_ne_slotList _ _ heq
          · exact absurd (habove d hd) (frameList_inj.mp heq ▸ lt_irrefl _)
        · rw [Function.update_of_ne hx, h.named, Named, Named, List.exists_mem_cons_iff]
          exact or_congr_right (or_iff_right hx)
      · exact habove d hd
    · simp only [hframe, ↓reduceIte]
      refine ⟨_, lists, rfl, hcore, hstore, hslots, h.named, h.sorted, fun d hd => ?_⟩
      have hle := hdepth frame List.mem_cons_self
      rcases List.mem_cons.mp hd with rfl | hd
      · omega
      · have hlt := habove d hd
        omega

theorem ret (h : c.Refines order m lists) {cb : Callback} {rest : List Callback}
    (hstack : m.stack = cb :: rest) :
    ∃ m' c' lists', m.coreStep env .ret = some m' ∧ c.step env .ret = .ok c' ∧
      c'.Refines order m' lists' := by
  have hstep : m.coreStep env .ret = some { m with st := m.st.resume env cb, stack := rest } := by
    simp [Machine.coreStep, CoreAction.toAction, Machine.step, hstack]
  have hbare : c.core.step env .ret =
      some ({ m with st := m.st.resume env cb, stack := rest } : Machine Msg).bare := by
    rw [h.core]
    exact (Machine.bare_step (a := .ret) (by simp) (by simp)).trans (congrArg _ hstep)
  obtain ⟨c', lists', hleave, hR⟩ := h.leave rfl (Machine.ret_trans hstack).ret_lists
    (by rw [hstack, List.length_cons])
  refine ⟨_, c', lists', hstep, ?_, hR⟩
  simp only [CoreMemory.step, hbare, deref_some, ok_bind]
  exact hleave

/-- What leaves the lists alone. -/
theorem other (h : c.Refines order m lists) {a : CoreAction Msg}
    (hcall : ∀ method request response done route,
      a ≠ .callMethod method request response done route) (hfail : ∀ x, a ≠ .onSendRequestFailed x)
    (hret : a ≠ .ret) :
    (∃ m' c', m.coreStep env a = some m' ∧ c.step env a = .ok c' ∧ c'.Refines order m' lists) ∨
      m.coreStep env a = none ∧ c.step env a = .error .invalid := by
  have hstep : c.step env a = do
      let core ← deref ((m.coreStep env a).map Machine.bare)
      return { c with core := core } := by
    rw [Machine.coreStep, ← Machine.bare_step hcall hfail, ← h.core]
    have hmem : m.st.mem = c.core.st.mem := by
      rw [h.core]
      rfl
    rw [hmem]
    cases a with
    | callMethod method request response done route =>
      exact absurd rfl (hcall method request response done route)
    | onSendRequestFailed x => exact absurd rfl (hfail x)
    | ret => exact absurd rfl hret
    | _ => rfl
  rw [hstep]
  cases hm : m.coreStep env a with
  | none => exact Or.inr ⟨rfl, rfl⟩
  | some m' =>
    obtain ⟨hadd, hret⟩ := CoreAction.toAction_ne m.st.mem hcall hret
    exact Or.inl ⟨m', _, rfl, rfl, h.keep rfl (Machine.step_trans hm) hadd hret⟩

theorem step (h : c.Refines mgr.poolSizeOrder m lists) (hwf : m.WellFormed env mgr)
    (hsized : mgr.Sized) {a : CoreAction Msg} (hfits : a.Fits) :
    (∃ m' c' lists', m.coreStep env a = some m' ∧ c.step env a = .ok c' ∧
        c'.Refines mgr.poolSizeOrder m' lists') ∨
      m.coreStep env a = none ∧ c.step env a = .error .invalid := by
  have hsized' := hwf.sized hsized
  have horder : m.st.mgr.poolSizeOrder = mgr.poolSizeOrder := hwf.size.1
  cases a with
  | callMethod method request response done route =>
    have hcore : (c.core.inUserCode ∧ done ∉ c.core.calls) = (m.inUserCode ∧ done ∉ m.calls) := by
      rw [h.core]
      rfl
    by_cases hguard : m.inUserCode ∧ done ∉ m.calls
    · rw [CoreMemory.step, if_pos (hcore ▸ hguard)]
      exact Or.inl (h.callMethod hsized' horder hfits hguard.1 hguard.2)
    · rw [CoreMemory.step, if_neg (hcore ▸ hguard)]
      refine Or.inr ⟨?_, rfl⟩
      rw [Machine.coreStep, CoreAction.toAction]
      cases route with
      | none => exact if_neg hguard
      | some route =>
        simp only [RpcCore.callMethod]
        split_ifs
        · exact if_neg hguard
        · exact if_neg fun henabled => hguard ⟨henabled.1, henabled.2.1⟩
  | onSendRequestFailed x =>
    have hcore : (c.core.mayReport x ∧ x ≠ 0) = (m.mayReport x ∧ x ≠ 0) := by
      rw [h.core]
      rfl
    by_cases hguard : m.mayReport x ∧ x ≠ 0
    · rw [CoreMemory.step, if_pos (hcore ▸ hguard), h.onSendRequestFailed hsized' horder x]
      have htrans : m.Trans env (.onSendRequestFailed x) (m.onSendRequestFailed x) :=
        Machine.onSendRequestFailed_trans hguard.1 hguard.2
      exact Or.inl ⟨_, _, lists, if_pos hguard, rfl, h.keep rfl htrans (by simp) (by simp)⟩
    · rw [CoreMemory.step, if_neg (hcore ▸ hguard)]
      exact Or.inr ⟨if_neg hguard, rfl⟩
  | ret =>
    cases hstack : m.stack with
    | nil =>
      have hm : m.coreStep env .ret = none := by
        simp [Machine.coreStep, CoreAction.toAction, Machine.step, hstack]
      have hc : c.core.step env .ret = none := by
        simp [h.core, Machine.bare, Machine.step, hstack]
      exact Or.inr ⟨hm, by rw [CoreMemory.step, hc]; rfl⟩
    | cons cb rest => exact Or.inl (h.ret hstack)
  | _ =>
    refine (h.other (by simp) (by simp) (by simp)).imp_left ?_
    rintro ⟨m', c', hm, hc, hR⟩
    exact ⟨m', c', lists, hm, hc, hR⟩

end Refines

/-! ## Runs -/

variable {size core : UInt64} {rand : UInt32} {memory : ℕ → SessionNode} {now : ℕ}
  {mem : MsgRef → Msg}

/-- The lists in the pool. -/
def poolLists (order : ℕ) : PlainLists := fun x =>
  if x % 2 = 0 ∧ x / 2 < 2 ^ order then some [] else none

theorem refines_start (hinit : SessionManager.init size core rand memory = some mgr) :
    (start mgr now mem).Refines mgr.poolSizeOrder (.start mgr now mem)
      (poolLists mgr.poolSizeOrder) where
  core := by
    obtain ⟨order, -, rfl⟩ := Option.map_eq_some_iff.mp hinit
    rfl
  store := by
    constructor
    · intro x
      simp only [start, newPool, poolLists]
      split_ifs
      · exact .some (EndpointList.represents_nil rfl rfl)
      · exact .none
    · have hown : ∀ x, (start mgr now mem : CoreMemory Msg).store.owns x = ∅ := by
        intro x
        simp only [start, newPool, EndpointStore.owns, Function.comp_apply]
        split_ifs
        · exact EndpointList.buffers_none rfl
        · rfl
      constructor
      · intro b
        simp only [hown, Set.mem_empty_iff_false, exists_false, iff_false]
        simp [start, newPool, Heap.Live, Heap.block?, Heap.empty]
      · intro x y b hb
        rw [hown] at hb
        exact absurd hb (Set.notMem_empty b)
  slots i hi := by
    obtain ⟨order, -, rfl⟩ := Option.map_eq_some_iff.mp hinit
    rw [poolLists, if_pos]
    · rfl
    · rw [slotList]
      omega
  named x := by
    rw [poolLists, Named]
    have hsplit : x % 2 = 0 ∧ x / 2 < 2 ^ mgr.poolSizeOrder ↔
        ∃ i < 2 ^ mgr.poolSizeOrder, x = slotList i := by
      constructor
      · rintro ⟨heven, hlt⟩
        exact ⟨x / 2, hlt, by rw [slotList]; omega⟩
      · rintro ⟨i, hi, rfl⟩
        rw [slotList]
        omega
    simp only [hsplit, start, List.not_mem_nil, false_and, exists_false, or_false]
    split_ifs with hslot
    · simp [hslot]
    · simp [hslot]
  sorted := .nil
  depth d hd := absurd hd List.not_mem_nil

/-- What the core shows of a machine with plain lists, and whose the lists in memory are. -/
structure ActsAs (c : CoreMemory Msg) (order : ℕ) (m : Machine Msg) : Prop where
  stack : c.core.stack = m.stack
  log : c.core.log = m.log
  lists : ∃ lists, c.store.BehavesAs lists ∧
    (∀ i < 2 ^ order, lists (slotList i) = some (m.node i).endpointList) ∧
    ∀ x, (lists x).isSome ↔ Named order c.frames x
  idle : m.stack = [] → c.frames = []

theorem Refines.actsAs {order : ℕ} (h : c.Refines order m lists) : c.ActsAs order m where
  stack := by
    rw [h.core]
    rfl
  log := by
    rw [h.core]
    rfl
  lists := ⟨lists, h.store.behavesAs, h.slots, h.named⟩
  idle hidle := by
    rw [List.eq_nil_iff_forall_not_mem]
    intro d hd
    have hlt := h.depth d hd
    rw [hidle] at hlt
    exact absurd hlt (Nat.not_lt_zero d)

variable (env) in
theorem refines_run (hinit : SessionManager.init size core rand memory = some mgr)
    (hsize : size.toNat ≤ 2 ^ 48) {as : List (CoreAction Msg)} (hfits : ∀ a ∈ as, a.Fits) :
    (∃ c m, exec (step env) (start mgr now mem) as = .ok c ∧
        run (Machine.coreStep env) (.start mgr now mem) as = some m ∧
        m.WellFormed env mgr ∧ ∃ lists, c.Refines mgr.poolSizeOrder m lists) ∨
      exec (step env) (start mgr now mem) as = .error .invalid ∧
        run (Machine.coreStep env) (.start mgr now mem) as = none := by
  have hsized := SessionManager.sized_of_init hinit hsize
  have hstep : ∀ {c : CoreMemory Msg} {m : Machine Msg} {a : CoreAction Msg},
      (m.WellFormed env mgr ∧ ∃ lists, c.Refines mgr.poolSizeOrder m lists) → a.Fits →
        (∃ c' m', c.step env a = .ok c' ∧ m.coreStep env a = some m' ∧
          m'.WellFormed env mgr ∧ ∃ lists, c'.Refines mgr.poolSizeOrder m' lists) ∨
        c.step env a = .error .invalid ∧ m.coreStep env a = none := by
    rintro c m a ⟨hwf, lists, hR⟩ hfit
    rcases hR.step hwf hsized hfit with ⟨m', c', lists', hm, hc, hR'⟩ | ⟨hm, hc⟩
    · exact Or.inl ⟨c', m', hc, hm, hwf.step hm, lists', hR'⟩
    · exact Or.inr ⟨hc, hm⟩
  exact exec_agrees (R := fun (c : CoreMemory Msg) (m : Machine Msg) =>
    m.WellFormed env mgr ∧ ∃ lists, c.Refines mgr.poolSizeOrder m lists) hstep
    ⟨Machine.wellFormed_start hinit, _, refines_start hinit⟩ hfits

variable (env) in
/-- A core with its lists in memory goes through the same actions as one with plain lists, makes
the same callbacks, and never makes an invalid access of its own; no buffer is leaked. -/
theorem acts_as_plain (hinit : SessionManager.init size core rand memory = some mgr)
    (hsize : size.toNat ≤ 2 ^ 48) {as : List (CoreAction Msg)} (hfits : ∀ a ∈ as, a.Fits) :
    (∃ c m, exec (step env) (start mgr now mem) as = .ok c ∧
        run (Machine.coreStep env) (.start mgr now mem) as = some m ∧
        c.ActsAs mgr.poolSizeOrder m) ∨
      exec (step env) (start mgr now mem) as = .error .invalid ∧
        run (Machine.coreStep env) (.start mgr now mem) as = none := by
  refine (refines_run env hinit hsize hfits).imp_left ?_
  rintro ⟨c, m, hexec, hrun, -, lists, hR⟩
  exact ⟨c, m, hexec, hrun, hR.actsAs⟩

/-- A routing callback that adds `n` endpoints. -/
def routeTo (n : ℕ) : RpcCore.OnServiceRouting Msg := fun _ _ _ =>
  (true, (List.range n).map fun i => ⟨1, UInt16.ofNat i⟩)

/-- The endpoints of a call are copied into the slot, three of them into its cache and two into the
heap, and read from there until all of them have failed; another call is made inside a `done`. -/
def sampleCalls : List (CoreAction Unit) :=
  [.callMethod pingMethod 0 1 10 (some (routeTo 5)), .onSendRequestFailed 0x1000000000001,
    .onSendRequestFailed 0x1000000000001, .ret, .ret, .ret, .callMethod pingMethod 2 3 11 none,
    .callMethod pingMethod 2 3 12 (some (routeTo 4)), .ret, .ret,
    .onSendRequestFailed 0x1000000000001, .ret, .onSendRequestFailed 0x1000000000001, .ret,
    .onSendRequestFailed 0x1000000000001, .ret]

theorem sampleCalls_fit : ∀ a ∈ sampleCalls, a.Fits := by
  have hfits : ∀ n ≤ 5, ∀ (service method : Str) (msg : Unit),
      (routeTo n service method msg).2.length ≤ maxListSize := by
    intro n hn service method msg
    have hle : 5 ≤ maxListSize := by decide
    simpa [routeTo] using hn.trans hle
  simpa [sampleCalls, CoreAction.Fits] using And.intro (hfits 5 le_rfl) (hfits 4 (by decide))

theorem sampleCalls_countable : ∀ a ∈ sampleCalls, a.Countable := by
  simp [sampleCalls, CoreAction.Countable, routeTo]

theorem acts_as_plain_sample : ∃ c m,
    exec (step emptyEnv) (start Machine.pairManager 0 fun _ => ()) sampleCalls = .ok c ∧
      c.ActsAs 1 m ∧ c.core.log.length = 8 ∧ c.frames = [] := by
  have hreplay : (run (Machine.coreStep emptyEnv) (.start Machine.pairManager 0 fun _ => ())
      sampleCalls).map (fun m => decide (m.log.length = 8 ∧ m.stack = [])) = some true := by
    decide +kernel
  obtain ⟨m', hrun', hp⟩ := Option.map_eq_some_iff.mp hreplay
  obtain ⟨hlen, hidle⟩ := of_decide_eq_true hp
  rcases acts_as_plain emptyEnv Machine.pairManager_init (by decide) sampleCalls_fit with
    ⟨c, m, hexec, hrun, hacts⟩ | ⟨-, hnone⟩
  · obtain rfl := Option.some.inj (hrun.symm.trans hrun')
    exact ⟨c, m, hexec, hacts, by rw [hacts.log, hlen], hacts.idle hidle⟩
  · rw [hrun'] at hnone
    cases hnone

/-! ## The table of pending calls -/

/-- The plain actions of a run. -/
theorem exists_actions {as : List (CoreAction Msg)} (hcount : ∀ a ∈ as, a.Countable)
    (h : run (Machine.coreStep env) m as = some m') :
    ∃ bs, List.Forall₂ (fun a b => ∃ mem, b = a.toAction mem) as bs ∧
      (∀ b ∈ bs, b.Countable) ∧ run (Machine.step env) m bs = some m' := by
  induction as generalizing m with
  | nil => exact ⟨[], .nil, by simp, h⟩
  | cons a as ih =>
    obtain ⟨m₁, hstep, hrest⟩ := run_cons_eq_some.mp h
    obtain ⟨bs, hall, hok, hrun⟩ := ih (fun b hb => hcount b (List.mem_cons_of_mem a hb)) hrest
    refine ⟨_, .cons ⟨m.st.mem, rfl⟩ hall, List.forall_mem_cons.mpr ⟨?_, hok⟩,
      run_cons_eq_some.mpr ⟨m₁, hstep, hrun⟩⟩
    exact (hcount a List.mem_cons_self).toAction _

/-- The three levels: what a core with its lists in memory shows is a run of the table of pending
calls. -/
theorem implements_table (hinit : SessionManager.init size core rand memory = some mgr)
    (hsize : size.toNat ≤ 2 ^ 48) (hcore : (core.toNat + 1) % 2 ^ 16 ≠ 0)
    {as : List (CoreAction Msg)} (hfits : ∀ a ∈ as, a.Fits) (hcount : ∀ a ∈ as, a.Countable)
    (hexec : exec (step env) (start mgr now mem) as = .ok c) :
    ∃ bs t, List.Forall₂ (fun a b => ∃ mem, b = a.toAction mem) as bs ∧
      Runs (PendingCalls.Step env (2 ^ mgr.poolSizeOrder)) (.initial mem) bs t ∧
      t.log = c.core.log.filterMap Callback.observed := by
  obtain ⟨m, hrun, lists, hR⟩ : ∃ m, run (Machine.coreStep env) (.start mgr now mem) as = some m ∧
      ∃ lists, c.Refines mgr.poolSizeOrder m lists := by
    rcases refines_run env hinit hsize hfits with ⟨c', m, hc', hrun, -, hR⟩ | ⟨herror, -⟩
    · obtain rfl := Except.ok.inj (hexec.symm.trans hc')
      exact ⟨m, hrun, hR⟩
    · rw [hexec] at herror
      cases herror
  obtain ⟨bs, hall, hok, hrun'⟩ := exists_actions hcount hrun
  obtain ⟨t, hruns, himp⟩ := (Machine.implements_start hinit).run (Machine.wellFormed_start hinit)
    (SessionManager.sized_of_init hinit hsize) (by rwa [SessionManager.init_nextRpcId_div hinit])
    hok hrun'
  exact ⟨bs, t, hall, hruns, himp.log.trans (congrArg _ hR.actsAs.log.symm)⟩

theorem implements_table_sample : ∃ bs t,
    List.Forall₂ (fun a b => ∃ mem, b = a.toAction mem) sampleCalls bs ∧
      Runs (PendingCalls.Step emptyEnv 2) (.initial fun _ => ()) bs t ∧
      t.log.map (fun o => decide (o = .answered 10 .kTimeout ∨ o = .answered 11 .kNoRoute)) =
        [true, false, false, false, true, false, false, false] := by
  have hreplay : ((exec (step emptyEnv) (start Machine.pairManager 0 fun _ => ())
      sampleCalls).toOption.map fun c => (c.core.log.filterMap Callback.observed).map
        fun o => decide (o = .answered 10 .kTimeout ∨ o = .answered 11 .kNoRoute)) =
      some [true, false, false, false, true, false, false, false] := by
    decide +kernel
  obtain ⟨c, hc, hlog⟩ := Option.map_eq_some_iff.mp hreplay
  obtain ⟨bs, t, hall, hruns, hobserved⟩ := implements_table Machine.pairManager_init (by decide)
    (by decide) sampleCalls_fit sampleCalls_countable (toOption_eq_some.mp hc)
  exact ⟨bs, t, hall, hruns, hobserved ▸ hlog⟩

end CoreMemory

end HyperRpc
