import HyperRpc.Session.Pool
import HyperRpc.Session.Reentrancy
import HyperRpc.Spec.PendingCalls

/-!
# The manager implements the table of pending calls

A slot stands for a call of the table: the id, what the caller passed and, until `done` starts, the
endpoints behind the attempt counter. Every run of the manager is one of the table with the same
actions, in which callers and network see the same (`implements_pendingCalls`), provided that no
accepted list has 65536 endpoints, which the attempt counter cannot count.
-/
namespace HyperRpc

open Lib

/-- What the callback is for those outside. -/
def Callback.observed : Callback → Option Observed
  | .onSendRequest method request rpcId addr _ => some (.sent method request rpcId addr)
  | .done closure result _ => closure.map fun c => .answered c result

/-- The list of endpoints of an `AddSession` is not the one that is just too long to count. -/
def Action.Countable {Msg : Type} : Action Msg → Prop
  | .addSession _ _ _ endpoints _ => endpoints.length ≠ 65536
  | _ => True

namespace Machine

variable {Msg : Type} {env : SessionEnv Msg} {m m' : Machine Msg} {mgr : SessionManager}
  {t : PendingCalls Msg} {i : ℕ} {call : PendingCall}

/-- The id that is free when the callback returns. -/
def freedId (m : Machine Msg) (cb : Callback) : Option UInt64 :=
  cb.slot?.map fun i => (m.node i).rpcId

/-- Slot `i` stands for the call. -/
structure StandsFor (m : Machine Msg) (i : ℕ) (call : PendingCall) : Prop where
  done : (m.node i).done = some call.done
  method : (m.node i).method = call.method
  request : (m.node i).request = call.request
  response : (m.node i).response = call.response
  untried : m.Quiet i →
    call.untried = (m.node i).endpointList.drop ((m.node i).endpointIndex.toNat + 1)
  tried : m.Quiet i → (m.node i).endpointIndex.toNat < (m.node i).endpointList.length
  short : (m.node i).endpointList.length < 65536

structure Implements (m : Machine Msg) (t : PendingCalls Msg) : Prop where
  calls : ∀ i, m.Live i → ∃ call, t.calls (m.node i).rpcId = some call ∧ m.StandsFor i call
  known : ∀ x call, t.calls x = some call → ∃ i, m.Live i ∧ (m.node i).rpcId = x
  running : t.running = m.stack.map m.freedId
  mem : t.mem = m.st.mem
  log : t.log = m.log.filterMap Callback.observed

/-! ## Steps that leave the slots alone -/

theorem Steady.freedId (h : m.Steady m') : m'.freedId = m.freedId := by
  funext cb
  cases hslot : cb.slot? <;> simp [Machine.freedId, hslot, h.rpcId]

/-- What the caller passed stays in the slot. -/
theorem Steady.fields (h : m.Steady m') (i : ℕ) :
    (m'.node i).method = (m.node i).method ∧ (m'.node i).request = (m.node i).request ∧
      (m'.node i).response = (m.node i).response ∧
      (m'.node i).endpointList = (m.node i).endpointList := by
  have hview := h.view i
  simp only [SessionNode.view, SessionNode.mk.injEq] at hview
  obtain ⟨-, hmethod, hrequest, hresponse, -, -, -, hlist⟩ := hview
  exact ⟨hmethod, hrequest, hresponse, hlist⟩

theorem StandsFor.steady (h : m.StandsFor i call) (hs : m.Steady m')
    (hquiet : m'.Quiet i → m.Quiet i ∧ (m'.node i).endpointIndex = (m.node i).endpointIndex) :
    m'.StandsFor i call := by
  obtain ⟨hmethod, hrequest, hresponse, hlist⟩ := hs.fields i
  constructor
  · rw [hs.done, h.done]
  · rw [hmethod, h.method]
  · rw [hrequest, h.request]
  · rw [hresponse, h.response]
  · intro hq
    obtain ⟨hq, hindex⟩ := hquiet hq
    rw [hlist, hindex, h.untried hq]
  · intro hq
    obtain ⟨hq, hindex⟩ := hquiet hq
    rw [hlist, hindex]
    exact h.tried hq
  · exact hlist ▸ h.short

/-- The slots stand for the same calls after a step that changes none of them but may start a
callback. -/
theorem Implements.calls_of_steady (h : m.Implements t) (hs : m.Steady m')
    (hquiet : ∀ i, m'.Quiet i → m.Quiet i ∧
      (m'.node i).endpointIndex = (m.node i).endpointIndex) :
    ∀ i, m'.Live i → ∃ call, t.calls (m'.node i).rpcId = some call ∧ m'.StandsFor i call := by
  intro i hi
  obtain ⟨call, hcall, hstands⟩ := h.calls i ((hs.live i).mp hi)
  exact ⟨call, hs.rpcId i ▸ hcall, hstands.steady hs (hquiet i)⟩

theorem Implements.known_of_steady (h : m.Implements t) (hs : m.Steady m') :
    ∀ x call, t.calls x = some call → ∃ i, m'.Live i ∧ (m'.node i).rpcId = x := by
  intro x call hx
  obtain ⟨i, hlive, hid⟩ := h.known x call hx
  exact ⟨i, (hs.live i).mpr hlive, (hs.rpcId i).trans hid⟩

/-- Nothing starts or returns. -/
theorem Implements.calm (h : m.Implements t) (hc : m.Calm m') (hstack : m'.stack = m.stack)
    (hlog : m'.log = m.log) : m'.Implements { t with mem := m'.st.mem } where
  calls := h.calls_of_steady hc.toSteady fun i hi =>
    ⟨quiet_of_stack hc.toSteady (fun _ hcb _ => hstack ▸ hcb) hi, hc.index i⟩
  known := h.known_of_steady hc.toSteady
  running := by rw [hstack, hc.toSteady.freedId, ← h.running]
  mem := rfl
  log := hlog ▸ h.log

/-- A callback starts that works for no slot. -/
theorem Implements.observe (h : m.Implements t) (cb : Callback) {o : Observed} (hc : m.Calm m')
    (hslot : cb.slot? = none) (ho : cb.observed = some o) (hstack : m'.stack = cb :: m.stack)
    (hlog : m'.log = cb :: m.log) (hmem : m'.st.mem = m.st.mem) : m'.Implements (t.observe o) where
  calls := h.calls_of_steady hc.toSteady fun i hi =>
    ⟨quiet_of_stack hc.toSteady (fun _ hcb _ => hstack ▸ List.mem_cons_of_mem _ hcb) hi,
      hc.index i⟩
  known := h.known_of_steady hc.toSteady
  running := by
    rw [hstack, List.map_cons, hc.toSteady.freedId, Machine.freedId, hslot, Option.map_none]
    exact congrArg (List.cons none) h.running
  mem := h.mem.trans hmem.symm
  log := by
    rw [hlog, List.filterMap_cons, ho]
    exact congrArg (List.cons o) h.log

/-- A callback returns that works for no slot. -/
theorem Implements.pop (h : m.Implements t) {cb : Callback} {rest : List Callback}
    (hstack : m.stack = cb :: rest) (hslot : cb.slot? = none) :
    ({ m with stack := rest } : Machine Msg).Implements t.pop := by
  have hs : m.Steady { m with stack := rest } :=
    Calm.toSteady (calm_of_nodes rfl (.refl _) rfl fun _ => id)
  refine ⟨h.calls_of_steady hs fun i hi => ⟨quiet_of_stack hs ?_ hi, rfl⟩, h.known_of_steady hs, ?_,
    h.mem, h.log⟩
  · intro cb' hcb' hne
    rw [hstack] at hcb'
    rcases List.mem_cons.mp hcb' with rfl | hcb'
    · exact absurd hslot hne
    · exact hcb'
  · rw [PendingCalls.pop, h.running, hstack]
    rfl

/-! ## Steps of one slot -/

theorem Implements.accept {method : MethodDescriptor} {request response : MsgRef} {first : Addr}
    {rest : List Addr} {d : Closure} {j : ℕ} (h : m.Implements t) (hS : m.StackInv m.stack)
    (hT : m.TableInv) (hlen : (first :: rest).length < 65536) (hfree : m.st.mgr.FirstFree j i)
    (hx0 : (m.st.mgr.advance (j + 1)).nextRpcId ≠ 0) :
    t.calls (m.st.mgr.advance (j + 1)).nextRpcId = none ∧
      (m.accept env method request response (first :: rest) d j i).Implements
        ((t.set (m.st.mgr.advance (j + 1)).nextRpcId
          (some ⟨d, method, request, response, rest⟩)).observe
            (.sent method request (m.st.mgr.advance (j + 1)).nextRpcId first)) := by
  generalize hx : (m.st.mgr.advance (j + 1)).nextRpcId = x at hx0
  have hslot : m.st.mgr.slotOf x = i := hx ▸ hfree.slot
  have hne : ∀ k, m.Live k → k ≠ i := by
    rintro k hk rfl
    exact hk hfree.free
  have hfresh : ∀ k, m.Live k → (m.node k).rpcId ≠ x := by
    intro k hk heq
    exact hne k hk ((hT.slot k hk).symm.trans ((congrArg _ heq).trans hslot))
  have hnone : t.calls x = none := by
    cases hcall : t.calls x with
    | none => rfl
    | some call =>
      obtain ⟨k, hk, hid⟩ := h.known x call hcall
      exact absurd hid (hfresh k hk)
  refine ⟨hnone, ?_, ?_, ?_, h.mem, ?_⟩
  · intro k hk
    by_cases hki : k = i
    · subst hki
      refine ⟨⟨d, method, request, response, rest⟩, ?_, ?_⟩
      · rw [accept_node_self, hx]
        exact Function.update_self ..
      · constructor <;> rw [accept_node_self]
        · intro _
          rfl
        · intro _
          simp
        · exact hlen
    · have hk' : m.Live k := by rwa [Live, accept_node_of_ne hki] at hk
      obtain ⟨call, hcall, hstands⟩ := h.calls k hk'
      refine ⟨call, ?_, ?_⟩
      · rw [accept_node_of_ne hki]
        exact (Function.update_of_ne (hfresh k hk') _ _).trans hcall
      · have hquiet : (m.accept env method request response (first :: rest) d j i).Quiet k →
            m.Quiet k := fun hq => ⟨hk', fun cb hcb => hq.2 cb (List.mem_cons_of_mem _ hcb)⟩
        constructor <;> rw [accept_node_of_ne hki]
        exacts [hstands.done, hstands.method, hstands.request, hstands.response,
          fun hq => hstands.untried (hquiet hq), fun hq => hstands.tried (hquiet hq),
          hstands.short]
  · intro y call hy
    by_cases hyx : y = x
    · subst hyx
      exact ⟨i, by rwa [Live, accept_node_self, hx], by rw [accept_node_self, hx]⟩
    · obtain ⟨k, hk, hid⟩ := h.known y call ((Function.update_of_ne hyx _ _).symm.trans hy)
      refine ⟨k, ?_, ?_⟩
      · rwa [Live, accept_node_of_ne (hne k hk)]
      · rw [accept_node_of_ne (hne k hk), hid]
  · -- the slots of the running callbacks are occupied, so they are others
    have hsame : ∀ cb ∈ m.stack,
        (m.accept env method request response (first :: rest) d j i).freedId cb = m.freedId cb := by
      intro cb hcb
      cases hcbslot : cb.slot? with
      | none => simp [freedId, hcbslot]
      | some k =>
        have hki := hne k (hS.held cb hcb k hcbslot).1
        simp [freedId, hcbslot, accept_node_of_ne hki]
    have hrunning := h.running.trans (List.map_congr_left hsame).symm
    exact congrArg (List.cons none) hrunning
  · rw [← hx]
    exact congrArg (List.cons _) h.log

/-- A quiet slot stands for a call that waits. -/
theorem Implements.waiting (h : m.Implements t) (hS : m.StackInv m.stack) (hT : m.TableInv)
    (hquiet : m.Quiet i) :
    ∃ call, t.Waiting (m.node i).rpcId call ∧ m.StandsFor i call := by
  obtain ⟨call, hcall, hstands⟩ := h.calls i hquiet.1
  refine ⟨call, ⟨hcall, fun hmem => ?_⟩, hstands⟩
  rw [h.running] at hmem
  obtain ⟨cb, hcb, hid⟩ := List.mem_map.mp hmem
  obtain ⟨k, hk, hid⟩ := Option.map_eq_some_iff.mp hid
  have hlive := (hS.held cb hcb k hk).1
  have hki : k = i := by rw [← hT.slot k hlive, ← hT.slot i hquiet.1, hid]
  exact hquiet.2 cb hcb (hki ▸ hk)

/-- The attempt counter of a quiet slot does not wrap. -/
theorem StandsFor.bumped (h : m.StandsFor i call) (hquiet : m.Quiet i) :
    (m.bumped i).endpointIndex.toNat = (m.node i).endpointIndex.toNat + 1 := by
  have htried := h.tried hquiet
  have hshort := h.short
  rw [Machine.bumped, UInt16.toNat_add, UInt16.toNat_one]
  omega

/-- A send failed; the next endpoint is tried. -/
theorem Implements.retry (h : m.Implements t) (hS : m.StackInv m.stack) (hT : m.TableInv)
    (hquiet : m.Quiet i)
    (hidx : (m.bumped i).endpointIndex.toNat < (m.node i).endpointList.length) :
    ∃ call addr rest, t.Waiting (m.node i).rpcId call ∧ call.untried = addr :: rest ∧
      ((m.setNode i (m.bumped i)).push (m.retrySend i)).Implements
        ((t.set (m.node i).rpcId (some { call with untried := rest })).observe
          (.sent call.method call.request (m.node i).rpcId addr)) := by
  obtain ⟨call, hwaits, hstands⟩ := h.waiting hS hT hquiet
  have hbump := hstands.bumped hquiet
  have hcons := List.drop_eq_getElem_cons hidx
  have hs : m.Steady ((m.setNode i (m.bumped i)).push (m.retrySend i)) :=
    steady_of_update rfl rfl rfl rfl
  have hindex : ∀ k, (((m.setNode i (m.bumped i)).push (m.retrySend i)).node k).endpointIndex =
      if k = i then (m.bumped i).endpointIndex else (m.node k).endpointIndex :=
    index_of_update rfl
  have hback : ∀ k, ((m.setNode i (m.bumped i)).push (m.retrySend i)).Quiet k → m.Quiet k :=
    fun k hk => quiet_of_stack hs (fun _ hcb _ => List.mem_cons_of_mem _ hcb) hk
  refine ⟨call, _, _, hwaits, by rw [hstands.untried hquiet, ← hbump]; exact hcons, ?_, ?_, ?_,
    h.mem, ?_⟩
  · intro k hk
    have hlive := (hs.live k).mp hk
    by_cases hki : k = i
    · subst hki
      obtain ⟨hmethod, hrequest, hresponse, hlist⟩ := hs.fields k
      refine ⟨{ call with untried :=
        (m.node k).endpointList.drop ((m.bumped k).endpointIndex.toNat + 1) }, ?_, ?_⟩
      · rw [hs.rpcId]
        exact Function.update_self ..
      constructor
      · rw [hs.done, hstands.done]
      · rw [hmethod, hstands.method]
      · rw [hrequest, hstands.request]
      · rw [hresponse, hstands.response]
      · intro _
        rw [hlist, hindex, if_pos rfl]
      · intro _
        rw [hlist, hindex, if_pos rfl]
        exact hidx
      · exact hlist ▸ hstands.short
    · obtain ⟨call', hcall', hstands'⟩ := h.calls k hlive
      have hne : (m.node k).rpcId ≠ (m.node i).rpcId := by
        intro heq
        exact hki (by rw [← hT.slot k hlive, heq, hT.slot i hquiet.1])
      refine ⟨call', ?_, hstands'.steady hs fun hq => ⟨hback k hq, ?_⟩⟩
      · rw [hs.rpcId]
        exact (Function.update_of_ne hne _ _).trans hcall'
      · rw [hindex, if_neg hki]
  · intro y call' hy
    by_cases hyi : y = (m.node i).rpcId
    · exact ⟨i, (hs.live i).mpr hquiet.1, (hs.rpcId i).trans hyi.symm⟩
    · exact h.known_of_steady hs y call' ((Function.update_of_ne hyi _ _).symm.trans hy)
  · show _ = List.map _ (m.retrySend i :: m.stack)
    rw [List.map_cons, hs.freedId, ← h.running]
    rfl
  · have haddr : getEndpoint (m.node i).endpointList (m.bumped i).endpointIndex.toNat =
        (m.node i).endpointList[(m.bumped i).endpointIndex.toNat] :=
      List.getD_eq_getElem _ _ hidx
    show _ = List.filterMap _ (m.retrySend i :: m.log)
    rw [List.filterMap_cons, retrySend, Callback.observed, haddr, hstands.method, hstands.request]
    exact congrArg (List.cons _) h.log

/-- The `done` of the session in slot `i` starts. -/
theorem Implements.complete (h : m.Implements t) (hstands : m.StandsFor i call) (hs : m.Steady m')
    (hindex : ∀ k ≠ i, (m'.node k).endpointIndex = (m.node k).endpointIndex)
    {site : DoneSite} {r : Result} (hslot : site.slot? = some i)
    (hstack : m'.stack = .done (m.node i).done r site :: m.stack)
    (hlog : m'.log = .done (m.node i).done r site :: m.log) :
    m'.Implements (({ t with mem := m'.st.mem }).complete (m.node i).rpcId call r) := by
  refine ⟨h.calls_of_steady hs fun k hk => ?_, h.known_of_steady hs, ?_, rfl, ?_⟩
  · have hki : k ≠ i := by
      rintro rfl
      exact hk.2 (.done (m.node k).done r site) (hstack ▸ List.mem_cons_self) hslot
    exact ⟨quiet_of_stack hs (fun _ hcb _ => hstack ▸ List.mem_cons_of_mem _ hcb) hk, hindex k hki⟩
  · rw [hstack, List.map_cons, hs.freedId, ← h.running, freedId, Callback.slot?, hslot]
    rfl
  · rw [hlog, List.filterMap_cons, Callback.observed, hstands.done, ← h.log]
    rfl

/-- The `done` of the session in slot `i` returns. -/
theorem Implements.close (h : m.Implements t) (hS : m.StackInv m.stack) (hT : m.TableInv)
    {cb : Callback} {rest : List Callback} {cancel : Bool} (hstack : m.stack = cb :: rest)
    (hslot : cb.slot? = some i) :
    t.running.head? = some (some (m.node i).rpcId) ∧
      (m.close env cancel i rest).Implements (t.pop.set (m.node i).rpcId none) := by
  have hrunning : t.running = some (m.node i).rpcId :: rest.map m.freedId := by
    rw [h.running, hstack, List.map_cons, freedId, hslot]
    rfl
  rw [hstack] at hS
  obtain ⟨hlive, hdone⟩ := hS.held cb List.mem_cons_self i hslot
  have happ := (List.pairwise_cons.mp hS.apart).1
  have hnode : ∀ {k}, k ≠ i → (m.close env cancel i rest).node k = m.node k := close_node_of_ne
  have hne : ∀ k, k ≠ i → m.Live k → (m.node k).rpcId ≠ (m.node i).rpcId := by
    intro k hki hk heq
    exact hki (by rw [← hT.slot k hk, heq, hT.slot i hlive])
  refine ⟨by rw [hrunning]; rfl, ?_, ?_, ?_, ?_, ?_⟩
  · intro k hk
    obtain ⟨hki, hlk⟩ := close_live.mp hk
    obtain ⟨call, hcall, hstands⟩ := h.calls k hlk
    have hquiet : (m.close env cancel i rest).Quiet k → m.Quiet k := by
      intro hq
      refine ⟨hlk, fun cb' hcb' => ?_⟩
      rw [hstack] at hcb'
      rcases List.mem_cons.mp hcb' with rfl | hcb'
      · exact fun heq => hki (Option.some.inj (heq.symm.trans hslot))
      · exact hq.2 cb' hcb'
    refine ⟨call, ?_, ?_⟩
    · rw [hnode hki]
      exact (Function.update_of_ne (hne k hki hlk) _ _).trans hcall
    · constructor <;> rw [hnode hki]
      exacts [hstands.done, hstands.method, hstands.request, hstands.response,
        fun hq => hstands.untried (hquiet hq), fun hq => hstands.tried (hquiet hq), hstands.short]
  · intro y call hy
    have hyi : y ≠ (m.node i).rpcId := by
      rintro rfl
      simp [PendingCalls.set] at hy
    obtain ⟨k, hk, hid⟩ := h.known y call ((Function.update_of_ne hyi _ _).symm.trans hy)
    have hki : k ≠ i := by
      rintro rfl
      exact hyi hid.symm
    exact ⟨k, close_live.mpr ⟨hki, hk⟩, by rw [hnode hki, hid]⟩
  · have hsame : ∀ low ∈ rest, (m.close env cancel i rest).freedId low = m.freedId low := by
      intro low hlow
      cases hlowslot : low.slot? with
      | none => simp [freedId, hlowslot]
      | some k =>
        have hki : k ≠ i := by
          rintro rfl
          have hdk := (hS.held low (List.mem_cons_of_mem _ hlow) k hlowslot).2
          exact happ low hlow (Callback.sendId_of_slot hlowslot) (hdone.symm.trans hdk)
        simp [freedId, hlowslot, hnode hki]
    show (t.running.tail : List (Option UInt64)) = _
    rw [hrunning]
    exact (List.map_congr_left hsame).symm
  · cases cancel <;> exact h.mem
  · exact h.log

/-! ## Runs -/

/-- All slots are occupied when the probing loop finds none that is free. -/
theorem Implements.full (h : m.Implements t) (hT : m.TableInv) (hsized : m.st.mgr.Sized)
    (hfull : ∀ j < 2 ^ m.st.mgr.poolSizeOrder, m.Live (m.st.mgr.probe j)) :
    t.Full (2 ^ m.st.mgr.poolSizeOrder) := by
  have hlive : ∀ i < 2 ^ m.st.mgr.poolSizeOrder, m.Live i := by
    intro i hi
    obtain ⟨j, ⟨hj, rfl⟩, -⟩ := hsized.existsUnique_probe hi
    exact hfull j hj
  refine ⟨(Finset.range (2 ^ m.st.mgr.poolSizeOrder)).image fun i => (m.node i).rpcId, ?_, ?_⟩
  · rw [Finset.card_image_of_injOn, Finset.card_range]
    intro i hi k hk heq
    have hi' := hlive i (Finset.mem_range.mp hi)
    have hk' := hlive k (Finset.mem_range.mp hk)
    rw [← hT.slot i hi', ← hT.slot k hk']
    exact congrArg _ heq
  · intro x hx
    obtain ⟨i, hi, rfl⟩ := Finset.mem_image.mp hx
    obtain ⟨call, hcall, -⟩ := h.calls i (hlive i (Finset.mem_range.mp hi))
    simp [hcall]

/-- A session the transport reports on is not being completed. -/
theorem Consistent.quiet_of_found (hC : m.Consistent) {x : UInt64} (hrep : m.mayReport x)
    (hne : x ≠ 0) (hfind : m.st.mgr.findSessionNode x = some i) :
    m.Quiet i ∧ (m.node i).rpcId = x := by
  obtain ⟨hlive, hid⟩ := found hne hfind
  rw [← hid] at hrep
  refine ⟨⟨hlive, fun cb hcb hslot => ?_⟩, hid⟩
  exact hC.stack.idle hlive hrep cb hcb (Callback.sendId_of_slot hslot)
    (hC.stack.held cb hcb i hslot).2

/-- An id under which no slot is found is not in the table. -/
theorem Implements.unknown (h : m.Implements t) (hT : m.TableInv) {x : UInt64}
    (hfind : m.st.mgr.findSessionNode x = none) : t.calls x = none := by
  cases hcall : t.calls x with
  | none => rfl
  | some call =>
    obtain ⟨i, hlive, hid⟩ := h.known x call hcall
    refine absurd ?_ (m.st.mgr.findSessionNode_eq_none.mp hfind)
    have hslot := hT.slot i hlive
    rw [hid] at hslot
    rwa [hslot]

theorem Implements.parsed (h : m.Implements t) (hstands : m.StandsFor i call)
    {respBody : List UInt8} :
    (m.parsed env i respBody).2 = true ↔ t.Parses env call respBody := by
  rw [PendingCalls.Parses, h.mem, ← hstands.response]
  rfl

theorem Implements.parse (h : m.Implements t) (hstands : m.StandsFor i call)
    {respBody : List UInt8} :
    t.parse env call respBody = { t with mem := (m.parseInto env i respBody).st.mem } := by
  rw [PendingCalls.parse, h.mem, ← hstands.response]
  rfl

theorem Implements.step (h : m.Implements t) (hwf : m.WellFormed env mgr) (hsized : mgr.Sized)
    (hcore : mgr.nextRpcId.toNat / 2 ^ kRpcIdSeqPartBits ≠ 0) {a : Action Msg}
    (hok : a.Countable) (hstep : m.step env a = some m') :
    ∃ t', t.Step env (2 ^ mgr.poolSizeOrder) a t' ∧ m'.Implements t' := by
  have hC := hwf.consistent
  have hids := (hwf.step hstep).rpcId_ne_zero hcore
  have hself : ({ t with mem := m.st.mem } : PendingCalls Msg) = t := by rw [← h.mem]
  have hcalm : ∀ {m₁ : Machine Msg}, m.Calm m₁ → m₁.stack = m.stack → m₁.log = m.log →
      m₁.st.mem = m.st.mem → m₁.Implements t := fun hc hstack hlog hmem => by
    have himp := h.calm hc hstack hlog
    rwa [hmem, hself] at himp
  have hsame : ∀ {m₁ : Machine Msg} {x call r},
      m₁.Implements (({ t with mem := m.st.mem }).complete x call r) →
        m₁.Implements (t.complete x call r) := fun h => by rwa [hself] at h
  cases step_trans hstep with
  | tooLong _ _ hlen =>
    exact ⟨t, .drop hlen, hcalm (calm_of_nodes rfl (.refl _) rfl fun _ =>
      List.mem_cons_of_mem _) rfl rfl rfl⟩
  | poolFull _ _ _ hfull =>
    rw [← hwf.size.1]
    refine ⟨_, .refuse (h.full hC.table (hwf.sized hsized) hfull), ?_⟩
    refine h.observe (.done (some _) .kInError .refused) ?_ rfl rfl rfl rfl rfl
    exact calm_of_nodes (by simp) ⟨_, rfl, by simp, by simp, by simp⟩ rfl
      fun _ => List.mem_cons_of_mem _
  | accepted _ _ hne hlen hfree =>
    obtain ⟨first, rest, rfl⟩ := List.exists_cons_of_ne_nil hne
    have hx0 := hids _ List.mem_cons_self
    obtain ⟨hnew, himp⟩ := h.accept hC.stack hC.table (lt_of_le_of_ne hlen hok) hfree hx0
    exact ⟨_, .accept hlen hx0 hnew, himp⟩
  | noRoute =>
    refine ⟨_, .noRoute, h.observe (.done (some _) .kNoRoute .noRoute) ?_ rfl rfl rfl rfl rfl⟩
    exact calm_of_nodes rfl (.refl _) rfl fun _ => List.mem_cons_of_mem _
  | failUnknown _ _ hnone => exact ⟨t, .failStale (h.unknown hC.table hnone), h⟩
  | failRetry hrep hne hfind hidx =>
    obtain ⟨hquiet, rfl⟩ := hC.quiet_of_found hrep hne hfind
    obtain ⟨call, addr, rest, hwaits, hnext, himp⟩ := h.retry hC.stack hC.table hquiet hidx
    exact ⟨_, .retry hwaits hnext, himp⟩
  | @failLast x i hrep hne hfind hidx =>
    obtain ⟨hquiet, rfl⟩ := hC.quiet_of_found hrep hne hfind
    obtain ⟨call, hwaits, hstands⟩ := h.waiting hC.stack hC.table hquiet
    have hs : m.Steady ((m.setNode i (m.bumped i)).push
        (.done (m.node i).done .kTimeout (.lastEndpoint i))) :=
      steady_of_update rfl rfl rfl rfl
    refine ⟨_, .exhaust hwaits ?_, hsame (h.complete hstands hs
      (fun k hk => (index_of_update rfl k).trans (if_neg hk)) rfl rfl rfl)⟩
    rw [hstands.untried hquiet, List.drop_eq_nil_iff, ← hstands.bumped hquiet]
    exact hidx
  | @respIgnored service method x _ _ hrep hne hbad =>
    refine ⟨t, .respondStale fun call hcall hnamed => ?_, h⟩
    rcases hbad with hnone | ⟨i, hfind, hnames⟩
    · rw [h.unknown hC.table hnone] at hcall
      cases hcall
    · obtain ⟨hquiet, rfl⟩ := hC.quiet_of_found hrep hne hfind
      obtain ⟨call', hcall', hstands⟩ := h.calls i hquiet.1
      obtain rfl := Option.some.inj (hcall.symm.trans hcall')
      rw [hstands.method] at hnames
      exact hnames.elim (absurd hnamed.1) (absurd hnamed.2)
  | @respUnparsed service method x result respBody i hrep hne hfind hnames hparse =>
    obtain ⟨hquiet, rfl⟩ := hC.quiet_of_found hrep hne hfind
    obtain ⟨call, hwaits, hstands⟩ := h.waiting hC.stack hC.table hquiet
    rw [hstands.method] at hnames
    refine ⟨_, .unparsed hwaits hnames (by simp [← h.parsed hstands, hparse]), ?_⟩
    rw [h.parse hstands]
    exact h.calm (calm_of_nodes rfl (.refl _) rfl fun _ => id) rfl rfl
  | @respDone service method x result respBody i hrep hne hfind hnames hparse =>
    obtain ⟨hquiet, rfl⟩ := hC.quiet_of_found hrep hne hfind
    obtain ⟨call, hwaits, hstands⟩ := h.waiting hC.stack hC.table hquiet
    rw [hstands.method] at hnames
    have hs : m.Steady ((m.parseInto env i respBody).push
        (.done (m.node i).done result (.response i))) :=
      Calm.toSteady (calm_of_nodes rfl (.refl _) rfl fun _ => id)
    refine ⟨_, .respond hwaits hnames ((h.parsed hstands).mp hparse), ?_⟩
    rw [h.parse hstands]
    exact h.complete hstands hs (fun _ _ => rfl) rfl rfl rfl
  | retLoose hstack hslot =>
    refine ⟨_, .ret ?_, h.pop hstack hslot⟩
    rw [h.running, hstack, List.map_cons, freedId, hslot]
    rfl
  | retClose hstack hslot =>
    obtain ⟨hhead, himp⟩ := h.close hC.stack hC.table hstack hslot
    exact ⟨_, .finish hhead, himp⟩
  | advance =>
    exact ⟨t, .advance, hcalm (calm_of_nodes rfl (.refl _) rfl fun _ => id) rfl rfl rfl⟩
  | collect => exact ⟨t, .collect, hcalm collect_calm rfl rfl rfl⟩
  | expireFree =>
    exact ⟨t, .expire, hcalm (calm_of_nodes rfl (.refl _) rfl fun _ => id) rfl rfl rfl⟩
  | @expireLive k e hstack hdue hlive =>
    have hquiet : m.Quiet e.slot := ⟨hlive, by simp [hstack]⟩
    obtain ⟨call, hwaits, hstands⟩ := h.waiting hC.stack hC.table hquiet
    have hs : m.Steady { m.push (.done (m.node e.slot).done .kTimeout (.timeout e.slot)) with
        st := { m.st with wheel := { m.st.wheel with due := m.st.wheel.due.eraseIdx k } } } :=
      Calm.toSteady (calm_of_nodes rfl (.refl _) rfl fun _ => id)
    exact ⟨_, .timeout hwaits, hsame (h.complete hstands hs (fun _ _ => rfl) rfl rfl rfl)⟩
  | write => exact ⟨_, .write, h.calm (calm_of_nodes rfl (.refl _) rfl fun _ => id) rfl rfl⟩

/-- Runs from any state that stands for a table. -/
theorem Implements.run (h : m.Implements t) (hwf : m.WellFormed env mgr) (hsized : mgr.Sized)
    (hcore : mgr.nextRpcId.toNat / 2 ^ kRpcIdSeqPartBits ≠ 0) {as : List (Action Msg)}
    (hok : ∀ a ∈ as, a.Countable) (hrun : Lib.run (Machine.step env) m as = some m') :
    ∃ t', Runs (PendingCalls.Step env (2 ^ mgr.poolSizeOrder)) t as t' ∧ m'.Implements t' := by
  have hstep : ∀ {s s' : Machine Msg} {t : PendingCalls Msg} {a : Action Msg},
      s.WellFormed env mgr ∧ s.Implements t → a.Countable → s.step env a = some s' →
        ∃ t', t.Step env (2 ^ mgr.poolSizeOrder) a t' ∧
          s'.WellFormed env mgr ∧ s'.Implements t' := by
    rintro s s' t a ⟨hwf, himp⟩ hok hstep
    obtain ⟨t', hspec, himp'⟩ := himp.step hwf hsized hcore hok hstep
    exact ⟨t', hspec, hwf.step hstep, himp'⟩
  obtain ⟨t', hruns, -, himp⟩ :=
    run_simulates (R := fun m t => m.WellFormed env mgr ∧ m.Implements t) hstep ⟨hwf, h⟩ hok hrun
  exact ⟨t', hruns, himp⟩

variable {size core : UInt64} {rand : UInt32} {memory : ℕ → SessionNode} {now : ℕ}
  {mem : MsgRef → Msg}

theorem implements_start (hinit : SessionManager.init size core rand memory = some mgr) :
    (start mgr now mem).Implements (.initial mem) where
  calls i hi := absurd ((SessionManager.init_fresh hinit).2 i).1 hi
  known x call hx := by cases hx
  running := rfl
  mem := rfl
  log := rfl

/-- Every run of a manager, nested or not, is one of the table of pending calls, in which every
action does the same to callers and network. -/
theorem implements_pendingCalls (hinit : SessionManager.init size core rand memory = some mgr)
    (hsize : size.toNat ≤ 2 ^ 48) (hcore : (core.toNat + 1) % 2 ^ 16 ≠ 0)
    {as : List (Action Msg)} (hok : ∀ a ∈ as, a.Countable)
    (h : Lib.run (step env) (start mgr now mem) as = some m) :
    ∃ t, Runs (PendingCalls.Step env (2 ^ mgr.poolSizeOrder)) (.initial mem) as t ∧
      m.Implements t :=
  (implements_start hinit).run (wellFormed_start hinit) (SessionManager.sized_of_init hinit hsize)
    (by rwa [SessionManager.init_nextRpcId_div hinit]) hok h

/-- A call moves to its second endpoint, another starts and the first one is answered: the table
has seen the same and still holds the other call. -/
theorem implements_pendingCalls_pair : ∃ t call,
    Runs (PendingCalls.Step emptyEnv 2) (.initial fun _ => ())
      [.addSession pingMethod 0 1 [⟨1, 1⟩, ⟨2, 2⟩] 10, .onSendRequestFailed 0x1000000000001, .ret,
        .ret, .addSession pingMethod 2 3 [⟨1, 1⟩] 11, .ret,
        .onRecvResponse [80] [112] 0x1000000000001 .kSuccess [], .ret] t ∧
      t.log = [.answered 10 .kSuccess, .sent pingMethod 2 0x1000000000002 ⟨1, 1⟩,
        .sent pingMethod 0 0x1000000000001 ⟨2, 2⟩, .sent pingMethod 0 0x1000000000001 ⟨1, 1⟩] ∧
      t.calls 0x1000000000002 = some call ∧ call.done = 11 := by
  have hreplay : (Lib.run (step emptyEnv) (start pairManager 0 fun _ => ())
      [.addSession pingMethod 0 1 [⟨1, 1⟩, ⟨2, 2⟩] 10, .onSendRequestFailed 0x1000000000001, .ret,
        .ret, .addSession pingMethod 2 3 [⟨1, 1⟩] 11, .ret,
        .onRecvResponse [80] [112] 0x1000000000001 .kSuccess [], .ret]).map (fun m => decide
      (m.log.filterMap Callback.observed =
        [.answered 10 .kSuccess, .sent pingMethod 2 0x1000000000002 ⟨1, 1⟩,
          .sent pingMethod 0 0x1000000000001 ⟨2, 2⟩, .sent pingMethod 0 0x1000000000001 ⟨1, 1⟩] ∧
        (m.node 0).rpcId = 0x1000000000002 ∧ (m.node 0).done = some 11)) = some true := by
    decide +kernel
  obtain ⟨m, hrun, hp⟩ := Option.map_eq_some_iff.mp hreplay
  obtain ⟨hlog, hid, hdone⟩ := of_decide_eq_true hp
  obtain ⟨t, hruns, himp⟩ := implements_pendingCalls pairManager_init (by decide) (by decide)
    (by simp [Action.Countable]) hrun
  obtain ⟨call, hcall, hstands⟩ := himp.calls 0 (by rw [Live, hid]; decide)
  refine ⟨t, call, hruns, himp.log.trans hlog, hid ▸ hcall, ?_⟩
  exact Option.some.inj (hstands.done.symm.trans hdone)

end Machine

end HyperRpc
