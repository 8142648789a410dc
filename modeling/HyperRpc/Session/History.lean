import HyperRpc.Session.Answers
import HyperRpc.Session.Reentrancy

/-!
# What a free slot remembers

`FreeSessionNode` clears the id and the closure of a node and leaves all else in it. Two managers
that differ in nothing but what their free slots hold, and in the time of their clocks, answer
every sequence of actions alike: `AddSession` overwrites a node before anything reads it, and
whether it adds a timer or resets one makes no difference to the wheel.
-/
namespace HyperRpc

open Lib

variable {Msg : Type}

/-! ## Managers -/

/-- The same sizes, counters and ids, and the same nodes in the occupied slots. The node in slot
`gap?`, if there is one, has been given its id but not been filled yet. -/
structure SessionManager.Alike (gap? : Option ℕ) (m₁ m₂ : SessionManager) : Prop where
  order : m₁.poolSizeOrder = m₂.poolSizeOrder
  mask : m₁.poolSizeMask = m₂.poolSizeMask
  counter : m₁.nextRpcId = m₂.nextRpcId
  ids : ∀ i, (m₁.sessPool i).rpcId = (m₂.sessPool i).rpcId
  nodes : ∀ i, gap? ≠ some i → (m₁.sessPool i).rpcId ≠ 0 → m₁.sessPool i = m₂.sessPool i

namespace SessionManager.Alike

variable {gap? : Option ℕ} {m₁ m₂ : SessionManager}

theorem slotOf (h : Alike gap? m₁ m₂) (x : UInt64) : m₁.slotOf x = m₂.slotOf x := by
  rw [SessionManager.slotOf, h.mask, SessionManager.slotOf]

theorem drawRpcId (h : Alike gap? m₁ m₂) : Alike gap? m₁.drawRpcId m₂.drawRpcId where
  order := h.order
  mask := h.mask
  counter := by rw [SessionManager.drawRpcId, SessionManager.drawRpcId, h.counter]
  ids := h.ids
  nodes := h.nodes

/-- The nodes written agree, if the slot is occupied then. -/
theorem setNode (h : Alike gap? m₁ m₂) {i : ℕ} (hgap : gap? = none ∨ gap? = some i)
    {n₁ n₂ : SessionNode} (hid : n₁.rpcId = n₂.rpcId) (heq : n₁.rpcId ≠ 0 → n₁ = n₂) :
    Alike none (m₁.setNode i n₁) (m₂.setNode i n₂) where
  order := h.order
  mask := h.mask
  counter := h.counter
  ids k := by
    rw [setNode_sessPool, setNode_sessPool]
    by_cases hk : k = i
    · rw [hk, Function.update_self, Function.update_self, hid]
    · rw [Function.update_of_ne hk, Function.update_of_ne hk, h.ids]
  nodes k _ hne := by
    rw [setNode_sessPool] at hne ⊢
    rw [setNode_sessPool]
    by_cases hk : k = i
    · rw [hk, Function.update_self] at hne ⊢
      rw [Function.update_self, heq hne]
    · rw [Function.update_of_ne hk] at hne ⊢
      rw [Function.update_of_ne hk]
      refine h.nodes k ?_ hne
      rintro rfl
      exact hgap.elim (by simp) fun h => hk (Option.some.inj h)

/-- A slot is given an id. -/
theorem reserve (h : Alike none m₁ m₂) (i : ℕ) (x : UInt64) :
    Alike (some i) (m₁.setNode i { m₁.sessPool i with rpcId := x })
      (m₂.setNode i { m₂.sessPool i with rpcId := x }) where
  order := h.order
  mask := h.mask
  counter := h.counter
  ids k := by
    rw [setNode_sessPool, setNode_sessPool]
    by_cases hk : k = i
    · rw [hk, Function.update_self, Function.update_self]
    · rw [Function.update_of_ne hk, Function.update_of_ne hk, h.ids]
  nodes k hki hne := by
    have hk : k ≠ i := fun heq => hki (by rw [heq])
    rw [setNode_sessPool, Function.update_of_ne hk] at hne ⊢
    rw [setNode_sessPool, Function.update_of_ne hk]
    exact h.nodes k (by simp) hne

theorem allocLoop (n : ℕ) (h : Alike none m₁ m₂) :
    (SessionManager.allocLoop n m₁).2 = (SessionManager.allocLoop n m₂).2 ∧
      Alike (SessionManager.allocLoop n m₁).2 (SessionManager.allocLoop n m₁).1
        (SessionManager.allocLoop n m₂).1 := by
  induction n generalizing m₁ m₂ with
  | zero => exact ⟨rfl, h⟩
  | succ n ih =>
    have hdraw := h.drawRpcId
    have hslot : m₁.drawRpcId.slotOf m₁.drawRpcId.nextRpcId =
        m₂.drawRpcId.slotOf m₂.drawRpcId.nextRpcId := by
      rw [hdraw.slotOf, hdraw.counter]
    have hid := hdraw.ids (m₁.drawRpcId.slotOf m₁.drawRpcId.nextRpcId)
    rw [SessionManager.allocLoop, SessionManager.allocLoop]
    dsimp only
    rw [← hslot, ← hid, ← hdraw.counter]
    split_ifs with hfree
    · exact ⟨rfl, hdraw.reserve _ _⟩
    · exact ih hdraw

theorem allocSessionNode (h : Alike none m₁ m₂) :
    m₁.allocSessionNode.2 = m₂.allocSessionNode.2 ∧
      Alike m₁.allocSessionNode.2 m₁.allocSessionNode.1 m₂.allocSessionNode.1 := by
  rw [SessionManager.allocSessionNode, SessionManager.allocSessionNode, h.order]
  exact h.allocLoop _

theorem findSessionNode (h : Alike none m₁ m₂) (x : UInt64) :
    m₁.findSessionNode x = m₂.findSessionNode x := by
  rw [SessionManager.findSessionNode, SessionManager.findSessionNode, h.slotOf, h.ids]

/-- A node that is found is the same in both. -/
theorem found (h : Alike none m₁ m₂) {x : UInt64} (hne : x ≠ 0) {i : ℕ}
    (hfind : m₁.findSessionNode x = some i) : m₁.sessPool i = m₂.sessPool i := by
  have hid := ((m₁.findSessionNode_eq_some).mp hfind).2
  exact h.nodes i (by simp) (hid ▸ hne)

end SessionManager.Alike

/-! ## Wheels -/

/-- The expiry a slot has armed: the slot it is for and the time that is left. -/
def TimerWheel.remaining (w : TimerWheel) (i : ℕ) : Option (ℕ × ℤ) :=
  (w.armed i).map fun e => (e.slot, (e.deadline : ℤ) - w.now)

/-- The same expiries are armed and collected, by clocks that need not agree. -/
structure TimerWheel.Alike (w₁ w₂ : TimerWheel) : Prop where
  remaining : ∀ i, w₁.remaining i = w₂.remaining i
  due : w₁.due.map Expiry.slot = w₂.due.map Expiry.slot

namespace TimerWheel.Alike

variable {w₁ w₂ : TimerWheel} (h : Alike w₁ w₂)
include h

theorem arm (i timeout : ℕ) (c₁ c₂ : Closure) : Alike (w₁.arm i timeout c₁) (w₂.arm i timeout c₂)
    where
  remaining k := by
    have hk := h.remaining k
    rw [TimerWheel.remaining, TimerWheel.remaining] at hk ⊢
    by_cases hki : k = i
    · simp [TimerWheel.arm, hki]
    · simpa [TimerWheel.arm, hki] using hk
  due := h.due

theorem disarm (i : ℕ) : Alike (w₁.disarm i) (w₂.disarm i) where
  remaining k := by
    have hk := h.remaining k
    rw [TimerWheel.remaining, TimerWheel.remaining] at hk ⊢
    by_cases hki : k = i
    · simp [TimerWheel.disarm, hki]
    · simpa [TimerWheel.disarm, hki] using hk
  due := h.due

theorem tick : Alike { w₁ with now := w₁.now + 1 } { w₂ with now := w₂.now + 1 } where
  remaining k := by
    have hk := congrArg (Option.map fun p : ℕ × ℤ => (p.1, p.2 - 1)) (h.remaining k)
    simpa [TimerWheel.remaining, Function.comp_def, sub_sub] using hk
  due := h.due

/-- The same slots have an expiry whose time has come. -/
theorem armed (i : ℕ) : Option.Rel (fun e₁ e₂ => e₁.slot = e₂.slot ∧
    (e₁.deadline ≤ w₁.now ↔ e₂.deadline ≤ w₂.now)) (w₁.armed i) (w₂.armed i) := by
  have hi := h.remaining i
  rw [TimerWheel.remaining, TimerWheel.remaining] at hi
  cases h₁ : w₁.armed i with
  | none =>
    cases h₂ : w₂.armed i with
    | none => exact .none
    | some e₂ => simp [h₁, h₂] at hi
  | some e₁ =>
    cases h₂ : w₂.armed i with
    | none => simp [h₁, h₂] at hi
    | some e₂ =>
      simp only [h₁, h₂, Option.map_some, Option.some.injEq, Prod.mk.injEq] at hi
      exact .some ⟨hi.1, by omega⟩

theorem collect {e₁ e₂ : Expiry} (heq : e₁.slot = e₂.slot) :
    Alike { w₁ with due := w₁.due ++ [e₁] } { w₂ with due := w₂.due ++ [e₂] } where
  remaining := h.remaining
  due := by simp [h.due, heq]

theorem getElem?_due (k : ℕ) :
    Option.Rel (fun e₁ e₂ => e₁.slot = e₂.slot) w₁.due[k]? w₂.due[k]? := by
  have hk := congrArg (fun l => l[k]?) h.due
  simp only [List.getElem?_map] at hk
  cases h₁ : w₁.due[k]? <;> cases h₂ : w₂.due[k]? <;> simp only [h₁, h₂] at hk
  · exact .none
  · cases hk
  · cases hk
  · exact .some (by simpa using hk)

theorem eraseIdx (k : ℕ) :
    Alike { w₁ with due := w₁.due.eraseIdx k } { w₂ with due := w₂.due.eraseIdx k } where
  remaining := h.remaining
  due := by rw [← List.eraseIdx_map, h.due, List.eraseIdx_map]

end TimerWheel.Alike

/-! ## Managers with their wheels and the messages -/

/-- What the code relies on of `ParseFromArray`: whether a body parses depends on the type of the
message only, and parsing keeps the type. -/
structure ParsesByType (env : SessionEnv Msg) (sameType : Msg → Msg → Prop) : Prop where
  refl : ∀ msg, sameType msg msg
  parses : ∀ old₁ old₂ body, sameType old₁ old₂ →
    (env.parseFromArray old₁ body).2 = (env.parseFromArray old₂ body).2
  keeps : ∀ old₁ old₂ body, sameType old₁ old₂ →
    sameType (env.parseFromArray old₁ body).1 (env.parseFromArray old₂ body).1

structure SessionState.Alike (sameType : Msg → Msg → Prop) (s₁ s₂ : SessionState Msg) : Prop where
  mgr : s₁.mgr.Alike none s₂.mgr
  wheel : s₁.wheel.Alike s₂.wheel
  mem : ∀ ref, sameType (s₁.mem ref) (s₂.mem ref)

namespace SessionState.Alike

variable {env : SessionEnv Msg} {sameType : Msg → Msg → Prop} {s₁ s₂ : SessionState Msg}

theorem setNode (h : Alike sameType s₁ s₂) {i : ℕ} {n₁ n₂ : SessionNode}
    (hid : n₁.rpcId = n₂.rpcId) (heq : n₁.rpcId ≠ 0 → n₁ = n₂) :
    Alike sameType (s₁.setNode i n₁) (s₂.setNode i n₂) :=
  ⟨h.mgr.setNode (Or.inl rfl) hid heq, h.wheel, h.mem⟩

/-- Setting the timer flag of a slot. -/
theorem setHasTimer (h : Alike sameType s₁ s₂) (i : ℕ) (f : Bool → Bool) :
    Alike sameType (s₁.setNode i { s₁.node i with hasTimer := f (s₁.node i).hasTimer })
      (s₂.setNode i { s₂.node i with hasTimer := f (s₂.node i).hasTimer }) := by
  refine h.setNode (h.mgr.ids i) fun hne => ?_
  have hnode : s₁.node i = s₂.node i := h.mgr.nodes i (by simp) hne
  rw [hnode]

theorem cancelTimer (h : Alike sameType s₁ s₂) (i : ℕ) :
    Alike sameType (s₁.cancelTimer env i) (s₂.cancelTimer env i) :=
  ⟨(h.setHasTimer i (· && env.hasTimerAfterCancel)).mgr, h.wheel.disarm i, h.mem⟩

theorem freeSessionNode (h : Alike sameType s₁ s₂) (i : ℕ) :
    Alike sameType (s₁.freeSessionNode i) (s₂.freeSessionNode i) :=
  ⟨h.mgr.setNode (Or.inl rfl) rfl fun hne => absurd rfl hne, h.wheel, h.mem⟩

theorem resume (h : Alike sameType s₁ s₂) (cb : Callback) :
    Alike sameType (s₁.resume env cb) (s₂.resume env cb) := by
  cases cb with
  | onSendRequest => exact h
  | done _ _ site =>
    cases site with
    | noRoute => exact h
    | refused => exact h
    | lastEndpoint i => exact (h.cancelTimer i).freeSessionNode i
    | response i => exact (h.cancelTimer i).freeSessionNode i
    | timeout i => exact h.freeSessionNode i

/-- Every field of the node of a new session is written, and both branches arm the same expiry. -/
theorem addSession (h : Alike sameType s₁ s₂) (env : SessionEnv Msg) (method : MethodDescriptor)
    (request response : MsgRef) (endpoints : List Addr) (done : Closure) :
    Alike sameType (s₁.addSession env method request response endpoints done).1
        (s₂.addSession env method request response endpoints done).1 ∧
      (s₁.addSession env method request response endpoints done).2 =
        (s₂.addSession env method request response endpoints done).2 := by
  obtain ⟨hslot, halloc⟩ := h.mgr.allocSessionNode
  unfold SessionState.addSession
  by_cases hlen : endpoints.length > 65536
  · rw [if_pos hlen, if_pos hlen]
    exact ⟨h, rfl⟩
  rw [if_neg hlen, if_neg hlen]
  generalize s₁.mgr.allocSessionNode = r₁ at hslot halloc ⊢
  generalize s₂.mgr.allocSessionNode = r₂ at hslot halloc ⊢
  obtain ⟨mgr₁, slot₁⟩ := r₁
  obtain ⟨mgr₂, slot₂⟩ := r₂
  obtain rfl : slot₁ = slot₂ := hslot
  cases slot₁ with
  | none => exact ⟨⟨halloc, h.wheel, h.mem⟩, rfl⟩
  | some i =>
    have hid : (mgr₁.sessPool i).rpcId = (mgr₂.sessPool i).rpcId := halloc.ids i
    have harm : ∀ flag₁ flag₂ : Bool, TimerWheel.Alike
        (if ¬ flag₁ = true then s₁.wheel.addTimer i env.defaultRpcTimeout done
          else s₁.wheel.resetTimer i env.defaultRpcTimeout done)
        (if ¬ flag₂ = true then s₂.wheel.addTimer i env.defaultRpcTimeout done
          else s₂.wheel.resetTimer i env.defaultRpcTimeout done) := by
      intro flag₁ flag₂
      simp only [TimerWheel.addTimer, TimerWheel.resetTimer, ite_self]
      exact h.wheel.arm i _ done done
    refine ⟨⟨halloc.setNode (Or.inr rfl) hid fun _ => ?_, harm _ _, h.mem⟩, ?_⟩
    · simp only [SessionState.node, hid]
    · simp only [SessionState.node, hid]

theorem onSendRequestFailed (h : Alike sameType s₁ s₂) {rpcId : UInt64} (hne : rpcId ≠ 0) :
    Alike sameType (s₁.onSendRequestFailed rpcId).1 (s₂.onSendRequestFailed rpcId).1 ∧
      (s₁.onSendRequestFailed rpcId).2 = (s₂.onSendRequestFailed rpcId).2 := by
  have hfind := h.mgr.findSessionNode rpcId
  unfold SessionState.onSendRequestFailed
  rw [← hfind]
  cases hslot : s₁.mgr.findSessionNode rpcId with
  | none => exact ⟨h, rfl⟩
  | some i =>
    have hnode : s₁.node i = s₂.node i := h.mgr.found hne hslot
    dsimp only
    rw [← hnode]
    split_ifs
    · exact ⟨h.setNode rfl fun _ => rfl, rfl⟩
    · exact ⟨h.setNode rfl fun _ => rfl, rfl⟩

theorem onRecvResponse (h : Alike sameType s₁ s₂) (hlaw : ParsesByType env sameType)
    (service method : Str) {rpcId : UInt64} (hne : rpcId ≠ 0) (rpcResult : Result)
    (respBody : List UInt8) :
    Alike sameType (s₁.onRecvResponse env service method rpcId rpcResult respBody).1
        (s₂.onRecvResponse env service method rpcId rpcResult respBody).1 ∧
      (s₁.onRecvResponse env service method rpcId rpcResult respBody).2 =
        (s₂.onRecvResponse env service method rpcId rpcResult respBody).2 := by
  have hfind := h.mgr.findSessionNode rpcId
  unfold SessionState.onRecvResponse
  rw [← hfind]
  cases hslot : s₁.mgr.findSessionNode rpcId with
  | none => exact ⟨h, rfl⟩
  | some i =>
    have hnode : s₁.node i = s₂.node i := h.mgr.found hne hslot
    have htype := h.mem (s₁.node i).response
    dsimp only
    rw [← hnode, ← hlaw.parses _ _ respBody htype]
    split_ifs
    · exact ⟨h, rfl⟩
    all_goals
      refine ⟨⟨h.mgr, h.wheel, fun ref => ?_⟩, rfl⟩
      dsimp only
      by_cases href : ref = (s₁.node i).response
      · rw [href, Function.update_self, Function.update_self]
        exact hlaw.keeps _ _ respBody htype
      · rw [Function.update_of_ne href, Function.update_of_ne href]
        exact h.mem ref

theorem onSessionTimeout (h : Alike sameType s₁ s₂) (i : ℕ) :
    Alike sameType (s₁.onSessionTimeout i).1 (s₂.onSessionTimeout i).1 ∧
      (s₁.onSessionTimeout i).2 = (s₂.onSessionTimeout i).2 := by
  have hid : (s₁.node i).rpcId = (s₂.node i).rpcId := h.mgr.ids i
  unfold SessionState.onSessionTimeout
  rw [← hid]
  split_ifs with hlive
  · have hnode : s₁.node i = s₂.node i := h.mgr.nodes i (by simp) hlive
    rw [hnode]
    exact ⟨h, rfl⟩
  · exact ⟨h, rfl⟩

end SessionState.Alike

/-! ## Runs -/

/-- What a step shows: the answer of `AddSession`, the callbacks that start, with their ids,
addresses, closures and results, and the expiries armed afterwards. -/
structure Observation where
  added : Option Bool
  started : List Callback
  armed : ℕ → Option (ℕ × ℤ)

namespace Machine

/-- The answer of `AddSession`. -/
def added (env : SessionEnv Msg) (m : Machine Msg) : Action Msg → Option Bool
  | .addSession method request response endpoints done =>
    some (m.st.addSession env method request response endpoints done).2.1
  | _ => none

def observe (env : SessionEnv Msg) (m : Machine Msg) (a : Action Msg) (m' : Machine Msg) :
    Observation where
  added := m.added env a
  started := m'.log.take (m'.log.length - m.log.length)
  armed := m'.st.wheel.remaining

/-- The same sessions and pending timers, and the same callbacks are running. The free slots may
hold anything. -/
structure Alike (sameType : Msg → Msg → Prop) (m₁ m₂ : Machine Msg) : Prop where
  st : m₁.st.Alike sameType m₂.st
  stack : m₁.stack = m₂.stack

variable {env : SessionEnv Msg} {sameType : Msg → Msg → Prop} {m₁ m₂ m₁' m₂' : Machine Msg}
  {agreed : Closure → Prop}

/-- The relation both runs keep: moreover, of the closures in `agreed` the same were passed. -/
structure InStep (sameType : Msg → Msg → Prop) (agreed : Closure → Prop) (m₁ m₂ : Machine Msg) :
    Prop extends m₁.Alike sameType m₂ where
  calls : ∀ d, agreed d → (d ∈ m₁.calls ↔ d ∈ m₂.calls)

/-- The callbacks `new` have started. -/
structure Starts (m : Machine Msg) (new : List Callback) (m' : Machine Msg) : Prop where
  stack : m'.stack = new ++ m.stack
  log : m'.log = new ++ m.log

theorem enter_starts (m : Machine Msg) (st : SessionState Msg) (cb : Option Callback) :
    m.Starts cb.toList (m.enter st cb) := by
  cases cb <;> exact ⟨rfl, rfl⟩

theorem addSession_starts (m : Machine Msg) (env : SessionEnv Msg) (method : MethodDescriptor)
    (request response : MsgRef) (endpoints : List Addr) (done : Closure) :
    (m.addSession env method request response endpoints done).st =
        (m.st.addSession env method request response endpoints done).1 ∧
      (m.addSession env method request response endpoints done).calls = done :: m.calls ∧
      m.Starts (m.st.addSession env method request response endpoints done).2.2.toList
        (m.addSession env method request response endpoints done) := by
  unfold addSession
  obtain ⟨st, added, cb⟩ := m.st.addSession env method request response endpoints done
  cases added <;> cases cb <;> exact ⟨rfl, rfl, rfl, rfl⟩

theorem enter_st (m : Machine Msg) (st : SessionState Msg) (cb : Option Callback) :
    (m.enter st cb).st = st ∧ (m.enter st cb).calls = m.calls := by
  cases cb <;> exact ⟨rfl, rfl⟩

theorem observe_eq {a : Action Msg} {new : List Callback} (hadded : m₁.added env a = m₂.added env a)
    (h₁ : m₁'.log = new ++ m₁.log) (h₂ : m₂'.log = new ++ m₂.log)
    (hst : m₁'.st.Alike sameType m₂'.st) : observe env m₁ a m₁' = observe env m₂ a m₂' := by
  have hstarted : ∀ old : List Callback, (new ++ old).take ((new ++ old).length - old.length) =
      new := by
    intro old
    rw [List.length_append, Nat.add_sub_cancel, List.take_left]
  have harmed : m₁'.st.wheel.remaining = m₂'.st.wheel.remaining := funext hst.wheel.remaining
  rw [observe, observe, hadded, h₁, h₂, hstarted, hstarted, harmed]

namespace InStep

variable (h : InStep sameType agreed m₁ m₂)
include h

theorem inUserCode : m₁.inUserCode = m₂.inUserCode := by
  rw [Machine.inUserCode, h.stack, Machine.inUserCode]

theorem mayReport (x : UInt64) : m₁.mayReport x = m₂.mayReport x := by
  rw [Machine.mayReport, h.stack, Machine.mayReport]

theorem enter {s₁ s₂ : SessionState Msg} (hst : s₁.Alike sameType s₂) (cb : Option Callback)
    {a : Action Msg} (hadded : m₁.added env a = m₂.added env a) :
    InStep sameType agreed (m₁.enter s₁ cb) (m₂.enter s₂ cb) ∧
      observe env m₁ a (m₁.enter s₁ cb) = observe env m₂ a (m₂.enter s₂ cb) := by
  obtain ⟨hst₁, hcalls₁⟩ := m₁.enter_st s₁ cb
  obtain ⟨hst₂, hcalls₂⟩ := m₂.enter_st s₂ cb
  have hstarts₁ := m₁.enter_starts s₁ cb
  have hstarts₂ := m₂.enter_starts s₂ cb
  have hst' : (m₁.enter s₁ cb).st.Alike sameType (m₂.enter s₂ cb).st := by
    rw [hst₁, hst₂]
    exact hst
  refine ⟨⟨⟨hst', ?_⟩, ?_⟩, observe_eq hadded hstarts₁.log hstarts₂.log hst'⟩
  · rw [hstarts₁.stack, hstarts₂.stack, h.stack]
  · rw [hcalls₁, hcalls₂]
    exact h.calls

theorem cons_calls (d : Closure) : ∀ c, agreed c → (c ∈ d :: m₁.calls ↔ c ∈ d :: m₂.calls) := by
  intro c hc
  rw [List.mem_cons, List.mem_cons, h.calls c hc]

theorem addSession (method : MethodDescriptor) (request response : MsgRef)
    (endpoints : List Addr) (done : Closure) :
    InStep sameType agreed (m₁.addSession env method request response endpoints done)
        (m₂.addSession env method request response endpoints done) ∧
      observe env m₁ (.addSession method request response endpoints done)
          (m₁.addSession env method request response endpoints done) =
        observe env m₂ (.addSession method request response endpoints done)
          (m₂.addSession env method request response endpoints done) := by
  obtain ⟨hst, hout⟩ := h.st.addSession env method request response endpoints done
  obtain ⟨hst₁, hcalls₁, hstarts₁⟩ :=
    m₁.addSession_starts env method request response endpoints done
  obtain ⟨hst₂, hcalls₂, hstarts₂⟩ :=
    m₂.addSession_starts env method request response endpoints done
  rw [← hst₁, ← hst₂] at hst
  rw [← hout] at hstarts₂
  refine ⟨⟨⟨hst, ?_⟩, ?_⟩, observe_eq ?_ hstarts₁.log hstarts₂.log hst⟩
  · rw [hstarts₁.stack, hstarts₂.stack, h.stack]
  · rw [hcalls₁, hcalls₂]
    exact h.cons_calls done
  · rw [Machine.added, Machine.added, hout]

/-- Nothing is called and the closures passed stay. -/
theorem still {s₁ s₂ : SessionState Msg} (hst : s₁.Alike sameType s₂) (stack : List Callback)
    {a : Action Msg} (hadded : m₁.added env a = m₂.added env a) :
    InStep sameType agreed { m₁ with st := s₁, stack := stack }
        { m₂ with st := s₂, stack := stack } ∧
      observe env m₁ a { m₁ with st := s₁, stack := stack } =
        observe env m₂ a { m₂ with st := s₂, stack := stack } := by
  refine ⟨⟨⟨hst, rfl⟩, h.calls⟩, ?_⟩
  have hlog : ∀ m : Machine Msg, m.log = [] ++ m.log := fun m => rfl
  exact observe_eq hadded (hlog m₁) (hlog m₂) hst

/-- The same when no callback returns. -/
theorem unstacked {s₁ s₂ : SessionState Msg} (hst : s₁.Alike sameType s₂) {a : Action Msg}
    (hadded : m₁.added env a = m₂.added env a) :
    InStep sameType agreed { m₁ with st := s₁ } { m₂ with st := s₂ } ∧
      observe env m₁ a { m₁ with st := s₁ } = observe env m₂ a { m₂ with st := s₂ } := by
  have hstill := h.still hst m₁.stack hadded
  have hstack : { m₂ with st := s₂, stack := m₁.stack } = { m₂ with st := s₂ } := by
    rw [h.stack]
  rw [hstack] at hstill
  exact hstill

theorem collect (slot : ℕ) : Option.Rel
    (fun m₁' m₂' => InStep sameType agreed m₁' m₂' ∧
      observe env m₁ (.collect slot) m₁' = observe env m₂ (.collect slot) m₂')
    (m₁.step env (.collect slot)) (m₂.step env (.collect slot)) := by
  have harmed := h.st.wheel.armed slot
  cases hstack : m₁.stack with
  | cons cb rest =>
    simp only [step, hstack, ← h.stack]
    exact .none
  | nil =>
    simp only [step, hstack, ← h.stack]
    generalize m₁.st.wheel.armed slot = o₁ at harmed ⊢
    generalize m₂.st.wheel.armed slot = o₂ at harmed ⊢
    cases harmed with
    | none => exact .none
    | @some e₁ e₂ he =>
      obtain ⟨hslot, htime⟩ := he
      dsimp only
      by_cases hdeadline : e₁.deadline ≤ m₁.st.wheel.now
      · rw [if_pos hdeadline, if_pos (htime.mp hdeadline)]
        have hnodes := h.st.setHasTimer slot (· && env.hasTimerAfterExpiry)
        have hst : SessionState.Alike sameType (m₁.collect env slot e₁).st
            (m₂.collect env slot e₂).st :=
          ⟨hnodes.mgr, (h.st.wheel.disarm slot).collect hslot, h.st.mem⟩
        exact .some (h.unstacked hst rfl)
      · rw [if_neg hdeadline, if_neg fun h => hdeadline (htime.mpr h)]
        exact .none

theorem expire (k : ℕ) : Option.Rel
    (fun m₁' m₂' => InStep sameType agreed m₁' m₂' ∧
      observe env m₁ (.expire k) m₁' = observe env m₂ (.expire k) m₂')
    (m₁.step env (.expire k)) (m₂.step env (.expire k)) := by
  have hdue := h.st.wheel.getElem?_due k
  cases hstack : m₁.stack with
  | cons cb rest =>
    simp only [step, hstack, ← h.stack]
    exact .none
  | nil =>
    simp only [step, hstack, ← h.stack]
    generalize m₁.st.wheel.due[k]? = o₁ at hdue ⊢
    generalize m₂.st.wheel.due[k]? = o₂ at hdue ⊢
    cases hdue with
    | none => exact .none
    | @some e₁ e₂ hslot =>
      have herased : SessionState.Alike sameType
          { m₁.st with wheel := { m₁.st.wheel with due := m₁.st.wheel.due.eraseIdx k } }
          { m₂.st with wheel := { m₂.st.wheel with due := m₂.st.wheel.due.eraseIdx k } } :=
        ⟨h.st.mgr, h.st.wheel.eraseIdx k, h.st.mem⟩
      obtain ⟨hst, hcb⟩ := herased.onSessionTimeout e₁.slot
      refine .some ?_
      rw [Machine.expire, Machine.expire, ← hslot, ← hcb]
      exact h.enter hst _ rfl

/-- The step lemma: the same actions are enabled, and they keep the two runs in step. -/
theorem step (hlaw : ParsesByType env sameType) (a : Action Msg)
    (ha : ∀ d, a.call? = some d → agreed d) : Option.Rel
    (fun m₁' m₂' => InStep sameType agreed m₁' m₂' ∧
      observe env m₁ a m₁' = observe env m₂ a m₂') (m₁.step env a) (m₂.step env a) := by
  cases a with
  | addSession method request response endpoints done =>
    simp only [Machine.step, h.inUserCode, h.calls done (ha done rfl)]
    split_ifs
    · exact .some (h.addSession method request response endpoints done)
    · exact .none
  | noRoute done =>
    simp only [Machine.step, h.inUserCode, h.calls done (ha done rfl)]
    split_ifs
    · have henter : _ ∧ observe env m₁ (.noRoute done) _ = observe env m₂ (.noRoute done) _ :=
        h.enter h.st (some (.done (some done) .kNoRoute .noRoute)) rfl
      exact .some ⟨⟨⟨henter.1.st, henter.1.stack⟩, h.cons_calls done⟩, henter.2⟩
    · exact .none
  | onSendRequestFailed rpcId =>
    simp only [Machine.step, h.mayReport]
    split_ifs with hguard
    · obtain ⟨hst, hcb⟩ := h.st.onSendRequestFailed hguard.2
      rw [Machine.onSendRequestFailed, Machine.onSendRequestFailed, ← hcb]
      exact .some (h.enter hst _ rfl)
    · exact .none
  | onRecvResponse service method rpcId rpcResult respBody =>
    simp only [Machine.step, h.mayReport]
    split_ifs with hguard
    · obtain ⟨hst, hcb⟩ := h.st.onRecvResponse hlaw service method hguard.2 rpcResult respBody
      rw [Machine.onRecvResponse, Machine.onRecvResponse, ← hcb]
      exact .some (h.enter hst _ rfl)
    · exact .none
  | ret =>
    simp only [Machine.step, ← h.stack]
    cases m₁.stack with
    | nil => exact .none
    | cons cb rest => exact .some (h.still (h.st.resume cb) rest rfl)
  | advance =>
    have hdue : m₁.st.wheel.due = [] ↔ m₂.st.wheel.due = [] := by
      rw [← List.map_eq_nil_iff (f := Expiry.slot), h.st.wheel.due, List.map_eq_nil_iff]
    simp only [Machine.step, ← h.stack, hdue]
    split_ifs with hguard
    · have hst : SessionState.Alike sameType
          { m₁.st with wheel := { m₁.st.wheel with now := m₁.st.wheel.now + 1 } }
          { m₂.st with wheel := { m₂.st.wheel with now := m₂.st.wheel.now + 1 } } :=
        ⟨h.st.mgr, h.st.wheel.tick, h.st.mem⟩
      exact .some (h.still hst m₁.stack rfl)
    · exact .none
  | collect slot => exact h.collect slot
  | expire k => exact h.expire k
  | write mem =>
    have hst : SessionState.Alike sameType { m₁.st with mem := mem } { m₂.st with mem := mem } :=
      ⟨h.st.mgr, h.st.wheel, fun ref => hlaw.refl (mem ref)⟩
    exact .some (h.unstacked hst rfl)

end InStep

/-- Two managers with the same sessions and pending timers show the same for every sequence of
actions, whatever is left in their free slots: both enable the same actions, accept the same calls
under the same ids, send to the same addresses, arm the same timers and call the same `done`s. -/
theorem history_independent (hlaw : ParsesByType env sameType) (h : m₁.Alike sameType m₂)
    {as : List (Action Msg)}
    (hnew : ∀ a ∈ as, ∀ d, a.call? = some d → (d ∈ m₁.calls ↔ d ∈ m₂.calls)) :
    observations (Machine.step env) (observe env) m₁ as =
      observations (Machine.step env) (observe env) m₂ as := by
  have hstart : InStep sameType (fun d => d ∈ m₁.calls ↔ d ∈ m₂.calls) m₁ m₂ :=
    ⟨h, fun _ hd => hd⟩
  exact observations_eq (fun hstep ha => hstep.step hlaw _ ha) hstart hnew

/-- The manager has no session, and no expiry is left to run. -/
structure Vacant (m : Machine Msg) : Prop where
  idle : m.stack = []
  due : m.st.wheel.due = []
  free : ∀ i, ¬ m.Live i
  unarmed : ∀ i, m.st.wheel.armed i = none

theorem Guarded.vacant {mgr : SessionManager} {m : Machine Msg} (h : m.Guarded env mgr)
    (hsized : mgr.Sized) (hidle : m.stack = []) (hdue : m.st.wheel.due = [])
    (hfree : ∀ i < 2 ^ mgr.poolSizeOrder, (m.node i).rpcId = 0) : m.Vacant := by
  have hnone : ∀ i, ¬ m.Live i := by
    intro i hlive
    have hlt := (h.wellFormed.sized hsized).slotOf_lt (m.node i).rpcId
    rw [h.wellFormed.consistent.table.slot i hlive, h.wellFormed.size.1] at hlt
    exact hlive (hfree i hlt)
  refine ⟨hidle, hdue, hnone, fun i => ?_⟩
  cases harmed : m.st.wheel.armed i with
  | none => rfl
  | some e => exact absurd (h.armed.live i e harmed) (hnone i)

theorem Vacant.alike (h₁ : m₁.Vacant) (h₂ : m₂.Vacant) {mgr : SessionManager}
    (hsize₁ : m₁.SameSize mgr) (hsize₂ : m₂.SameSize mgr)
    (hcounter : m₁.st.mgr.nextRpcId = m₂.st.mgr.nextRpcId)
    (hmem : ∀ ref, sameType (m₁.st.mem ref) (m₂.st.mem ref)) : m₁.Alike sameType m₂ where
  st :=
    { mgr :=
        { order := hsize₁.1.trans hsize₂.1.symm
          mask := hsize₁.2.trans hsize₂.2.symm
          counter := hcounter
          ids := fun i => (not_not.mp (h₁.free i)).trans (not_not.mp (h₂.free i)).symm
          nodes := fun i _ hlive => absurd hlive (h₁.free i) }
      wheel :=
        { remaining := fun i => by
            rw [TimerWheel.remaining, h₁.unarmed, TimerWheel.remaining, h₂.unarmed]
            rfl
          due := by rw [h₁.due, h₂.due] }
      mem := hmem }
  stack := by rw [h₁.idle, h₂.idle]

/-- The pair of slots after a schedule that leaves both of them free. -/
theorem exists_vacant (as : List (Action Unit)) (p : Machine Unit → Bool)
    (h : (run (checked (step emptyEnv) fun m a => a.call?.isNone ||
        decide (m.st.wheel.due = [] ∧ m.st.mgr.nextRpcId.toNat / 2 ^ kRpcIdSeqPartBits ≠ 0))
      (start pairManager 0 fun _ => ()) as).map (fun m =>
        decide (m.stack = [] ∧ m.st.wheel.due = [] ∧ (m.node 0).rpcId = 0 ∧ (m.node 1).rpcId = 0) &&
          p m) = some true) :
    ∃ m, Reachable emptyEnv pairManager 0 (fun _ => ()) m ∧ m.SameSize pairManager ∧ m.Vacant ∧
      p m = true := by
  obtain ⟨m, hm, hp⟩ := exists_reachesIf_of_run (step emptyEnv) _ as _ _ (fun m a hcheck => by
    cases a with
    | addSession => exact takesSafeSlot_of_check m _ (by simpa [Action.call?] using hcheck)
    | _ => exact ⟨trivial, trivial⟩) h
  obtain ⟨hvacant, hp⟩ := Bool.and_eq_true_iff.mp hp
  obtain ⟨hidle, hdue, hzero, hone⟩ := of_decide_eq_true hvacant
  have hfree : ∀ i < 2 ^ pairManager.poolSizeOrder, (m.node i).rpcId = 0 := by
    intro i hi
    have hlt : i < 2 := hi
    interval_cases i
    · exact hzero
    · exact hone
  have hsized : pairManager.Sized := SessionManager.sized_of_init pairManager_init (by decide)
  have hG := ReachableIf.guarded pairManager_init hm
  exact ⟨m, hm.mono fun _ _ _ => trivial, hG.wellFormed.size,
    hG.vacant hsized hidle hdue hfree, hp⟩

/-- Call 10 ended when its only endpoint had failed; call 20 when it was trying the second of its
endpoints and its time had run out. Nothing later tells the one history from the other. -/
theorem history_independent_pair : ∃ m₁ m₂,
    Reachable emptyEnv pairManager 0 (fun _ => ()) m₁ ∧
      Reachable emptyEnv pairManager 0 (fun _ => ()) m₂ ∧
      (m₁.node 1).endpointList ≠ (m₂.node 1).endpointList ∧
      (m₁.node 1).hasTimer ≠ (m₂.node 1).hasTimer ∧
      ∀ as : List (Action Unit), (∀ a ∈ as, ∀ d, a.call? = some d → 20 < d) →
        observations (step emptyEnv) (observe emptyEnv) m₁ as =
          observations (step emptyEnv) (observe emptyEnv) m₂ as := by
  obtain ⟨m₁, hm₁, hsize₁, hvacant₁, hp₁⟩ := exists_vacant
    [.addSession pingMethod 0 1 [⟨1, 1⟩] 10, .ret, .onSendRequestFailed 0x1000000000001, .ret]
    (fun m => decide (m.st.mgr.nextRpcId = 0x1000000000001 ∧ m.calls = [10] ∧
      (m.node 1).endpointList = [⟨1, 1⟩] ∧ (m.node 1).hasTimer = true)) (by decide +kernel)
  obtain ⟨m₂, hm₂, hsize₂, hvacant₂, hp₂⟩ := exists_vacant
    [.addSession pingMethod 5 6 [⟨2, 2⟩, ⟨3, 3⟩] 20, .ret, .onSendRequestFailed 0x1000000000001,
      .ret, .advance, .advance, .advance, .advance, .advance, .collect 1, .expire 0, .ret]
    (fun m => decide (m.st.mgr.nextRpcId = 0x1000000000001 ∧ m.calls = [20] ∧
      (m.node 1).endpointList = [⟨2, 2⟩, ⟨3, 3⟩] ∧ (m.node 1).hasTimer = false))
    (by decide +kernel)
  obtain ⟨hcounter₁, hcalls₁, hlist₁, htimer₁⟩ := of_decide_eq_true hp₁
  obtain ⟨hcounter₂, hcalls₂, hlist₂, htimer₂⟩ := of_decide_eq_true hp₂
  have halike : m₁.Alike Eq m₂ := hvacant₁.alike hvacant₂ hsize₁ hsize₂
    (hcounter₁.trans hcounter₂.symm) fun _ => rfl
  have hlaw : ParsesByType emptyEnv Eq :=
    ⟨fun _ => rfl, fun _ _ _ h => by rw [h], fun _ _ _ h => by rw [h]⟩
  refine ⟨m₁, m₂, hm₁, hm₂, by rw [hlist₁, hlist₂]; decide, by rw [htimer₁, htimer₂]; decide,
    fun as has => ?_⟩
  refine history_independent hlaw halike fun a ha d hd => ?_
  have hlt : 20 < d := has a ha d hd
  have hne₁ : d ∉ [10] := fun h => by
    rw [List.mem_singleton.mp h] at hlt
    exact absurd hlt (by decide)
  have hne₂ : d ∉ [20] := fun h => by
    rw [List.mem_singleton.mp h] at hlt
    exact absurd hlt (by decide)
  rw [hcalls₁, hcalls₂]
  exact iff_of_false hne₁ hne₂

end Machine

end HyperRpc
