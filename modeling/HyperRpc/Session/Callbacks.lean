import HyperRpc.Session.Invariant

/-!
# The running callbacks

A `done` that is running keeps its slot: nothing above it on the stack works for the same
call, so nothing else frees that slot before it returns (`StackInv`). With this, `done` of a
session that still has its slot has been invoked exactly as often as it is running
(`LedgerInv`), which is once at most.
-/
namespace HyperRpc

open Lib

/-- The id a running send is made for. -/
def Callback.sendId : Callback → Option UInt64
  | .onSendRequest _ _ rpcId _ _ => some rpcId
  | .done .. => none

theorem Callback.sendId_of_slot {cb : Callback} {i : ℕ} (h : cb.slot? = some i) :
    cb.sendId = none := by
  cases cb with
  | onSendRequest => simp [slot?] at h
  | done => rfl

theorem Callback.isDone_iff {c : Closure} {cb : Callback} :
    cb.isDone c = true ↔ cb.sendId = none ∧ cb.owner = some c := by
  cases cb <;> simp [isDone, sendId, owner]

namespace Machine

variable {Msg : Type} {env : SessionEnv Msg} {m m' : Machine Msg} {stack : List Callback}

/-- `up` runs directly above `low`. -/
structure Nests (up low : Callback) : Prop where
  owner : low.sendId.isSome → up.owner = low.owner
  send : low.sendId.isSome → up.slot? = none → up.sendId = low.sendId

structure StackInv (m : Machine Msg) (stack : List Callback) : Prop where
  held : ∀ cb ∈ stack, ∀ i, cb.slot? = some i → m.Live i ∧ (m.node i).done = cb.owner
  loose : ∀ cb ∈ stack, cb.sendId = none → cb.slot? = none →
    ∀ i, m.Live i → (m.node i).done ≠ cb.owner
  known : ∀ cb ∈ stack, ∃ c ∈ m.calls, cb.owner = some c
  sends : ∀ cb ∈ stack, ∀ x, cb.sendId = some x →
    ∃ σ ∈ m.sessions, cb.owner = some σ.done ∧ σ.rpcId = x
  apart : stack.Pairwise fun up low => low.sendId = none → up.owner ≠ low.owner
  nests : stack.IsChain Nests
  top : ∀ cb ∈ stack.head?, ∀ i, m.Live i → cb.sendId = some (m.node i).rpcId →
    (m.node i).done = cb.owner

theorem StackInv.steady (hS : m.StackInv stack) (h : m.Steady m') : m'.StackInv stack where
  held cb hcb i hi := by
    rw [h.live, h.done]
    exact hS.held cb hcb i hi
  loose cb hcb hsend hslot i hi := by
    rw [h.done]
    exact hS.loose cb hcb hsend hslot i ((h.live i).mp hi)
  known cb hcb := by
    obtain ⟨c, hc, howner⟩ := hS.known cb hcb
    exact ⟨c, h.calls c hc, howner⟩
  sends cb hcb x hx := by
    rw [h.sessions]
    exact hS.sends cb hcb x hx
  apart := hS.apart
  nests := hS.nests
  top cb hcb i hi hx := by
    rw [h.done]
    rw [h.rpcId] at hx
    exact hS.top cb hcb i ((h.live i).mp hi) hx

/-- A loose callback, a send or a refusal, has returned. -/
theorem StackInv.pop {cb : Callback} (hS : m.StackInv (cb :: stack)) (hslot : cb.slot? = none) :
    m.StackInv stack where
  held cb' h := hS.held cb' (List.mem_cons_of_mem _ h)
  loose cb' h := hS.loose cb' (List.mem_cons_of_mem _ h)
  known cb' h := hS.known cb' (List.mem_cons_of_mem _ h)
  sends cb' h := hS.sends cb' (List.mem_cons_of_mem _ h)
  apart := (List.pairwise_cons.mp hS.apart).2
  nests := hS.nests.tail
  top low hlow i hi hx := by
    -- the send below was interrupted by a send for the same session
    have hnest : Nests cb low := List.isChain_cons.mp hS.nests |>.1 low hlow
    have hsome : low.sendId.isSome := by simp [hx]
    rw [← hnest.owner hsome]
    exact hS.top cb (by simp) i hi ((hnest.send hsome hslot).trans hx)

/-- A callback starts that works for no call whose `done` is running below it. -/
theorem StackInv.push {cb : Callback} (hS : m.StackInv stack)
    (hheld : ∀ i, cb.slot? = some i → m.Live i ∧ (m.node i).done = cb.owner)
    (hloose : cb.sendId = none → cb.slot? = none → ∀ i, m.Live i → (m.node i).done ≠ cb.owner)
    (hknown : ∃ c ∈ m.calls, cb.owner = some c)
    (hsends : ∀ x, cb.sendId = some x → ∃ σ ∈ m.sessions, cb.owner = some σ.done ∧ σ.rpcId = x)
    (hapart : ∀ low ∈ stack, low.sendId = none → cb.owner ≠ low.owner)
    (hnests : ∀ low ∈ stack.head?, Nests cb low)
    (htop : ∀ i, m.Live i → cb.sendId = some (m.node i).rpcId → (m.node i).done = cb.owner) :
    m.StackInv (cb :: stack) where
  held cb' h := by
    rcases List.mem_cons.mp h with rfl | h
    · exact hheld
    · exact hS.held cb' h
  loose cb' h := by
    rcases List.mem_cons.mp h with rfl | h
    · exact hloose
    · exact hS.loose cb' h
  known cb' h := by
    rcases List.mem_cons.mp h with rfl | h
    · exact hknown
    · exact hS.known cb' h
  sends cb' h := by
    rcases List.mem_cons.mp h with rfl | h
    · exact hsends
    · exact hS.sends cb' h
  apart := List.pairwise_cons.mpr ⟨hapart, hS.apart⟩
  nests := List.isChain_cons.mpr ⟨hnests, hS.nests⟩
  top cb' h := by
    obtain rfl : cb = cb' := by simpa using h
    exact htop

/-- Where the transport may report on an id, the request with that id is being sent, or nothing
is. -/
theorem sendId_of_mayReport {x : UInt64} (hrep : m.mayReport x) :
    ∀ top ∈ m.stack.head?, top.sendId = some x := by
  intro top htop
  obtain ⟨rest, hstack⟩ := List.head?_eq_some_iff.mp htop
  unfold mayReport at hrep
  rw [hstack] at hrep
  cases top with
  | done => cases hrep
  | onSendRequest method request id addr owner => exact congrArg some (of_decide_eq_true hrep)

/-- User code runs from the event loop or inside a `done`. -/
theorem sendId_of_inUserCode (huser : m.inUserCode) : ∀ top ∈ m.stack.head?, top.sendId = none := by
  intro top htop
  obtain ⟨rest, hstack⟩ := List.head?_eq_some_iff.mp htop
  unfold inUserCode at huser
  rw [hstack] at huser
  cases top with
  | done => rfl
  | onSendRequest => cases huser

/-- Where the transport may report on a live session, its `done` is not running. -/
theorem StackInv.idle (hS : m.StackInv m.stack) {i : ℕ} (hlive : m.Live i)
    (hrep : m.mayReport (m.node i).rpcId) :
    ∀ low ∈ m.stack, low.sendId = none → (m.node i).done ≠ low.owner := by
  intro low hlow hsend
  cases hstack : m.stack with
  | nil => simp [hstack] at hlow
  | cons top rest =>
    have htop : top ∈ m.stack.head? := by rw [hstack]; rfl
    have hid := sendId_of_mayReport hrep top htop
    rw [hS.top top htop i hlive hid]
    rw [hstack] at hlow hS
    rcases List.mem_cons.mp hlow with rfl | hlow
    · rw [hid] at hsend
      cases hsend
    · exact (List.pairwise_cons.mp hS.apart).1 low hlow hsend

/-- What the transport reports on stands directly above the send it interrupts. -/
theorem StackInv.nests_of_report (hS : m.StackInv m.stack) {i : ℕ} (hlive : m.Live i)
    (hrep : m.mayReport (m.node i).rpcId) {cb : Callback} (howner : cb.owner = (m.node i).done)
    (hsend : cb.slot? = none → cb.sendId = some (m.node i).rpcId) :
    ∀ low ∈ m.stack.head?, Nests cb low := by
  intro low hlow
  have hid := sendId_of_mayReport hrep low hlow
  exact ⟨fun _ => howner.trans (hS.top low hlow i hlive hid), fun _ hslot =>
    (hsend hslot).trans hid.symm⟩

theorem nests_of_inUserCode (huser : m.inUserCode) (cb : Callback) :
    ∀ low ∈ m.stack.head?, Nests cb low := by
  intro low hlow
  have hid := sendId_of_inUserCode huser low hlow
  exact ⟨fun h => by simp [hid] at h, fun h => by simp [hid] at h⟩

theorem StackInv.fresh (hS : m.StackInv stack) {d : Closure} (hd : d ∉ m.calls) :
    ∀ cb ∈ stack, cb.owner ≠ some d := by
  intro cb hcb heq
  obtain ⟨c, hc, howner⟩ := hS.known cb hcb
  exact hd (Option.some.inj (howner.symm.trans heq) ▸ hc)

theorem StackInv.accept {method request response endpoints d j i} (hS : m.StackInv m.stack)
    (hT : m.TableInv) (huser : m.inUserCode) (hd : d ∉ m.calls) (hfree : m.st.mgr.FirstFree j i) :
    (m.accept env method request response endpoints d j i).StackInv
      (m.accept env method request response endpoints d j i).stack := by
  have hslot : ∀ cb ∈ m.stack, ∀ k, cb.slot? = some k → k ≠ i := by
    rintro cb hcb k hk rfl
    exact (hS.held cb hcb k hk).1 hfree.free
  have hnode : ∀ k, (m.accept env method request response endpoints d j i).Live k →
      (k = i ∧ ((m.accept env method request response endpoints d j i).node k).done = some d) ∨
        (k ≠ i ∧ m.Live k ∧
          (m.accept env method request response endpoints d j i).node k = m.node k) := by
    intro k hk
    by_cases hki : k = i
    · exact Or.inl ⟨hki, by rw [hki, accept_node_self]⟩
    · have heq : (m.accept env method request response endpoints d j i).node k = m.node k :=
        accept_node_of_ne hki
      exact Or.inr ⟨hki, by rwa [Live, heq] at hk, heq⟩
  have hold : (m.accept env method request response endpoints d j i).StackInv m.stack := by
    refine ⟨?_, ?_, ?_, ?_, hS.apart, hS.nests, ?_⟩
    · intro cb hcb k hk
      rw [Live, accept_node_of_ne (hslot cb hcb k hk)]
      exact hS.held cb hcb k hk
    · intro cb hcb hsend hnone k hk
      rcases hnode k hk with ⟨-, hdone⟩ | ⟨-, hlive, heq⟩
      · rw [hdone]
        exact fun heq => hS.fresh hd cb hcb heq.symm
      · rw [heq]
        exact hS.loose cb hcb hsend hnone k hlive
    · intro cb hcb
      obtain ⟨c, hc, howner⟩ := hS.known cb hcb
      exact ⟨c, List.mem_cons_of_mem _ hc, howner⟩
    · intro cb hcb x hx
      obtain ⟨σ, hσ, howner, hid⟩ := hS.sends cb hcb x hx
      exact ⟨σ, List.mem_cons_of_mem _ hσ, howner, hid⟩
    · intro cb hcb k hk hx
      rw [sendId_of_inUserCode huser cb hcb] at hx
      cases hx
  refine hold.push ?_ ?_ ⟨d, List.mem_cons_self, rfl⟩ ?_ ?_ (nests_of_inUserCode huser _) ?_
  · intro k hk
    simp [Callback.slot?] at hk
  · intro h
    simp [Callback.sendId] at h
  · intro x hx
    obtain rfl : _ = x := Option.some.inj hx
    exact ⟨_, List.mem_cons_self, rfl, rfl⟩
  · intro low hlow _ heq
    exact hS.fresh hd low hlow heq.symm
  · intro k hk hx
    rcases hnode k hk with ⟨-, hdone⟩ | ⟨hki, hlive, heq⟩
    · exact hdone
    · -- no other live slot has an id that maps to slot `i`
      rw [heq] at hx
      have hid := congrArg m.st.mgr.slotOf (Option.some.inj hx)
      rw [hT.slot k hlive] at hid
      exact absurd (hid.symm.trans hfree.slot) hki

theorem StackInv.close {cancel : Bool} {i : ℕ} {cb : Callback} {rest : List Callback}
    (hS : m.StackInv (cb :: rest)) (hT : m.TableInv) (hslot : cb.slot? = some i) :
    (m.close env cancel i rest).StackInv rest := by
  obtain ⟨hlive, hdone⟩ := hS.held cb List.mem_cons_self i hslot
  have happ := (List.pairwise_cons.mp hS.apart).1
  refine ⟨?_, ?_, ?_, ?_, (List.pairwise_cons.mp hS.apart).2, hS.nests.tail, ?_⟩
  · intro low hlow k hk
    obtain ⟨hlk, hdk⟩ := hS.held low (List.mem_cons_of_mem _ hlow) k hk
    have hki : k ≠ i := by
      rintro rfl
      exact happ low hlow (Callback.sendId_of_slot hk) (hdone.symm.trans hdk)
    rw [close_live, close_node_of_ne hki]
    exact ⟨⟨hki, hlk⟩, hdk⟩
  · intro low hlow hsend hnone k hk
    obtain ⟨hki, hlk⟩ := close_live.mp hk
    rw [close_node_of_ne hki]
    exact hS.loose low (List.mem_cons_of_mem _ hlow) hsend hnone k hlk
  · exact fun low hlow => hS.known low (List.mem_cons_of_mem _ hlow)
  · exact fun low hlow => hS.sends low (List.mem_cons_of_mem _ hlow)
  · intro low hlow k hk hx
    obtain ⟨hki, hlk⟩ := close_live.mp hk
    rw [close_node_of_ne hki] at hx ⊢
    -- a send below works for the session of slot `i`, whose id no other slot has
    have hnest : Nests cb low := (List.isChain_cons.mp hS.nests).1 low hlow
    have howner := hnest.owner (by simp [hx])
    obtain ⟨σ, hσ, hσd, hσx⟩ :=
      hS.sends low (List.mem_cons_of_mem _ (List.mem_of_mem_head? hlow)) _ hx
    obtain ⟨τ, hτ, hh⟩ := hT.held i hlive
    have hdd : τ.done = σ.done := by
      rw [hh.done, howner, hσd] at hdone
      exact Option.some.inj hdone
    obtain rfl := hT.distinct τ hτ σ hσ hdd
    have hid : (m.node i).rpcId = (m.node k).rpcId := hh.rpcId.trans hσx
    exact absurd ((hT.slot k hlk).symm.trans ((congrArg _ hid.symm).trans (hT.slot i hlive))) hki

theorem StackInv.step {a : Action Msg} (hS : m.StackInv m.stack) (hT : m.TableInv)
    (h : m.Kind env a m') : m'.StackInv m'.stack := by
  cases h with
  | quiet h hstack => exact hstack ▸ hS.steady h.toSteady
  | @refuse _ _ d r site h huser hd hd' hsite hstack =>
    rw [hstack]
    have hS' := hS.steady h.toSteady
    refine hS'.push ?_ ?_ ⟨d, hd', rfl⟩ ?_ ?_ (nests_of_inUserCode huser _) ?_
    · intro k hk
      simp [Callback.slot?, hsite] at hk
    · intro _ _ k hk heq
      obtain ⟨c, hc, hcd⟩ := hT.done_known ((h.live k).mp hk)
      rw [h.done, hcd] at heq
      exact hd (Option.some.inj heq ▸ hc)
    · intro x hx
      simp [Callback.sendId] at hx
    · intro low hlow _ heq
      exact hS.fresh hd low hlow heq.symm
    · intro k _ hx
      simp [Callback.sendId] at hx
  | accept huser hd hfree => exact hS.accept hT huser hd hfree
  | @retry _ _ i h hlive hrep hindex hstack =>
    rw [hstack]
    obtain ⟨σ, hσ, hh⟩ := hT.held i hlive
    refine (hS.steady h).push ?_ ?_ ⟨σ.done, h.calls _ (hT.known σ hσ), hh.done⟩ ?_
      (hS.idle hlive hrep) (hS.nests_of_report hlive hrep rfl fun _ => rfl) ?_
    · intro k hk
      simp [retrySend, Callback.slot?] at hk
    · intro hsend
      simp [retrySend, Callback.sendId] at hsend
    · intro x hx
      obtain rfl : _ = x := Option.some.inj hx
      exact ⟨σ, h.sessions ▸ hσ, hh.done, hh.rpcId.symm⟩
    · intro k hk hx
      have hid : (m.node i).rpcId = (m.node k).rpcId := (Option.some.inj hx).trans (h.rpcId k)
      have hlk := (h.live k).mp hk
      have hki : k = i := by rw [← hT.slot k hlk, ← hT.slot i hlive, hid]
      rw [h.done, hki]
      rfl
  | @finish _ _ i r site h hlive hrep hsite hindex hstack =>
    rw [hstack]
    obtain ⟨c, hc, hcd⟩ := hT.done_known hlive
    refine (hS.steady h).push ?_ ?_ ⟨c, h.calls c hc, hcd⟩ ?_ (hS.idle hlive hrep)
      (hS.nests_of_report hlive hrep rfl ?_) ?_
    · intro k hk
      obtain rfl : i = k := Option.some.inj (hsite.symm.trans hk)
      exact ⟨(h.live i).mpr hlive, h.done i⟩
    · intro _ hnone
      simp [Callback.slot?, hsite] at hnone
    · intro x hx
      simp [Callback.sendId] at hx
    · intro hnone
      simp [Callback.slot?, hsite] at hnone
    · intro k _ hx
      simp [Callback.sendId] at hx
  | loose h hstack hslot =>
    rw [hstack] at hS
    exact (hS.pop hslot).steady h.toSteady
  | close hstack hslot =>
    rw [hstack] at hS
    exact hS.close hT hslot

/-! ## The ledger of `done` -/

/-- How often `done` has been invoked. A session with the id zero is never completed. -/
structure LedgerInv (m : Machine Msg) : Prop where
  fresh : ∀ c, c ∉ m.calls → m.doneCount c = 0
  running : ∀ i c, m.Live i → (m.node i).done = some c →
    m.doneCount c = m.stack.countP (Callback.isDone c)
  once : ∀ c, m.doneCount c ≤ 1
  finished : ∀ σ ∈ m.sessions, σ.rpcId ≠ 0 →
    (∃ i, m.Live i ∧ (m.node i).done = some σ.done) ∨ m.doneCount σ.done = 1
  silent : ∀ σ ∈ m.sessions, σ.rpcId = 0 → m.doneCount σ.done = 0

theorem doneCount_of_log_eq (hlog : m'.log = m.log) (c : Closure) :
    m'.doneCount c = m.doneCount c := by
  rw [doneCount, hlog, doneCount]

theorem doneCount_of_log_cons {cb : Callback} (hlog : m'.log = cb :: m.log) (c : Closure) :
    m'.doneCount c = m.doneCount c + if cb.isDone c then 1 else 0 := by
  rw [doneCount, hlog, List.countP_cons, doneCount]

theorem countP_isDone_eq_zero {c : Closure}
    (h : ∀ cb ∈ stack, cb.sendId = none → some c ≠ cb.owner) :
    stack.countP (Callback.isDone c) = 0 := by
  rw [List.countP_eq_zero]
  intro cb hcb hdone
  obtain ⟨hsend, howner⟩ := Callback.isDone_iff.mp hdone
  exact h cb hcb hsend howner.symm

/-- `done` of a session the transport may report on has not been invoked yet. -/
theorem LedgerInv.idle (hL : m.LedgerInv) (hS : m.StackInv m.stack) {i : ℕ} {c : Closure}
    (hlive : m.Live i) (hrep : m.mayReport (m.node i).rpcId) (hc : (m.node i).done = some c) :
    m.doneCount c = 0 := by
  rw [hL.running i c hlive hc]
  refine countP_isDone_eq_zero fun low hlow hsend => ?_
  rw [← hc]
  exact hS.idle hlive hrep low hlow hsend

theorem LedgerInv.steady_of_log (hL : m.LedgerInv) (h : m.Steady m') (hlog : m'.log = m.log)
    (hstack : ∀ i c, m.Live i → (m.node i).done = some c →
      m'.stack.countP (Callback.isDone c) = m.stack.countP (Callback.isDone c)) :
    m'.LedgerInv where
  fresh c hc := by
    rw [doneCount_of_log_eq hlog]
    exact hL.fresh c fun hmem => hc (h.calls c hmem)
  running i c hi hc := by
    rw [h.live] at hi
    rw [h.done] at hc
    rw [doneCount_of_log_eq hlog, hstack i c hi hc, hL.running i c hi hc]
  once c := by
    rw [doneCount_of_log_eq hlog]
    exact hL.once c
  finished σ hσ hne := by
    rw [h.sessions] at hσ
    rw [doneCount_of_log_eq hlog]
    refine (hL.finished σ hσ hne).imp_left ?_
    rintro ⟨i, hi, hd⟩
    exact ⟨i, (h.live i).mpr hi, by rw [h.done, hd]⟩
  silent σ hσ hz := by
    rw [doneCount_of_log_eq hlog]
    exact hL.silent σ (h.sessions ▸ hσ) hz

/-- A callback starts; if it is the `done` of a call, that `done` had not been invoked. -/
theorem LedgerInv.push {cb : Callback} (hL : m.LedgerInv) (h : m.Steady m')
    (hlog : m'.log = cb :: m.log) (hstack : m'.stack = cb :: m.stack)
    (hfirst : ∀ c, cb.isDone c → m.doneCount c = 0 ∧ c ∈ m'.calls)
    (hsilent : ∀ σ ∈ m.sessions, σ.rpcId = 0 → cb.isDone σ.done = false) :
    m'.LedgerInv where
  fresh c hc := by
    have hno : cb.isDone c = false := by
      by_contra hdone
      exact hc (hfirst c (by simpa using hdone)).2
    rw [doneCount_of_log_cons hlog, hno]
    exact hL.fresh c fun hmem => hc (h.calls c hmem)
  running i c hi hc := by
    rw [h.live] at hi
    rw [h.done] at hc
    rw [doneCount_of_log_cons hlog, hstack, List.countP_cons, hL.running i c hi hc]
  once c := by
    rw [doneCount_of_log_cons hlog]
    have hle := hL.once c
    split_ifs with hdone
    · rw [(hfirst c hdone).1]
    · omega
  finished σ hσ hne := by
    rw [h.sessions] at hσ
    rw [doneCount_of_log_cons hlog]
    rcases hL.finished σ hσ hne with ⟨i, hi, hd⟩ | hone
    · exact Or.inl ⟨i, (h.live i).mpr hi, by rw [h.done, hd]⟩
    · have hno : ¬ cb.isDone σ.done := fun hdone => by
        have hzero := (hfirst _ hdone).1
        omega
      exact Or.inr (by rw [hone, if_neg hno])
  silent σ hσ hz := by
    rw [h.sessions] at hσ
    rw [doneCount_of_log_cons hlog, hL.silent σ hσ hz, hsilent σ hσ hz]
    rfl

theorem LedgerInv.accept {method request response endpoints d j i} (hL : m.LedgerInv)
    (hS : m.StackInv m.stack) (hd : d ∉ m.calls) (hfree : m.st.mgr.FirstFree j i) :
    (m.accept env method request response endpoints d j i).LedgerInv := by
  have hcons : (m.accept env method request response endpoints d j i).log = _ :: m.log := rfl
  have hlog := doneCount_of_log_cons hcons
  constructor
  · intro c hc
    rw [hlog, hL.fresh c fun hmem => hc (List.mem_cons_of_mem _ hmem)]
    rfl
  · intro k c hk hc
    rw [hlog]
    change _ = List.countP _ (_ :: m.stack)
    rw [List.countP_cons]
    by_cases hki : k = i
    · subst hki
      rw [accept_node_self] at hc
      obtain rfl : d = c := Option.some.inj hc
      have hzero := countP_isDone_eq_zero (c := d) fun cb hcb _ heq =>
        hS.fresh hd cb hcb heq.symm
      rw [hL.fresh d hd, hzero]
    · rw [Live, accept_node_of_ne hki] at hk
      rw [accept_node_of_ne hki] at hc
      rw [hL.running k c hk hc]
  · intro c
    rw [hlog]
    exact hL.once c
  · intro σ hσ hne
    rw [hlog]
    rcases List.mem_cons.mp hσ with rfl | hσ
    · exact Or.inl ⟨i, by rw [Live, accept_node_self]; exact hne, by rw [accept_node_self]⟩
    · refine (hL.finished σ hσ hne).imp_left ?_
      rintro ⟨k, hk, hkd⟩
      have hki : k ≠ i := by
        rintro rfl
        exact hk hfree.free
      exact ⟨k, by rwa [Live, accept_node_of_ne hki], by rw [accept_node_of_ne hki, hkd]⟩
  · intro σ hσ hz
    rw [hlog]
    rcases List.mem_cons.mp hσ with rfl | hσ
    · exact hL.fresh d hd
    · exact hL.silent σ hσ hz

theorem LedgerInv.close {cancel : Bool} {i : ℕ} {cb : Callback} {rest : List Callback}
    (hL : m.LedgerInv) (hS : m.StackInv m.stack) (hT : m.TableInv) (hstack : m.stack = cb :: rest)
    (hslot : cb.slot? = some i) : (m.close env cancel i rest).LedgerInv := by
  have hlog : ∀ c, (m.close env cancel i rest).doneCount c = m.doneCount c :=
    doneCount_of_log_eq rfl
  have hmem : cb ∈ m.stack := hstack ▸ List.mem_cons_self
  obtain ⟨hlive, hdone⟩ := hS.held cb hmem i hslot
  constructor
  · intro c hc
    rw [hlog]
    exact hL.fresh c hc
  · intro k c hk hc
    obtain ⟨hki, hlk⟩ := close_live.mp hk
    rw [close_node_of_ne hki] at hc
    have hno : ¬ cb.isDone c := fun h => by
      have howner := (Callback.isDone_iff.mp h).2
      exact hki (hT.inj k i hlk hlive (by rw [hc, hdone, howner]))
    rw [hlog, hL.running k c hlk hc, hstack, List.countP_cons, if_neg hno]
    rfl
  · intro c
    rw [hlog]
    exact hL.once c
  · intro σ hσ hne
    rw [hlog]
    rcases hL.finished σ hσ hne with ⟨k, hlk, hkd⟩ | hone
    · by_cases hki : k = i
      · -- the `done` that returns is that of the session
        subst hki
        have hrun : cb.isDone σ.done :=
          Callback.isDone_iff.mpr ⟨Callback.sendId_of_slot hslot, hdone.symm.trans hkd⟩
        have hpos : 0 < m.stack.countP (Callback.isDone σ.done) :=
          List.countP_pos_iff.mpr ⟨cb, hmem, hrun⟩
        rw [← hL.running k σ.done hlk hkd] at hpos
        exact Or.inr (by have hle := hL.once σ.done; omega)
      · exact Or.inl ⟨k, close_live.mpr ⟨hki, hlk⟩, by rw [close_node_of_ne hki, hkd]⟩
    · exact Or.inr hone
  · intro σ hσ hz
    rw [hlog]
    exact hL.silent σ hσ hz

theorem LedgerInv.step {a : Action Msg} (hL : m.LedgerInv) (hS : m.StackInv m.stack)
    (hT : m.TableInv) (h : m.Kind env a m') : m'.LedgerInv := by
  cases h with
  | quiet h hstack hlog => exact hL.steady_of_log h.toSteady hlog fun _ _ _ _ => by rw [hstack]
  | @refuse _ _ d r site h huser hd hd' hsite hstack hlog =>
    refine hL.push h.toSteady hlog hstack (fun c hc => ?_) fun σ hσ _ => ?_
    · obtain rfl : d = c := by simpa [Callback.isDone] using hc
      exact ⟨hL.fresh d hd, hd'⟩
    · have hne : d ≠ σ.done := fun heq => hd (heq ▸ hT.known σ hσ)
      simpa [Callback.isDone] using hne
  | accept huser hd hfree => exact hL.accept hS hd hfree
  | retry h hlive hrep hindex hstack hlog =>
    refine hL.push h hlog hstack (fun c hc => ?_) fun σ hσ _ => rfl
    simp [retrySend, Callback.isDone] at hc
  | @finish _ _ i r site h hlive hrep hsite hindex hstack hlog =>
    refine hL.push h hlog hstack (fun c hc => ?_) fun σ hσ hz => ?_
    · have hdone : (m.node i).done = some c := (Callback.isDone_iff.mp hc).2
      obtain ⟨c', hc', hcd⟩ := hT.done_known hlive
      obtain rfl : c' = c := Option.some.inj (hcd.symm.trans hdone)
      exact ⟨hL.idle hS hlive hrep hdone, h.calls c' hc'⟩
    · by_contra hdone
      have hrun : (Callback.done (m.node i).done r site).isDone σ.done := by simpa using hdone
      have hdone : (m.node i).done = some σ.done := (Callback.isDone_iff.mp hrun).2
      obtain ⟨τ, hτ, hh⟩ := hT.held i hlive
      obtain rfl := hT.distinct τ hτ σ hσ (Option.some.inj (hh.done.symm.trans hdone))
      exact hlive (hh.rpcId.trans hz)
  | @loose _ _ cb h hstack hslot hlog =>
    refine hL.steady_of_log h.toSteady hlog fun i c hi hc => ?_
    have hmem : cb ∈ m.stack := hstack ▸ List.mem_cons_self
    have hno : ¬ cb.isDone c := fun hdone => by
      obtain ⟨hsend, howner⟩ := Callback.isDone_iff.mp hdone
      exact hS.loose cb hmem hsend hslot i hi (hc.trans howner.symm)
    rw [hstack, List.countP_cons, if_neg hno]
    rfl
  | @close _ closure result site rest i hstack hslot => exact hL.close hS hT hstack hslot

/-! ## Runs -/

/-- The three invariants together. -/
structure Consistent (m : Machine Msg) : Prop where
  table : m.TableInv
  stack : m.StackInv m.stack
  ledger : m.LedgerInv

theorem Consistent.step (h : m.Consistent) {a : Action Msg} (hstep : m.step env a = some m') :
    m'.Consistent :=
  have hkind := (step_trans hstep).kind
  ⟨h.table.step hkind, h.stack.step h.table hkind, h.ledger.step h.stack h.table hkind⟩

theorem consistent_start {mgr : SessionManager} {now : ℕ} {mem : MsgRef → Msg}
    (hfresh : ∀ i, (mgr.sessPool i).rpcId = 0 ∧ (mgr.sessPool i).done = none) :
    (start mgr now mem).Consistent := by
  have hnone : ∀ i, ¬ (start mgr now mem).Live i := fun i hi => hi (hfresh i).1
  refine ⟨?_, ?_, ?_⟩
  · exact ⟨fun i hi => absurd hi (hnone i), fun i hi => absurd hi (hnone i),
      fun i _ hi => absurd hi (hnone i), fun _ h => absurd h List.not_mem_nil,
      fun _ h => absurd h List.not_mem_nil, fun _ i _ => (hfresh i).2⟩
  · exact ⟨fun _ h => absurd h List.not_mem_nil, fun _ h => absurd h List.not_mem_nil,
      fun _ h => absurd h List.not_mem_nil, fun _ h => absurd h List.not_mem_nil, .nil, .nil,
      fun _ h => by simp [start] at h⟩
  · exact ⟨fun _ _ => rfl, fun i _ hi => absurd hi (hnone i), fun _ => Nat.zero_le _,
      fun _ h => absurd h List.not_mem_nil, fun _ h => absurd h List.not_mem_nil⟩

end Machine

end HyperRpc
