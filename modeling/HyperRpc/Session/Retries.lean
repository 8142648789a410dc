import HyperRpc.Session.Answers
import HyperRpc.Session.Reentrancy

/-!
# Retries

A failed send leads to a send to the next endpoint of the list, and the failure of the last one
to `done`. The counter of the attempts has 16 bits. It counts to the end of every list that
`AddSession` accepts but the longest: of 65536 endpoints the first one is tried again.
-/
namespace HyperRpc

open Lib

/-- The address to which a callback sends a request for call `c`. -/
def Callback.sentFor (c : Closure) : Callback → Option Addr
  | .onSendRequest _ _ _ addr owner => if owner = some c then some addr else none
  | .done .. => none

/-- The `done(kTimeout)` of call `c` that follows the failure of its last endpoint. -/
def Callback.isExhaustion (c : Closure) : Callback → Bool
  | .done closure result (.lastEndpoint _) => closure = some c ∧ result = .kTimeout
  | _ => false

theorem Callback.isSome_sentFor (c : Closure) (cb : Callback) :
    (cb.sentFor c).isSome = cb.isSend c := by
  cases cb with
  | done => rfl
  | onSendRequest _ _ _ _ owner =>
    by_cases h : owner = some c <;> simp [sentFor, isSend, h]

namespace Machine

variable {Msg : Type}

section Attempts

variable (env : SessionEnv Msg) (m : Machine Msg) (c : Closure)

/-- The addresses to which requests were sent for call `c`, in their order. -/
def sentTo : List Addr := m.log.reverse.filterMap (Callback.sentFor c)

def exhaustions : ℕ := m.log.countP (Callback.isExhaustion c)

/-- The action is a failed send of call `c`, whose session is found. -/
def FailsFor (a : Action Msg) : Prop :=
  ∃ rpcId i, a = .onSendRequestFailed rpcId ∧ m.st.mgr.findSessionNode rpcId = some i ∧
    (m.node i).done = some c

/-- The states of a run in which `k` sends of call `c` have failed. -/
inductive Failing (s : Machine Msg) : ℕ → Machine Msg → Prop
  | start : Failing s 0 s
  | failed {k m a m'} (h : Failing s k m) (hfail : m.FailsFor c a)
      (hstep : m.step env a = some m') : Failing s (k + 1) m'
  | other {k m a m'} (h : Failing s k m) (hfail : ¬ m.FailsFor c a)
      (hstep : m.step env a = some m') : Failing s k m'

end Attempts

variable {env : SessionEnv Msg} {m m' : Machine Msg} {c : Closure} {k : ℕ}

theorem exists_failing {ok : Machine Msg → Action Msg → Prop} {s : Machine Msg}
    (h : Reaches (step env) ok s m) (c : Closure) : ∃ k, Failing env c s k m := by
  induction h with
  | refl => exact ⟨0, .start⟩
  | @tail t u a _ _ hstep ih =>
    obtain ⟨k, hk⟩ := ih
    by_cases hfail : t.FailsFor c a
    · exact ⟨k + 1, hk.failed hfail hstep⟩
    · exact ⟨k, hk.other hfail hstep⟩

/-! ## The log -/

theorem length_sentTo (m : Machine Msg) (c : Closure) :
    (m.sentTo c).length = m.sendCount c := by
  have hpred : (fun cb => (Callback.sentFor c cb).isSome) = Callback.isSend c :=
    funext (Callback.isSome_sentFor c)
  rw [sentTo, List.length_filterMap_eq_countP, List.countP_reverse, hpred, sendCount]

theorem sentTo_of_log_cons {cb : Callback} (hlog : m'.log = cb :: m.log) (c : Closure) :
    m'.sentTo c = m.sentTo c ++ (cb.sentFor c).toList := by
  rw [sentTo, hlog, List.reverse_cons, List.filterMap_append, sentTo]
  cases h : cb.sentFor c <;> simp [h]

theorem exhaustions_of_log_cons {cb : Callback} (hlog : m'.log = cb :: m.log) (c : Closure) :
    m'.exhaustions c = m.exhaustions c + if cb.isExhaustion c then 1 else 0 := by
  rw [exhaustions, hlog, List.countP_cons, exhaustions]

/-- The step adds nothing about call `c` to the log. -/
structure SilentFor (m : Machine Msg) (c : Closure) (m' : Machine Msg) : Prop where
  sends : m'.sentTo c = m.sentTo c
  exhaustions : m'.exhaustions c = m.exhaustions c

theorem silent_of_log_eq (hlog : m'.log = m.log) : m.SilentFor c m' where
  sends := by rw [sentTo, hlog, sentTo]
  exhaustions := by rw [exhaustions, hlog, exhaustions]

theorem silent_of_log_cons (cb : Callback) (hlog : m'.log = cb :: m.log)
    (hsend : cb.sentFor c = none) (hlast : cb.isExhaustion c = false) : m.SilentFor c m' where
  sends := by rw [sentTo_of_log_cons hlog, hsend, Option.toList_none, List.append_nil]
  exhaustions := by rw [exhaustions_of_log_cons hlog, hlast]; rfl

/-- Only an accepted call and a failed send have something to log. -/
theorem Trans.silent {a : Action Msg} (h : m.Trans env a m') (hfail : ¬ m.FailsFor c a)
    (hold : c ∈ m.calls ∨ c ∉ m'.calls) : m.SilentFor c m' := by
  cases h with
  | poolFull => exact silent_of_log_cons _ rfl rfl rfl
  | @accepted _ _ _ _ done _ hdone =>
    have hne : done ≠ c := by
      rintro rfl
      exact hold.elim hdone fun hnew => hnew List.mem_cons_self
    exact silent_of_log_cons (.onSendRequest _ _ _ _ (some done)) rfl
      (by simp [Callback.sentFor, hne]) rfl
  | noRoute => exact silent_of_log_cons _ rfl rfl rfl
  | failRetry _ _ hfind =>
    have hne : (m.node _).done ≠ some c := fun hd => hfail ⟨_, _, rfl, hfind, hd⟩
    exact silent_of_log_cons (m.retrySend _) rfl (by simp [Callback.sentFor, retrySend, hne])
      rfl
  | failLast _ _ hfind =>
    have hne : (m.node _).done ≠ some c := fun hd => hfail ⟨_, _, rfl, hfind, hd⟩
    exact silent_of_log_cons (.done (m.node _).done .kTimeout (.lastEndpoint _)) rfl rfl
      (by simp [Callback.isExhaustion, hne])
  | respDone => exact silent_of_log_cons _ rfl rfl rfl
  | expireLive => exact silent_of_log_cons _ rfl rfl rfl
  | _ => exact silent_of_log_eq rfl

/-! ## The attempts of a session -/

/-- What a session has done about `k` failed sends. The index of an attempt is cut to 16 bits. -/
structure Attempted (m : Machine Msg) (σ : Session) (k : ℕ) : Prop where
  addresses : m.sentTo σ.done =
    (List.range (m.sendCount σ.done)).map fun j => getEndpoint σ.endpoints (j % 65536)
  total : m.sendCount σ.done + m.exhaustions σ.done = k + 1
  bound : σ.endpoints.length < 65536 → m.sendCount σ.done ≤ σ.endpoints.length
  last : m.exhaustions σ.done = 0 ∨ m.exhaustions σ.done = 1 ∧
    σ.endpoints.length < 65536 ∧ m.sendCount σ.done = σ.endpoints.length

/-- The lists of accepted sessions, and their attempts. -/
structure RetryInv (m : Machine Msg) (c : Closure) (k : ℕ) : Prop where
  fresh : c ∉ m.calls → k = 0 ∧ m.sentTo c = [] ∧ m.exhaustions c = 0
  accepted : ∀ σ ∈ m.sessions, 0 < σ.endpoints.length ∧ σ.endpoints.length ≤ 65536
  attempted : ∀ σ ∈ m.sessions, σ.done = c → m.Attempted σ k

theorem Attempted.silent {σ : Session} (h : m.Attempted σ k) (hs : m.SilentFor σ.done m') :
    m'.Attempted σ k := by
  have hcount : m'.sendCount σ.done = m.sendCount σ.done := by
    rw [← length_sentTo, hs.sends, length_sentTo]
  constructor
  · rw [hs.sends, hcount]
    exact h.addresses
  · rw [hcount, hs.exhaustions]
    exact h.total
  · rw [hcount]
    exact h.bound
  · rw [hcount, hs.exhaustions]
    exact h.last

/-- The first request of a call goes to the first endpoint. -/
theorem attempted_accept {method request response endpoints d j i}
    (hsent : m.sentTo d = []) (hlast : m.exhaustions d = 0)
    (hpos : 0 < endpoints.length) :
    (m.accept env method request response endpoints d j i).Attempted
      ⟨d, (m.st.mgr.advance (j + 1)).nextRpcId, method, request, response, endpoints,
        (m.st.mgr.advance (j + 1)).drawn, m.st.wheel.now⟩ 0 := by
  have hlog : (m.accept env method request response endpoints d j i).log = _ :: m.log := rfl
  have hsend := sentTo_of_log_cons hlog d
  have hexh := exhaustions_of_log_cons hlog d
  rw [hsent, Callback.sentFor, if_pos rfl] at hsend
  rw [hlast] at hexh
  have hcount := congrArg List.length hsend
  rw [length_sentTo] at hcount
  refine ⟨?_, ?_, fun _ => ?_, Or.inl hexh⟩
  · rw [hcount]
    exact hsend
  · rw [hcount, hexh]
    rfl
  · rw [hcount]
    exact hpos

/-- The session in slot `i` is the one whose send has failed, and it is still uncompleted. -/
structure Retried (m : Machine Msg) (σ : Session) (i : ℕ) : Prop where
  holds : (m.node i).Holds σ
  quiet : m.Quiet i
  pending : m.doneCount σ.done = 0

theorem retried_of_found (hC : m.Consistent) {rpcId : UInt64} {i : ℕ} (hrep : m.mayReport rpcId)
    (hne : rpcId ≠ 0) (hfind : m.st.mgr.findSessionNode rpcId = some i) {σ : Session}
    (hσ : σ ∈ m.sessions) (hdone : (m.node i).done = some σ.done) : m.Retried σ i := by
  obtain ⟨hlive, hid⟩ := found hne hfind
  obtain ⟨τ, hτ, hh⟩ := hC.table.held i hlive
  obtain rfl := hC.table.distinct τ hτ σ hσ (Option.some.inj (hh.done.symm.trans hdone))
  rw [← hid] at hrep
  refine ⟨hh, ⟨hlive, fun cb hcb hslot => ?_⟩, hC.ledger.idle hC.stack hlive hrep hdone⟩
  exact hC.stack.idle hlive hrep cb hcb (Callback.sendId_of_slot hslot)
    (hC.stack.held cb hcb i hslot).2

/-- The index of the next attempt. -/
theorem Retried.index {σ : Session} {i : ℕ} (h : m.Retried σ i) (hN : m.SendInv) :
    (m.bumped i).endpointIndex.toNat = m.sendCount σ.done % 65536 := by
  obtain ⟨hpos, heq⟩ := hN.sent i σ.done h.quiet h.holds.done
  obtain ⟨n, hn⟩ : ∃ n, m.sendCount σ.done = n + 1 := ⟨m.sendCount σ.done - 1, by omega⟩
  rw [bumped, heq, hn, Nat.add_sub_cancel, ← UInt16.ofNat_one, ← UInt16.ofNat_add,
    UInt16.toNat_ofNat']

theorem exhaustions_le_doneCount (m : Machine Msg) (c : Closure) :
    m.exhaustions c ≤ m.doneCount c := by
  refine List.countP_mono_left fun cb _ hcb => ?_
  cases cb with
  | onSendRequest => simp [Callback.isExhaustion] at hcb
  | done closure result site =>
    cases site <;> simp_all [Callback.isExhaustion, Callback.isDone]

theorem Attempted.retry {σ : Session} {i : ℕ} (h : m.Attempted σ k) (hN : m.SendInv)
    (hr : m.Retried σ i)
    (hidx : (m.bumped i).endpointIndex.toNat < (m.node i).endpointList.length) :
    ((m.setNode i (m.bumped i)).push (m.retrySend i)).Attempted σ (k + 1) := by
  have hlog : ((m.setNode i (m.bumped i)).push (m.retrySend i)).log = m.retrySend i :: m.log := rfl
  have haddr : (m.retrySend i).sentFor σ.done =
      some (getEndpoint σ.endpoints (m.sendCount σ.done % 65536)) := by
    rw [retrySend, Callback.sentFor, if_pos hr.holds.done, hr.holds.endpoints, hr.index hN]
  have hsend := sentTo_of_log_cons hlog σ.done
  have hexh := exhaustions_of_log_cons hlog σ.done
  rw [haddr, Option.toList_some, h.addresses] at hsend
  rw [show (m.retrySend i).isExhaustion σ.done = false from rfl] at hexh
  have hcount := congrArg List.length hsend
  rw [length_sentTo, List.length_append, List.length_map, List.length_range,
    List.length_singleton] at hcount
  rw [hr.index hN, hr.holds.endpoints] at hidx
  have hle := exhaustions_le_doneCount m σ.done
  rw [hr.pending] at hle
  have htotal := h.total
  refine ⟨?_, ?_, fun hlt => ?_, Or.inl ?_⟩
  · rw [hcount, List.range_succ, List.map_append]
    exact hsend
  · rw [hcount, hexh]
    simp only [Bool.false_eq_true, if_false]
    omega
  · have hb := h.bound hlt
    rw [Nat.mod_eq_of_lt (by omega)] at hidx
    omega
  · rw [hexh]
    simp only [Bool.false_eq_true, if_false]
    omega

theorem Attempted.exhaust {σ : Session} {i : ℕ} (h : m.Attempted σ k) (hN : m.SendInv)
    (hr : m.Retried σ i) (hmax : σ.endpoints.length ≤ 65536)
    (hidx : (m.node i).endpointList.length ≤ (m.bumped i).endpointIndex.toNat) :
    ((m.setNode i (m.bumped i)).push
      (.done (m.node i).done .kTimeout (.lastEndpoint i))).Attempted σ (k + 1) := by
  have hlog : ((m.setNode i (m.bumped i)).push
      (.done (m.node i).done .kTimeout (.lastEndpoint i))).log =
        .done (m.node i).done .kTimeout (.lastEndpoint i) :: m.log := rfl
  have hsend := sentTo_of_log_cons hlog σ.done
  have hexh := exhaustions_of_log_cons hlog σ.done
  rw [Callback.sentFor, Option.toList_none, List.append_nil] at hsend
  have hlast : (Callback.done (m.node i).done .kTimeout (.lastEndpoint i)).isExhaustion σ.done =
      true := by
    simp [Callback.isExhaustion, hr.holds.done]
  have hcount := congrArg List.length hsend
  rw [length_sentTo, length_sentTo] at hcount
  rw [hr.index hN, hr.holds.endpoints] at hidx
  have hle := exhaustions_le_doneCount m σ.done
  rw [hr.pending] at hle
  rw [hlast, if_pos rfl] at hexh
  have htotal := h.total
  have hshort : σ.endpoints.length < 65536 := by omega
  have hb := h.bound hshort
  refine ⟨?_, by omega, fun _ => by omega, Or.inr ⟨by omega, hshort, ?_⟩⟩
  · rw [hsend, hcount]
    exact h.addresses
  · rw [Nat.mod_eq_of_lt (by omega)] at hidx
    omega

/-! ## Runs -/

theorem Trans.accepted_lists {a : Action Msg} (h : m.Trans env a m')
    (hI : ∀ σ ∈ m.sessions, 0 < σ.endpoints.length ∧ σ.endpoints.length ≤ 65536) :
    ∀ σ ∈ m'.sessions, 0 < σ.endpoints.length ∧ σ.endpoints.length ≤ 65536 := by
  cases h with
  | accepted _ _ hne hlen =>
    intro σ hσ
    rcases List.mem_cons.mp hσ with rfl | hσ
    · exact ⟨List.length_pos_iff.mpr hne, hlen⟩
    · exact hI σ hσ
  | _ => exact hI

/-- A session of call `c` is new only if the step accepts it. -/
theorem Trans.new_session {a : Action Msg} (h : m.Trans env a m') {σ : Session}
    (hσ : σ ∈ m'.sessions) : σ ∈ m.sessions ∨ σ.done ∉ m.calls ∧ ∃ method request response j i,
      m' = m.accept env method request response σ.endpoints σ.done j i ∧
        σ = ⟨σ.done, (m.st.mgr.advance (j + 1)).nextRpcId, method, request, response, σ.endpoints,
          (m.st.mgr.advance (j + 1)).drawn, m.st.wheel.now⟩ := by
  cases h with
  | @accepted method request response endpoints done _ hdone _ _ j i =>
    rcases List.mem_cons.mp hσ with rfl | hσ
    · exact Or.inr ⟨hdone, method, request, response, j, i, rfl, rfl⟩
    · exact Or.inl hσ
  | _ => exact Or.inl hσ

theorem RetryInv.other {a : Action Msg} (hI : m.RetryInv c k) (hT : m.TableInv)
    (hfail : ¬ m.FailsFor c a) (htrans : m.Trans env a m') : m'.RetryInv c k := by
  refine ⟨fun hc => ?_, htrans.accepted_lists hI.accepted, fun σ hσ hσc => ?_⟩
  · have hold : c ∉ m.calls := by
      rcases htrans.calls_cases with ⟨-, heq⟩ | ⟨d, -, -, heq⟩
      · exact heq ▸ hc
      · exact fun hmem => hc (heq ▸ List.mem_cons_of_mem d hmem)
    obtain ⟨hk, hsent, hlast⟩ := hI.fresh hold
    have hs := htrans.silent hfail (Or.inr hc)
    exact ⟨hk, hs.sends.trans hsent, hs.exhaustions.trans hlast⟩
  · rcases htrans.new_session hσ with hσ | ⟨hnew, method, request, response, j, i, rfl, heq⟩
    · subst hσc
      exact (hI.attempted σ hσ rfl).silent (htrans.silent hfail (Or.inl (hT.known σ hσ)))
    · obtain ⟨rfl, hsent, hlast⟩ := hI.fresh (hσc ▸ hnew)
      have hpos := (htrans.accepted_lists hI.accepted σ hσ).1
      rw [← hσc] at hsent hlast
      rw [heq]
      exact attempted_accept hsent hlast hpos

theorem RetryInv.failed {a : Action Msg} (hI : m.RetryInv c k) (hC : m.Consistent)
    (hN : m.SendInv) (hfail : m.FailsFor c a) (htrans : m.Trans env a m') :
    m'.RetryInv c (k + 1) := by
  have hknown : ∀ i x, x ≠ 0 → m.st.mgr.findSessionNode x = some i → (m.node i).done = some c →
      c ∈ m.calls := by
    intro i x hne hfind hdone
    obtain ⟨d, hd, hdd⟩ := hC.table.done_known (found hne hfind).1
    exact Option.some.inj (hdd.symm.trans hdone) ▸ hd
  obtain ⟨x, i, rfl, hfind, hdone⟩ := hfail
  have hlists := htrans.accepted_lists hI.accepted
  cases htrans with
  | failUnknown _ _ hnone => exact absurd (hnone.symm.trans hfind) (by simp)
  | failRetry hrep hne hfind' hidx =>
    obtain rfl := Option.some.inj (hfind.symm.trans hfind')
    refine ⟨fun hc => absurd (hknown i x hne hfind hdone) hc, hlists, fun σ hσ hσc => ?_⟩
    subst hσc
    exact (hI.attempted σ hσ rfl).retry hN (retried_of_found hC hrep hne hfind hσ hdone) hidx
  | failLast hrep hne hfind' hidx =>
    obtain rfl := Option.some.inj (hfind.symm.trans hfind')
    refine ⟨fun hc => absurd (hknown i x hne hfind hdone) hc, hlists, fun σ hσ hσc => ?_⟩
    subst hσc
    exact (hI.attempted σ hσ rfl).exhaust hN (retried_of_found hC hrep hne hfind hσ hdone)
      (hI.accepted σ hσ).2 hidx

/-- What holds of a run in which `k` sends of call `c` have failed. -/
structure Retrying (m : Machine Msg) (c : Closure) (k : ℕ) : Prop where
  consistent : m.Consistent
  sends : m.SendInv
  retries : m.RetryInv c k

variable {size core : UInt64} {rand : UInt32} {memory : ℕ → SessionNode} {mgr : SessionManager}
  {now : ℕ} {mem : MsgRef → Msg}

theorem Failing.retrying (hinit : SessionManager.init size core rand memory = some mgr)
    (h : Failing env c (Machine.start mgr now mem) k m) : m.Retrying c k := by
  induction h with
  | start =>
    have hwf : (Machine.start mgr now mem).WellFormed env mgr := wellFormed_start hinit
    refine ⟨hwf.consistent, ⟨fun _ _ => rfl, ?_⟩, ?_⟩
    · exact fun i _ hi => absurd ((SessionManager.init_fresh hinit).2 i).1 hi.1
    · exact ⟨fun _ => ⟨rfl, rfl, rfl⟩, by simp [Machine.start], by simp [Machine.start]⟩
  | failed _ hfail hstep ih =>
    have htrans := step_trans hstep
    exact ⟨ih.consistent.step hstep, ih.sends.step ih.consistent htrans.kind,
      ih.retries.failed ih.consistent ih.sends hfail htrans⟩
  | other _ hfail hstep ih =>
    have htrans := step_trans hstep
    exact ⟨ih.consistent.step hstep, ih.sends.step ih.consistent htrans.kind,
      ih.retries.other ih.consistent.table hfail htrans⟩

/-- After `k` failed sends the endpoints up to the one with index `k` were tried, each once and in
their order, and the failure of the last one, not an earlier one, has called `done(kTimeout)`. -/
structure RetriedInOrder (m : Machine Msg) (σ : Session) (k : ℕ) : Prop where
  sends : m.sentTo σ.done = σ.endpoints.take (k + 1)
  failures : k ≤ σ.endpoints.length
  exhausted : m.exhaustions σ.done = if k = σ.endpoints.length then 1 else 0
  index : ∀ i, m.Quiet i → (m.node i).done = some σ.done →
    (m.node i).endpointIndex.toNat < (m.node i).endpointList.length

theorem map_getEndpoint_range {endpoints : List Addr} {n : ℕ} (hn : n ≤ endpoints.length)
    (hmax : n ≤ 65536) :
    ((List.range n).map fun j => getEndpoint endpoints (j % 65536)) = endpoints.take n := by
  apply List.ext_getElem
  · simp [hn]
  · intro j hj hj'
    simp only [List.length_map, List.length_range] at hj
    simp only [List.getElem_map, List.getElem_range, List.getElem_take]
    rw [Nat.mod_eq_of_lt (by omega), getEndpoint, List.getD_eq_getElem _ _ (by omega)]

/-- The index of the last attempt is that of an endpoint. -/
theorem Retrying.index_lt (h : m.Retrying c k) {σ : Session} (hσ : σ ∈ m.sessions)
    (hσc : σ.done = c) {i : ℕ} (hquiet : m.Quiet i) (hdone : (m.node i).done = some σ.done) :
    (m.node i).endpointIndex.toNat < (m.node i).endpointList.length := by
  obtain ⟨τ, hτ, hh⟩ := h.consistent.table.held i hquiet.1
  obtain rfl := h.consistent.table.distinct τ hτ σ hσ (Option.some.inj (hh.done.symm.trans hdone))
  obtain ⟨hpos, heq⟩ := h.sends.sent i τ.done hquiet hdone
  have hatt := h.retries.attempted τ hσ hσc
  have hlist := h.retries.accepted τ hσ
  rw [heq, hh.endpoints, UInt16.toNat_ofNat']
  by_cases hshort : τ.endpoints.length < 65536
  · have hb := hatt.bound hshort
    rw [Nat.mod_eq_of_lt (by omega)]
    omega
  · have hlt := Nat.mod_lt (m.sendCount τ.done - 1) (show 0 < 65536 by norm_num)
    omega

/-- The attempts are in order until the counter wraps in the longest list. -/
theorem Retrying.retriedInOrder_iff (h : m.Retrying c k) {σ : Session} (hσ : σ ∈ m.sessions)
    (hσc : σ.done = c) :
    m.RetriedInOrder σ k ↔ σ.endpoints.length ≤ 65535 ∨ k < 65536 := by
  have hatt := h.retries.attempted σ hσ hσc
  have hlist := h.retries.accepted σ hσ
  have htotal := hatt.total
  constructor
  · intro hok
    by_contra hcon
    have hk := hok.failures
    have hexh := hok.exhausted
    rw [if_pos (by omega)] at hexh
    rcases hatt.last with h0 | ⟨-, hlt, -⟩ <;> omega
  · intro hcond
    have hle : m.sendCount σ.done ≤ σ.endpoints.length := by
      by_cases hshort : σ.endpoints.length < 65536
      · exact hatt.bound hshort
      · omega
    have htake : m.sentTo σ.done = σ.endpoints.take (m.sendCount σ.done) := by
      rw [hatt.addresses, map_getEndpoint_range hle (by omega)]
    refine ⟨?_, by rcases hatt.last with h0 | ⟨h1, -, heq⟩ <;> omega, ?_,
      fun i hi hd => h.index_lt hσ hσc hi hd⟩
    · rw [htake]
      rcases hatt.last with h0 | ⟨h1, -, heq⟩
      · rw [show m.sendCount σ.done = k + 1 by omega]
      · rw [heq, List.take_length, List.take_of_length_le (by omega)]
    · rcases hatt.last with h0 | ⟨h1, -, heq⟩
      · rw [h0, if_neg (by omega)]
      · rw [h1, if_pos (by omega)]

/-! ## A transport that fails at once -/

/-- Attempt `k` for the session in slot `i` is being sent. -/
structure Attempting (m : Machine Msg) (σ : Session) (i k : ℕ) : Prop where
  found : m.st.mgr.findSessionNode σ.rpcId = some i
  holds : (m.node i).Holds σ
  index : (m.node i).endpointIndex = UInt16.ofNat k
  top : ∃ method request addr owner,
    m.stack.head? = some (.onSendRequest method request σ.rpcId addr owner)

/-- The failure of an attempt is reported while it is being sent. -/
theorem Attempting.report {σ : Session} {i : ℕ} (h : m.Attempting σ i k) (hne : σ.rpcId ≠ 0)
    (hmax : σ.endpoints.length ≤ 65536) : ∃ m' cb,
      m.step env (.onSendRequestFailed σ.rpcId) = some m' ∧
      m.FailsFor σ.done (.onSendRequestFailed σ.rpcId) ∧ m'.stack = cb :: m.stack ∧
      (k + 1 < σ.endpoints.length → m'.Attempting σ i (k + 1)) := by
  obtain ⟨method, request, addr, owner, htop⟩ := h.top
  obtain ⟨rest, hstack⟩ := List.head?_eq_some_iff.mp htop
  have hrep : m.mayReport σ.rpcId := by simp [mayReport, hstack]
  have hstep : m.step env (.onSendRequestFailed σ.rpcId) =
      some (m.onSendRequestFailed σ.rpcId) := if_pos ⟨hrep, hne⟩
  have hfail : m.FailsFor σ.done (.onSendRequestFailed σ.rpcId) :=
    ⟨_, i, rfl, h.found, h.holds.done⟩
  have hindex : (m.bumped i).endpointIndex = UInt16.ofNat (k + 1) := by
    rw [bumped, h.index, UInt16.ofNat_add, UInt16.ofNat_one]
  have htrans := step_trans hstep
  generalize m.onSendRequestFailed σ.rpcId = m₁ at htrans hstep
  cases htrans with
  | failUnknown _ _ hnone => exact absurd (hnone.symm.trans h.found) (by simp)
  | failRetry _ _ hfind =>
    obtain rfl := Option.some.inj (h.found.symm.trans hfind)
    refine ⟨_, _, hstep, hfail, rfl, fun _ => ?_⟩
    have hnode : ((m.setNode i (m.bumped i)).push (m.retrySend i)).node i = m.bumped i :=
      Function.update_self ..
    obtain ⟨hslot, hid⟩ := m.st.mgr.findSessionNode_eq_some.mp h.found
    refine ⟨(SessionManager.findSessionNode_eq_some _).mpr ⟨hslot, ?_⟩, ?_, ?_, ?_⟩
    · exact (congrArg SessionNode.rpcId hnode).trans hid
    · rw [hnode]
      exact h.holds.of_view rfl
    · rw [hnode, hindex]
    · exact ⟨_, _, _, _, by rw [← h.holds.rpcId]; rfl⟩
  | failLast _ _ hfind hidx =>
    obtain rfl := Option.some.inj (h.found.symm.trans hfind)
    refine ⟨_, _, hstep, hfail, rfl, fun hlt => ?_⟩
    rw [hindex, h.holds.endpoints, UInt16.toNat_ofNat', Nat.mod_eq_of_lt (by omega)] at hidx
    omega

theorem Attempting.reports {s : Machine Msg} {σ : Session} {i : ℕ} (hne : σ.rpcId ≠ 0)
    (hmax : σ.endpoints.length ≤ 65536) (hfailing : Failing env σ.done s 0 m)
    (h : m.Attempting σ i 0) (hk : k ≤ σ.endpoints.length) : ∃ m' calls,
      run (step env) m (List.replicate k (.onSendRequestFailed σ.rpcId)) = some m' ∧
      Failing env σ.done s k m' ∧ m'.stack = calls ++ m.stack ∧ calls.length = k ∧
      (k < σ.endpoints.length → m'.Attempting σ i k) := by
  induction k with
  | zero => exact ⟨m, [], rfl, hfailing, rfl, rfl, fun _ => h⟩
  | succ k ih =>
    obtain ⟨m₁, calls, hrun, hfail₁, hstack, hlen, hnext⟩ := ih (by omega)
    obtain ⟨m₂, cb, hstep, hfor, hstack₂, hnext₂⟩ := (hnext (by omega)).report hne hmax
    refine ⟨m₂, cb :: calls, ?_, hfail₁.failed hfor hstep, ?_, ?_, hnext₂⟩
    · rw [List.replicate_succ', run_append, hrun, Option.bind_some]
      exact run_cons_eq_some.mpr ⟨m₂, hstep, rfl⟩
    · rw [hstack₂, hstack, List.cons_append]
    · rw [List.length_cons, hlen]

/-- The callbacks on top of the stack return one after the other. -/
theorem run_returns {s : Machine Msg} {calls below : List Callback}
    (hfailing : Failing env c s k m) (hstack : m.stack = calls ++ below) :
    ∃ m', run (step env) m (List.replicate calls.length .ret) = some m' ∧ m'.stack = below ∧
      Failing env c s k m' := by
  induction calls generalizing m with
  | nil => exact ⟨m, rfl, hstack, hfailing⟩
  | cons cb calls ih =>
    have hstep : m.step env .ret =
        some { m with st := m.st.resume env cb, stack := calls ++ below } := by
      simp [step, hstack]
    have hother := hfailing.other (a := .ret) (by simp [FailsFor]) hstep
    obtain ⟨m', hrun, hstack', hfailing'⟩ := ih hother rfl
    exact ⟨m', run_cons_eq_some.mpr ⟨_, hstep, hrun⟩, hstack', hfailing'⟩

/-- `AddSession` has accepted the session. -/
theorem attempting_of_accepted {method : MethodDescriptor} {request response : MsgRef}
    {endpoints : List Addr} {done : Closure} {σ : Session}
    (hstep : m.step env (.addSession method request response endpoints done) = some m')
    (hnew : m'.sessions = σ :: m.sessions) : σ.done = done ∧ σ.endpoints = endpoints ∧
      done ∉ m.calls ∧ (∃ i, m'.Attempting σ i 0) ∧ ∃ cb, m'.stack = cb :: m.stack := by
  have hsame : m.sessions ≠ σ :: m.sessions := fun h => by simpa using congrArg List.length h
  cases step_trans hstep with
  | tooLong => exact absurd hnew hsame
  | poolFull => exact absurd hnew hsame
  | @accepted _ _ _ _ _ _ hdone _ _ j i hfree =>
    obtain ⟨rfl, -⟩ := List.cons.inj hnew
    refine ⟨rfl, rfl, hdone, ⟨i, ?_, ?_, ?_, _, _, _, _, rfl⟩, _, rfl⟩
    · refine (SessionManager.findSessionNode_eq_some _).mpr ⟨?_, ?_⟩
      · rw [accept_slotOf]
        exact hfree.slot.symm
      · exact congrArg SessionNode.rpcId accept_node_self
    · rw [accept_node_self]
      exact ⟨rfl, rfl, rfl, rfl, rfl, rfl⟩
    · rw [accept_node_self]
      rfl

theorem mem_sessions_of_run {as : List (Action Msg)} (h : run (step env) m as = some m')
    {σ : Session} (hσ : σ ∈ m.sessions) : σ ∈ m'.sessions := by
  have hreach : Reaches (step env) (fun _ _ => True) m m' :=
    reaches_of_run (fun _ _ _ => trivial) h
  exact hreach.invariant (I := fun m => σ ∈ m.sessions)
    (fun hI _ hstep => (step_trans hstep).kind.mem_sessions hI) hσ

/-- Each failure of the new session is reported while the request is being sent, and then all
callbacks return. -/
def failAtOnce (σ : Session) : List (Action Msg) :=
  List.replicate σ.endpoints.length (.onSendRequestFailed σ.rpcId) ++
    List.replicate (σ.endpoints.length + 1) .ret

/-- `AddSession` returns, and a request was sent to each endpoint once. -/
def FinishesAtOnce (env : SessionEnv Msg) (m m' : Machine Msg) (σ : Session) : Prop :=
  ∃ m'', run (step env) m' (failAtOnce σ) = some m'' ∧ m''.stack = m.stack ∧
    m''.sentTo σ.done = σ.endpoints

theorem failAtOnce_run {s : Machine Msg} {σ : Session} {i : ℕ} {cb : Callback}
    (hmax : σ.endpoints.length ≤ 65536) (hne : σ.rpcId ≠ 0)
    (hfailing : Failing env σ.done s 0 m') (h : m'.Attempting σ i 0)
    (hstack : m'.stack = cb :: m.stack) : ∃ m'', run (step env) m' (failAtOnce σ) = some m'' ∧
      m''.stack = m.stack ∧ Failing env σ.done s σ.endpoints.length m'' := by
  obtain ⟨m₁, calls, hrun₁, hfailing₁, hstack₁, hlen, -⟩ := h.reports hne hmax hfailing le_rfl
  have hall : m₁.stack = (calls ++ [cb]) ++ m.stack := by
    rw [hstack₁, hstack, List.append_assoc, List.singleton_append]
  obtain ⟨m₂, hrun₂, hstack₂, hfailing₂⟩ := run_returns hfailing₁ hall
  rw [List.length_append, hlen, List.length_singleton] at hrun₂
  refine ⟨m₂, ?_, hstack₂, hfailing₂⟩
  rw [failAtOnce, run_append, hrun₁, Option.bind_some, hrun₂]

theorem Failing.fresh_eq_zero (hinit : SessionManager.init size core rand memory = some mgr)
    (h : Failing env c (Machine.start mgr now mem) k m) (hc : c ∉ m.calls) : k = 0 :=
  ((h.retrying hinit).retries.fresh hc).1

theorem finishesAtOnce_iff (hinit : SessionManager.init size core rand memory = some mgr)
    (hm : Reachable env mgr now mem m) {method : MethodDescriptor} {request response : MsgRef}
    {endpoints : List Addr} {done : Closure} {σ : Session}
    (hstep : m.step env (.addSession method request response endpoints done) = some m')
    (hnew : m'.sessions = σ :: m.sessions) (hne : σ.rpcId ≠ 0) :
    FinishesAtOnce env m m' σ ↔ σ.endpoints.length ≤ 65535 := by
  obtain ⟨hdone, -, hfresh, ⟨i, hattempt⟩, cb, hstack⟩ := attempting_of_accepted hstep hnew
  obtain ⟨k, hk⟩ := exists_failing hm σ.done
  obtain rfl := hk.fresh_eq_zero hinit (hdone ▸ hfresh)
  have hk' := hk.other (by simp [FailsFor]) hstep
  have hσ : σ ∈ m'.sessions := hnew ▸ List.mem_cons_self
  have hmax := ((hk'.retrying hinit).retries.accepted σ hσ).2
  obtain ⟨m'', hrun, hstack'', hn⟩ := failAtOnce_run hmax hne hk' hattempt hstack
  have hretry := hn.retrying hinit
  have hσ'' := mem_sessions_of_run hrun hσ
  constructor
  · rintro ⟨m₃, hrun₃, -, hsends⟩
    obtain rfl := Option.some.inj (hrun.symm.trans hrun₃)
    by_contra hlong
    have hatt := hretry.retries.attempted σ hσ'' rfl
    have htotal := hatt.total
    rw [← length_sentTo, hsends] at htotal
    rcases hatt.last with h0 | ⟨-, hlt, -⟩ <;> omega
  · intro hlen
    have horder := (hretry.retriedInOrder_iff hσ'' rfl).mpr (Or.inl hlen)
    refine ⟨m'', hrun, hstack'', ?_⟩
    rw [horder.sends, List.take_of_length_le (by omega)]

/-- The attempts for a session are in order, and its `done` is called after the last one, exactly
as long as the counter does not wrap, which it does at the 65536th failure in a list of 65536
endpoints. If every failure is reported at once, `AddSession` returns after one send to each
endpoint exactly if the list is not that long. -/
theorem retries_in_order_iff (hinit : SessionManager.init size core rand memory = some mgr) :
    (∀ c k m, Failing env c (start mgr now mem) k m → ∀ σ ∈ m.sessions, σ.done = c →
      (m.RetriedInOrder σ k ↔ σ.endpoints.length ≤ 65535 ∨ k < 65536)) ∧
    ∀ m m' method request response endpoints done σ, Reachable env mgr now mem m →
      m.step env (.addSession method request response endpoints done) = some m' →
      m'.sessions = σ :: m.sessions → σ.rpcId ≠ 0 →
      (FinishesAtOnce env m m' σ ↔ σ.endpoints.length ≤ 65535) :=
  ⟨fun _ _ _ h _ hσ hc => (h.retrying hinit).retriedInOrder_iff hσ hc,
    fun _ _ _ _ _ _ _ _ hm hstep hnew hne => finishesAtOnce_iff hinit hm hstep hnew hne⟩

/-! ## Two calls of a fresh manager -/

/-- A call on a manager none of whose slots is taken. -/
theorem exists_accepted (hidle : m.stack = []) (hlive : ∀ i, ¬ m.Live i) {method : MethodDescriptor}
    {request response : MsgRef} {endpoints : List Addr} {done : Closure} (hdone : done ∉ m.calls)
    (hne : endpoints ≠ []) (hlen : endpoints.length ≤ 65536) :
    ∃ m' σ, m.step env (.addSession method request response endpoints done) = some m' ∧
      m'.sessions = σ :: m.sessions := by
  have huser : m.inUserCode := by simp [inUserCode, hidle]
  have hstep : m.step env (.addSession method request response endpoints done) =
      some (m.addSession env method request response endpoints done) := if_pos ⟨huser, hdone, hne⟩
  have htrans := step_trans hstep
  generalize m.addSession env method request response endpoints done = m₁ at htrans hstep
  cases htrans with
  | tooLong _ _ hlong => omega
  | poolFull _ _ _ hfull => exact absurd (hfull 0 (Nat.two_pow_pos _)) (hlive _)
  | accepted => exact ⟨_, _, hstep, rfl⟩

/-- A call of the method with these endpoints on a manager with two slots, of which `k` sends have
failed. -/
theorem exists_failing_pair (endpoints : List Addr) (hne : endpoints ≠ [])
    (hlen : endpoints.length ≤ 65536) (hk : k ≤ endpoints.length) :
    ∃ m σ, Failing emptyEnv 10 (start pairManager 0 fun _ => ()) k m ∧ σ ∈ m.sessions ∧
      σ.done = 10 ∧ σ.endpoints = endpoints := by
  have hlive : ∀ i, ¬ (start pairManager 0 fun _ : MsgRef => ()).Live i := fun i hi =>
    hi ((SessionManager.init_fresh pairManager_init).2 i).1
  obtain ⟨m, σ, hstep, hnew⟩ : ∃ m σ,
      (start pairManager 0 fun _ => ()).step emptyEnv (.addSession pingMethod 0 1 endpoints 10) =
        some m ∧ m.sessions = σ :: (start pairManager 0 fun _ : MsgRef => ()).sessions :=
    exists_accepted rfl hlive (by simp [start]) hne hlen
  obtain ⟨hdone, rfl, hfresh, ⟨i, hattempt⟩, -⟩ := attempting_of_accepted hstep hnew
  have hσ : σ ∈ m.sessions := hnew ▸ List.mem_cons_self
  have hreach : Reachable emptyEnv pairManager 0 (fun _ => ()) m :=
    Reaches.single trivial hstep
  have hid := (ReachableIf.wellFormed pairManager_init hreach).rpcId_ne_zero (by decide) σ hσ
  have hstart : Failing emptyEnv σ.done (start pairManager 0 fun _ => ()) 0 m :=
    Failing.start.other (by simp [FailsFor]) hstep
  obtain ⟨m', -, hrun, hfailing, -⟩ := hattempt.reports hid hlen hstart hk
  exact ⟨m', σ, hdone ▸ hfailing, mem_sessions_of_run hrun hσ, hdone, rfl⟩

/-- Two endpoints, both of which fail. -/
theorem retries_in_order_pair : ∃ m σ,
    Failing emptyEnv 10 (start pairManager 0 fun _ => ()) 2 m ∧ σ ∈ m.sessions ∧
      σ.endpoints = [⟨1, 1⟩, ⟨2, 2⟩] ∧ m.RetriedInOrder σ 2 := by
  obtain ⟨m, σ, hfailing, hσ, hdone, hlist⟩ := exists_failing_pair (k := 2)
    [⟨1, 1⟩, ⟨2, 2⟩] (by simp) (by decide) (by decide)
  exact ⟨m, σ, hfailing, hσ, hlist, ((retries_in_order_iff pairManager_init).1 10 2 m hfailing σ hσ
    hdone).mpr (Or.inr (by norm_num))⟩

/-- All ports of one host. -/
def allPorts : List Addr := (List.range 65536).map fun j => ⟨0x7f000001, UInt16.ofNat j⟩

theorem length_allPorts : allPorts.length = 65536 := by simp [allPorts]

/-- The 65536th failure does not end the call but leads to a second attempt on the first port. -/
theorem longest_list_wraps : ∃ m σ,
    Failing emptyEnv 10 (start pairManager 0 fun _ => ()) 65536 m ∧ σ ∈ m.sessions ∧
      σ.done = 10 ∧ σ.endpoints = allPorts ∧ m.exhaustions 10 = 0 ∧
      m.sentTo 10 = allPorts ++ [⟨0x7f000001, 0⟩] ∧ ¬ m.RetriedInOrder σ 65536 := by
  have hlen := length_allPorts
  obtain ⟨m, σ, hfailing, hσ, hdone, hlist⟩ := exists_failing_pair (k := 65536) allPorts
    (List.length_pos_iff.mp (by omega)) hlen.le hlen.ge
  have hatt := (hfailing.retrying pairManager_init).retries.attempted σ hσ hdone
  have hnone : m.exhaustions σ.done = 0 :=
    hatt.last.resolve_right fun h => by rw [hlist] at h; omega
  have hcount : m.sendCount σ.done = 65536 + 1 := by
    have htotal := hatt.total
    omega
  have hsent : m.sentTo σ.done = allPorts ++ [⟨0x7f000001, 0⟩] := by
    rw [hatt.addresses, hcount, List.range_succ, List.map_append,
      map_getEndpoint_range (by rw [hlist, hlen]) le_rfl, hlist,
      List.take_of_length_le hlen.le]
    simp [getEndpoint, allPorts]
  refine ⟨m, σ, hfailing, hσ, hdone, hlist, hdone ▸ hnone, hdone ▸ hsent, fun horder => ?_⟩
  have hlong := congrArg List.length horder.sends
  rw [hsent, hlist, List.length_append, List.length_take, hlen] at hlong
  simp at hlong

end Machine

end HyperRpc
