import HyperRpc.Session.Accounting

/-!
# Ids keep sessions apart

Ids of live sessions are distinct however often the counter wraps. A packet or a failure with
the id of a session that is gone changes nothing until `2 ^ 48` further ids have been drawn,
and one with the id of a live session touches that session's slot and `done` only.
-/
namespace HyperRpc

open Lib

/-- The action tells the manager something about the id. -/
def Action.Reports {Msg : Type} (rpcId : UInt64) : Action Msg → Prop
  | .onSendRequestFailed x => x = rpcId
  | .onRecvResponse _ _ x _ _ => x = rpcId
  | _ => False

namespace Machine

variable {Msg : Type} {env : SessionEnv Msg} {m m' m'' : Machine Msg} {i : ℕ}

/-- Nothing but slot `i` and the `done` of its session is touched. -/
structure ActsOn (m : Machine Msg) (i : ℕ) (m' : Machine Msg) : Prop where
  node : ∀ k ≠ i, m'.node k = m.node k
  armed : ∀ k ≠ i, m'.st.wheel.armed k = m.st.wheel.armed k
  due : m'.st.wheel.due = m.st.wheel.due
  nextRpcId : m'.st.mgr.nextRpcId = m.st.mgr.nextRpcId
  doneCount : ∀ c, (m.node i).done ≠ some c → m'.doneCount c = m.doneCount c

theorem ActsOn.refl : m.ActsOn i m :=
  ⟨fun _ _ => rfl, fun _ _ => rfl, rfl, rfl, fun _ _ => rfl⟩

theorem ActsOn.trans (h : m.ActsOn i m') (h' : m'.ActsOn i m'')
    (hdone : (m'.node i).done = (m.node i).done) : m.ActsOn i m'' where
  node k hk := (h'.node k hk).trans (h.node k hk)
  armed k hk := (h'.armed k hk).trans (h.armed k hk)
  due := h'.due.trans h.due
  nextRpcId := h'.nextRpcId.trans h.nextRpcId
  doneCount c hc := (h'.doneCount c (by rwa [hdone])).trans (h.doneCount c hc)

theorem setNode_actsOn {n : SessionNode} : m.ActsOn i (m.setNode i n) :=
  ⟨fun k hk => by simp [setNode, SessionState.setNode, Machine.node, hk], fun _ _ => rfl, rfl, rfl,
    fun _ _ => rfl⟩

theorem setNode_bumped_done : ((m.setNode i (m.bumped i)).node i).done = (m.node i).done := by
  simp [setNode, SessionState.setNode, Machine.node, bumped]

theorem push_actsOn {cb : Callback} (h : ∀ c, (m.node i).done ≠ some c → cb.isDone c = false) :
    m.ActsOn i (m.push cb) :=
  ⟨fun _ _ => rfl, fun _ _ => rfl, rfl, rfl, fun c hc => by
    rw [doneCount_of_log_cons rfl, h c hc]
    rfl⟩

theorem parseInto_actsOn {k : ℕ} {respBody : List UInt8} :
    m.ActsOn i (m.parseInto env k respBody) :=
  ⟨fun _ _ => rfl, fun _ _ => rfl, rfl, rfl, fun _ _ => rfl⟩

theorem close_actsOn {cancel : Bool} {rest : List Callback} :
    m.ActsOn i (m.close env cancel i rest) where
  node _ hk := close_node_of_ne hk
  armed _ hk := close_armed_of_ne hk
  due := close_due.1
  nextRpcId := by cases cancel <;> rfl
  doneCount c _ := doneCount_of_log_eq rfl c

theorem isDone_of_ne {closure : Option Closure} {r : Result} {site : DoneSite} {c : Closure}
    (h : closure ≠ some c) : (Callback.done closure r site).isDone c = false := by
  simpa [Callback.isDone] using h

/-- What a report on slot `i` does before its callback runs, and the callback it makes. -/
theorem Trans.report {a : Action Msg} (h : m.Trans env a m') (hT : m.TableInv)
    (hidle : m.stack = []) (hlive : m.Live i) (ha : a.Reports (m.node i).rpcId) :
    m.ActsOn i m' ∧ (m'.node i).done = (m.node i).done ∧
      (m'.stack = [] ∨ ∃ cb, m'.stack = [cb] ∧ (cb.slot? = none ∨ cb.slot? = some i)) := by
  have hfound : ∀ {x k}, x = (m.node i).rpcId → m.st.mgr.findSessionNode x = some k → i = k := by
    rintro x k rfl hk
    rw [(m.st.mgr.findSessionNode_eq_some.mp hk).1, hT.slot i hlive]
  cases h with
  | failUnknown => exact ⟨.refl, rfl, Or.inl hidle⟩
  | failRetry _ _ hfind =>
    obtain rfl := hfound ha hfind
    have hsame : ((m.setNode i (m.bumped i)).node i).done = (m.node i).done := setNode_bumped_done
    exact ⟨setNode_actsOn.trans (push_actsOn fun c _ => rfl) hsame, hsame,
      Or.inr ⟨_, congrArg (List.cons _) hidle, Or.inl rfl⟩⟩
  | failLast _ _ hfind =>
    obtain rfl := hfound ha hfind
    have hsame : ((m.setNode i (m.bumped i)).node i).done = (m.node i).done := setNode_bumped_done
    exact ⟨setNode_actsOn.trans (push_actsOn fun c hc => isDone_of_ne (hsame ▸ hc)) hsame, hsame,
      Or.inr ⟨_, congrArg (List.cons _) hidle, Or.inr rfl⟩⟩
  | respIgnored => exact ⟨.refl, rfl, Or.inl hidle⟩
  | respUnparsed _ _ hfind => exact ⟨parseInto_actsOn, rfl, Or.inl hidle⟩
  | respDone _ _ hfind =>
    obtain rfl := hfound ha hfind
    exact ⟨parseInto_actsOn.trans (push_actsOn fun c hc => isDone_of_ne hc) rfl, rfl,
      Or.inr ⟨_, congrArg (List.cons _) hidle, Or.inr rfl⟩⟩
  | _ => exact absurd ha (by simp [Action.Reports])

theorem operation_report {a : Action Msg} (hT : m.TableInv) (hidle : m.stack = [])
    (hlive : m.Live i) (ha : a.Reports (m.node i).rpcId) (h : m.operation env a = some m') :
    m.ActsOn i m' := by
  obtain ⟨m₁, hstep, hret⟩ := operation_cases h
  obtain ⟨hacts, hdone, hstack⟩ := (step_trans hstep).report hT hidle hlive ha
  rcases hret with ⟨-, rfl⟩ | ⟨cb, rest, hcb, hret⟩
  · exact hacts
  · obtain ⟨cb', hcb', hslot⟩ := hstack.resolve_left (by simp [hcb])
    obtain ⟨rfl, rfl⟩ := List.cons_eq_cons.mp (hcb.symm.trans hcb')
    refine hacts.trans ?_ hdone
    have htrans := step_trans hret
    cases htrans with
    | retLoose =>
      exact ⟨fun _ _ => rfl, fun _ _ => rfl, rfl, rfl, fun _ _ => rfl⟩
    | retClose hst hsl =>
      obtain ⟨rfl, -⟩ := List.cons_eq_cons.mp (hst.symm.trans hcb)
      rcases hslot with hnone | hsome
      · exact absurd (hsl.symm.trans hnone) (by simp)
      · obtain rfl := Option.some.inj (hsl.symm.trans hsome)
        exact close_actsOn

/-- A report with an id that no slot holds changes nothing. -/
theorem operation_unknown {a : Action Msg} {x : UInt64} (hidle : m.stack = []) (hne : x ≠ 0)
    (hnone : m.st.mgr.findSessionNode x = none) (ha : a.Reports x) :
    m.operation env a = some m := by
  have hrep : m.mayReport x := by simp [mayReport, hidle]
  have hstep : m.step env a = some m := by
    cases a with
    | onSendRequestFailed y =>
      obtain rfl : y = x := ha
      simp [Machine.step, hrep, hne, onSendRequestFailed, SessionState.onSendRequestFailed, hnone,
        enter]
    | onRecvResponse service method y =>
      obtain rfl : y = x := ha
      simp [Machine.step, hrep, hne, onRecvResponse, SessionState.onRecvResponse, hnone, enter]
    | _ => exact absurd ha (by simp [Action.Reports])
  exact operation_of_idle hstep hidle

variable {size core : UInt64} {rand : UInt32} {memory : ℕ → SessionNode} {mgr : SessionManager}
  {now : ℕ} {mem : MsgRef → Msg}

theorem session_isolation (hinit : SessionManager.init size core rand memory = some mgr)
    (h : Reachable env mgr now mem m) (hidle : m.stack = []) :
    (∀ i j, m.Live i → m.Live j → (m.node i).rpcId = (m.node j).rpcId → i = j) ∧
      (∀ σ ∈ m.sessions, m.st.mgr.drawn - σ.drawnAt < 2 ^ 48 →
        (∀ τ ∈ m.sessions, σ.drawnAt ≤ τ.drawnAt → τ.rpcId = σ.rpcId → τ = σ) ∧
          (σ.rpcId ≠ 0 → m.doneCount σ.done = 1 →
            ∀ a : Action Msg, a.Reports σ.rpcId → m.operation env a = some m)) ∧
      ∀ i, m.Live i → ∀ a m', Action.Reports (m.node i).rpcId a →
        m.operation env a = some m' → m.ActsOn i m' := by
  have hwf := ReachableIf.wellFormed hinit h
  have hT := hwf.consistent.table
  refine ⟨fun i j hi hj hid => ?_, fun σ hσ hwin => ⟨fun τ hτ hle hid => ?_, ?_⟩, ?_⟩
  · rw [← hT.slot i hi, hid, hT.slot j hj]
  · exact hwf.ids.eq_of_rpcId hσ hτ hle hwin hid
  · intro hne hone a ha
    refine operation_unknown hidle hne (hwf.ids.not_found hT hσ hne hwin fun i hi hd => ?_) ha
    have hzero := hwf.doneCount_of_live hidle hi hd
    omega
  · exact fun i hlive a m' ha hop => operation_report hT hidle hlive ha hop

/-- The session of call 10 is gone, that of call 11 waits in the same pool. -/
theorem session_isolation_pair : ∃ m, Reachable emptyEnv pairManager 0 (fun _ => ()) m ∧
    m.stack = [] ∧ m.doneCount 10 = 1 ∧ m.Live 0 ∧
      m.operation emptyEnv (.onSendRequestFailed 0x1000000000001) = some m ∧
      ∀ i j, m.Live i → m.Live j → (m.node i).rpcId = (m.node j).rpcId → i = j := by
  obtain ⟨m, hm, hp⟩ := exists_reaches_of_run (step emptyEnv) (start pairManager 0 fun _ => ())
    [.addSession pingMethod 0 1 [⟨1, 1⟩] 10, .ret, .addSession pingMethod 2 3 [⟨1, 1⟩] 11, .ret,
      .onRecvResponse [80] [112] 0x1000000000001 .kSuccess [], .ret]
    (fun m => decide (m.stack = [] ∧ m.doneCount 10 = 1 ∧ (m.node 0).rpcId ≠ 0 ∧
      ∃ σ ∈ m.sessions, σ.done = 10 ∧ σ.rpcId = 0x1000000000001 ∧
        m.st.mgr.drawn - σ.drawnAt < 2 ^ 48)) (by decide +kernel)
  obtain ⟨hidle, hone, hlive, σ, hσ, hdone, hid, hwin⟩ := of_decide_eq_true hp
  obtain ⟨hdistinct, hstale, -⟩ := session_isolation pairManager_init hm hidle
  have hgone := (hstale σ hσ hwin).2 (by rw [hid]; decide) (hdone ▸ hone)
  exact ⟨m, hm, hidle, hone, hlive, hgone _ hid.symm, hdistinct⟩

end Machine

end HyperRpc
