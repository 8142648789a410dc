import HyperRpc.Model.SyncCall
import HyperRpc.Process.Calls

/-!
# Synchronous calls return the result of their own call

A call without a `done` waits for its inner closure, which works with pointers into the frame of
the call. In every run of a process with any threads that call it, an inner closure only runs while
its call waits, the notifications a thread finds are those of its present call, and what a call
returns is what its closure was invoked with, once (`sync_calls`). This rests on the process
invoking a closure at most once (`results_length_le`).
-/
namespace HyperRpc

open Lib

variable {Msg : Type} {env : RpcEnv Msg} {services : List (Service Msg)}

/-- What the action does to the process. -/
def CallersAction.process? : CallersAction Msg → Option (ProcessAction Msg)
  | .process a => some a
  | .callSync _ c method request response done posted =>
    some (.callOutside c method request response done posted)
  | _ => none

/-- The result an invocation of closure `d` gives it. -/
def Callback.result? (d : Closure) (cb : Callback) : Option Result :=
  cb.answer?.bind fun (e, r) => if e = d then some r else none

theorem Callback.result?_isSome {d : Closure} {cb : Callback} :
    (cb.result? d).isSome = cb.isDone d := by
  cases cb with
  | onSendRequest => rfl
  | done closure result site =>
    cases closure with
    | none => rfl
    | some e => by_cases h : e = d <;> simp [result?, answer?, isDone, h]

namespace Process

variable {p p' : Process Msg} {c : ℕ}

/-- The results closure `d` has been invoked with, by `CallMethod` itself or by the cores. -/
def results (env : RpcEnv Msg) (p : Process Msg) (d : Closure) : List Result :=
  (p.refused.filter (· = d)).map (fun _ => .kInError) ++
    (List.range env.workerNum).flatMap fun c => (p.cores c).log.filterMap (Callback.result? d)

theorem length_flatMap_range {β : Type*} (f : ℕ → List β) (n : ℕ) :
    ((List.range n).flatMap f).length = ∑ c ∈ Finset.range n, (f c).length := by
  induction n with
  | zero => rfl
  | succ n ih => rw [List.range_succ, List.flatMap_append, List.length_append, ih,
      Finset.sum_range_succ, List.flatMap_singleton]

/-- Where all but one of the lists are empty. -/
theorem flatMap_range_of_one {β : Type*} {f : ℕ → List β} {n : ℕ} (hc : c < n)
    (hothers : ∀ d < n, d ≠ c → f d = []) : (List.range n).flatMap f = f c := by
  induction n with
  | zero => exact absurd hc (Nat.not_lt_zero c)
  | succ n ih =>
    rw [List.range_succ, List.flatMap_append, List.flatMap_singleton]
    rcases Nat.lt_succ_iff_lt_or_eq.mp hc with hlt | rfl
    · rw [ih hlt fun d hd => hothers d (Nat.lt_succ_of_lt hd),
        hothers n (Nat.lt_succ_self n) hlt.ne', List.append_nil]
    · have hnil : ∀ d ∈ List.range c, f d = [] := fun d hd =>
        hothers d (Nat.lt_succ_of_lt (List.mem_range.mp hd)) (List.mem_range.mp hd).ne
      rw [List.flatMap_eq_nil_iff.mpr hnil, List.nil_append]

theorem results_length (d : Closure) : (p.results env d).length = p.invoked env d := by
  have hcore : ∀ c, ((p.cores c).log.filterMap (Callback.result? d)).length =
      (p.cores c).doneCount d := by
    intro c
    rw [List.length_filterMap_eq_countP, Machine.doneCount]
    exact List.countP_congr fun cb _ => by rw [Callback.result?_isSome]
  rw [results, List.length_append, List.length_map, length_flatMap_range, invoked]
  simp only [hcore, List.count, ← List.countP_eq_length_filter]
  congr 1

/-- The process invokes no closure more often than it has been passed to `CallMethod`. -/
theorem results_length_le (hP : p.PlacesInv env)
    (hledger : ∀ c < env.workerNum, (p.cores c).LedgerInv) (d : Closure) :
    (p.results env d).length ≤ p.issued.count d := by
  have hcores : ∑ c ∈ Finset.range env.workerNum, (p.cores c).doneCount d ≤ p.handed env d := by
    refine Finset.sum_le_sum fun c hc => ?_
    have hL := hledger c (Finset.mem_range.mp hc)
    by_cases hd : d ∈ (p.cores c).calls
    · exact (hL.once d).trans (List.count_pos_iff.mpr hd)
    · rw [hL.fresh d hd]
      exact Nat.zero_le _
  have hplaced := hP.placed d
  rw [placed] at hplaced
  rw [results_length, invoked]
  omega

/-- What a step has invoked: nothing, or one closure on one core. -/
inductive Rings (env : RpcEnv Msg) (p p' : Process Msg) : Prop
  | quiet (hlog : ∀ c, (p'.cores c).log = (p.cores c).log)
  | one {c : ℕ} {cb : Callback} (hc : c < env.workerNum)
      (hself : (p'.cores c).log = cb :: (p.cores c).log)
      (hothers : ∀ d ≠ c, (p'.cores d).log = (p.cores d).log)

theorem CoreStep.rings {act : Action Msg} (h : p.CoreStep env c act p') (hc : c < env.workerNum) :
    p.Rings env p' := by
  have hothers : ∀ d ≠ c, (p'.cores d).log = (p.cores d).log := fun d hd => by
    rw [h.others d hd]
    rfl
  rcases (Machine.step_trans h.machine).kind.log_cases with hsame | ⟨cb, hcons⟩
  · refine .quiet fun d => ?_
    by_cases hd : d = c
    · exact hd ▸ hsame
    · exact hothers d hd
  · exact .one hc hcons hothers

theorem Rings.alike {p₀ p₁ : Process Msg} (h : p₀.Rings env p₁) (hbefore : p.Alike p₀)
    (hafter : p₁.Alike p') : p.Rings env p' := by
  cases h with
  | quiet hlog => exact .quiet fun c => by rw [hafter.cores, hlog, hbefore.cores]
  | one hc hself hothers =>
    refine .one hc (by rw [hafter.cores, hself, hbefore.cores]) fun d hd => ?_
    rw [hafter.cores, hothers d hd, hbefore.cores]

theorem Trans.rings {a : ProcessAction Msg} (h : p.Trans env services a p') :
    p.Rings env p' := by
  cases h.effect with
  | idle h => exact .quiet fun c => by rw [h.cores]
  | core hc hbefore h hafter => exact (h.rings hc).alike hbefore hafter
  | respond hc _ _ hbefore h hafter => exact (h.rings hc).alike hbefore hafter
  | invoke _ _ hbefore hafter =>
    exact .quiet fun c => by rw [hafter.cores]; exact congrArg _ (congrFun hbefore.cores c)
  | complete _ _ _ hafter => exact .quiet fun c => by rw [hafter.cores]; rfl
  | write _ _ hafter => exact .quiet fun c => by rw [hafter.cores]; rfl

theorem Recv.refused {buf : List UInt8} {addr : Addr} {dst : ℕ}
    (h : p.Recv env services c buf addr p' dst) : p'.refused = p.refused := by
  cases h with
  | dropped => rfl
  | invoked => rfl
  | responded _ hstep => exact hstep.refused

theorem SendFailed.refused {ctx : UInt64} {dst : ℕ} (h : p.SendFailed env c ctx p' dst) :
    p'.refused = p.refused := by
  cases h with
  | elsewhere => rfl
  | reported _ hstep => exact hstep.refused

theorem post_refused (task : Task) (posted : Bool) : (p.post task posted).refused = p.refused := by
  cases posted <;> rfl

/-- The closures `CallMethod` invokes itself. -/
theorem Trans.refused_cases {a : ProcessAction Msg} (h : p.Trans env services a p') :
    p'.refused = p.refused ∨ ∃ c method request response d,
      a = .callOutside c method request response d false ∧ d ∉ p.issued ∧
        p'.refused = d :: p.refused ∧ p'.cores = p.cores := by
  cases h with
  | recvPacket _ h =>
    split_ifs
    · exact Or.inl ((post_refused _ _).trans h.refused)
    · exact Or.inl h.refused
  | sentFailed _ h =>
    split_ifs
    · exact Or.inl ((post_refused _ _).trans h.refused)
    · exact Or.inl h.refused
  | callRefused _ hdone => exact Or.inr ⟨_, _, _, _, _, rfl, hdone, rfl, rfl⟩
  | callInWorker _ _ h => exact Or.inl h.refused
  | runRecv _ _ h => exact Or.inl h.refused
  | runFailed _ _ h => exact Or.inl h.refused
  | runCall _ _ h => exact Or.inl h.refused
  | core _ h => exact Or.inl h.refused
  | _ => exact Or.inl rfl

theorem results_of_quiet (hlog : ∀ c, (p'.cores c).log = (p.cores c).log)
    (hrefused : p'.refused = p.refused) (d : Closure) : p'.results env d = p.results env d := by
  simp only [results, hlog, hrefused]

/-- The results of a closure that has not been invoked before, and then once on core `c`. -/
theorem results_of_one {cb : Callback} {d : Closure} {r : Result} (hc : c < env.workerNum)
    (hself : (p'.cores c).log = cb :: (p.cores c).log)
    (hothers : ∀ e ≠ c, (p'.cores e).log = (p.cores e).log) (hrefused : p'.refused = p.refused)
    (hnone : p.results env d = []) (hcb : cb.result? d = some r) : p'.results env d = [r] := by
  obtain ⟨hleft, hright⟩ := List.append_eq_nil_iff.mp hnone
  have hcore : ∀ e < env.workerNum, (p.cores e).log.filterMap (Callback.result? d) = [] :=
    fun e he => List.flatMap_eq_nil_iff.mp hright e (List.mem_range.mpr he)
  rw [results, hrefused, hleft, List.nil_append, flatMap_range_of_one hc fun e he hne => by
    rw [hothers e hne, hcore e he], hself, List.filterMap_cons, hcb, hcore c hc]

/-- A closure that is invoked now and at most once in all has not been invoked before. -/
theorem results_eq_nil {cb : Callback} {d : Closure} {r : Result} (hc : c < env.workerNum)
    (hself : (p'.cores c).log = cb :: (p.cores c).log)
    (hothers : ∀ e ≠ c, (p'.cores e).log = (p.cores e).log) (hrefused : p'.refused = p.refused)
    (hcb : cb.result? d = some r) (hle : (p'.results env d).length ≤ 1) :
    p.results env d = [] := by
  have hdone : cb.isDone d = true := by rw [← Callback.result?_isSome, hcb, Option.isSome_some]
  have hsum := sum_of_one (f := fun e => (p.cores e).doneCount d)
    (g := fun e => (p'.cores e).doneCount d) (k := 1) hc
    (by rw [Machine.doneCount_of_log_cons hself, if_pos hdone])
    fun e he => Machine.doneCount_of_log_eq (hothers e he) d
  rw [results_length, invoked, hrefused, hsum] at hle
  rw [← List.length_eq_zero_iff, results_length, invoked]
  omega

theorem results_of_other {cb : Callback} {d : Closure}
    (hself : (p'.cores c).log = cb :: (p.cores c).log)
    (hothers : ∀ e ≠ c, (p'.cores e).log = (p.cores e).log) (hrefused : p'.refused = p.refused)
    (hcb : cb.result? d = none) : p'.results env d = p.results env d := by
  have hcore : ∀ e, (p'.cores e).log.filterMap (Callback.result? d) =
      (p.cores e).log.filterMap (Callback.result? d) := by
    intro e
    by_cases he : e = c
    · rw [he, hself, List.filterMap_cons, hcb]
    · rw [hothers e he]
  simp only [results, hrefused, hcore]

variable {boot : Boot Msg} {mgr : ℕ → SessionManager}

theorem reachable_results_le (hstarted : Started env boot mgr)
    (h : Reaches (Process.step env services) (fun _ _ => True) (Process.start boot mgr) p)
    (d : Closure) : (p.results env d).length ≤ p.issued.count d ∧ (p.results env d).length ≤ 1 := by
  have hP : p.PlacesInv env :=
    Reaches.invariant (fun hI _ hstep => PlacesInv.step hI (step_trans hstep)) h placesInv_start
  have hle := results_length_le hP
    (fun c hc => (wellFormed_core hstarted h hc).consistent.ledger) d
  exact ⟨hle, hle.trans (List.nodup_iff_count_le_one.mp hP.nodup d)⟩

end Process

namespace Callers

open Process

variable {fetch : ℕ → ℕ} {s s' : Callers Msg} {p p' : Process Msg}

theorem begun_of_quiet (hlog : ∀ c, (p'.cores c).log = (p.cores c).log) :
    s.begun env p p' = [] := by
  simp [begun, hlog]

theorem begun_of_one {c : ℕ} {cb : Callback} (hc : c < env.workerNum)
    (hself : (p'.cores c).log = cb :: (p.cores c).log)
    (hothers : ∀ e ≠ c, (p'.cores e).log = (p.cores e).log) :
    s.begun env p p' = ([cb].filterMap Callback.answer?).filterMap fun (d, r) =>
      if (s.captured d).isSome then some ⟨some c, d, r, false⟩ else none := by
  rw [begun, flatMap_range_of_one hc fun e _ he => by simp [hothers e he]]
  simp [hself]

/-- What a step of the process does to the closures of the calls that wait. -/
inductive Stirs (env : RpcEnv Msg) (s : Callers Msg) (p p' : Process Msg) : Prop
  | none (hbegun : s.begun env p p' = [])
      (hsame : ∀ d, (s.captured d).isSome → p'.results env d = p.results env d)
  | inner {c d r} (hcaptured : (s.captured d).isSome)
      (hbegun : s.begun env p p' = [⟨some c, d, r, false⟩]) (hnone : p.results env d = [])
      (hone : p'.results env d = [r])
      (hothers : ∀ e ≠ d, p'.results env e = p.results env e)

theorem stirs {a : ProcessAction Msg} (h : p.Trans env services a p')
    (hle : ∀ d, (p'.results env d).length ≤ 1)
    (hissued : ∀ d, (s.captured d).isSome → d ∈ p.issued) : s.Stirs env p p' := by
  rcases h.refused_cases with hrefused | ⟨_, _, _, _, d, -, hnew, hrefused, hcores⟩
  · cases h.rings with
    | quiet hlog => exact .none (begun_of_quiet hlog) fun d _ => results_of_quiet hlog hrefused d
    | @one c cb hc hself hothers =>
      have hbegun := begun_of_one (s := s) hc hself hothers
      cases hanswer : cb.answer? with
      | none =>
        refine .none (by rw [hbegun]; simp [hanswer]) fun d _ => ?_
        exact results_of_other hself hothers hrefused (by rw [Callback.result?, hanswer]; rfl)
      | some answer =>
        obtain ⟨d, r⟩ := answer
        have hresult : ∀ e, cb.result? e = if d = e then some r else none := fun e => by
          rw [Callback.result?, hanswer]
          rfl
        have hrest : ∀ e ≠ d, p'.results env e = p.results env e := fun e he =>
          results_of_other hself hothers hrefused (by rw [hresult, if_neg he.symm])
        by_cases hcaptured : (s.captured d).isSome
        · have hcb : cb.result? d = some r := by rw [hresult, if_pos rfl]
          have hnone := results_eq_nil hc hself hothers hrefused hcb (hle d)
          have hone := results_of_one hc hself hothers hrefused hnone hcb
          have hinner : s.begun env p p' = [⟨some c, d, r, false⟩] := by
            rw [hbegun]
            simp [hanswer, hcaptured]
          exact .inner hcaptured hinner hnone hone hrest
        · refine .none (by rw [hbegun]; simp [hanswer, hcaptured]) fun e he => hrest e ?_
          rintro rfl
          exact hcaptured he
  · refine .none (begun_of_quiet fun c => by rw [hcores]) fun e he => ?_
    have hne : d ≠ e := by
      rintro rfl
      exact hnew (hissued d he)
    simp [results, hrefused, hcores, hne]

/-- What holds of the threads. -/
structure SyncInv (env : RpcEnv Msg) (s : Callers Msg) : Prop where
  issued : ∀ d, (s.captured d).isSome → d ∈ s.process.issued
  frame : ∀ t f, (s.threads t).frame = some f → s.captured f.done = some t
  inner : ∀ run ∈ s.inner, ∃ t f, (s.threads t).frame = some f ∧ f.done = run.done ∧
    (s.threads t).notified = 0 ∧ s.process.results env run.done = [run.result] ∧
    (run.written → f.rpcResult = run.result)
  distinct : (s.inner.map InnerRun.done).Nodup
  woken : ∀ t f, (s.threads t).frame = some f →
    s.process.results env f.done = [] ∧ (s.threads t).notified = 0 ∨
    (∃ run ∈ s.inner, run.done = f.done) ∨
    s.process.results env f.done = [f.rpcResult] ∧ (s.threads t).notified = 1
  idle : ∀ t, (s.threads t).frame = none → (s.threads t).notified = 0
  gone : ∀ d t, s.captured d = some t → (∀ f, (s.threads t).frame = some f → f.done ≠ d) →
    ∃ ret ∈ s.returned, ret.done = d
  returned : ∀ ret ∈ s.returned, s.captured ret.done = some ret.thread ∧
    s.process.results env ret.done = [ret.result] ∧
    ∀ f, (s.threads ret.thread).frame = some f → f.done ≠ ret.done
  once : (s.returned.map SyncReturn.done).Nodup

namespace SyncInv

/-- The process has not invoked any of the closures that matter here. -/
theorem of_same (h : s.SyncInv env) (hissued : s.process.issued ⊆ p.issued)
    (hsame : ∀ d, (s.captured d).isSome → p.results env d = s.process.results env d) :
    ({ s with process := p } : Callers Msg).SyncInv env where
  issued d hd := hissued (h.issued d hd)
  frame := h.frame
  inner run hrun := by
    obtain ⟨t, f, hf, hdone, hnone, hresults, hwritten⟩ := h.inner run hrun
    refine ⟨t, f, hf, hdone, hnone, ?_, hwritten⟩
    rw [hsame _ (by rw [← hdone, h.frame t f hf, Option.isSome_some]), hresults]
  distinct := h.distinct
  woken t f hf := by
    rw [hsame _ (by rw [h.frame t f hf, Option.isSome_some])]
    exact h.woken t f hf
  idle := h.idle
  gone := h.gone
  returned ret hret := by
    obtain ⟨hcaptured, hresults, hgone⟩ := h.returned ret hret
    exact ⟨hcaptured, by rw [hsame _ (by rw [hcaptured, Option.isSome_some]), hresults], hgone⟩
  once := h.once

/-- The call of a closure that has not been invoked still waits. -/
theorem exists_frame (h : s.SyncInv env) {d : Closure} (hcaptured : (s.captured d).isSome)
    (hnone : s.process.results env d = []) :
    ∃ t f, (s.threads t).frame = some f ∧ f.done = d ∧ (s.threads t).notified = 0 ∧
      ∀ run ∈ s.inner, run.done ≠ d := by
  obtain ⟨t, ht⟩ := Option.isSome_iff_exists.mp hcaptured
  have hinner : ∀ run ∈ s.inner, run.done ≠ d := by
    rintro run hrun rfl
    obtain ⟨-, -, -, -, -, hresults, -⟩ := h.inner run hrun
    rw [hnone] at hresults
    cases hresults
  obtain ⟨f, hf, hdone⟩ : ∃ f, (s.threads t).frame = some f ∧ f.done = d := by
    by_contra hgone
    obtain ⟨ret, hret, rfl⟩ := h.gone d t ht fun f hf hdone => hgone ⟨f, hf, hdone⟩
    obtain ⟨-, hresults, -⟩ := h.returned ret hret
    rw [hnone] at hresults
    cases hresults
  refine ⟨t, f, hf, hdone, ?_, hinner⟩
  rcases h.woken t f hf with ⟨-, hzero⟩ | ⟨run, hrun, hrundone⟩ | ⟨hresults, -⟩
  · exact hzero
  · exact absurd (hrundone.trans hdone) (hinner run hrun)
  · rw [hdone, hnone] at hresults
    cases hresults

/-- An inner closure begins to run. -/
theorem of_begun (h : s.SyncInv env) {worker : Option ℕ} {d : Closure} {r : Result}
    (hissued : s.process.issued ⊆ p.issued) (hcaptured : (s.captured d).isSome)
    (hnone : s.process.results env d = []) (hone : p.results env d = [r])
    (hothers : ∀ e ≠ d, (s.captured e).isSome → p.results env e = s.process.results env e) :
    ({ s with process := p, inner := ⟨worker, d, r, false⟩ :: s.inner } : Callers Msg).SyncInv
      env := by
  obtain ⟨t, f, hf, rfl, hzero, hfresh⟩ := h.exists_frame hcaptured hnone
  constructor
  · exact fun e he => hissued (h.issued e he)
  · exact h.frame
  · intro run hrun
    rcases List.mem_cons.mp hrun with rfl | hrun
    · exact ⟨t, f, hf, rfl, hzero, hone, by simp⟩
    · obtain ⟨t', f', hf', hdone, hnone', hresults, hwritten⟩ := h.inner run hrun
      refine ⟨t', f', hf', hdone, hnone', ?_, hwritten⟩
      have hcap : (s.captured run.done).isSome := by
        rw [← hdone, h.frame t' f' hf', Option.isSome_some]
      rw [hothers _ (hfresh run hrun) hcap, hresults]
  · refine List.nodup_cons.mpr ⟨?_, h.distinct⟩
    simpa using hfresh
  · intro t' f' hf'
    have hcap := h.frame t' f' hf'
    by_cases hdone : f'.done = f.done
    · exact Or.inr (Or.inl ⟨_, List.mem_cons_self, hdone.symm⟩)
    · have hsame := hothers f'.done hdone (by rw [hcap, Option.isSome_some])
      rw [hsame]
      refine (h.woken t' f' hf').imp_right (Or.imp_left ?_)
      rintro ⟨run, hrun, hrundone⟩
      exact ⟨run, List.mem_cons_of_mem _ hrun, hrundone⟩
  · exact h.idle
  · exact h.gone
  · intro ret hret
    obtain ⟨hcap, hresults, hgone⟩ := h.returned ret hret
    have hne : ret.done ≠ f.done := by
      intro heq
      rw [heq, hnone] at hresults
      cases hresults
    exact ⟨hcap, by rw [hothers _ hne (by rw [hcap, Option.isSome_some]), hresults], hgone⟩
  · exact h.once

theorem captured_ne (h : s.SyncInv env) {d e : Closure} {t : ℕ} (hnew : d ∉ s.process.issued)
    (he : s.captured e = some t) : e ≠ d := by
  rintro rfl
  exact hnew (h.issued e (by rw [he, Option.isSome_some]))

/-- A call begins. -/
theorem of_enter (h : s.SyncInv env) {t : ℕ} {d : Closure} (hidle : (s.threads t).frame = none)
    (hnew : d ∉ s.process.issued) (hissued : d ∈ p.issued)
    (hsub : s.process.issued ⊆ p.issued) (hnone : p.results env d = [])
    (hsame : ∀ e, p.results env e = s.process.results env e) :
    ({ s.enter t d with process := p } : Callers Msg).SyncInv env := by
  have hself : ((s.enter t d).threads t) = ⟨(s.threads t).notified, some ⟨d, .kSuccess⟩⟩ :=
    Function.update_self ..
  have hothers : ∀ u, u ≠ t → (s.enter t d).threads u = s.threads u := fun u hu =>
    Function.update_of_ne hu ..
  have hcaptured : ∀ e, e ≠ d → (s.enter t d).captured e = s.captured e := fun e he =>
    Function.update_of_ne he ..
  have hcapturedSelf : (s.enter t d).captured d = some t := Function.update_self ..
  have hframe : ∀ u f, (s.threads u).frame = some f →
      (s.enter t d).threads u = s.threads u ∧ f.done ≠ d := by
    intro u f hf
    refine ⟨hothers u ?_, h.captured_ne hnew (h.frame u f hf)⟩
    rintro rfl
    rw [hidle] at hf
    cases hf
  constructor
  · intro e he
    by_cases hed : e = d
    · exact hed ▸ hissued
    · exact hsub (h.issued e (hcaptured e hed ▸ he))
  · intro u f hf
    by_cases hu : u = t
    · subst hu
      simp only [hself, Option.some.injEq] at hf
      exact hf ▸ hcapturedSelf
    · simp only [hothers u hu] at hf
      rw [hcaptured _ (hframe u f hf).2, h.frame u f hf]
  · intro run hrun
    obtain ⟨u, f, hf, hdone, hzero, hresults, hwritten⟩ := h.inner run hrun
    have hu := (hframe u f hf).1
    exact ⟨u, f, hu ▸ hf, hdone, hu ▸ hzero, (hsame _).trans hresults, hwritten⟩
  · exact h.distinct
  · intro u f hf
    by_cases hu : u = t
    · subst hu
      simp only [hself, Option.some.injEq] at hf ⊢
      exact hf ▸ Or.inl ⟨hnone, h.idle u hidle⟩
    · simp only [hothers u hu] at hf ⊢
      rw [hsame]
      exact h.woken u f hf
  · intro u hu
    by_cases hut : u = t
    · subst hut
      simp [hself] at hu
    · simp only [hothers u hut] at hu ⊢
      exact h.idle u hu
  · intro e u he hgone
    by_cases hed : e = d
    · subst hed
      obtain rfl : t = u := Option.some.inj (hcapturedSelf.symm.trans he)
      exact absurd rfl (hgone ⟨e, .kSuccess⟩ (congrArg CallerThread.frame hself))
    · have he' : s.captured e = some u := hcaptured e hed ▸ he
      refine h.gone e u he' fun f hf => hgone f ?_
      exact (congrArg CallerThread.frame (hframe u f hf).1).trans hf
  · intro ret hret
    obtain ⟨hcap, hresults, hgone⟩ := h.returned ret hret
    have hne := h.captured_ne hnew hcap
    refine ⟨(hcaptured _ hne).trans hcap, (hsame _).trans hresults, fun f hf => ?_⟩
    by_cases hu : ret.thread = t
    · simp only [hu, hself, Option.some.injEq] at hf
      exact hf ▸ hne.symm
    · simp only [hothers _ hu] at hf
      exact hgone f hf
  · exact h.once

/-- The frame a running closure works with. -/
theorem frame_of_run (h : s.SyncInv env) {t : ℕ} {run : InnerRun} {f : SyncFrame}
    (hrun : run ∈ s.inner) (hcaptured : s.captured run.done = some t)
    (hf : (s.threads t).frame = some f) : f.done = run.done ∧ (s.threads t).notified = 0 ∧
      s.process.results env run.done = [run.result] ∧ (run.written → f.rpcResult = run.result) := by
  obtain ⟨u, g, hg, hdone, hzero, hresults, hwritten⟩ := h.inner run hrun
  obtain rfl : u = t :=
    Option.some.inj ((h.frame u g hg).symm.trans ((congrArg s.captured hdone).trans hcaptured))
  obtain rfl := Option.some.inj (hg.symm.trans hf)
  exact ⟨hdone, hzero, hresults, hwritten⟩

variable {k t : ℕ} {run : InnerRun} {f : SyncFrame}

/-- The result is written. -/
theorem of_write (h : s.SyncInv env) (hrun : s.inner[k]? = some run)
    (hcaptured : s.captured run.done = some t) (hf : (s.threads t).frame = some f) :
    ({ s.setThread t { s.threads t with frame := some ⟨f.done, run.result⟩ } with
        inner := s.inner.set k { run with written := true } } : Callers Msg).SyncInv env := by
  have hmem := List.mem_of_getElem? hrun
  obtain ⟨hdone, hzero, hresults, -⟩ := h.frame_of_run hmem hcaptured hf
  have hself : ∀ thread, (s.setThread t thread).threads t = thread := fun _ =>
    Function.update_self ..
  have hothers : ∀ thread u, u ≠ t → (s.setThread t thread).threads u = s.threads u :=
    fun _ u hu => Function.update_of_ne hu ..
  have hmap : (s.inner.set k { run with written := true }).map InnerRun.done =
      s.inner.map InnerRun.done := by
    have hold : (s.inner.map InnerRun.done)[k]? = some run.done := by
      rw [List.getElem?_map, hrun, Option.map_some]
    obtain ⟨hk, hget⟩ := List.getElem?_eq_some_iff.mp hold
    rw [List.map_set, ← hget, List.set_getElem_self]
  constructor
  · exact h.issued
  · intro u g hg
    by_cases hu : u = t
    · subst hu
      simp only [hself, Option.some.injEq] at hg
      exact hg ▸ h.frame u f hf
    · simp only [hothers _ u hu] at hg
      exact h.frame u g hg
  · intro other hother
    obtain ⟨u, g, hg, hgdone, hgzero, hgresults, hgwritten⟩ : ∃ u g,
        (s.threads u).frame = some g ∧ g.done = other.done ∧ (s.threads u).notified = 0 ∧
          s.process.results env other.done = [other.result] ∧
          (u ≠ t → other.written → g.rpcResult = other.result) := by
      rcases List.mem_or_eq_of_mem_set hother with hother | rfl
      · obtain ⟨u, g, hg, hgdone, hgzero, hgresults, hgwritten⟩ := h.inner other hother
        exact ⟨u, g, hg, hgdone, hgzero, hgresults, fun _ => hgwritten⟩
      · exact ⟨t, f, hf, hdone, hzero, hresults, fun hne => absurd rfl hne⟩
    by_cases hu : u = t
    · subst hu
      obtain rfl := Option.some.inj (hg.symm.trans hf)
      refine ⟨u, ⟨g.done, run.result⟩, congrArg CallerThread.frame (hself _), hgdone,
        (congrArg CallerThread.notified (hself _)).trans hgzero, hgresults, fun _ => ?_⟩
      rw [← hgdone, hdone, hresults] at hgresults
      exact List.cons.inj hgresults |>.1
    · exact ⟨u, g, (congrArg CallerThread.frame (hothers _ u hu)).trans hg, hgdone,
        (congrArg CallerThread.notified (hothers _ u hu)).trans hgzero, hgresults, hgwritten hu⟩
  · exact hmap ▸ h.distinct
  · intro u g hg
    have hruns : ∀ d, (∃ other ∈ s.inner, other.done = d) →
        ∃ other ∈ s.inner.set k { run with written := true }, other.done = d := by
      intro d hd
      rw [← List.mem_map] at hd ⊢
      rwa [hmap]
    by_cases hu : u = t
    · subst hu
      simp only [hself, Option.some.injEq] at hg
      subst hg
      exact Or.inr (Or.inl (hruns _ ⟨run, hmem, hdone.symm⟩))
    · simp only [hothers _ u hu] at hg ⊢
      exact (h.woken u g hg).imp_right (Or.imp_left (hruns _))
  · intro u hu
    by_cases hut : u = t
    · subst hut
      simp [hself] at hu
    · simp only [hothers _ u hut] at hu ⊢
      exact h.idle u hu
  · intro e u he hgone
    refine h.gone e u he fun g hg => ?_
    by_cases hu : u = t
    · subst hu
      obtain rfl := Option.some.inj (hg.symm.trans hf)
      exact hgone ⟨g.done, run.result⟩ (congrArg CallerThread.frame (hself _))
    · exact hgone g ((congrArg CallerThread.frame (hothers _ u hu)).trans hg)
  · intro ret hret
    obtain ⟨hcap, hret', hgone⟩ := h.returned ret hret
    refine ⟨hcap, hret', fun g hg => ?_⟩
    by_cases hu : ret.thread = t
    · simp only [hu, hself, Option.some.injEq] at hg
      exact hg ▸ hgone f (hu ▸ hf)
    · simp only [hothers _ _ hu] at hg
      exact hgone g hg
  · exact h.once

/-- The notification is given. -/
theorem of_notify (h : s.SyncInv env) (hrun : s.inner[k]? = some run)
    (hcaptured : s.captured run.done = some t) (hwritten : run.written) :
    ({ s.setThread t { s.threads t with notified := (s.threads t).notified + 1 } with
        inner := s.inner.eraseIdx k } : Callers Msg).SyncInv env := by
  obtain ⟨hk, hget⟩ := List.getElem?_eq_some_iff.mp hrun
  have hmem := List.mem_of_getElem? hrun
  have hperm : (run :: s.inner.eraseIdx k).Perm s.inner := hget ▸ List.getElem_cons_eraseIdx_perm hk
  obtain ⟨hfresh, hdistinct⟩ :=
    List.nodup_cons.mp ((hperm.map InnerRun.done).nodup_iff.mpr h.distinct)
  have hself : ∀ thread, (s.setThread t thread).threads t = thread := fun _ =>
    Function.update_self ..
  have hothers : ∀ thread u, u ≠ t → (s.setThread t thread).threads u = s.threads u :=
    fun _ u hu => Function.update_of_ne hu ..
  have hframe : ∀ n u, ((s.setThread t { s.threads t with notified := n }).threads u).frame =
      (s.threads u).frame := by
    intro n u
    by_cases hu : u = t
    · rw [hu, hself]
    · rw [hothers _ u hu]
  constructor
  · exact h.issued
  · intro u g hg
    exact h.frame u g (hframe _ u ▸ hg)
  · intro other hother
    obtain ⟨u, g, hg, hdone, hzero, hresults, hwr⟩ :=
      h.inner other (hperm.mem_iff.mp (List.mem_cons_of_mem _ hother))
    have hu : u ≠ t := by
      rintro rfl
      have hsame := (h.frame_of_run hmem hcaptured hg).1
      exact hfresh (List.mem_map.mpr ⟨other, hother, hdone.symm.trans hsame⟩)
    refine ⟨u, g, (hframe _ u).trans hg, hdone, ?_, hresults, hwr⟩
    exact (congrArg CallerThread.notified (hothers _ u hu)).trans hzero
  · exact hdistinct
  · intro u g hg
    have hg' : (s.threads u).frame = some g := hframe _ u ▸ hg
    by_cases hu : u = t
    · subst hu
      obtain ⟨hdone, hzero, hresults, hresult⟩ := h.frame_of_run hmem hcaptured hg'
      refine Or.inr (Or.inr ⟨?_, ?_⟩)
      · rw [hdone, hresult hwritten]
        exact hresults
      · simp [hself, hzero]
    · simp only [hothers _ u hu]
      refine (h.woken u g hg').imp_right (Or.imp_left ?_)
      rintro ⟨other, hother, hdone⟩
      rcases List.mem_cons.mp (hperm.mem_iff.mpr hother) with rfl | hother
      · have hsame := (congrArg s.captured hdone).symm.trans hcaptured
        exact absurd (Option.some.inj ((h.frame u g hg').symm.trans hsame)) hu
      · exact ⟨other, hother, hdone⟩
  · intro u hu
    have hut : u ≠ t := by
      rintro rfl
      obtain ⟨v, g, hg, hdone, -⟩ := h.inner run hmem
      have hsame := (congrArg s.captured hdone).trans hcaptured
      obtain rfl := Option.some.inj ((h.frame v g hg).symm.trans hsame)
      rw [← hframe, hu] at hg
      cases hg
    simp only [hothers _ u hut] at hu ⊢
    exact h.idle u hu
  · intro e u he hgone
    exact h.gone e u he fun g hg => hgone g ((hframe _ u).trans hg)
  · intro ret hret
    obtain ⟨hcap, hresults, hgone⟩ := h.returned ret hret
    exact ⟨hcap, hresults, fun g hg => hgone g (hframe _ _ ▸ hg)⟩
  · exact h.once

/-- The call returns. -/
theorem of_getWait (h : s.SyncInv env) (hfetch : fetch 1 = 0)
    (hf : (s.threads t).frame = some f) (hpos : 0 < (s.threads t).notified) :
    ({ s.setThread t ⟨fetch (s.threads t).notified, none⟩ with
        returned := ⟨t, f.done, f.rpcResult⟩ :: s.returned } : Callers Msg).SyncInv env := by
  have hcaptured := h.frame t f hf
  have hnorun : ∀ run ∈ s.inner, run.done ≠ f.done := by
    intro run hrun hdone
    have hzero := (h.frame_of_run hrun ((congrArg s.captured hdone).trans hcaptured) hf).2.1
    omega
  obtain ⟨hresults, hone⟩ : s.process.results env f.done = [f.rpcResult] ∧
      (s.threads t).notified = 1 := by
    rcases h.woken t f hf with ⟨-, hzero⟩ | ⟨run, hrun, hdone⟩ | hwoken
    · omega
    · exact absurd hdone (hnorun run hrun)
    · exact hwoken
  rw [hone, hfetch]
  have hself : (s.setThread t ⟨0, none⟩).threads t = ⟨0, none⟩ := Function.update_self ..
  have hothers : ∀ u, u ≠ t → (s.setThread t ⟨0, none⟩).threads u = s.threads u :=
    fun u hu => Function.update_of_ne hu ..
  have hframe : ∀ u g, ((s.setThread t ⟨0, none⟩).threads u).frame = some g →
      u ≠ t ∧ (s.threads u).frame = some g := by
    intro u g hg
    have hu : u ≠ t := by
      rintro rfl
      rw [hself] at hg
      cases hg
    exact ⟨hu, hothers u hu ▸ hg⟩
  have hback : ∀ u g, (s.threads u).frame = some g → g.done ≠ f.done →
      (s.setThread t ⟨0, none⟩).threads u = s.threads u := by
    intro u g hg hne
    refine hothers u ?_
    rintro rfl
    exact hne (congrArg SyncFrame.done (Option.some.inj (hg.symm.trans hf)))
  constructor
  · exact h.issued
  · intro u g hg
    exact h.frame u g (hframe u g hg).2
  · intro run hrun
    obtain ⟨u, g, hg, hdone, hzero, hrest⟩ := h.inner run hrun
    have hu := hback u g hg (hdone ▸ hnorun run hrun)
    exact ⟨u, g, hu ▸ hg, hdone, hu ▸ hzero, hrest⟩
  · exact h.distinct
  · intro u g hg
    obtain ⟨hu, hg'⟩ := hframe u g hg
    simp only [hothers u hu]
    exact h.woken u g hg'
  · intro u hu
    by_cases hut : u = t
    · rw [hut]
      exact congrArg CallerThread.notified hself
    · simp only [hothers u hut] at hu ⊢
      exact h.idle u hu
  · intro e u he hgone
    by_cases hef : f.done = e
    · exact ⟨_, List.mem_cons_self, hef⟩
    · obtain ⟨ret, hret, hdone⟩ := h.gone e u he fun g hg hge => by
        have hsame := hback u g hg fun hgf => hef (hgf.symm.trans hge)
        exact hgone g ((congrArg CallerThread.frame hsame).trans hg) hge
      exact ⟨ret, List.mem_cons_of_mem _ hret, hdone⟩
  · intro ret hret
    rcases List.mem_cons.mp hret with rfl | hret
    · refine ⟨hcaptured, hresults, fun g hg => ?_⟩
      exact absurd rfl (hframe _ g hg).1
    · obtain ⟨hcap, hresults', hgone⟩ := h.returned ret hret
      exact ⟨hcap, hresults', fun g hg => hgone g (hframe _ g hg).2⟩
  · refine List.nodup_cons.mpr ⟨?_, h.once⟩
    intro hmem
    obtain ⟨ret, hret, hdone⟩ := List.mem_map.mp hmem
    obtain ⟨hcap, -, hgone⟩ := h.returned ret hret
    rw [hdone] at hcap
    obtain rfl : t = ret.thread := Option.some.inj (hcaptured.symm.trans hcap)
    exact hgone f hf hdone.symm

/-- A call of `CallMethod` from a thread outside the workers. -/
theorem of_callSync (h : s.SyncInv env) {c : ℕ} {method : MethodDescriptor}
    {request response : MsgRef} {d : Closure} {posted : Bool}
    (hidle : (s.threads t).frame = none)
    (htrans : s.process.Trans env services (.callOutside c method request response d posted) p)
    (hle : ∀ d, (s.process.results env d).length ≤ s.process.issued.count d) :
    ({ s.enter t d with
        process := p
        inner := if posted then s.inner else ⟨none, d, .kInError, false⟩ :: s.inner } :
      Callers Msg).SyncInv env := by
  have hfresh : d ∉ s.process.issued → s.process.results env d = [] := by
    intro hnew
    have hzero := hle d
    rwa [List.count_eq_zero.mpr hnew, Nat.le_zero, List.length_eq_zero_iff] at hzero
  cases htrans with
  | callPosted _ hnew =>
    exact h.of_enter hidle hnew List.mem_cons_self (List.subset_cons_self _ _)
      (hfresh hnew) fun _ => rfl
  | callRefused _ hnew =>
    have henter : ({ s.enter t d with process := s.process.issue d } : Callers Msg).SyncInv env :=
      h.of_enter hidle hnew List.mem_cons_self (List.subset_cons_self _ _) (hfresh hnew)
        fun _ => rfl
    have hcaptured : ((s.enter t d).captured d).isSome := by simp [enter]
    refine henter.of_begun (fun _ => id) hcaptured (hfresh hnew) ?_ ?_
    · obtain ⟨hleft, hright⟩ := List.append_eq_nil_iff.mp (hfresh hnew)
      rw [List.map_eq_nil_iff] at hleft
      simp only [results, issue, List.filter_cons, hleft] at hright ⊢
      simp [hright]
    · intro e he _
      simp [results, issue, he.symm]

theorem start (p : Process Msg) : (Callers.start p).SyncInv env where
  issued _ he := absurd he (by simp [Callers.start])
  frame _ _ hf := absurd hf (by simp [Callers.start])
  inner _ hrun := absurd hrun (by simp [Callers.start])
  distinct := List.nodup_nil
  woken _ _ hf := absurd hf (by simp [Callers.start])
  idle _ _ := rfl
  gone _ _ he := absurd he (by simp [Callers.start])
  returned _ hret := absurd hret (by simp [Callers.start])
  once := List.nodup_nil

theorem step (h : s.SyncInv env) (hfetch : fetch 1 = 0)
    (hle : ∀ d, (s.process.results env d).length ≤ s.process.issued.count d)
    (hle' : ∀ d, (s'.process.results env d).length ≤ 1) {a : CallersAction Msg}
    (hstep : s.step env services fetch a = some s') : s'.SyncInv env := by
  cases a with
  | process a =>
    rw [Callers.step] at hstep
    split_ifs at hstep
    obtain ⟨p, hp, rfl⟩ := Option.map_eq_some_iff.mp hstep
    have htrans := step_trans hp
    have hissued : s.process.issued ⊆ p.issued := by
      rcases htrans.issued_cases with heq | ⟨d, -, hcons⟩
      · exact heq ▸ fun _ => id
      · exact hcons ▸ List.subset_cons_self _ _
    cases stirs htrans hle' h.issued with
    | none hbegun hsame =>
      rw [hbegun]
      exact h.of_same hissued hsame
    | inner hcaptured hbegun hnone hone hothers =>
      rw [hbegun]
      exact h.of_begun hissued hcaptured hnone hone fun e he _ => hothers e he
  | callSync t c method request response d posted =>
    obtain ⟨hidle, hstep⟩ := Option.ite_none_right_eq_some.mp hstep
    obtain ⟨p, hp, rfl⟩ := Option.map_eq_some_iff.mp hstep
    exact h.of_callSync hidle (step_trans hp) hle
  | callSyncInWorker c =>
    obtain ⟨-, hstep⟩ := Option.ite_none_right_eq_some.mp hstep
    cases hstep
    exact h
  | write k =>
    obtain ⟨run, hrun, hstep⟩ := Option.bind_eq_some_iff.mp hstep
    split_ifs at hstep
    obtain ⟨t, ht, hstep⟩ := Option.bind_eq_some_iff.mp hstep
    obtain ⟨f, hf, hstep⟩ := Option.bind_eq_some_iff.mp hstep
    obtain ⟨-, hstep⟩ := Option.ite_none_right_eq_some.mp hstep
    cases hstep
    exact h.of_write hrun ht hf
  | notify k =>
    obtain ⟨run, hrun, hstep⟩ := Option.bind_eq_some_iff.mp hstep
    obtain ⟨hwritten, hstep⟩ := Option.ite_none_right_eq_some.mp hstep
    obtain ⟨t, ht, rfl⟩ := Option.map_eq_some_iff.mp hstep
    exact h.of_notify hrun ht hwritten
  | getWait t =>
    obtain ⟨f, hf, hstep⟩ := Option.bind_eq_some_iff.mp hstep
    obtain ⟨hpos, hstep⟩ := Option.ite_none_right_eq_some.mp hstep
    cases hstep
    exact h.of_getWait hfetch hf hpos

end SyncInv

/-! ## Runs -/

variable {boot : Boot Msg} {mgr : ℕ → SessionManager}

/-- Whatever the threads do, the process they call goes through a run of its own. -/
theorem reachable_process {ok : Process Msg → ProcessAction Msg → Prop}
    {guard : Callers Msg → CallersAction Msg → Prop}
    (hguard : ∀ s a b, guard s a → a.process? = some b → ok s.process b)
    (h : Reaches (step env services fetch) guard (start (Process.start boot mgr)) s) :
    Reaches (Process.step env services) ok (Process.start boot mgr) s.process := by
  induction h with
  | refl => exact .refl
  | @tail t u a _ hok hstep ih =>
    cases a with
    | process a =>
      rw [Callers.step] at hstep
      split_ifs at hstep
      obtain ⟨p, hp, rfl⟩ := Option.map_eq_some_iff.mp hstep
      exact ih.tail (hguard t _ a hok rfl) hp
    | callSync =>
      obtain ⟨-, hstep⟩ := Option.ite_none_right_eq_some.mp hstep
      obtain ⟨p, hp, rfl⟩ := Option.map_eq_some_iff.mp hstep
      exact ih.tail (hguard t _ _ hok rfl) hp
    | callSyncInWorker =>
      obtain ⟨-, hstep⟩ := Option.ite_none_right_eq_some.mp hstep
      cases hstep
      exact ih
    | write k =>
      obtain ⟨run, -, hstep⟩ := Option.bind_eq_some_iff.mp hstep
      split_ifs at hstep
      obtain ⟨_, -, hstep⟩ := Option.bind_eq_some_iff.mp hstep
      obtain ⟨_, -, hstep⟩ := Option.bind_eq_some_iff.mp hstep
      obtain ⟨-, hstep⟩ := Option.ite_none_right_eq_some.mp hstep
      cases hstep
      exact ih
    | notify k =>
      obtain ⟨run, -, hstep⟩ := Option.bind_eq_some_iff.mp hstep
      obtain ⟨-, hstep⟩ := Option.ite_none_right_eq_some.mp hstep
      obtain ⟨_, -, rfl⟩ := Option.map_eq_some_iff.mp hstep
      exact ih
    | getWait t =>
      obtain ⟨_, -, hstep⟩ := Option.bind_eq_some_iff.mp hstep
      obtain ⟨-, hstep⟩ := Option.ite_none_right_eq_some.mp hstep
      cases hstep
      exact ih

theorem reachable_syncInv {guard : Callers Msg → CallersAction Msg → Prop}
    (hstarted : Started env boot mgr) (hfetch : fetch 1 = 0)
    (h : Reaches (step env services fetch) guard (start (Process.start boot mgr)) s) :
    s.SyncInv env := by
  induction h with
  | refl => exact SyncInv.start _
  | tail hbefore hok hstep ih =>
    have hafter := hbefore.tail hok hstep
    have hle := fun d => reachable_results_le hstarted
      (reachable_process (fun _ _ _ _ _ => trivial) hbefore) d
    have hle' := fun d => reachable_results_le hstarted
      (reachable_process (fun _ _ _ _ _ => trivial) hafter) d
    exact ih.step hfetch (fun d => (hle d).1) (fun d => (hle' d).2) hstep

/-- What the callers can rely on. -/
structure Delivers (env : RpcEnv Msg) (s : Callers Msg) : Prop where
  /-- A call returns what its closure was invoked with, and that was once. -/
  returned : ∀ ret ∈ s.returned, s.process.results env ret.done = [ret.result]
  once : (s.returned.map SyncReturn.done).Nodup
  /-- The frame a running closure writes to is that of a call that waits. -/
  frames : ∀ run ∈ s.inner, ∃ t f, s.captured run.done = some t ∧
    (s.threads t).frame = some f ∧ f.done = run.done
  /-- A call whose closure was invoked is not left waiting: the closure is running, or it has
  given its notification and the result is there. -/
  woken : ∀ t f, (s.threads t).frame = some f →
    s.process.results env f.done = [] ∧ (s.threads t).notified = 0 ∨
    (∃ run ∈ s.inner, run.done = f.done) ∧ (s.threads t).notified = 0 ∨
    s.process.results env f.done = [f.rpcResult] ∧ (s.threads t).notified = 1
  /-- No notification is left over for a later call. -/
  idle : ∀ t, (s.threads t).frame = none → (s.threads t).notified = 0

theorem SyncInv.delivers (h : s.SyncInv env) : s.Delivers env where
  returned ret hret := (h.returned ret hret).2.1
  once := h.once
  frames run hrun := by
    obtain ⟨t, f, hf, hdone, -⟩ := h.inner run hrun
    exact ⟨t, f, (congrArg s.captured hdone).symm.trans (h.frame t f hf), hf, hdone⟩
  woken t f hf := by
    refine (h.woken t f hf).imp_right (Or.imp_left ?_)
    rintro ⟨run, hrun, hdone⟩
    have hcaptured := (congrArg s.captured hdone).trans (h.frame t f hf)
    exact ⟨⟨run, hrun, hdone⟩, (h.frame_of_run hrun hcaptured hf).2.1⟩
  idle := h.idle

/-- Synchronous calls, in every run of a process and the threads that call it. `GetWait` may take
all notifications or one of them. -/
theorem sync_calls (hstarted : Started env boot mgr) (hfetch : fetch 1 = 0)
    (h : Reaches (step env services fetch) (fun _ _ => True) (start (Process.start boot mgr)) s) :
    s.Delivers env :=
  (reachable_syncInv hstarted hfetch h).delivers

/-- One call without a route, and one whose task could not be posted. -/
theorem sync_calls_sample : ∃ s : Callers ValueMessage,
    Reaches (step (wireEnv 1) [] fun _ => 0) (fun _ _ => True)
      (start (Process.start sampleBoot sampleManager)) s ∧
    s.returned = [⟨8, 11, .kInError⟩, ⟨7, 10, .kNoRoute⟩] ∧ s.Delivers (wireEnv 1) := by
  obtain ⟨s, hs, hreturned⟩ := exists_reaches_of_run (step (wireEnv 1) [] fun _ => 0)
    (start (Process.start sampleBoot sampleManager))
    [.callSync 7 0 (RpcCore.sampleMethod [97] [73] [79]) 0 1 10 true,
      .callSync 8 0 (RpcCore.sampleMethod [97] [73] [79]) 0 2 11 false,
      .write 0, .process (.runTask 0 none), .write 0, .notify 1, .notify 0, .getWait 7, .getWait 8]
    (fun s => decide (s.returned = [⟨8, 11, .kInError⟩, ⟨7, 10, .kNoRoute⟩])) (by decide +kernel)
  exact ⟨s, hs, of_decide_eq_true hreturned, sync_calls (sampleManager_started 1) rfl hs⟩

end Callers

end HyperRpc
