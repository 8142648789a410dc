import HyperRpc.Core.Intrusion
import HyperRpc.Process.SyncCalls
import HyperRpc.Session.Deadlines

/-!
# Coming to rest

Whatever state a process has reached, its workers can bring it to rest by themselves: no packet
arrives, no handler answers, callbacks return without a further call, posted tasks run and the
wheels turn. Then no task waits, every slot of every core is free, and every closure ever passed
to `CallMethod` has been invoked once (`comes_to_rest`). A thread that waits in a synchronous call
is therefore never stuck: it can always still return (`Callers.can_return`).
-/
namespace HyperRpc

open Lib

variable {Msg : Type} {env : RpcEnv Msg} {services : List (Service Msg)}
  {route : Option (RpcCore.OnServiceRouting Msg)}

/-- What the workers do by themselves; calls are routed by `route`. -/
def ProcessAction.IsUnaided (route : Option (RpcCore.OnServiceRouting Msg)) :
    ProcessAction Msg → Prop
  | .core _ _ => True
  | .runTask _ onServiceRouting => onServiceRouting = route
  | _ => False

/-- The routing adds no more endpoints than the attempt counter can count. -/
def RpcCore.RouteFits (route : Option (RpcCore.OnServiceRouting Msg)) : Prop :=
  ∀ f ∈ route, ∀ service method msg, (f service method msg).2.length ≤ 65536

theorem RpcCore.RouteFits.callMethod (h : RouteFits route) (method : MethodDescriptor)
    (request response : MsgRef) (msg : Msg) (done : Closure) :
    (callMethod route method request response msg done).EndpointsFit := by
  cases route with
  | none => trivial
  | some f =>
    simp only [RpcCore.callMethod]
    split_ifs
    · trivial
    · exact h f rfl _ _ _

namespace Process

variable {p p' : Process Msg} {c : ℕ} {boot : Boot Msg} {mgr : ℕ → SessionManager}

/-- The runs in which the workers are by themselves. -/
abbrev Unaided (env : RpcEnv Msg) (services : List (Service Msg))
    (route : Option (RpcCore.OnServiceRouting Msg)) : Process Msg → Process Msg → Prop :=
  Reaches (step env services) fun _ a => a.IsUnaided route

/-! ## The steps are enabled -/

theorem exists_stepCore (hmessages : ∀ msg, (env.serialize msg).isSome) {act : Action Msg}
    {m : Machine Msg} (h : (p.cores c).step env.toSessionEnv act = some m) :
    ∃ p', p.stepCore env c act = some p' ∧ p'.cores c = m := by
  have hself : (p.setCore c act m).cores c = m := if_pos rfl
  rw [stepCore, h, Option.bind_some]
  split
  · rename_i method request rpcId addr _ _ _
    split
    · obtain ⟨bytes, hbytes⟩ := Option.isSome_iff_exists.mp (hmessages (m.st.mem request))
      rw [send, onOutgoingRpcSend, sendMessage, hbytes]
      exact ⟨_, rfl, hself⟩
    · exact ⟨_, rfl, hself⟩
  · exact ⟨_, rfl, hself⟩

/-- The workers of the tasks exist. -/
def TasksInv (env : RpcEnv Msg) (p : Process Msg) : Prop := ∀ t ∈ p.tasks, t.worker < env.workerNum

theorem TasksInv.post {task : Task} {posted : Bool} (h : p.TasksInv env)
    (htask : task.worker < env.workerNum) : (p.post task posted).TasksInv env := by
  intro t ht
  rcases mem_post ht with ht | rfl
  · exact h t ht
  · exact htask

theorem TasksInv.of_subset (h : p.TasksInv env) (hsub : p'.tasks ⊆ p.tasks) : p'.TasksInv env :=
  fun t ht => h t (hsub ht)

theorem SendFailed.lt {ctx : UInt64} {dst : ℕ} (h : p.SendFailed env c ctx p' dst)
    (hc : c < env.workerNum) : dst < env.workerNum := by
  cases h with
  | elsewhere hret =>
    rcases hret with ⟨rfl, -⟩ | ⟨-, hid⟩
    · exact hc
    · exact (RpcCore.getCoreIdFromRpcId_eq_some.mp hid).2
  | reported => exact hc

theorem TasksInv.step {a : ProcessAction Msg} (hT : p.TasksInv env)
    (h : p.Trans env services a p') : p'.TasksInv env := by
  cases h with
  | recvPacket hidle h =>
    have hkept : TasksInv env _ := hT.of_subset fun t ht => h.tasks ▸ ht
    split_ifs
    · exact hkept.post (h.lt hidle.1)
    · exact hkept
  | sentFailed hc h =>
    have hkept : TasksInv env _ := hT.of_subset fun t ht => h.tasks ▸ ht
    split_ifs
    · exact hkept.post (h.lt hc)
    · exact hkept
  | callPosted hc => exact TasksInv.post (p := p.issue _) hT hc
  | callInWorker _ _ h => exact hT.of_subset fun t ht => h.tasks ▸ ht
  | runRecv _ _ h =>
    exact hT.of_subset fun t ht => List.mem_of_mem_eraseIdx (l := p.tasks) (h.tasks ▸ ht)
  | runFailed _ _ h =>
    exact hT.of_subset fun t ht => List.mem_of_mem_eraseIdx (l := p.tasks) (h.tasks ▸ ht)
  | runCall _ _ h =>
    exact hT.of_subset fun t ht => List.mem_of_mem_eraseIdx (l := p.tasks) (h.tasks ▸ ht)
  | core _ h => exact hT.of_subset fun t ht => h.tasks ▸ ht
  | _ => exact hT

variable (services) in
theorem exists_recvOn (hmessages : ∀ msg, (env.serialize msg).isSome)
    (hidle : (p.cores c).stack = []) (buf : List UInt8) (addr : Addr) :
    ∃ r, p.recvOn env services c buf addr = some r := by
  obtain ⟨ret, received, hrecv, hcases⟩ :=
    RpcCore.onRecvPacket_receives env (serviceMap services) c buf addr
  rw [recvOn, hrecv, Option.bind_some]
  cases received with
  | dropped => exact ⟨_, rfl⟩
  | invoke service ctx => exact ⟨_, rfl⟩
  | respond service method rpcId rpcResult respBody =>
    obtain ⟨-, -, -, -, -, hid⟩ := hcases.of_respond
    have hreport : (p.cores c).mayReport rpcId = true := by rw [Machine.mayReport, hidle]
    have hstep : (p.cores c).step env.toSessionEnv (.onRecvResponse service method rpcId rpcResult
        respBody) = some _ := if_pos ⟨hreport, RpcCore.ne_zero_of_getCoreId hid⟩
    obtain ⟨p', hp', -⟩ := exists_stepCore hmessages hstep
    exact ⟨_, congrArg (Option.map _) hp'⟩

theorem exists_sendFailedOn (hmessages : ∀ msg, (env.serialize msg).isSome)
    (hidle : (p.cores c).stack = []) (ctx : UInt64) : ∃ r, p.sendFailedOn env c ctx = some r := by
  rw [sendFailedOn, RpcCore.onSendPacketFailed_eq]
  cases hid : RpcCore.getCoreIdFromRpcId env ctx with
  | none => exact ⟨_, rfl⟩
  | some dst =>
    by_cases hdst : dst = c
    swap
    · simp only [ne_eq, hdst, not_false_eq_true, if_true]
      exact ⟨_, rfl⟩
    have hreport : (p.cores c).mayReport ctx = true := by rw [Machine.mayReport, hidle]
    have hstep : (p.cores c).step env.toSessionEnv (.onSendRequestFailed ctx) = some _ :=
      if_pos ⟨hreport, RpcCore.ne_zero_of_getCoreId hid⟩
    obtain ⟨p', hp', -⟩ := exists_stepCore hmessages hstep
    simp only [ne_eq, hdst, not_true_eq_false, if_false]
    exact ⟨_, congrArg (Option.map _) hp'⟩

theorem exists_callOn (hmessages : ∀ msg, (env.serialize msg).isSome)
    (hidle : (p.cores c).stack = []) {done : Closure} (hnew : done ∉ (p.cores c).calls)
    (method : MethodDescriptor) (request response : MsgRef) :
    ∃ p', p.callOn env c method request response done route = some p' := by
  have huser : (p.cores c).inUserCode = true := by rw [Machine.inUserCode, hidle]
  have hnoRoute : (p.cores c).step env.toSessionEnv (.noRoute done) = some _ :=
    if_pos ⟨huser, hnew⟩
  rw [callOn]
  cases route with
  | none =>
    obtain ⟨p', hp', -⟩ := exists_stepCore hmessages hnoRoute
    exact ⟨p', hp'⟩
  | some f =>
    simp only [RpcCore.callMethod]
    split_ifs with hroute
    · obtain ⟨p', hp', -⟩ := exists_stepCore hmessages hnoRoute
      exact ⟨p', hp'⟩
    · have hadd : (p.cores c).step env.toSessionEnv (.addSession method request response
          (f method.service.name method.name ((p.cores c).st.mem request)).2 done) = some _ :=
        if_pos ⟨huser, hnew, (not_or.mp hroute).2⟩
      obtain ⟨p', hp', -⟩ := exists_stepCore hmessages hadd
      exact ⟨p', hp'⟩

/-- The closure of a task has not been handed to a core. -/
theorem PlacesInv.not_called (hP : p.PlacesInv env) {t : Task} {d : Closure} (ht : t ∈ p.tasks)
    (hd : t.done? = some d) (hc : c < env.workerNum) : d ∉ (p.cores c).calls := by
  have hplaced := hP.placed d
  have hone := List.nodup_iff_count_le_one.mp hP.nodup d
  have htask : 0 < p.tasks.countP fun t => t.done? = some d :=
    List.countP_pos_iff.mpr ⟨t, ht, decide_eq_true hd⟩
  rw [Process.placed] at hplaced
  have hzero : p.handed env d = 0 := by omega
  exact List.count_eq_zero.mp (Finset.sum_eq_zero_iff.mp hzero c (Finset.mem_range.mpr hc))

variable (services route) in
/-- When all workers are idle, the first task can run, and posts no other one. -/
theorem exists_runTask (hmessages : ∀ msg, (env.serialize msg).isSome) (hP : p.PlacesInv env)
    (hT : p.TasksInv env) (hidle : ∀ c < env.workerNum, (p.cores c).stack = []) {task : Task}
    {rest : List Task} (htasks : p.tasks = task :: rest) :
    ∃ p', p.step env services (.runTask 0 route) = some p' ∧ p'.tasks = rest := by
  have hmem : task ∈ p.tasks := htasks ▸ List.mem_cons_self
  have hfirst : p.tasks[0]? = some task := by rw [htasks]; rfl
  have hc := hT task hmem
  have hstack := hidle _ hc
  obtain ⟨p', hp'⟩ : ∃ p', runTask env services (p.dropTask 0) task route = some p' := by
    cases task with
    | recvPacket c buf addr =>
      obtain ⟨r, hr⟩ := exists_recvOn (p := p.dropTask 0) services hmessages hstack buf addr
      exact ⟨r.1, congrArg (Option.map _) hr⟩
    | sendPacketFailed c ctx =>
      obtain ⟨r, hr⟩ := exists_sendFailedOn (p := p.dropTask 0) hmessages hstack ctx
      exact ⟨r.1, congrArg (Option.map _) hr⟩
    | callMethod c method request response done =>
      exact exists_callOn (p := p.dropTask 0) hmessages hstack (hP.not_called hmem rfl hc) _ _ _
  have hstep : p.step env services (.runTask 0 route) = some p' := by
    simp only [step, hfirst]
    rw [if_pos ⟨hc, hstack⟩]
    exact hp'
  refine ⟨p', hstep, ?_⟩
  have hdrop : (p.dropTask 0).tasks = rest := by rw [dropTask, htasks]; rfl
  cases step_trans hstep with
  | runRecv _ _ h => exact h.tasks.trans hdrop
  | runFailed _ _ h => exact h.tasks.trans hdrop
  | runCall _ _ h => exact h.tasks.trans hdrop

/-! ## Rest -/

/-- Nothing waits and nothing runs. -/
structure AtRest (env : RpcEnv Msg) (p : Process Msg) : Prop where
  tasks : p.tasks = []
  idle : ∀ c < env.workerNum, (p.cores c).stack = []
  free : ∀ c < env.workerNum, ∀ i, ¬ (p.cores c).Live i

/-- The calls that are dispatched have lists of endpoints that fit the attempt counter. -/
def Fitting (p : Process Msg) (a : ProcessAction Msg) : Prop :=
  ∀ c act, p.dispatched a = some (c, act) → act.EndpointsFit

theorem fitting_of_isUnaided (hroute : RpcCore.RouteFits route) {a : ProcessAction Msg}
    (ha : a.IsUnaided route) : p.Fitting a := by
  intro c act hact
  cases a with
  | core => cases hact
  | runTask k r =>
    obtain rfl : r = route := ha
    cases htask : p.tasks[k]? with
    | none => simp [dispatched, htask] at hact
    | some task =>
      cases task with
      | callMethod =>
        simp only [dispatched, htask, Option.some.injEq, Prod.mk.injEq] at hact
        exact hact.2 ▸ hroute.callMethod ..
      | _ => simp [dispatched, htask] at hact
  | _ => exact ha.elim

theorem Unaided.reaches (hroute : RpcCore.RouteFits route) (hstart : Reaches (step env services)
    Fitting (start boot mgr) p) (h : Unaided env services route p p') :
    Reaches (step env services) Fitting (start boot mgr) p' :=
  hstart.trans (h.mono fun _ _ ha => fitting_of_isUnaided hroute ha)

/-- A run of a core's event loop is one of the process. -/
theorem exists_winds (hmessages : ∀ msg, (env.serialize msg).isSome) (hc : c < env.workerNum)
    {m : Machine Msg} (h : Machine.Winds env.toSessionEnv (p.cores c) m) :
    ∃ p', Unaided env services route p p' ∧ p'.cores c = m ∧ p'.tasks = p.tasks ∧
      ∀ d ≠ c, ∃ mem, p'.cores d = (p.cores d).withMem mem := by
  induction h with
  | refl => exact ⟨p, .refl, rfl, rfl, fun d _ => ⟨_, rfl⟩⟩
  | @tail m₁ m₂ act _ hact hstep ih =>
    obtain ⟨p₁, hrun, rfl, htasks, hothers⟩ := ih
    obtain ⟨a, rfl⟩ : ∃ a : LocalAction, act = a.toAction := by
      cases act with
      | ret => exact ⟨.ret, rfl⟩
      | advance => exact ⟨.advance, rfl⟩
      | collect slot => exact ⟨.collect slot, rfl⟩
      | expire k => exact ⟨.expire k, rfl⟩
      | _ => cases hact
    obtain ⟨p₂, hp₂, rfl⟩ := exists_stepCore hmessages hstep
    have hcore := stepCore_spec hp₂
    have hlocal : p₁.step env services (.core c a) = some p₂ := (if_pos hc).trans hp₂
    refine ⟨p₂, hrun.tail (a := .core c a) trivial hlocal, rfl, hcore.tasks.trans htasks,
      fun d hd => ?_⟩
    obtain ⟨mem, hmem⟩ := hothers d hd
    exact ⟨_, (hcore.others d hd).trans (by rw [hmem]; rfl)⟩

/-- What the theorems below assume of the options, of the messages and of the routing. -/
structure Settled (env : RpcEnv Msg) (route : Option (RpcCore.OnServiceRouting Msg))
    (boot : Boot Msg) (mgr : ℕ → SessionManager) : Prop where
  started : Started env boot mgr
  poolSize : boot.sessPoolSize.toNat ≤ 2 ^ 48
  workers : env.workerNum < 2 ^ 16
  messages : ∀ msg, (env.serialize msg).isSome
  route : RpcCore.RouteFits route

theorem core_ne_zero {n c : ℕ} (hn : n < 2 ^ 16) (hc : c < n) :
    ((UInt64.ofNat c).toNat + 1) % 2 ^ 16 ≠ 0 := by
  have hmod : (UInt64.ofNat c).toNat = c := by
    rw [UInt64.toNat_ofNat']
    omega
  omega

/-- All workers can become idle, with nothing pending on their cores. -/
theorem Settled.exists_idle (h : Settled env route boot mgr)
    (hreach : Reaches (step env services) Fitting (start boot mgr) p) {n : ℕ}
    (hn : n ≤ env.workerNum) : ∃ p', Unaided env services route p p' ∧ p'.tasks = p.tasks ∧
      ∀ c < n, (p'.cores c).stack = [] ∧ ∀ i, ¬ (p'.cores c).Live i := by
  induction n with
  | zero => exact ⟨p, .refl, rfl, fun c hc => absurd hc (Nat.not_lt_zero c)⟩
  | succ n ih =>
    obtain ⟨p₁, hrun, htasks, hidle⟩ := ih (Nat.le_of_succ_le hn)
    have hmachine : Machine.Reachable env.toSessionEnv (mgr n) boot.now boot.mem (p₁.cores n) :=
      reachable_core (fun _ _ _ _ _ _ => trivial) (hrun.reaches h.route hreach) n
    obtain ⟨m, hwinds, -, hstack, hfree⟩ :=
      Machine.exists_settled (h.started n hn) h.poolSize hmachine
    obtain ⟨p₂, hrun', rfl, htasks', hothers⟩ := exists_winds h.messages hn hwinds
    refine ⟨p₂, hrun.trans hrun', htasks'.trans htasks, fun c hc => ?_⟩
    rcases Nat.lt_succ_iff_lt_or_eq.mp hc with hlt | rfl
    · obtain ⟨mem, hmem⟩ := hothers c hlt.ne
      rw [hmem]
      exact hidle c hlt
    · exact ⟨hstack, hfree⟩

theorem Unaided.issued (h : Unaided env services route p p') : p'.issued = p.issued := by
  induction h with
  | refl => rfl
  | tail _ ha hstep ih =>
    refine Eq.trans ?_ ih
    cases step_trans hstep with
    | core _ h => exact h.issued
    | runRecv _ hidle h => exact (h.placed hidle.1 0).2
    | runFailed _ hidle h => exact (h.placed hidle.1 0).2
    | runCall _ _ h => exact h.issued
    | _ => exact ha.elim

/-- With the workers idle, a task is done and no other one is posted. -/
theorem Settled.exists_fewer_tasks (h : Settled env route boot mgr)
    (hreach : Reaches (step env services) Fitting (start boot mgr) p) (hsome : p.tasks ≠ []) :
    ∃ p', Unaided env services route p p' ∧
      Reaches (step env services) Fitting (start boot mgr) p' ∧
      p'.tasks.length < p.tasks.length := by
  obtain ⟨p₁, hrun, htasks, hidle⟩ := h.exists_idle hreach le_rfl
  obtain ⟨task, rest, hcons⟩ := List.exists_cons_of_ne_nil hsome
  have hreach₁ := hrun.reaches h.route hreach
  have hP : p₁.PlacesInv env :=
    hreach₁.invariant (fun hI _ hstep => PlacesInv.step hI (step_trans hstep)) placesInv_start
  have hT : p₁.TasksInv env :=
    hreach₁.invariant (fun hI _ hstep => TasksInv.step hI (step_trans hstep))
      fun t ht => absurd ht List.not_mem_nil
  obtain ⟨p₂, hstep, hrest⟩ := exists_runTask services route h.messages hP hT
    (fun c hc => (hidle c hc).1) (htasks.trans hcons)
  have hrun₂ : Unaided env services route p p₂ := hrun.tail (a := .runTask 0 route) rfl hstep
  refine ⟨p₂, hrun₂, hrun₂.reaches h.route hreach, ?_⟩
  rw [hrest, hcons, List.length_cons]
  exact Nat.lt_succ_self _

/-- The workers can finish all tasks and then become idle. -/
theorem Settled.exists_atRest (h : Settled env route boot mgr)
    (hreach : Reaches (step env services) Fitting (start boot mgr) p) :
    ∃ p', Unaided env services route p p' ∧ p'.AtRest env := by
  obtain ⟨p₁, hrun₁, hreach₁, htasks₁⟩ : ∃ p₁, Unaided env services route p p₁ ∧
      Reaches (step env services) Fitting (start boot mgr) p₁ ∧ p₁.tasks = [] :=
    Reaches.progress (fun q => q.tasks.length) (fun _ hq hsome => h.exists_fewer_tasks hq hsome)
      hreach
  obtain ⟨p₂, hrun₂, htasks₂, hidle⟩ := h.exists_idle hreach₁ le_rfl
  exact ⟨p₂, hrun₁.trans hrun₂, htasks₂.trans htasks₁, fun c hc => (hidle c hc).1,
    fun c hc => (hidle c hc).2⟩

/-- The calls of a core have ids other than zero. -/
theorem Settled.drawsNonzero (h : Settled env route boot mgr)
    (hreach : Reaches (step env services) Fitting (start boot mgr) p) (hc : c < env.workerNum)
    (act : Action Msg) : (p.cores c).DrawsNonzero act := by
  have hwf := wellFormed_core h.started hreach hc
  refine Machine.drawsNonzero_of_core ?_ act
  rw [hwf.ids.counter, ringAt_div, SessionManager.init_nextRpcId_div (h.started c hc)]
  exact core_ne_zero h.workers hc

theorem Settled.callInv (h : Settled env route boot mgr)
    (hreach : Reaches (step env services) Fitting (start boot mgr) p) (hc : c < env.workerNum) :
    (p.cores c).CallInv := by
  induction hreach with
  | refl => exact Machine.callInv_start (mgr c) boot.now boot.mem
  | @tail p₁ p₂ a hbefore hfits hstep ih =>
    obtain ⟨act, hact, hcall⟩ := (step_trans hstep).coreMoves c
    refine ih.step (wellFormed_core h.started hbefore hc) ⟨?_, h.drawsNonzero hbefore hc act⟩ hact
    rcases hcall with hnone | hsome
    · exact (answerable_of_call?_eq_none (m := p₁.cores c) hnone).1
    · exact hfits c act hsome

/-- At rest, a closure that was passed to `CallMethod` has been invoked once. -/
theorem AtRest.invoked (hrest : p.AtRest env) (h : Settled env route boot mgr)
    (hreach : Reaches (step env services) Fitting (start boot mgr) p) {d : Closure}
    (hd : d ∈ p.issued) : p.invoked env d = 1 := by
  have hP : p.PlacesInv env :=
    hreach.invariant (fun hI _ hstep => PlacesInv.step hI (step_trans hstep)) placesInv_start
  have hle : p.invoked env d ≤ 1 := results_length (p := p) d ▸
    (reachable_results_le h.started (hreach.mono fun _ _ _ => trivial) d).2
  -- the closure is in one place, which is not a task
  have hone := hP.placed d
  rw [List.count_eq_one_of_mem hP.nodup hd, placed, hrest.tasks, List.countP_nil] at hone
  suffices hpos : 0 < p.invoked env d by omega
  rw [Process.invoked]
  by_cases hhanded : p.handed env d = 0
  · omega
  obtain ⟨c, hc, hpos⟩ := Finset.exists_ne_zero_of_sum_ne_zero hhanded
  have hcall : d ∈ (p.cores c).calls := List.count_pos_iff.mp (Nat.pos_of_ne_zero hpos)
  have hlt := Finset.mem_range.mp hc
  have hdone : (p.cores c).doneCount d = 1 := by
    rcases (h.callInv hreach hlt).answered_or_waits (wellFormed_core h.started hreach hlt) hcall
      with hdone | ⟨-, i, hlive, -⟩
    · exact hdone
    · exact absurd hlive (hrest.free c hlt i)
  have hsum := Finset.single_le_sum (f := fun e => (p.cores e).doneCount d)
    (fun _ _ => Nat.zero_le _) hc
  omega

/-- From every state of every run, whatever runs, waits or is pending in it, the workers alone can
bring the process to rest, and then every closure ever passed to `CallMethod` has been invoked
once. -/
theorem workers_come_to_rest (h : Settled env route boot mgr)
    (hreach : Reaches (step env services) Fitting (start boot mgr) p) :
    ∃ p', Unaided env services route p p' ∧ p'.AtRest env ∧
      ∀ d ∈ p.issued, p'.invoked env d = 1 := by
  obtain ⟨p', hrun, hrest⟩ := h.exists_atRest hreach
  refine ⟨p', hrun, hrest, fun d hd => ?_⟩
  rw [← hrun.issued] at hd
  exact hrest.invoked h (hrun.reaches h.route hreach) hd

/-- Two workers whose messages serialise whatever their size. -/
def boundlessEnv : RpcEnv ValueMessage :=
  { wireEnv 2 with serialize := fun msg => some (msg.fields.flatMap encodeField) }

theorem boundlessEnv_settled : Settled boundlessEnv (some fun _ _ _ => (true, [⟨1, 1⟩]))
    sampleBoot sampleManager where
  started := sampleManager_started 2
  poolSize := by decide
  workers := by decide
  messages _ := rfl
  route f hf _ _ _ := by
    cases hf
    exact Nat.succ_le_succ (Nat.zero_le _)

theorem fitting_of_answerableCheck (p : Process Msg) (a : ProcessAction Msg)
    (h : p.answerableCheck a = true) : p.Fitting a :=
  fun c act hact => (answerable_of_check p a h c act hact).1

/-- A request is being sent on one worker, and another call waits in a task. -/
theorem workers_come_to_rest_sample : ∃ p,
    Reaches (step boundlessEnv []) Fitting (start sampleBoot sampleManager) p ∧
    p.tasks.length = 1 ∧ (p.cores 0).stack.length = 1 ∧ ∃ p',
      Unaided boundlessEnv [] (some fun _ _ _ => (true, [⟨1, 1⟩])) p p' ∧ p'.AtRest boundlessEnv ∧
      p'.invoked boundlessEnv 10 = 1 ∧ p'.invoked boundlessEnv 11 = 1 := by
  obtain ⟨p, hp, hcheck⟩ := exists_reachesIf_of_run (step boundlessEnv [])
    (start sampleBoot sampleManager)
    [.callInWorker 0 (RpcCore.sampleMethod [97] [73] [79]) 0 1 10
        (some fun _ _ _ => (true, [⟨1, 1⟩])),
      .callOutside 1 (RpcCore.sampleMethod [97] [73] [79]) 0 2 11 true]
    answerableCheck (fun p => decide (p.tasks.length = 1 ∧ (p.cores 0).stack.length = 1 ∧
      p.issued = [11, 10])) fitting_of_answerableCheck (by decide +kernel)
  obtain ⟨htasks, hstack, hissued⟩ := of_decide_eq_true hcheck
  obtain ⟨p', hrun, hrest, hinvoked⟩ := workers_come_to_rest boundlessEnv_settled hp
  rw [hissued] at hinvoked
  exact ⟨p, hp, htasks, hstack, p', hrun, hrest, hinvoked 10 (by simp), hinvoked 11 (by simp)⟩

end Process

/-- What happens while thread `t` waits and the workers are by themselves. -/
def CallersAction.IsUnaided (route : Option (RpcCore.OnServiceRouting Msg)) (t : ℕ) :
    CallersAction Msg → Prop
  | .process a => a.IsUnaided route
  | .write _ => True
  | .notify _ => True
  | .getWait u => u = t
  | _ => False

namespace Callers

open Process

variable {fetch : ℕ → ℕ} {s s' : Callers Msg} {t : ℕ} {d : Closure} {boot : Boot Msg}
  {mgr : ℕ → SessionManager}

abbrev Unaided (env : RpcEnv Msg) (services : List (Service Msg)) (fetch : ℕ → ℕ)
    (route : Option (RpcCore.OnServiceRouting Msg)) (t : ℕ) : Callers Msg → Callers Msg → Prop :=
  Reaches (step env services fetch) fun _ a => a.IsUnaided route t

def Fitting (s : Callers Msg) (a : CallersAction Msg) : Prop :=
  ∀ b, a.process? = some b → s.process.Fitting b

/-- Thread `t` waits for closure `d`. -/
def Waits (s : Callers Msg) (t : ℕ) (d : Closure) : Prop :=
  ∃ f, (s.threads t).frame = some f ∧ f.done = d

theorem Waits.setThread (h : s.Waits t d) {u : ℕ} {thread : CallerThread}
    (hkept : ∀ f, (s.threads u).frame = some f → ∃ f', thread.frame = some f' ∧ f'.done = f.done) :
    (s.setThread u thread).Waits t d := by
  obtain ⟨f, hf, rfl⟩ := h
  by_cases htu : t = u
  · subst htu
    obtain ⟨f', hf', hdone⟩ := hkept f hf
    exact ⟨f', (congrArg CallerThread.frame (Function.update_self ..)).trans hf', hdone⟩
  · exact ⟨f, (congrArg CallerThread.frame (Function.update_of_ne htu ..)).trans hf, rfl⟩

variable (services route fetch) in
/-- The first closure that runs can write its result. -/
theorem exists_written (hinv : s.SyncInv env) (hwaits : s.Waits t d) {run : InnerRun}
    {rest : List InnerRun} (hinner : s.inner = run :: rest) : ∃ s' run',
      Unaided env services fetch route t s s' ∧ s'.SyncInv env ∧ s'.process = s.process ∧
      s'.inner = run' :: rest ∧ run'.written ∧ s'.Waits t d := by
  by_cases hwritten : run.written
  · exact ⟨s, run, .refl, hinv, rfl, hinner, hwritten, hwaits⟩
  have hfirst : s.inner[0]? = some run := by rw [hinner]; rfl
  obtain ⟨u, f, hf, hdone, -⟩ := hinv.inner run (hinner ▸ List.mem_cons_self)
  have hcaptured : s.captured run.done = some u := hdone ▸ hinv.frame u f hf
  refine ⟨_, { run with written := true }, .single (a := .write 0) trivial ?_,
    hinv.of_write hfirst hcaptured hf, rfl, ?_, rfl, ?_⟩
  · simp [step, hfirst, hwritten, hcaptured, hf, hdone]
  · rw [hinner]
    rfl
  · refine hwaits.setThread fun g hg => ⟨_, rfl, ?_⟩
    obtain rfl : f = g := Option.some.inj (hf.symm.trans hg)
    rfl

variable (services route fetch) in
/-- It can then notify its caller. -/
theorem exists_notified (hinv : s.SyncInv env) (hwaits : s.Waits t d) {run : InnerRun}
    {rest : List InnerRun} (hinner : s.inner = run :: rest) (hwritten : run.written) : ∃ s',
      Unaided env services fetch route t s s' ∧ s'.SyncInv env ∧ s'.process = s.process ∧
      s'.inner = rest ∧ s'.Waits t d := by
  have hfirst : s.inner[0]? = some run := by rw [hinner]; rfl
  obtain ⟨u, f, hf, hdone, -⟩ := hinv.inner run (hinner ▸ List.mem_cons_self)
  have hcaptured : s.captured run.done = some u := hdone ▸ hinv.frame u f hf
  refine ⟨_, .single (a := .notify 0) trivial ?_, hinv.of_notify hfirst hcaptured hwritten, rfl, ?_,
    ?_⟩
  · simp [step, hfirst, hwritten, hcaptured]
  · rw [hinner]
    rfl
  · exact hwaits.setThread fun g hg => ⟨g, hg, rfl⟩

variable (services route fetch) in
/-- All closures that run can end. -/
theorem exists_ended (hinv : s.SyncInv env) (hwaits : s.Waits t d) : ∃ s',
    Unaided env services fetch route t s s' ∧ s'.SyncInv env ∧ s'.process = s.process ∧
      s'.inner = [] ∧ s'.Waits t d := by
  induction hinner : s.inner generalizing s with
  | nil => exact ⟨s, .refl, hinv, rfl, hinner, hwaits⟩
  | cons run rest ih =>
    obtain ⟨s₁, run', hrun₁, hinv₁, hprocess₁, hinner₁, hwritten, hwaits₁⟩ :=
      exists_written services route fetch hinv hwaits hinner
    obtain ⟨s₂, hrun₂, hinv₂, hprocess₂, hinner₂, hwaits₂⟩ :=
      exists_notified services route fetch hinv₁ hwaits₁ hinner₁ hwritten
    obtain ⟨s₃, hrun₃, hinv₃, hprocess₃, hrest⟩ := ih hinv₂ hwaits₂ hinner₂
    exact ⟨s₃, (hrun₁.trans hrun₂).trans hrun₃, hinv₃,
      hprocess₃.trans (hprocess₂.trans hprocess₁), hrest⟩

theorem Unaided.reaches (hroute : RpcCore.RouteFits route)
    (hstart : Reaches (step env services fetch) Fitting (start (Process.start boot mgr)) s)
    (h : Unaided env services fetch route t s s') :
    Reaches (step env services fetch) Fitting (start (Process.start boot mgr)) s' := by
  refine hstart.trans (h.mono fun u a ha b hb => ?_)
  cases a with
  | process a =>
    cases hb
    exact fitting_of_isUnaided hroute ha
  | callSync => exact ha.elim
  | _ => cases hb

/-- What the workers can do, they can do while closures of waiting calls run in between. -/
theorem exists_follows (h : Settled env route boot mgr) (hfetch : fetch 1 = 0)
    (hreach : Reaches (step env services fetch) Fitting (start (Process.start boot mgr)) s)
    (hinner : s.inner = []) (hwaits : s.Waits t d) {p' : Process Msg}
    (hrun : Process.Unaided env services route s.process p') : ∃ s',
      Unaided env services fetch route t s s' ∧ s'.process = p' ∧ s'.inner = [] ∧
      s'.Waits t d := by
  induction hrun with
  | refl => exact ⟨s, .refl, rfl, hinner, hwaits⟩
  | @tail p₁ p₂ a _ ha hstep ih =>
    obtain ⟨s₁, hrun₁, rfl, hinner₁, hwaits₁⟩ := ih
    have hfree : s₁.blocked a = false := by cases a <;> simp [blocked, hinner₁]
    have hprocess : s₁.step env services fetch (.process a) = some
        { s₁ with process := p₂, inner := s₁.begun env s₁.process p₂ ++ s₁.inner } := by
      simp [step, hfree, hstep]
    have hrun₂ : Unaided env services fetch route t s _ :=
      hrun₁.tail (a := .process a) ha hprocess
    obtain ⟨s₃, hrun₃, -, hsame, hinner₃, hwaits₃⟩ := exists_ended services route fetch
      (reachable_syncInv h.started hfetch (hrun₂.reaches h.route hreach)) hwaits₁
    exact ⟨s₃, hrun₂.trans hrun₃, hsame, hinner₃, hwaits₃⟩

/-- A thread that waits in a call is never stuck: the workers alone can make its call return. -/
theorem callers_return (h : Settled env route boot mgr) (hfetch : fetch 1 = 0)
    (hreach : Reaches (step env services fetch) Fitting (start (Process.start boot mgr)) s)
    {f : SyncFrame} (hf : (s.threads t).frame = some f) : ∃ s' ret,
      Unaided env services fetch route t s s' ∧ (s'.threads t).frame = none ∧
      s'.returned.head? = some ret ∧ ret.thread = t ∧ ret.done = f.done := by
  have hinv := reachable_syncInv h.started hfetch hreach
  obtain ⟨s₁, hrun₁, -, -, hinner₁, hwaits₁⟩ := exists_ended services route fetch hinv ⟨f, hf, rfl⟩
  have hreach₁ := hrun₁.reaches h.route hreach
  have hprocess₁ := reachable_process (fun _ _ b hok hb => hok b hb) hreach₁
  obtain ⟨p', hrun, hrest⟩ := h.exists_atRest hprocess₁
  obtain ⟨s₂, hrun₂, rfl, hinner₂, g, hg, hdone⟩ :=
    exists_follows h hfetch hreach₁ hinner₁ hwaits₁ hrun
  have hreach₂ := hrun₂.reaches h.route hreach₁
  have hinv₂ := reachable_syncInv h.started hfetch hreach₂
  -- its closure has been invoked and does not run any more
  have hissued : g.done ∈ s₂.process.issued :=
    hinv₂.issued _ (by rw [hinv₂.frame t g hg, Option.isSome_some])
  have hinvoked : (s₂.process.results env g.done).length = 1 := by
    rw [results_length]
    exact hrest.invoked h (reachable_process (fun _ _ b hok hb => hok b hb) hreach₂) hissued
  have hnotified : (s₂.threads t).notified = 1 := by
    rcases hinv₂.woken t g hg with ⟨hnone, -⟩ | ⟨run, hmem, -⟩ | ⟨-, hone⟩
    · simp [hnone] at hinvoked
    · simp [hinner₂] at hmem
    · exact hone
  have hreturn : s₂.step env services fetch (.getWait t) = some
      { s₂.setThread t ⟨fetch (s₂.threads t).notified, none⟩ with
        returned := ⟨t, g.done, g.rpcResult⟩ :: s₂.returned } := by
    simp [step, hg, hnotified]
  have hself : (s₂.setThread t ⟨fetch (s₂.threads t).notified, none⟩).threads t =
      ⟨fetch (s₂.threads t).notified, none⟩ := Function.update_self ..
  exact ⟨_, ⟨t, g.done, g.rpcResult⟩, (hrun₁.trans hrun₂).tail (a := .getWait t) rfl hreturn,
    congrArg CallerThread.frame hself, rfl, rfl, hdone⟩

/-- A test for `Fitting`. -/
def fittingCheck (s : Callers Msg) (a : CallersAction Msg) : Bool :=
  a.process?.all s.process.answerableCheck

theorem fitting_of_check (s : Callers Msg) (a : CallersAction Msg) (h : s.fittingCheck a = true) :
    s.Fitting a := fun b hb =>
  fitting_of_answerableCheck _ _ (by simpa [fittingCheck, hb] using h)

/-- A call waits whose task has only been posted. -/
theorem callers_return_sample : ∃ s,
    Reaches (step boundlessEnv [] Nat.pred) Fitting
      (start (Process.start sampleBoot sampleManager)) s ∧
    s.Waits 7 10 ∧ ∃ s' ret,
      Unaided boundlessEnv [] Nat.pred (some fun _ _ _ => (true, [⟨1, 1⟩])) 7 s s' ∧
      s'.returned.head? = some ret ∧ ret.done = 10 := by
  obtain ⟨s, hs, hcheck⟩ := exists_reachesIf_of_run (step boundlessEnv [] Nat.pred)
    (start (Process.start sampleBoot sampleManager))
    [.callSync 7 0 (RpcCore.sampleMethod [97] [73] [79]) 0 1 10 true]
    fittingCheck (fun s => decide ((s.threads 7).frame = some ⟨10, .kSuccess⟩)) fitting_of_check
    (by decide +kernel)
  have hf := of_decide_eq_true hcheck
  obtain ⟨s', ret, hrun, -, hret, -, hdone⟩ := callers_return boundlessEnv_settled rfl hs hf
  exact ⟨s, hs, ⟨_, hf, rfl⟩, s', ret, hrun, hret, hdone⟩

end Callers

end HyperRpc
