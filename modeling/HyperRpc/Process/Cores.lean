import HyperRpc.Process.Steps
import HyperRpc.Session.Answers

/-!
# The cores of a process

In every step of a process each core makes one step of its session machine, if only the one
that lets it see what others have written. What holds of every run of a machine therefore
holds of the cores of a process (`reachable_core`).
-/
namespace HyperRpc

open Lib

namespace RpcCore

variable {Msg : Type}

theorem callMethod_cases (route : Option (OnServiceRouting Msg)) (method : MethodDescriptor)
    (request response : MsgRef) (msg : Msg) (done : Closure) :
    callMethod route method request response msg done = .noRoute done ∨ ∃ endpoints,
      callMethod route method request response msg done =
        .addSession method request response endpoints done := by
  cases route with
  | none => exact Or.inl rfl
  | some route =>
    simp only [callMethod]
    split_ifs
    · exact Or.inl rfl
    · exact Or.inr ⟨_, rfl⟩

theorem callMethod_call? (route : Option (OnServiceRouting Msg)) (method : MethodDescriptor)
    (request response : MsgRef) (msg : Msg) (done : Closure) :
    (callMethod route method request response msg done).call? = some done := by
  rcases callMethod_cases route method request response msg done with h | ⟨endpoints, h⟩ <;>
    rw [h] <;> rfl

end RpcCore

namespace Process

variable {Msg : Type} {env : RpcEnv Msg} {services : List (Service Msg)} {p p' : Process Msg}

/-- The call that an action dispatches: the worker and what its core does with it. -/
def dispatched (p : Process Msg) : ProcessAction Msg → Option (ℕ × Action Msg)
  | .callInWorker c method request response done route =>
    some (c, RpcCore.callMethod route method request response ((p.cores c).st.mem request) done)
  | .runTask k route =>
    match p.tasks[k]? with
    | some (.callMethod c method request response done) =>
      some (c, RpcCore.callMethod route method request response ((p.cores c).st.mem request) done)
    | _ => none
  | _ => none

theorem LocalAction.call?_toAction (a : LocalAction) : (a.toAction : Action Msg).call? = none := by
  cases a <;> rfl

/-! ## The effect of a step apart from tasks and records -/

/-- The processes differ in their tasks and in the records of calls only. -/
structure Alike (p q : Process Msg) : Prop where
  cores : q.cores = p.cores
  outbox : q.outbox = p.outbox
  contexts : q.contexts = p.contexts
  invocations : q.invocations = p.invocations
  completions : q.completions = p.completions

theorem Alike.refl : p.Alike p := ⟨rfl, rfl, rfl, rfl, rfl⟩

theorem Alike.trans {q : Process Msg} (h : p.Alike q) (h' : q.Alike p') : p.Alike p' :=
  ⟨h'.cores.trans h.cores, h'.outbox.trans h.outbox, h'.contexts.trans h.contexts,
    h'.invocations.trans h.invocations, h'.completions.trans h.completions⟩

theorem alike_issue (done : Closure) : p.Alike (p.issue done) := ⟨rfl, rfl, rfl, rfl, rfl⟩

theorem alike_dropTask (k : ℕ) : p.Alike (p.dropTask k) := ⟨rfl, rfl, rfl, rfl, rfl⟩

theorem alike_post (task : Task) (posted : Bool) : p.Alike (p.post task posted) := by
  cases posted <;> exact ⟨rfl, rfl, rfl, rfl, rfl⟩

/-- The step handles this packet, as it arrives or from a task. -/
def Takes (p : Process Msg) (a : ProcessAction Msg) (buf : List UInt8) (addr : Addr) : Prop :=
  (∃ c posted, a = .recvPacket c buf addr posted) ∨ ∃ c, .recvPacket c buf addr ∈ p.tasks

/-- What a core does without being told by a packet or a caller. -/
def IsOwn (act : Action Msg) : Prop :=
  (∃ a : LocalAction, act = a.toAction) ∨ ∃ rpcId, act = .onSendRequestFailed rpcId

/-- A step changes one core, or invokes or completes a handler, or writes to a message. -/
inductive Effect (env : RpcEnv Msg) (services : List (Service Msg)) (p : Process Msg)
    (a : ProcessAction Msg) (p' : Process Msg) : Prop
  | idle (h : p.Alike p')
  | core {c act p₀ p₁} (hc : c < env.workerNum) (hbefore : p.Alike p₀)
      (h : p₀.CoreStep env c act p₁) (hafter : p₁.Alike p')
      (hact : IsOwn act ∨ p.dispatched a = some (c, act))
  | respond {c buf addr ret service method rpcId rpcResult respBody p₀ p₁}
      (hc : c < env.workerNum) (htakes : p.Takes a buf addr)
      (hrecv : RpcCore.Receives env (serviceMap services) c buf addr ret
        (.respond service method rpcId rpcResult respBody)) (hbefore : p.Alike p₀)
      (h : p₀.CoreStep env c (.onRecvResponse service method rpcId rpcResult respBody) p₁)
      (hafter : p₁.Alike p')
  | invoke {c buf addr ret service ctx p₀} (htakes : p.Takes a buf addr)
      (hrecv : RpcCore.Receives env (serviceMap services) c buf addr ret (.invoke service ctx))
      (hbefore : p.Alike p₀) (hafter : (p₀.invoke c service ctx).Alike p')
  | complete {k inv result response buf} (hctx : p.contexts[k]? = some inv)
      (htype : env.typeOf response = env.typeOf inv.ctx.response)
      (hbuf : onIncomingRpcDone env inv.ctx result response = some buf)
      (hafter : (p.complete k inv result response buf).Alike p')
  | write {ref msg} (hact : a = .write ref msg)
      (htype : env.typeOf msg = env.typeOf ((p.cores 0).st.mem ref))
      (hafter : (p.wrote ref msg).Alike p')

theorem Recv.effect {a : ProcessAction Msg} {p₀ p₁ : Process Msg} {c dst : ℕ} {buf : List UInt8}
    {addr : Addr} (h : p₀.Recv env services c buf addr p₁ dst) (hc : c < env.workerNum)
    (htakes : p.Takes a buf addr) (hbefore : p.Alike p₀) (hafter : p₁.Alike p') :
    p.Effect env services a p' := by
  cases h with
  | dropped => exact .idle (hbefore.trans hafter)
  | invoked hrecv => exact .invoke htakes hrecv hbefore hafter
  | responded hrecv hstep =>
    exact .respond hc htakes hrecv hbefore hstep hafter

theorem SendFailed.effect {a : ProcessAction Msg} {p₀ p₁ : Process Msg} {c dst : ℕ} {ctx : UInt64}
    (h : p₀.SendFailed env c ctx p₁ dst) (hc : c < env.workerNum) (hbefore : p.Alike p₀)
    (hafter : p₁.Alike p') : p.Effect env services a p' := by
  cases h with
  | elsewhere => exact .idle (hbefore.trans hafter)
  | reported _ hstep =>
    exact .core hc hbefore hstep hafter (Or.inl (Or.inr ⟨_, rfl⟩))

theorem Trans.effect {a : ProcessAction Msg} (h : p.Trans env services a p') :
    p.Effect env services a p' := by
  cases h with
  | recvPacket hidle h =>
    refine h.effect hidle.1 (Or.inl ⟨_, _, rfl⟩) .refl ?_
    split_ifs
    · exact alike_post _ _
    · exact .refl
  | sentOk => exact .idle .refl
  | sentFailed hc h =>
    refine h.effect hc .refl ?_
    split_ifs
    · exact alike_post _ _
    · exact .refl
  | callInWorker hc _ h => exact .core hc (alike_issue _) h .refl (Or.inr rfl)
  | callPosted => exact .idle ((alike_issue _).trans (alike_post _ _))
  | callRefused => exact .idle ⟨rfl, rfl, rfl, rfl, rfl⟩
  | runRecv htask hidle h =>
    exact h.effect hidle.1 (Or.inr ⟨_, List.mem_of_getElem? htask⟩) (alike_dropTask _) .refl
  | runFailed _ hidle h => exact h.effect hidle.1 (alike_dropTask _) .refl
  | runCall htask hidle h =>
    exact .core hidle.1 (alike_dropTask _) h .refl (Or.inr (by simp [dispatched, htask]))
  | handlerDone hctx htype hbuf => exact .complete hctx htype hbuf .refl
  | core hc h => exact .core hc .refl h .refl (Or.inl (Or.inl ⟨_, rfl⟩))
  | write htype => exact .write rfl htype .refl

/-- Tasks are posted for arriving packets, failed sends and calls from outside. -/
inductive Posts : ProcessAction Msg → Task → Prop
  | recvPacket {c dst buf addr posted} :
      Posts (.recvPacket c buf addr posted) (.recvPacket dst buf addr)
  | sendPacketFailed {a dst ctx} : Posts a (.sendPacketFailed dst ctx)
  | callMethod {c method request response done} :
      Posts (.callOutside c method request response done true)
        (.callMethod c method request response done)

theorem mem_post {task t : Task} {posted : Bool} (ht : t ∈ (p.post task posted).tasks) :
    t ∈ p.tasks ∨ t = task := by
  cases posted with
  | false => exact Or.inl ht
  | true => simpa [post] using ht

theorem Trans.tasks_cases {a : ProcessAction Msg} (h : p.Trans env services a p') {t : Task}
    (ht : t ∈ p'.tasks) : t ∈ p.tasks ∨ Posts a t := by
  cases h with
  | recvPacket _ h =>
    split_ifs at ht
    · refine (mem_post ht).imp (fun ht => h.tasks ▸ ht) ?_
      rintro rfl
      exact .recvPacket
    · exact Or.inl (h.tasks ▸ ht)
  | sentFailed _ h =>
    split_ifs at ht
    · refine (mem_post ht).imp (fun ht => h.tasks ▸ ht) ?_
      rintro rfl
      exact .sendPacketFailed
    · exact Or.inl (h.tasks ▸ ht)
  | callPosted =>
    refine (mem_post ht).imp id ?_
    rintro rfl
    exact .callMethod
  | callInWorker _ _ h =>
    rw [h.tasks] at ht
    exact Or.inl ht
  | runRecv _ _ h =>
    rw [h.tasks] at ht
    exact Or.inl (List.mem_of_mem_eraseIdx ht)
  | runFailed _ _ h =>
    rw [h.tasks] at ht
    exact Or.inl (List.mem_of_mem_eraseIdx ht)
  | runCall _ _ h =>
    rw [h.tasks] at ht
    exact Or.inl (List.mem_of_mem_eraseIdx ht)
  | core _ h => exact Or.inl (h.tasks ▸ ht)
  | _ => exact Or.inl ht

/-- A dispatched call is that of the action or that of a task. -/
theorem dispatched_cases {a : ProcessAction Msg} {c : ℕ} {act : Action Msg}
    (h : p.dispatched a = some (c, act)) : ∃ method request response done route,
      act = RpcCore.callMethod route method request response ((p.cores c).st.mem request) done ∧
        (a = .callInWorker c method request response done route ∨
          .callMethod c method request response done ∈ p.tasks) := by
  cases a with
  | callInWorker =>
    cases h
    exact ⟨_, _, _, _, _, rfl, Or.inl rfl⟩
  | runTask k route =>
    cases htask : p.tasks[k]? with
    | none => simp [dispatched, htask] at h
    | some task =>
      cases task with
      | callMethod =>
        simp only [dispatched, htask, Option.some.injEq, Prod.mk.injEq] at h
        obtain ⟨rfl, rfl⟩ := h
        exact ⟨_, _, _, _, _, rfl, Or.inr (List.mem_of_getElem? htask)⟩
      | _ => simp [dispatched, htask] at h
  | _ => simp [dispatched] at h

theorem IsOwn.call? {act : Action Msg} (h : IsOwn act) : act.call? = none := by
  rcases h with ⟨a, rfl⟩ | ⟨rpcId, rfl⟩
  · exact LocalAction.call?_toAction a
  · rfl

/-- A core does not write to messages on its own. -/
theorem ne_write {a : ProcessAction Msg} {c : ℕ} {act : Action Msg}
    (h : IsOwn act ∨ p.dispatched a = some (c, act)) (mem : MsgRef → Msg) : act ≠ .write mem := by
  rintro rfl
  rcases h with (⟨b, hb⟩ | ⟨_, hb⟩) | hb
  · cases b <;> cases hb
  · cases hb
  · obtain ⟨_, _, _, _, _, hact, -⟩ := dispatched_cases hb
    have hcall := congrArg Action.call? hact
    rw [RpcCore.callMethod_call?] at hcall
    cases hcall

/-- A core is handed a call by code on its worker or by a posted task. -/
theorem addSession_from {a : ProcessAction Msg} {c : ℕ} {method : MethodDescriptor}
    {request response : MsgRef} {endpoints : List Addr} {d : Closure}
    (h : IsOwn (.addSession method request response endpoints d : Action Msg) ∨
      p.dispatched a = some (c, .addSession method request response endpoints d)) :
    (∃ route, a = .callInWorker c method request response d route) ∨
      .callMethod c method request response d ∈ p.tasks := by
  rcases h with (⟨b, hb⟩ | ⟨_, hb⟩) | hb
  · cases b <;> cases hb
  · cases hb
  · obtain ⟨method, request, response, done, route, hcall, hfrom⟩ := dispatched_cases hb
    rcases RpcCore.callMethod_cases route method request response ((p.cores c).st.mem request)
      done with hno | ⟨endpoints, hadd⟩
    · cases hcall.trans hno
    · cases hcall.trans hadd
      exact hfrom.imp_left fun ha => ⟨route, ha⟩

/-! ## Each core by itself -/

/-- A core's part in a step of the process: a call only if the action dispatches one to it. -/
def CoreMoves (env : RpcEnv Msg) (p : Process Msg) (a : ProcessAction Msg) (d : ℕ)
    (m : Machine Msg) : Prop :=
  ∃ act, (p.cores d).step env.toSessionEnv act = some m ∧
    (act.call? = none ∨ p.dispatched a = some (d, act))

theorem coreMoves_withMem (a : ProcessAction Msg) (d : ℕ) (mem : MsgRef → Msg) :
    p.CoreMoves env a d ((p.cores d).withMem mem) :=
  ⟨.write mem, rfl, Or.inl rfl⟩

theorem coreMoves_of_alike (a : ProcessAction Msg) (d : ℕ) (h : p'.cores = p.cores) :
    p.CoreMoves env a d (p'.cores d) := by
  rw [h]
  exact coreMoves_withMem a d (p.cores d).st.mem

theorem CoreStep.coreMoves {a : ProcessAction Msg} {p₀ p₁ : Process Msg} {c : ℕ}
    {act : Action Msg} (h : p₀.CoreStep env c act p₁) (hbefore : p.Alike p₀)
    (hafter : p₁.Alike p') (hact : act.call? = none ∨ p.dispatched a = some (c, act)) (d : ℕ) :
    p.CoreMoves env a d (p'.cores d) := by
  rw [hafter.cores]
  by_cases hd : d = c
  · subst hd
    exact ⟨act, hbefore.cores ▸ h.machine, hact⟩
  · rw [h.others d hd, hbefore.cores]
    exact coreMoves_withMem a d _

theorem Trans.coreMoves {a : ProcessAction Msg} (h : p.Trans env services a p') (d : ℕ) :
    p.CoreMoves env a d (p'.cores d) := by
  cases h.effect with
  | idle h => exact coreMoves_of_alike a d h.cores
  | core _ hbefore h hafter hact => exact h.coreMoves hbefore hafter (hact.imp_left IsOwn.call?) d
  | respond _ _ _ hbefore h hafter => exact h.coreMoves hbefore hafter (Or.inl rfl) d
  | invoke _ _ hbefore hafter => exact coreMoves_of_alike a d (hafter.cores.trans hbefore.cores)
  | complete _ _ _ hafter => exact coreMoves_of_alike a d hafter.cores
  | write _ _ hafter =>
    rw [hafter.cores]
    exact coreMoves_withMem a d _

variable {boot : Boot Msg} {mgr : ℕ → SessionManager}

/-- The run of a process is, for each core, a run of its session machine. A condition on the
dispatched calls is one on the calls of the machine. -/
theorem reachable_core {guard : Process Msg → ProcessAction Msg → Prop}
    {ok : Machine Msg → Action Msg → Prop}
    (hguard : ∀ p a d act, guard p a → act.call? = none ∨ p.dispatched a = some (d, act) →
      ok (p.cores d) act)
    (h : Reaches (step env services) guard (start boot mgr) p) (d : ℕ) :
    Machine.ReachableIf env.toSessionEnv ok (mgr d) boot.now boot.mem (p.cores d) := by
  induction h with
  | refl => exact .refl
  | tail _ hok hstep ih =>
    obtain ⟨act, hact, hcall⟩ := (step_trans hstep).coreMoves d
    exact ih.tail (hguard _ _ d act hok hcall) hact

/-- All cores of a process keep the invariants of their managers. -/
theorem wellFormed_core (hstarted : Started env boot mgr)
    {guard : Process Msg → ProcessAction Msg → Prop}
    (h : Reaches (step env services) guard (start boot mgr) p) {d : ℕ} (hd : d < env.workerNum) :
    (p.cores d).WellFormed env.toSessionEnv (mgr d) := by
  have hreach : Machine.ReachableIf env.toSessionEnv (fun _ _ => True) (mgr d) boot.now boot.mem
    (p.cores d) := reachable_core (fun _ _ _ _ _ _ => trivial) h d
  exact hreach.wellFormed (hstarted d hd)

end Process

end HyperRpc
