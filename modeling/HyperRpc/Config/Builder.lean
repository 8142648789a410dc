import HyperRpc.Lib.Transition
import HyperRpc.Model.Options

/-!
# Building options

`MaxRpcSessions` compares its argument with the worker number of the last `Build`, not with the
one given to `WorkerNumber` since, so the options that `Build` returns are what was set last:
they are valid if and only if the last worker number is at most the last number of sessions.
-/
namespace HyperRpc

open Lib

/-- What the code relies on of `hudp::OptionsBuilder`, where `recorded` is the worker number a
builder holds: a setter that throws changes nothing, and `Build` returns the recorded number. -/
structure HudpApi.Lawful {H : Type} (api : HudpApi H) (recorded : H → UInt64) : Prop where
  workerNumber_ok : ∀ num h h', api.workerNumber num h = .ok () h' → recorded h' = num
  workerNumber_error : ∀ num h e h', api.workerNumber num h = .error e h' → h' = h
  workerQueueSize_ok : ∀ num h h', api.workerQueueSize num h = .ok () h' → recorded h' = recorded h
  workerQueueSize_error : ∀ num h e h', api.workerQueueSize num h = .error e h' → h' = h
  build_ok : ∀ h o h', api.build h = .ok o h' → o.workerNum = recorded h ∧ recorded h' = recorded h

/-- What users of `Options` rely on. -/
structure Options.Valid (o : Options) : Prop where
  sessions : o.hudpOptions.workerNum ≤ o.maxRpcSessions
  timeout : 1 ≤ o.defaultRpcTimeout ∧ o.defaultRpcTimeout ≤ 4294967295

namespace OptionsBuilder

variable {H : Type} {api : HudpApi H} {recorded : H → UInt64} {b b' : OptionsBuilder H}

theorem bind_eq_ok {ε σ α β : Type} {x : EStateM ε σ α} {f : α → EStateM ε σ β} {s s' : σ} {c : β} :
    (x >>= f) s = .ok c s' ↔ ∃ a t, x s = .ok a t ∧ f a t = .ok c s' := by
  show (match x s with
    | .ok a t => f a t
    | .error e t => .error e t) = .ok c s' ↔ _
  cases x s <;> simp

theorem error_of_bind_return {ε σ α β : Type} {x : EStateM ε σ α} {c : β} {s s' : σ} {e : ε}
    (h : (x >>= fun _ => pure c) s = .error e s') : x s = .error e s' := by
  have h' : (match x s with
    | .ok a t => (pure c : EStateM ε σ β) t
    | .error e t => .error e t) = .error e s' := h
  cases hx : x s with
  | ok a t =>
    rw [hx] at h'
    cases h'
  | error e' t =>
    rw [hx] at h'
    cases h'
    rfl

theorem onHudp_eq_ok {α : Type} {call : EStateM String H α} {a : α} :
    onHudp call b = .ok a b' ↔
      ∃ h, call b.hudpOptBuilder = .ok a h ∧ b' = { b with hudpOptBuilder := h } := by
  unfold onHudp
  cases call b.hudpOptBuilder <;> simp [eq_comm]

theorem onHudp_eq_error {α : Type} {call : EStateM String H α} {e : String}
    (hkeeps : ∀ h', call b.hudpOptBuilder = .error e h' → h' = b.hudpOptBuilder)
    (h : onHudp call b = .error e b') : b' = b := by
  unfold onHudp at h
  cases hcall : call b.hudpOptBuilder with
  | ok => simp [hcall] at h
  | error e' h' =>
    simp only [hcall, EStateM.Result.error.injEq] at h
    obtain ⟨rfl, rfl⟩ := h
    rw [hkeeps h' hcall]

theorem maxRpcSessions_eq (num : UInt64) (b : OptionsBuilder H) : maxRpcSessions num b =
    if num < b.hrpcOpt.hudpOptions.workerNum then .error "Invalid value!" b
    else .ok () { b with hrpcOpt := { b.hrpcOpt with maxRpcSessions := num } } := by
  show (if num < b.hrpcOpt.hudpOptions.workerNum then throw _ else set _ : EStateM _ _ _) b = _
  split_ifs
  · rfl
  · rfl

theorem defaultRpcTimeout_eq (ms : UInt64) (b : OptionsBuilder H) : defaultRpcTimeout ms b =
    if ms > 4294967295 ∨ ms ≤ 0 then .error "Invalid timeout value!" b
    else .ok () { b with hrpcOpt := { b.hrpcOpt with defaultRpcTimeout := ms } } := by
  show (if ms > 4294967295 ∨ ms ≤ 0 then throw _ else set _ : EStateM _ _ _) b = _
  split_ifs
  · rfl
  · rfl

/-- A call that gives the builder this worker number and this number of sessions, if any, and
keeps a valid timeout valid. -/
structure Sets (recorded : H → UInt64) (workers sessions : Option UInt64)
    (b b' : OptionsBuilder H) : Prop where
  workers : recorded b'.hudpOptBuilder = workers.getD (recorded b.hudpOptBuilder)
  sessions : b'.hrpcOpt.maxRpcSessions = sessions.getD b.hrpcOpt.maxRpcSessions
  timeout : (1 ≤ b.hrpcOpt.defaultRpcTimeout ∧ b.hrpcOpt.defaultRpcTimeout ≤ 4294967295) →
    1 ≤ b'.hrpcOpt.defaultRpcTimeout ∧ b'.hrpcOpt.defaultRpcTimeout ≤ 4294967295

theorem workerNumber_sets (hlaw : api.Lawful recorded) {num : UInt64}
    (h : workerNumber api num b = .ok () b') : Sets recorded (some num) none b b' := by
  obtain ⟨h', hcall, rfl⟩ := onHudp_eq_ok.mp h
  exact ⟨hlaw.workerNumber_ok num _ h' hcall, rfl, id⟩

theorem workerQueueSize_sets (hlaw : api.Lawful recorded) {num : UInt64}
    (h : workerQueueSize api num b = .ok () b') : Sets recorded none none b b' := by
  obtain ⟨h', hcall, rfl⟩ := onHudp_eq_ok.mp h
  exact ⟨hlaw.workerQueueSize_ok num _ h' hcall, rfl, id⟩

theorem maxRpcSessions_sets {num : UInt64} (h : maxRpcSessions num b = .ok () b') :
    Sets recorded none (some num) b b' := by
  rw [maxRpcSessions_eq] at h
  split_ifs at h
  cases h
  exact ⟨rfl, rfl, id⟩

theorem defaultRpcTimeout_sets {ms : UInt64} (h : defaultRpcTimeout ms b = .ok () b') :
    Sets recorded none none b b' ∧
      1 ≤ b'.hrpcOpt.defaultRpcTimeout ∧ b'.hrpcOpt.defaultRpcTimeout ≤ 4294967295 := by
  rw [defaultRpcTimeout_eq] at h
  split_ifs at h with hms
  cases h
  have hrange : 1 ≤ ms ∧ ms ≤ 4294967295 := by
    simp only [UInt64.le_iff_toNat_le, UInt64.lt_iff_toNat_lt, gt_iff_lt] at hms ⊢
    have hzero : (0 : UInt64).toNat = 0 := rfl
    have hone : (1 : UInt64).toNat = 1 := rfl
    omega
  exact ⟨⟨rfl, rfl, fun _ => hrange⟩, hrange⟩

theorem mayOverride_eq_ok {flag : Option UInt64}
    {setter : UInt64 → EStateM String (OptionsBuilder H) Unit}
    (h : mayOverride flag setter b = .ok () b') :
    (∃ v, flag = some v ∧ setter v b = .ok () b') ∨ (flag = none ∧ b' = b) := by
  cases flag with
  | some v => exact Or.inl ⟨v, rfl, h⟩
  | none =>
    cases h
    exact Or.inr ⟨rfl, rfl⟩

theorem sets_refl : Sets recorded none none b b := ⟨rfl, rfl, id⟩

/-- Of two calls the later one counts. -/
theorem Sets.trans {w₁ s₁ w₂ s₂ : Option UInt64} {b₁ b₂ b₃ : OptionsBuilder H}
    (h : Sets recorded w₁ s₁ b₁ b₂) (h' : Sets recorded w₂ s₂ b₂ b₃) :
    Sets recorded (w₂.or w₁) (s₂.or s₁) b₁ b₃ := by
  refine ⟨?_, ?_, h'.timeout ∘ h.timeout⟩
  · rw [h'.workers, h.workers]
    cases w₂ <;> rfl
  · rw [h'.sessions, h.sessions]
    cases s₂ <;> rfl

/-- `Build` applies the flags and returns what it has, with the recorded worker number. -/
theorem build_sets (hlaw : api.Lawful recorded) {flags : Flags} {o : Options}
    (h : build api flags b = .ok o b') :
    Sets recorded flags.workerNum flags.maxRpcSessions b b' ∧ o = b'.hrpcOpt ∧
      o.hudpOptions.workerNum = recorded b'.hudpOptBuilder := by
  obtain ⟨⟨⟩, b₁, hworkers, h⟩ := bind_eq_ok.mp h
  obtain ⟨⟨⟩, b₂, hqueue, h⟩ := bind_eq_ok.mp h
  obtain ⟨⟨⟩, b₃, hsessions, h⟩ := bind_eq_ok.mp h
  obtain ⟨⟨⟩, b₄, htimeout, h⟩ := bind_eq_ok.mp h
  obtain ⟨hudpOptions, b₅, hbuild, h⟩ := bind_eq_ok.mp h
  have h₁ : Sets recorded flags.workerNum none b b₁ := by
    rcases mayOverride_eq_ok hworkers with ⟨v, hv, hset⟩ | ⟨hv, rfl⟩ <;> rw [hv]
    · exact workerNumber_sets hlaw hset
    · exact sets_refl
  have h₂ : Sets recorded none none b₁ b₂ := by
    rcases mayOverride_eq_ok hqueue with ⟨v, -, hset⟩ | ⟨-, rfl⟩
    · exact workerQueueSize_sets hlaw hset
    · exact sets_refl
  have h₃ : Sets recorded none flags.maxRpcSessions b₂ b₃ := by
    rcases mayOverride_eq_ok hsessions with ⟨v, hv, hset⟩ | ⟨hv, rfl⟩ <;> rw [hv]
    · exact maxRpcSessions_sets hset
    · exact sets_refl
  have h₄ : Sets recorded none none b₃ b₄ := by
    rcases mayOverride_eq_ok htimeout with ⟨v, -, hset⟩ | ⟨-, rfl⟩
    · exact (defaultRpcTimeout_sets hset).1
    · exact sets_refl
  obtain ⟨h', hcall, rfl⟩ := onHudp_eq_ok.mp hbuild
  obtain ⟨hnum, hkept⟩ := hlaw.build_ok _ _ _ hcall
  cases h
  have hall := ((h₁.trans h₂).trans h₃).trans h₄
  simp only [Option.none_or, Option.or_none] at hall
  exact ⟨⟨hkept.trans hall.workers, hall.sessions, hall.timeout⟩, rfl, hnum.trans hkept.symm⟩

end OptionsBuilder

/-! ## Sequences of calls -/

/-- The worker number a call gives the builder. -/
def BuilderCall.workers? : BuilderCall → Option UInt64
  | workerNumber num => some num
  | build flags => flags.workerNum
  | _ => none

/-- The number of sessions a call gives the builder. -/
def BuilderCall.sessions? : BuilderCall → Option UInt64
  | maxRpcSessions num => some num
  | build flags => flags.maxRpcSessions
  | _ => none

/-- What the last call that gives a value gives. -/
def lastGiven (value? : BuilderCall → Option UInt64) (initial : UInt64)
    (calls : List BuilderCall) : UInt64 :=
  (calls.filterMap value?).getLast?.getD initial

theorem lastGiven_append (value? : BuilderCall → Option UInt64) (initial : UInt64)
    (calls : List BuilderCall) (call : BuilderCall) : lastGiven value? initial (calls ++ [call]) =
      (value? call).getD (lastGiven value? initial calls) := by
  rw [lastGiven, List.filterMap_append]
  cases h : value? call with
  | none => simp [h, lastGiven]
  | some v => simp [h, List.getLast?_append]

namespace BuilderRun

variable {H : Type} {api : HudpApi H} {recorded : H → UInt64} {r r' : BuilderRun H}
  {calls : List BuilderCall}

/-- The call sets what it says; a `Build` returns what the builder then holds. -/
theorem step_sets (hlaw : api.Lawful recorded) {call : BuilderCall}
    (h : r.step api call = some r') :
    OptionsBuilder.Sets recorded call.workers? call.sessions? r.builder r'.builder ∧
      ((∀ flags, call ≠ .build flags) ∧ r'.built = r.built ∨
        (∃ flags, call = .build flags) ∧ r'.built = r'.builder.hrpcOpt :: r.built ∧
          r'.builder.hrpcOpt.hudpOptions.workerNum = recorded r'.builder.hudpOptBuilder) := by
  unfold step at h
  cases hperform : call.perform api r.builder with
  | error => simp [hperform] at h
  | ok opt b =>
    simp only [hperform, Option.some.injEq] at h
    subst h
    cases call with
    | build flags =>
      obtain ⟨o, b₁, hbuild, hret⟩ := OptionsBuilder.bind_eq_ok.mp hperform
      cases hret
      obtain ⟨hsets, rfl, hnum⟩ := OptionsBuilder.build_sets hlaw hbuild
      exact ⟨hsets, Or.inr ⟨⟨flags, rfl⟩, rfl, hnum⟩⟩
    | workerNumber num =>
      obtain ⟨⟨⟩, b₁, hset, hret⟩ := OptionsBuilder.bind_eq_ok.mp hperform
      cases hret
      exact ⟨OptionsBuilder.workerNumber_sets hlaw hset, Or.inl ⟨nofun, rfl⟩⟩
    | workerQueueSize num =>
      obtain ⟨⟨⟩, b₁, hset, hret⟩ := OptionsBuilder.bind_eq_ok.mp hperform
      cases hret
      exact ⟨OptionsBuilder.workerQueueSize_sets hlaw hset, Or.inl ⟨nofun, rfl⟩⟩
    | maxRpcSessions num =>
      obtain ⟨⟨⟩, b₁, hset, hret⟩ := OptionsBuilder.bind_eq_ok.mp hperform
      cases hret
      exact ⟨OptionsBuilder.maxRpcSessions_sets hset, Or.inl ⟨nofun, rfl⟩⟩
    | defaultRpcTimeout ms =>
      obtain ⟨⟨⟩, b₁, hset, hret⟩ := OptionsBuilder.bind_eq_ok.mp hperform
      cases hret
      exact ⟨(OptionsBuilder.defaultRpcTimeout_sets hset).1, Or.inl ⟨nofun, rfl⟩⟩

/-- What a builder holds after these calls. -/
structure Holds (api : HudpApi H) (recorded : H → UInt64) (calls : List BuilderCall)
    (r : BuilderRun H) : Prop where
  workers : recorded r.builder.hudpOptBuilder =
    lastGiven BuilderCall.workers? (recorded api.construct) calls
  sessions : r.builder.hrpcOpt.maxRpcSessions = lastGiven BuilderCall.sessions? 1000000 calls
  timeout : 1 ≤ r.builder.hrpcOpt.defaultRpcTimeout ∧
    r.builder.hrpcOpt.defaultRpcTimeout ≤ 4294967295

/-- The last worker number is at most the last number of sessions at every `Build`. -/
def ConsistentBuilds (initial : UInt64) (calls : List BuilderCall) : Prop :=
  ∀ before flags after, calls = before ++ .build flags :: after →
    lastGiven BuilderCall.workers? initial (before ++ [.build flags]) ≤
      lastGiven BuilderCall.sessions? 1000000 (before ++ [.build flags])

theorem holds_construct {b : OptionsBuilder H} (h : OptionsBuilder.construct api = .ok () b) :
    Holds api recorded [] ⟨b, []⟩ := by
  obtain ⟨⟨⟩, b₁, hsessions, htimeout⟩ := OptionsBuilder.bind_eq_ok.mp h
  have hsets : OptionsBuilder.Sets recorded none (some 1000000) (OptionsBuilder.members api) b₁ :=
    OptionsBuilder.maxRpcSessions_sets hsessions
  obtain ⟨hsets', hrange⟩ : OptionsBuilder.Sets recorded none none b₁ b ∧ _ :=
    OptionsBuilder.defaultRpcTimeout_sets htimeout
  exact ⟨hsets'.workers.trans hsets.workers, hsets'.sessions.trans hsets.sessions, hrange⟩

theorem Holds.step (hlaw : api.Lawful recorded) (hH : Holds api recorded calls r)
    {call : BuilderCall} (h : r.step api call = some r') :
    Holds api recorded (calls ++ [call]) r' := by
  have hsets := (step_sets hlaw h).1
  constructor
  · rw [hsets.workers, hH.workers, lastGiven_append]
  · rw [hsets.sessions, hH.sessions, lastGiven_append]
  · exact hsets.timeout hH.timeout

theorem consistentBuilds_append {initial : UInt64} {call : BuilderCall} :
    ConsistentBuilds initial (calls ++ [call]) ↔ ConsistentBuilds initial calls ∧
      ((∃ flags, call = .build flags) →
        lastGiven BuilderCall.workers? initial (calls ++ [call]) ≤
          lastGiven BuilderCall.sessions? 1000000 (calls ++ [call])) := by
  constructor
  · intro h
    refine ⟨fun before flags after heq => ?_, ?_⟩
    · exact h before flags (after ++ [call]) (by rw [heq]; simp)
    · rintro ⟨flags, rfl⟩
      exact h calls flags [] rfl
  · rintro ⟨hcalls, hcall⟩ before flags after heq
    rcases List.eq_nil_or_concat after with rfl | ⟨after', last, rfl⟩
    · obtain ⟨rfl, hlast⟩ := List.append_inj' heq rfl
      obtain rfl := List.singleton_inj.mp hlast
      exact hcall ⟨flags, rfl⟩
    · rw [List.concat_eq_append, ← List.cons_append, ← List.append_assoc] at heq
      exact hcalls before flags after' (List.append_inj' heq rfl).1

theorem run_holds (hlaw : api.Lawful recorded) {b : OptionsBuilder H}
    (hconstruct : OptionsBuilder.construct api = .ok () b)
    (hrun : run (step api) ⟨b, []⟩ calls = some r) : Holds api recorded calls r ∧
      ((∀ o ∈ r.built, o.Valid) ↔ ConsistentBuilds (recorded api.construct) calls) := by
  induction calls using List.reverseRecOn generalizing r with
  | nil =>
    cases hrun
    refine ⟨holds_construct hconstruct, ?_⟩
    simp [ConsistentBuilds]
  | append_singleton calls call ih =>
    rw [run_append] at hrun
    obtain ⟨r₁, hrun₁, hlast⟩ := Option.bind_eq_some_iff.mp hrun
    obtain ⟨r₂, hstep, hnil⟩ := run_cons_eq_some.mp hlast
    cases hnil
    obtain ⟨hH, hiff⟩ := ih hrun₁
    have hH' := hH.step hlaw hstep
    refine ⟨hH', ?_⟩
    rw [consistentBuilds_append, ← hiff]
    rcases (step_sets hlaw hstep).2 with ⟨hno, hbuilt⟩ | ⟨hbuild, hbuilt, hnum⟩
    · rw [hbuilt]
      exact ⟨fun h => ⟨h, fun ⟨flags, hcall⟩ => absurd hcall (hno flags)⟩, fun h => h.1⟩
    · rw [hbuilt, List.forall_mem_cons, and_comm]
      have hvalid : r.builder.hrpcOpt.Valid ↔
          lastGiven BuilderCall.workers? (recorded api.construct) (calls ++ [call]) ≤
            lastGiven BuilderCall.sessions? 1000000 (calls ++ [call]) := by
        rw [← hH'.workers, ← hH'.sessions, ← hnum]
        exact ⟨fun h => h.sessions, fun h => ⟨h, hH'.timeout⟩⟩
      rw [hvalid]
      exact ⟨fun h => ⟨h.1, fun _ => h.2⟩, fun h => ⟨h.1, h.2 hbuild⟩⟩

/-- A setter that throws leaves the builder as it was. -/
theorem setter_error (hlaw : api.Lawful recorded) {call : BuilderCall}
    (hno : ∀ flags, call ≠ .build flags) {b b' : OptionsBuilder H} {e : String}
    (h : call.perform api b = .error e b') : b' = b := by
  cases call with
  | build flags => exact absurd rfl (hno flags)
  | workerNumber num =>
    exact OptionsBuilder.onHudp_eq_error (fun _ => hlaw.workerNumber_error num _ e _)
      (OptionsBuilder.error_of_bind_return h)
  | workerQueueSize num =>
    exact OptionsBuilder.onHudp_eq_error (fun _ => hlaw.workerQueueSize_error num _ e _)
      (OptionsBuilder.error_of_bind_return h)
  | maxRpcSessions num =>
    have hthrow := OptionsBuilder.error_of_bind_return h
    rw [OptionsBuilder.maxRpcSessions_eq] at hthrow
    split_ifs at hthrow
    cases hthrow
    rfl
  | defaultRpcTimeout ms =>
    have hthrow := OptionsBuilder.error_of_bind_return h
    rw [OptionsBuilder.defaultRpcTimeout_eq] at hthrow
    split_ifs at hthrow
    cases hthrow
    rfl

/-- The options built are valid if and only if at every `Build` the last worker number was at most
the last number of sessions; and a setter that throws leaves the builder as it was. -/
theorem built_valid_iff (hlaw : api.Lawful recorded) {b : OptionsBuilder H}
    (hconstruct : OptionsBuilder.construct api = .ok () b)
    (hrun : run (step api) ⟨b, []⟩ calls = some r) :
    ((∀ o ∈ r.built, o.Valid) ↔ ConsistentBuilds (recorded api.construct) calls) ∧
      ∀ call : BuilderCall, (∀ flags, call ≠ .build flags) →
        ∀ b e b', call.perform api b = .error e b' → b' = b := by
  exact ⟨(run_holds hlaw hconstruct hrun).2, fun call hno b e b' h =>
    setter_error hlaw hno h⟩

/-- A builder of `hudp` that takes any worker number but zero. -/
def sampleHudp : HudpApi UInt64 where
  defaultOptions := ⟨0⟩
  construct := 1
  workerNumber num h := if num = 0 then .error "Invalid value!" h else .ok () num
  workerQueueSize _ h := .ok () h
  build h := .ok ⟨h⟩ h

theorem sampleHudp_lawful : sampleHudp.Lawful id where
  workerNumber_ok num h h' hcall := by
    simp only [sampleHudp] at hcall
    split_ifs at hcall
    cases hcall
    rfl
  workerNumber_error num h e h' hcall := by
    simp only [sampleHudp] at hcall
    split_ifs at hcall
    cases hcall
    rfl
  workerQueueSize_ok _ _ _ hcall := by
    cases hcall
    rfl
  workerQueueSize_error _ _ _ _ hcall := by cases hcall
  build_ok _ _ _ hcall := by
    cases hcall
    exact ⟨rfl, rfl⟩

/-- The builder that `sampleHudp` makes. -/
def sampleBuilder : OptionsBuilder UInt64 := ⟨⟨⟨0⟩, 1000000, 2500⟩, 1⟩

theorem sampleBuilder_construct : OptionsBuilder.construct sampleHudp = .ok () sampleBuilder := rfl

/-- Four workers, then eight sessions. -/
theorem built_valid_eight : ∃ r, run (step sampleHudp) ⟨sampleBuilder, []⟩
    [.workerNumber 4, .maxRpcSessions 8, .build ⟨none, none, none, none⟩] = some r ∧
      r.built = [⟨⟨4⟩, 8, 2500⟩] ∧ ConsistentBuilds 1
        [.workerNumber 4, .maxRpcSessions 8, .build ⟨none, none, none, none⟩] := by
  obtain ⟨r, hrun, hbuilt⟩ := Option.map_eq_some_iff.mp
    (show (run (step sampleHudp) ⟨sampleBuilder, []⟩ [.workerNumber 4, .maxRpcSessions 8,
      .build ⟨none, none, none, none⟩]).map BuilderRun.built = some [⟨⟨4⟩, 8, 2500⟩] by
        decide +kernel)
  refine ⟨r, hrun, hbuilt,
    (built_valid_iff sampleHudp_lawful sampleBuilder_construct hrun).1.mp ?_⟩
  intro o ho
  rw [hbuilt] at ho
  obtain rfl := List.mem_singleton.mp ho
  exact ⟨by decide, by decide⟩

/-- Four workers, then two sessions, which are compared with the worker number of no `Build`. -/
theorem built_invalid : sampleHudp.Lawful id ∧
    OptionsBuilder.construct sampleHudp = .ok () sampleBuilder ∧
      ∃ r, run (step sampleHudp) ⟨sampleBuilder, []⟩
        [.workerNumber 4, .maxRpcSessions 2, .build ⟨none, none, none, none⟩] = some r ∧
          ∃ o ∈ r.built, ¬ o.Valid := by
  obtain ⟨r, hrun, hbuilt⟩ := Option.map_eq_some_iff.mp
    (show (run (step sampleHudp) ⟨sampleBuilder, []⟩ [.workerNumber 4, .maxRpcSessions 2,
      .build ⟨none, none, none, none⟩]).map BuilderRun.built = some [⟨⟨4⟩, 2, 2500⟩] by
        decide +kernel)
  refine ⟨sampleHudp_lawful, rfl, r, hrun, ⟨⟨4⟩, 2, 2500⟩, ?_, fun hvalid => ?_⟩
  · rw [hbuilt]
    exact List.mem_cons_self
  · exact absurd hvalid.sessions (by decide)

end BuilderRun

end HyperRpc
