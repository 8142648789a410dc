import Mathlib.Algebra.BigOperators.Group.List.Basic
import Mathlib.Data.List.Basic
import Mathlib.Tactic

/-!
# Partial step functions and their guarded runs

A system is a partial function `step s a`, which answers `none` where the action `a` is not
enabled in `s`. `Reaches` follows the steps that meet a condition `ok` on the state and the
action; a state invariant is proved of one step and carried along a run, and `progress` leads to
a goal along a measure. `run` replays a given list of actions, so that a schedule can be
evaluated. `run_weight` is the counting rule: a quantity that every step changes by the weight
of its action changes over a run by the sum of the weights. `observations_eq` is the rule for
two runs with the same actions: a relation that both keep in lockstep, and under which they show
the same, makes them show the same for ever. `run_simulates` compares runs with those of a
specification that leaves choices open.
-/
namespace HyperRpc.Lib

variable {σ α : Type*}

/-- The states reached from a state by enabled steps, each of which meets `ok`. -/
inductive Reaches (step : σ → α → Option σ) (ok : σ → α → Prop) (s : σ) : σ → Prop
  | refl : Reaches step ok s s
  | tail {t u : σ} {a : α} : Reaches step ok s t → ok t a → step t a = some u → Reaches step ok s u

namespace Reaches

variable {step : σ → α → Option σ} {ok ok' : σ → α → Prop} {s t u : σ}

theorem trans (h : Reaches step ok s t) (h' : Reaches step ok t u) : Reaches step ok s u := by
  induction h' with
  | refl => exact h
  | tail _ hok hstep ih => exact ih.tail hok hstep

theorem single {a : α} (hok : ok s a) (hstep : step s a = some t) : Reaches step ok s t :=
  refl.tail hok hstep

theorem mono (hle : ∀ s a, ok s a → ok' s a) (h : Reaches step ok s t) : Reaches step ok' s t := by
  induction h with
  | refl => exact refl
  | tail _ hok hstep ih => exact ih.tail (hle _ _ hok) hstep

/-- The invariant rule. -/
theorem invariant {I : σ → Prop} (hI : ∀ {t u a}, I t → ok t a → step t a = some u → I u)
    (h : Reaches step ok s t) (hs : I s) : I t := by
  induction h with
  | refl => exact hs
  | tail _ hok hstep ih => exact hI ih hok hstep

/-- The progress rule: a goal that can be brought nearer from wherever it does not hold is
reached. -/
theorem progress {I goal : σ → Prop} (μ : σ → ℕ)
    (hstep : ∀ s, I s → ¬ goal s → ∃ t, Reaches step ok s t ∧ I t ∧ μ t < μ s) (hs : I s) :
    ∃ t, Reaches step ok s t ∧ I t ∧ goal t := by
  induction hn : μ s using Nat.strong_induction_on generalizing s with
  | _ n ih =>
    by_cases hgoal : goal s
    · exact ⟨s, .refl, hs, hgoal⟩
    · obtain ⟨t, hst, ht, hlt⟩ := hstep s hs hgoal
      obtain ⟨u, htu, hu, hgoal⟩ := ih (μ t) (hn ▸ hlt) ht rfl
      exact ⟨u, hst.trans htu, hu, hgoal⟩

end Reaches

/-- Replays a list of actions; `none` when one of them is not enabled. -/
def run (step : σ → α → Option σ) : σ → List α → Option σ
  | s, [] => some s
  | s, a :: as => (step s a).bind fun t => run step t as

variable {step : σ → α → Option σ}

@[simp] theorem run_nil (s : σ) : run step s [] = some s := rfl

theorem run_cons_eq_some {s u : σ} {a : α} {as : List α} :
    run step s (a :: as) = some u ↔ ∃ t, step s a = some t ∧ run step t as = some u := by
  simp [run, Option.bind_eq_some_iff]

theorem run_append (s : σ) (as bs : List α) :
    run step s (as ++ bs) = (run step s as).bind fun t => run step t bs := by
  induction as generalizing s with
  | nil => simp
  | cons a as ih => cases h : step s a <;> simp [run, h, ih]

/-- A replayed schedule whose steps meet the condition is a guarded run. -/
theorem reaches_of_run {ok : σ → α → Prop} {as : List α} {s t : σ}
    (hok : ∀ s, ∀ a ∈ as, ok s a) (h : run step s as = some t) : Reaches step ok s t := by
  induction as generalizing s with
  | nil => cases h; exact .refl
  | cons a as ih =>
    obtain ⟨u, hu, hrun⟩ := run_cons_eq_some.mp h
    exact (Reaches.single (hok s a (by simp)) hu).trans
      (ih (fun s b hb => hok s b (by simp [hb])) hrun)

/-- A state with a decided property is reached when replaying a schedule finds it. -/
theorem exists_reaches_of_run (step : σ → α → Option σ) (s : σ) (as : List α) (p : σ → Bool)
    (h : (run step s as).map p = some true) :
    ∃ t, Reaches step (fun _ _ => True) s t ∧ p t = true := by
  obtain ⟨t, hrun, ht⟩ := Option.map_eq_some_iff.mp h
  exact ⟨t, reaches_of_run (fun _ _ _ => trivial) hrun, ht⟩

/-- The steps that pass a decided check. -/
def checked (step : σ → α → Option σ) (check : σ → α → Bool) (s : σ) (a : α) : Option σ :=
  if check s a then step s a else none

/-- The same for guarded runs, with a decided check that implies the guard. -/
theorem exists_reachesIf_of_run (step : σ → α → Option σ) {ok : σ → α → Prop} (s : σ)
    (as : List α) (check : σ → α → Bool) (p : σ → Bool) (hcheck : ∀ s a, check s a → ok s a)
    (h : (run (checked step check) s as).map p = some true) :
    ∃ t, Reaches step ok s t ∧ p t = true := by
  obtain ⟨t, hrun, ht⟩ := Option.map_eq_some_iff.mp h
  refine ⟨t, ?_, ht⟩
  clear h ht
  induction as generalizing s with
  | nil => cases hrun; exact .refl
  | cons a as ih =>
    obtain ⟨u, hu, hrest⟩ := run_cons_eq_some.mp hrun
    obtain ⟨hc, hstep⟩ := Option.ite_none_right_eq_some.mp hu
    exact (Reaches.single (hcheck s a hc) hstep).trans (ih u hrest)

/-- The counting rule, under an invariant of the run. -/
theorem run_weight {I : σ → Prop} {f : σ → ℕ} {w : α → ℕ}
    (hI : ∀ {s t a}, I s → step s a = some t → I t)
    (hf : ∀ {s t a}, I s → step s a = some t → f t = f s + w a)
    {as : List α} {s t : σ} (hs : I s) (h : run step s as = some t) :
    f t = f s + (as.map w).sum := by
  induction as generalizing s with
  | nil => cases h; simp
  | cons a as ih =>
    obtain ⟨u, hu, hrun⟩ := run_cons_eq_some.mp h
    rw [ih (hI hs hu) hrun, hf hs hu, List.map_cons, List.sum_cons, Nat.add_assoc]

/-- The counting rule for actions that count once or not at all. -/
theorem run_countP {f : σ → ℕ} {q : α → Bool}
    (hf : ∀ {s t a}, step s a = some t → f t = f s + if q a then 1 else 0)
    {as : List α} {s t : σ} (h : run step s as = some t) : f t = f s + as.countP q := by
  have hsum : (as.map fun a => if q a then 1 else 0).sum = as.countP q := by
    clear h
    induction as with
    | nil => rfl
    | cons a as ih => rw [List.map_cons, List.sum_cons, List.countP_cons, ih, Nat.add_comm]
  have hrule : f t = f s + (as.map fun a => if q a then 1 else 0).sum :=
    run_weight (I := fun _ => True) (fun _ _ => trivial) (fun _ hstep => hf hstep) trivial h
  rw [hrule, hsum]

/-! ## Two runs in lockstep -/

variable {β : Type*}

/-- What the steps of a replayed schedule show; `none` when one of them is not enabled. -/
def observations (step : σ → α → Option σ) (observe : σ → α → σ → β) :
    σ → List α → Option (List β)
  | _, [] => some []
  | s, a :: as =>
    (step s a).bind fun t => (observations step observe t as).map fun os => observe s a t :: os

/-- The rule for two runs whose actions meet `ok`. -/
theorem observations_eq {observe : σ → α → σ → β} {R : σ → σ → Prop} {ok : α → Prop}
    (hR : ∀ {s t a}, R s t → ok a →
      Option.Rel (fun s' t' => R s' t' ∧ observe s a s' = observe t a t') (step s a) (step t a))
    {as : List α} {s t : σ} (hst : R s t) (hok : ∀ a ∈ as, ok a) :
    observations step observe s as = observations step observe t as := by
  induction as generalizing s t with
  | nil => rfl
  | cons a as ih =>
    have hrel := hR hst (hok a List.mem_cons_self)
    rw [observations, observations]
    cases hs : step s a with
    | none =>
      rw [hs] at hrel
      cases ht : step t a with
      | none => rfl
      | some t' => rw [ht] at hrel; cases hrel
    | some s' =>
      rw [hs] at hrel
      cases ht : step t a with
      | none => rw [ht] at hrel; cases hrel
      | some t' =>
        rw [ht] at hrel
        cases hrel with
        | some h =>
          rw [Option.bind_some, Option.bind_some, h.2,
            ih h.1 fun b hb => hok b (List.mem_cons_of_mem a hb)]

/-! ## Simulation by a specification -/

variable {τ : Type*}

/-- The runs of a specification that says what each action may lead to. -/
inductive Runs (spec : τ → α → τ → Prop) : τ → List α → τ → Prop
  | nil (t : τ) : Runs spec t [] t
  | cons {t u v : τ} {a : α} {as : List α} : spec t a u → Runs spec u as v →
      Runs spec t (a :: as) v

/-- The simulation rule: every run whose actions meet `ok` is one of the specification, with the
same actions. -/
theorem run_simulates {spec : τ → α → τ → Prop} {R : σ → τ → Prop} {ok : α → Prop}
    (hstep : ∀ {s s' t a}, R s t → ok a → step s a = some s' → ∃ t', spec t a t' ∧ R s' t')
    {as : List α} {s s' : σ} {t : τ} (hR : R s t) (hok : ∀ a ∈ as, ok a)
    (hrun : run step s as = some s') : ∃ t', Runs spec t as t' ∧ R s' t' := by
  induction as generalizing s t with
  | nil =>
    cases hrun
    exact ⟨t, .nil t, hR⟩
  | cons a as ih =>
    obtain ⟨u, hu, hrest⟩ := run_cons_eq_some.mp hrun
    obtain ⟨v, hspec, hv⟩ := hstep hR (hok a List.mem_cons_self) hu
    obtain ⟨t', hruns, ht'⟩ := ih hv (fun b hb => hok b (List.mem_cons_of_mem a hb)) hrest
    exact ⟨t', .cons hspec hruns, ht'⟩

end HyperRpc.Lib
