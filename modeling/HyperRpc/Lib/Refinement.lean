import HyperRpc.Lib.Transition

/-!
# Programs of operations that may fail, and what they refine

`exec` runs a program of operations, each of which gives a state or an error. It is compared
with a partial step function on abstract states, which says when an operation may be used and
what it is for. The simulation rule carries a relation between the two levels over a program:
either the program runs through, or it fails where the abstract run, up to there, accounts for
the failure. Where both levels fail together, `exec_agrees` compares them in both directions.
-/
namespace HyperRpc.Lib

universe u

@[simp] theorem ok_bind {ε : Type*} {β γ : Type u} (b : β) (f : β → Except ε γ) :
    (Except.ok b >>= f) = f b := rfl

theorem bind_eq_ok {ε : Type*} {β γ : Type u} {r : Except ε β} {f : β → Except ε γ} {c : γ} :
    (r >>= f) = .ok c ↔ ∃ b, r = .ok b ∧ f b = .ok c := by
  cases r with
  | error e => exact ⟨nofun, nofun⟩
  | ok b => simp

theorem toOption_eq_some {ε β : Type*} {r : Except ε β} {b : β} :
    r.toOption = some b ↔ r = .ok b := by
  cases r <;> simp [Except.toOption]

/-! ## Results that are as expected -/

section

variable {ε : Type*} {β γ : Type u} {e : ε}

/-- A value with a property, or the one error that is expected. -/
def Safe (e : ε) (P : β → Prop) (r : Except ε β) : Prop := (∃ b, r = .ok b ∧ P b) ∨ r = .error e

theorem Safe.ok {P : β → Prop} {b : β} (hb : P b) : Safe e P (.ok b) := .inl ⟨b, rfl, hb⟩

theorem Safe.error {P : β → Prop} : Safe e P (.error e : Except ε β) := .inr rfl

theorem Safe.of_ok {P : β → Prop} {b : β} (h : Safe e P (.ok b)) : P b := by
  rcases h with ⟨b', hb, hP⟩ | h
  · cases hb
    exact hP
  · cases h

theorem Safe.imp {P Q : β → Prop} {r : Except ε β} (h : Safe e P r) (hPQ : ∀ b, P b → Q b) :
    Safe e Q r := h.imp_left fun ⟨b, hb, hP⟩ => ⟨b, hb, hPQ b hP⟩

theorem Safe.bind {P : β → Prop} {Q : γ → Prop} {r : Except ε β} {f : β → Except ε γ}
    (hr : Safe e P r) (hf : ∀ b, P b → Safe e Q (f b)) : Safe e Q (r >>= f) := by
  rcases hr with ⟨b, rfl, hb⟩ | rfl
  · exact hf b hb
  · exact .error

end

variable {σ τ α ε : Type*}

/-- Stops at the first operation that fails. -/
def exec (step : σ → α → Except ε σ) : σ → List α → Except ε σ
  | s, [] => .ok s
  | s, a :: as => (step s a).bind fun t => exec step t as

variable {step : σ → α → Except ε σ} {spec : τ → α → Option τ} {R : σ → τ → Prop}
  {fails : ε → τ → Prop} {ok : α → Prop}

/-- What holds at first and is kept by every operation that succeeds. -/
theorem exec_invariant {I : σ → Prop} (hI : ∀ {s a t}, I s → step s a = .ok t → I t)
    {as : List α} {s t : σ} (hs : I s) (hexec : exec step s as = .ok t) : I t := by
  induction as generalizing s with
  | nil =>
    cases hexec
    exact hs
  | cons a as ih =>
    unfold exec at hexec
    cases hstep : step s a with
    | error e =>
      rw [hstep] at hexec
      cases hexec
    | ok s' =>
      rw [hstep] at hexec
      exact ih (hI hs hstep) hexec

/-- Where every operation is safe for an invariant, so is a program. -/
theorem exec_safe {I : σ → Prop} {e : ε} (hstep : ∀ {s a}, I s → Safe e I (step s a)) {s : σ}
    (hs : I s) (as : List α) : Safe e I (exec step s as) := by
  induction as generalizing s with
  | nil => exact .ok hs
  | cons a as ih =>
    rw [exec]
    rcases hstep (a := a) hs with ⟨t, ht, hI⟩ | he
    · rw [ht]
      exact ih hI
    · rw [he]
      exact .error

/-- The simulation rule, for programs of operations that meet `ok`. -/
theorem exec_refines
    (hstep : ∀ {s t t' a}, R s t → ok a → spec t a = some t' →
      (∃ s', step s a = .ok s' ∧ R s' t') ∨ ∃ e, step s a = .error e ∧ fails e t')
    {as : List α} {s : σ} {t t' : τ} (hR : R s t) (hok : ∀ a ∈ as, ok a)
    (hrun : run spec t as = some t') :
    (∃ s', exec step s as = .ok s' ∧ R s' t') ∨
      ∃ e, exec step s as = .error e ∧
        ∃ pre u, pre <+: as ∧ run spec t pre = some u ∧ fails e u := by
  induction as generalizing s t with
  | nil =>
    cases hrun
    exact .inl ⟨s, rfl, hR⟩
  | cons a as ih =>
    obtain ⟨u, hu, hrest⟩ := run_cons_eq_some.mp hrun
    rcases hstep hR (hok a List.mem_cons_self) hu with ⟨s', hs', hR'⟩ | ⟨e, he, hfails⟩
    · have hexec : exec step s (a :: as) = exec step s' as := by rw [exec, hs']; rfl
      rw [hexec]
      rcases ih hR' (fun b hb => hok b (List.mem_cons_of_mem a hb)) hrest with
        hdone | ⟨e, he, pre, v, hpre, hv, hfails⟩
      · exact .inl hdone
      · exact .inr ⟨e, he, a :: pre, v, List.cons_prefix_cons.mpr ⟨rfl, hpre⟩,
          run_cons_eq_some.mpr ⟨u, hu, hv⟩, hfails⟩
    · exact .inr ⟨e, by rw [exec, he]; rfl, [a], u, List.cons_prefix_cons.mpr ⟨rfl, by simp⟩,
        run_cons_eq_some.mpr ⟨u, hu, run_nil u⟩, hfails⟩

/-- The rule for two levels that agree on what is enabled. -/
theorem exec_agrees {e : ε}
    (hstep : ∀ {s t a}, R s t → ok a →
      (∃ s' t', step s a = .ok s' ∧ spec t a = some t' ∧ R s' t') ∨
        step s a = .error e ∧ spec t a = none)
    {as : List α} {s : σ} {t : τ} (hR : R s t) (hok : ∀ a ∈ as, ok a) :
    (∃ s' t', exec step s as = .ok s' ∧ run spec t as = some t' ∧ R s' t') ∨
      exec step s as = .error e ∧ run spec t as = none := by
  induction as generalizing s t with
  | nil => exact .inl ⟨s, t, rfl, rfl, hR⟩
  | cons a as ih =>
    rw [exec, run]
    rcases hstep hR (hok a List.mem_cons_self) with ⟨s', t', hs', ht', hR'⟩ | ⟨hs', ht'⟩
    · rw [hs', ht']
      exact ih hR' fun b hb => hok b (List.mem_cons_of_mem a hb)
    · rw [hs', ht']
      exact .inr ⟨rfl, rfl⟩

end HyperRpc.Lib
