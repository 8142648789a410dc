import Mathlib.Data.List.Nodup
import Mathlib.Data.List.Pairwise

/-!
# Names in nested scopes

A scope is a list of declarations. A name that is used is looked up from the innermost scope
outwards, and the first scope that declares it at all decides: what the scopes around it declare
under that name is hidden. In one scope a name may be declared again where the language can tell
the declarations apart.
-/
namespace HyperRpc.Lib

variable {ν δ : Type*} [DecidableEq ν]

/-- What a scope declares under a name. -/
def declared (scope : List (ν × δ)) (name : ν) : List δ :=
  (scope.filter fun d => d.1 = name).map Prod.snd

def resolve : List (List (ν × δ)) → ν → List δ
  | [], _ => []
  | scope :: outer, name =>
    match declared scope name with
    | [] => resolve outer name
    | found => found

/-- Declarations of one name can be told apart. -/
def Distinguishable (apart : δ → δ → Bool) (scope : List (ν × δ)) : Prop :=
  scope.Pairwise fun d d' => d.1 = d'.1 → apart d.2 d'.2 = true

instance (apart : δ → δ → Bool) (scope : List (ν × δ)) : Decidable (Distinguishable apart scope) :=
  inferInstanceAs (Decidable (scope.Pairwise _))

variable {scope : List (ν × δ)} {outer : List (List (ν × δ))} {name : ν} {d : δ}

@[simp] theorem mem_declared : d ∈ declared scope name ↔ (name, d) ∈ scope := by
  simp [declared]

theorem declared_eq_nil : declared scope name = [] ↔ ∀ d, (name, d) ∉ scope := by
  simp only [List.eq_nil_iff_forall_not_mem, mem_declared]

theorem declared_append (scope scope' : List (ν × δ)) (name : ν) :
    declared (scope ++ scope') name = declared scope name ++ declared scope' name := by
  simp [declared]

/-- A scope that declares the name hides the scopes around it. -/
theorem resolve_of_declared (h : (name, d) ∈ scope) :
    resolve (scope :: outer) name = declared scope name := by
  rw [resolve]
  split
  · next hnil => exact absurd h (declared_eq_nil.mp hnil d)
  · rfl

theorem resolve_of_undeclared (h : ∀ d, (name, d) ∉ scope) :
    resolve (scope :: outer) name = resolve outer name := by
  rw [resolve, declared_eq_nil.mpr h]

/-- A name that is declared once stands for that declaration. -/
theorem declared_of_nodup (hnodup : (scope.map Prod.fst).Nodup) (h : (name, d) ∈ scope) :
    declared scope name = [d] := by
  induction scope with
  | nil => cases h
  | cons e rest ih =>
    obtain ⟨hfresh, hnodup⟩ := List.nodup_cons.mp hnodup
    rcases List.mem_cons.mp h with rfl | h
    · have hnone : declared rest name = [] :=
        declared_eq_nil.mpr fun d' hd' => hfresh (List.mem_map.mpr ⟨_, hd', rfl⟩)
      rw [declared] at hnone ⊢
      rw [List.filter_cons_of_pos (by simp), List.map_cons, hnone]
    · have hne : e.1 ≠ name := fun heq => hfresh (List.mem_map.mpr ⟨_, h, heq.symm⟩)
      rw [declared, List.filter_cons_of_neg (by simpa using hne)]
      exact ih hnodup h

section Distinguishable

omit [DecidableEq ν]

variable {apart : δ → δ → Bool}

/-- A declaration that cannot be told apart from any other has its name to itself. -/
theorem distinguishable_cons_of_alone (h : ∀ d', apart d d' = false) :
    Distinguishable apart ((name, d) :: scope) ↔
      name ∉ scope.map Prod.fst ∧ Distinguishable apart scope := by
  rw [Distinguishable, List.pairwise_cons]
  refine and_congr ⟨fun hall hmem => ?_, fun hnot d' hd' heq => ?_⟩ Iff.rfl
  · obtain ⟨d', hd', heq⟩ := List.mem_map.mp hmem
    exact absurd ((h d'.2).symm.trans (hall d' hd' heq.symm)) (by decide)
  · exact absurd (List.mem_map.mpr ⟨d', hd', heq.symm⟩) hnot

theorem distinguishable_concat_of_alone (h : ∀ d', apart d' d = false) :
    Distinguishable apart (scope ++ [(name, d)]) ↔
      name ∉ scope.map Prod.fst ∧ Distinguishable apart scope := by
  rw [Distinguishable, List.pairwise_append, and_comm (a := scope.Pairwise _)]
  simp only [List.pairwise_singleton, true_and, List.mem_singleton, forall_eq]
  refine and_congr ⟨fun hall hmem => ?_, fun hnot d' hd' heq => ?_⟩ Iff.rfl
  · obtain ⟨d', hd', heq⟩ := List.mem_map.mp hmem
    exact absurd ((h d'.2).symm.trans (hall d' hd' heq)) (by decide)
  · exact absurd (List.mem_map.mpr ⟨d', hd', heq⟩) hnot

/-- Where no two declarations can be told apart, the names are distinct. -/
theorem distinguishable_iff_nodup (h : scope.Pairwise fun d d' => apart d.2 d'.2 = false) :
    Distinguishable apart scope ↔ (scope.map Prod.fst).Nodup := by
  rw [List.Nodup, List.pairwise_map]
  constructor
  · intro hdist
    refine (h.and hdist).imp ?_
    rintro d d' ⟨hfalse, hapart⟩ heq
    exact absurd (hfalse.symm.trans (hapart heq)) (by decide)
  · exact fun hne => hne.imp fun hne heq => absurd heq hne

end Distinguishable

end HyperRpc.Lib
