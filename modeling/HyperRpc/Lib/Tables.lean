import HyperRpc.Lib.Refinement
import Mathlib.Data.List.Nodup

/-!
# Tables, and assignments to variables

A table is a list of entries with keys: the cases of a switch, the functions of a class. The
first entry with a key is taken. When the keys are distinct, every entry is found under its own,
and when a counting loop has made the table, with the counter as the key, the entry of a number
is what the loop has made of the element of that number.
-/
namespace HyperRpc.Lib

variable {α β κ ν γ ε : Type*}

/-- The first entry with a key. -/
def lookup [DecidableEq κ] (key : α → κ) (entries : List α) (k : κ) : Option α :=
  entries.find? fun a => key a = k

section Lookup

variable [DecidableEq κ] {key : α → κ} {entries : List α} {k : κ} {a : α}

theorem lookup_eq_some (h : lookup key entries k = some a) : a ∈ entries ∧ key a = k := by
  unfold lookup at h
  exact ⟨List.mem_of_find?_eq_some h, by simpa using List.find?_some h⟩

theorem lookup_of_mem (hnodup : (entries.map key).Nodup) (ha : a ∈ entries) :
    lookup key entries (key a) = some a := by
  cases hfind : lookup key entries (key a) with
  | none =>
    have hall := List.find?_eq_none.mp hfind a ha
    exact absurd (decide_eq_true rfl) hall
  | some b =>
    obtain ⟨hb, hkey⟩ := lookup_eq_some hfind
    rw [List.inj_on_of_nodup_map hnodup hb ha hkey]

end Lookup

/-- A switch over the cases that a counting loop has printed. -/
theorem lookup_mapIdx {key : β → ℕ} {f : ℕ → α → β} (hkey : ∀ i a, key (f i a) = i)
    (as : List α) (i : ℕ) : lookup key (as.mapIdx f) i = as[i]?.map (f i) := by
  cases hget : as[i]? with
  | some a =>
    have hkeys : (as.mapIdx f).map key = List.range as.length := by
      apply List.ext_getElem
      · simp
      · intro j hj hj'
        simp [hkey]
    have hmem : f i a ∈ as.mapIdx f := by
      apply List.mem_of_getElem? (i := i)
      rw [List.getElem?_mapIdx, hget, Option.map_some]
    have hfound := lookup_of_mem (hkeys ▸ List.nodup_range) hmem
    rwa [hkey] at hfound
  | none =>
    cases hfind : lookup key (as.mapIdx f) i with
    | none => rfl
    | some b =>
      obtain ⟨hb, hbi⟩ := lookup_eq_some hfind
      obtain ⟨j, hj, rfl⟩ := List.mem_mapIdx.mp hb
      rw [hkey] at hbi
      subst hbi
      rw [List.getElem?_eq_getElem hj] at hget
      cases hget

/-- The assignment of the value of an expression to a variable. -/
def assign [DecidableEq ν] (f : γ → Except ε β) (vars : ν → β) (a : ν × γ) :
    Except ε (ν → β) :=
  (f a.2).map (Function.update vars a.1)

/-- Assignments to distinct variables leave in each of them the value of its expression. -/
theorem exec_assign [DecidableEq ν] {f : γ → Except ε β} {as : List (ν × γ)}
    (hnodup : (as.map Prod.fst).Nodup) (hf : ∀ a ∈ as, ∃ b, f a.2 = .ok b)
    (vars : ν → β) : ∃ vars', exec (assign f) vars as = .ok vars' ∧
      (∀ a ∈ as, f a.2 = .ok (vars' a.1)) ∧ ∀ x ∉ as.map Prod.fst, vars' x = vars x := by
  induction as generalizing vars with
  | nil => exact ⟨vars, rfl, by simp, fun _ _ => rfl⟩
  | cons a as ih =>
    obtain ⟨hfresh, hnodup⟩ := List.nodup_cons.mp hnodup
    obtain ⟨b, hb⟩ := hf a List.mem_cons_self
    obtain ⟨vars', hexec, hset, hkept⟩ := ih hnodup
      (fun a' ha' => hf a' (List.mem_cons_of_mem a ha')) (Function.update vars a.1 b)
    refine ⟨vars', ?_, ?_, ?_⟩
    · have hassign : assign f vars a = .ok (Function.update vars a.1 b) := by
        rw [assign, hb]
        rfl
      rw [exec, hassign]
      exact hexec
    · intro a' ha'
      rcases List.mem_cons.mp ha' with rfl | ha'
      · rw [hkept _ hfresh, Function.update_self, hb]
      · exact hset a' ha'
    · intro x hx
      rw [List.map_cons, List.mem_cons, not_or] at hx
      rw [hkept x hx.2, Function.update_of_ne hx.1]

end HyperRpc.Lib
