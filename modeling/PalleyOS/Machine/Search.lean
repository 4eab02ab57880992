import Mathlib.Data.List.Basic

namespace Machine

section Search

variable {β : Type*}

-- A loop over `0 .. n` that stops at the first hit.
theorem findSome?_range_eq_some (f : Nat → Option β) (n : Nat) (b : β)
    (h : (List.range n).findSome? f = some b) :
    ∃ k < n, f k = some b ∧ ∀ j < k, f j = none := by
  induction n with
  | zero => simp at h
  | succ n ih =>
      rw [List.range_succ, List.findSome?_append, Option.or_eq_some_iff] at h
      rcases h with h | ⟨hnone, hlast⟩
      · obtain ⟨k, hk, hf, hbefore⟩ := ih h
        exact ⟨k, by omega, hf, hbefore⟩
      · refine ⟨n, by omega, by simpa using hlast, ?_⟩
        intro j hj
        exact List.findSome?_eq_none_iff.mp hnone j (List.mem_range.mpr hj)

theorem findSome?_range_eq_none (f : Nat → Option β) (n : Nat)
    (h : (List.range n).findSome? f = none) (k : Nat) (hk : k < n) : f k = none :=
  List.findSome?_eq_none_iff.mp h k (List.mem_range.mpr hk)

theorem findSome?_ite_eq_find? {α : Type*} (p : β → Bool) (f : α → β) (l : List α) :
    (l.findSome? fun x => if p (f x) then none else some (f x)) =
      (l.map f).find? (fun y => !p y) := by
  induction l with
  | nil => rfl
  | cons x rest ih =>
      rw [List.findSome?_cons, List.map_cons, List.find?_cons, ← ih]
      cases p (f x) <;> rfl

-- The same for a loop that tests a condition.
variable (p : Nat → Prop) [DecidablePred p] (g : Nat → β)

theorem findSome?_range_ite_eq_some (n : Nat) (b : β)
    (h : ((List.range n).findSome? fun k => if p k then some (g k) else none) = some b) :
    ∃ k < n, b = g k ∧ p k ∧ ∀ j < k, ¬p j := by
  obtain ⟨k, hk, hfound, hbefore⟩ := findSome?_range_eq_some _ n b h
  split at hfound
  · rename_i hp
    refine ⟨k, hk, (Option.some.inj hfound).symm, hp, fun j hj hearly => ?_⟩
    have hnone := hbefore j hj
    rw [if_pos hearly] at hnone
    cases hnone
  · cases hfound

theorem findSome?_range_ite_eq_none (n : Nat)
    (h : ((List.range n).findSome? fun k => if p k then some (g k) else none) = none) :
    ∀ k < n, ¬p k := by
  intro k hk hp
  have hnone := findSome?_range_eq_none _ n h k hk
  rw [if_pos hp] at hnone
  cases hnone

end Search

end Machine
