import Mathlib.Data.List.Basic
import Mathlib.Logic.Function.Basic

namespace Machine

section Ring

variable {α : Type*}

-- The items of `sent` from number `taken` on are still in a ring of `capacity`
-- cells, item `k` in cell `k % capacity`.
def RingHolds (capacity : Nat) (cells : Nat → α) (sent : List α) (taken : Nat) : Prop :=
  ∀ k (hk : k < sent.length), taken ≤ k → cells (k % capacity) = sent[k]

-- Two positions less than `capacity` apart lie in different cells.
theorem cell_ne_of_lt (capacity first second : Nat) (hlt : first < second)
    (hnear : second < first + capacity) : first % capacity ≠ second % capacity := by
  intro he
  have hz := Nat.sub_mod_eq_zero_of_mod_eq he.symm
  rw [Nat.mod_eq_of_lt (by omega)] at hz
  omega

theorem cell_ne_iff (capacity first second : Nat) (hle : first ≤ second)
    (hnear : second < first + capacity) :
    first % capacity ≠ second % capacity ↔ first < second := by
  constructor
  · intro hne
    exact Nat.lt_of_le_of_ne hle (fun he => hne (congrArg (· % capacity) he))
  · intro hlt
    exact cell_ne_of_lt capacity first second hlt hnear

-- Fewer than `capacity` items are outstanding, so the cell of the next one is free.
theorem RingHolds.push {capacity : Nat} {cells : Nat → α} {sent : List α} {taken : Nat}
    (h : RingHolds capacity cells sent taken) (item : α)
    (hroom : sent.length < taken + capacity) :
    RingHolds capacity (Function.update cells (sent.length % capacity) item)
      (sent ++ [item]) taken := by
  intro k hk hle
  rw [List.length_append, List.length_singleton] at hk
  by_cases hlast : k = sent.length
  · subst k
    simp
  · have hlt : k < sent.length := by omega
    rw [Function.update_of_ne (cell_ne_of_lt capacity k sent.length hlt (by omega)),
      List.getElem_append_left hlt]
    exact h k hlt hle

theorem RingHolds.pop {capacity : Nat} {cells : Nat → α} {sent : List α} {taken : Nat}
    (h : RingHolds capacity cells sent taken) : RingHolds capacity cells sent (taken + 1) :=
  fun k hk hle => h k hk (by omega)

-- Reading the cell after the items read so far continues the prefix.
theorem RingHolds.read_prefix {capacity : Nat} {cells : Nat → α} {sent taken : List α}
    (h : RingHolds capacity cells sent taken.length) (htaken : taken <+: sent)
    (hlt : taken.length < sent.length) :
    taken ++ [cells (taken.length % capacity)] <+: sent := by
  have he : taken ++ [sent[taken.length]] = sent.take (taken.length + 1) := by
    rw [List.take_succ_eq_append_getElem hlt, ← List.prefix_iff_eq_take.mp htaken]
  rw [h taken.length hlt (Nat.le_refl _), he]
  exact List.take_prefix _ _

end Ring

end Machine
