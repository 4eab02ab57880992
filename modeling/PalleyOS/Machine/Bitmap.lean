import Mathlib.Data.Nat.Bitwise
import Mathlib.Logic.Function.Basic

namespace Machine

section Words

theorem and_one_shiftLeft_ne_zero (word b : Nat) :
    word &&& 1 <<< b ≠ 0 ↔ word.testBit b = true := by
  rw [Nat.one_shiftLeft, Nat.and_two_pow]
  cases word.testBit b <;> simp

theorem testBit_or_one_shiftLeft (word b k : Nat) :
    (word ||| 1 <<< b).testBit k = (decide (k = b) || word.testBit k) := by
  rw [Nat.testBit_or, Nat.one_shiftLeft, Nat.testBit_two_pow, Bool.or_comm]
  simp only [eq_comm]

end Words

-- A bitmap packed into words of `width` bits: bit `n` lives in word `n / width`
-- at position `n % width`.
section Bitmap

def bitAt (width : Nat) (words : Nat → Nat) (n : Nat) : Bool :=
  (words (n / width)).testBit (n % width)

def setBitAt (width : Nat) (words : Nat → Nat) (n : Nat) : Nat → Nat :=
  Function.update words (n / width) (words (n / width) ||| 1 <<< (n % width))

theorem setBitAt_word (width : Nat) (words : Nat → Nat) (n word b : Nat) :
    (setBitAt width words n word).testBit b =
      (decide (word = n / width ∧ b = n % width) || (words word).testBit b) := by
  unfold setBitAt
  by_cases hw : word = n / width
  · subst hw
    rw [Function.update_self, testBit_or_one_shiftLeft]
    simp
  · rw [Function.update_of_ne hw]
    simp [hw]

theorem bitAt_setBitAt (width : Nat) (words : Nat → Nat) (n k : Nat) :
    bitAt width (setBitAt width words n) k = (decide (k = n) || bitAt width words k) := by
  unfold bitAt
  rw [setBitAt_word]
  have hk := Nat.div_add_mod k width
  have hn := Nat.div_add_mod n width
  have he : (k / width = n / width ∧ k % width = n % width) ↔ k = n := by
    constructor
    · rintro ⟨hd, hm⟩
      rw [← hk, ← hn, hd, hm]
    · rintro rfl
      exact ⟨rfl, rfl⟩
  simp only [he]

end Bitmap

end Machine
