import Mathlib.Data.Nat.Bitwise

namespace Machine

-- Bit fields one behind the other, as a packed record has them: the low ones
-- first, each a width and a value.
section Fields

def pack : List (Nat × Nat) → Nat
  | [] => 0
  | (width, value) :: rest => value % 2 ^ width + 2 ^ width * pack rest

def field (low width n : Nat) : Nat := n / 2 ^ low % 2 ^ width

theorem field_lt (low width n : Nat) : field low width n < 2 ^ width :=
  Nat.mod_lt _ (Nat.two_pow_pos width)

theorem field_first (width value : Nat) (rest : List (Nat × Nat)) :
    field 0 width (pack ((width, value) :: rest)) = value % 2 ^ width := by
  rw [field, pack, Nat.pow_zero, Nat.div_one, Nat.add_mul_mod_self_left, Nat.mod_mod]

theorem field_later (low width first value : Nat) (rest : List (Nat × Nat)) (h : first ≤ low) :
    field low width (pack ((first, value) :: rest)) = field (low - first) width (pack rest) := by
  have hpow : 2 ^ low = 2 ^ first * 2 ^ (low - first) := by
    rw [← Nat.pow_add, Nat.add_sub_cancel' h]
  rw [field, field, pack, hpow, ← Nat.div_div_eq_div_mul,
    Nat.add_mul_div_left _ _ (Nat.two_pow_pos first),
    Nat.div_eq_of_lt (Nat.mod_lt _ (Nat.two_pow_pos first)), Nat.zero_add]

-- A field of a field.
theorem field_field (low width inner_low inner_width n : Nat)
    (h : inner_low + inner_width ≤ width) :
    field inner_low inner_width (field low width n) = field (low + inner_low) inner_width n := by
  have hsplit : 2 ^ width = 2 ^ inner_low * (2 ^ inner_width *
      2 ^ (width - inner_low - inner_width)) := by
    rw [← Nat.pow_add, ← Nat.pow_add]
    congr 1
    omega
  rw [field, field, field, Nat.pow_add, ← Nat.div_div_eq_div_mul, hsplit,
    Nat.mod_mul_right_div_self, Nat.mod_mul_right_mod]

theorem field_one_eq_one_iff (low n : Nat) : field low 1 n = 1 ↔ n.testBit low = true := by
  rw [field, Nat.testBit_eq_decide_div_mod_eq, decide_eq_true_iff, Nat.pow_one]

end Fields

end Machine
