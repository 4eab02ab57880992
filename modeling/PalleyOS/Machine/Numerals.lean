import PalleyOS.Machine.Strings
import Mathlib.Data.Nat.Digits.Lemmas

namespace Machine

-- What a numeral says, for bases up to 16 and lower case letters.
section Decoding

def digitValue (byte : UInt8) : Option Nat :=
  if 48 ≤ byte.toNat ∧ byte.toNat ≤ 57 then some (byte.toNat - 48)
  else if 97 ≤ byte.toNat ∧ byte.toNat ≤ 102 then some (byte.toNat - 87)
  else none

def decodeDigit (base value : Nat) (byte : UInt8) : Option Nat :=
  (digitValue byte).bind fun d => if d < base then some (value * base + d) else none

def decodeDigits (base : Nat) : Nat → List UInt8 → Option Nat
  | value, [] => some value
  | value, byte :: rest =>
      (decodeDigit base value byte).bind fun value => decodeDigits base value rest

def decode (base : Nat) (bytes : List UInt8) : Option Nat :=
  if bytes = [] then none else decodeDigits base 0 bytes

def decodeSigned (base : Nat) (bytes : List UInt8) : Option Int :=
  if bytes.head? = some 45 then (decode base bytes.tail).map fun value => -Int.ofNat value
  else (decode base bytes).map Int.ofNat

-- The digits without the sign.
def magnitude (bytes : List UInt8) : List UInt8 :=
  if bytes.head? = some 45 then bytes.tail else bytes

-- The numeral denotes the value, without digits that could be left out.
structure ExactNumeral (base : Nat) (value : Int) (bytes : List UInt8) : Prop where
  decodes : decodeSigned base bytes = some value
  canonical : (magnitude bytes).head? = some 48 → value = 0 ∧ bytes = [48]

theorem digitValue_digitByte : ∀ d < 16, digitValue (digitByte d) = some d := by decide

theorem digitByte_ne_minus : ∀ d < 16, digitByte d ≠ 45 := by decide

theorem digitByte_eq_zero : ∀ d < 16, digitByte d = 48 → d = 0 := by decide

theorem decodeDigits_append (base value : Nat) (first rest : List UInt8) :
    decodeDigits base value (first ++ rest) =
      (decodeDigits base value first).bind fun value => decodeDigits base value rest := by
  induction first generalizing value with
  | nil => rfl
  | cons byte first ih =>
      rw [List.cons_append, decodeDigits, decodeDigits]
      cases decodeDigit base value byte with
      | none => rfl
      | some next => exact ih next

theorem decodeDigits_reverse (base : Nat) (hbase : base ≤ 16) (digits : List Nat)
    (hdigits : ∀ d ∈ digits, d < base) :
    decodeDigits base 0 (digits.reverse.map digitByte) = some (Nat.ofDigits base digits) := by
  induction digits with
  | nil => rfl
  | cons d digits ih =>
      obtain ⟨hd, hrest⟩ := List.forall_mem_cons.mp hdigits
      rw [List.reverse_cons, List.map_append, decodeDigits_append, ih hrest, Option.bind_some,
        List.map_singleton, decodeDigits, decodeDigit, digitValue_digitByte d (by omega),
        Option.bind_some, if_pos hd, Option.bind_some, decodeDigits, Nat.ofDigits_cons,
        Nat.mul_comm, Nat.add_comm]

theorem digitList_ne_nil (base n : Nat) : digitList base n ≠ [] := by
  unfold digitList
  split
  · exact List.cons_ne_nil _ _
  · exact Nat.digits_ne_nil_iff_ne_zero.mpr ‹_›

theorem digitList_lt (base n : Nat) (hbase : 1 < base) (d : Nat) (hd : d ∈ digitList base n) :
    d < base := by
  unfold digitList at hd
  split at hd
  · rw [List.mem_singleton.mp hd]
    omega
  · exact Nat.digits_lt_base hbase hd

theorem ofDigits_digitList (base n : Nat) : Nat.ofDigits base (digitList base n) = n := by
  unfold digitList
  split
  · rename_i hn
    rw [Nat.ofDigits_singleton, hn]
  · exact Nat.ofDigits_digits base n

theorem numeral_ne_nil (base n : Nat) : numeral base n ≠ [] := by
  simpa [numeral] using digitList_ne_nil base n

theorem numeral_length_le (base n width : Nat) (hbase : 1 < base) (hwidth : 0 < width)
    (hn : n < base ^ width) : (numeral base n).length ≤ width := by
  rw [numeral, List.length_map, List.length_reverse]
  unfold digitList
  split
  · exact hwidth
  · exact (Nat.digits_length_le_iff hbase n).mpr hn

theorem numeral_mem (base n : Nat) (hbase : 1 < base) (byte : UInt8) (h : byte ∈ numeral base n) :
    ∃ d < base, digitByte d = byte := by
  obtain ⟨d, hd, rfl⟩ := List.mem_map.mp h
  exact ⟨d, digitList_lt base n hbase d (List.mem_reverse.mp hd), rfl⟩

theorem decode_numeral (base n : Nat) (hbase : 1 < base) (hsmall : base ≤ 16) :
    decode base (numeral base n) = some n := by
  rw [decode, if_neg (numeral_ne_nil base n), numeral,
    decodeDigits_reverse base hsmall _ (digitList_lt base n hbase), ofDigits_digitList]

theorem numeral_leading_zero (base n : Nat) (hbase : 1 < base) (hsmall : base ≤ 16)
    (h : (numeral base n).head? = some 48) : n = 0 := by
  by_contra hn
  have hlist : digitList base n = Nat.digits base n := if_neg hn
  have hne : Nat.digits base n ≠ [] := Nat.digits_ne_nil_iff_ne_zero.mpr hn
  rw [numeral, hlist, List.head?_map, List.head?_reverse, List.getLast?_eq_some_getLast hne,
    Option.map_some] at h
  have hlast := Nat.digits_lt_base hbase (List.getLast_mem hne)
  exact Nat.getLast_digit_ne_zero base hn (digitByte_eq_zero _ (by omega) (Option.some.inj h))

theorem numeral_zero (base : Nat) : numeral base 0 = [48] := rfl

-- A numeral has no sign of its own.
theorem numeral_head (base n : Nat) (hbase : 1 < base) (hsmall : base ≤ 16) :
    (numeral base n).head? ≠ some 45 := by
  intro hsign
  obtain ⟨d, hd, hdigit⟩ := numeral_mem base n hbase 45 (List.mem_of_head? hsign)
  exact digitByte_ne_minus d (by omega) hdigit

theorem exactNumeral_numeral (base n : Nat) (hbase : 1 < base) (hsmall : base ≤ 16) :
    ExactNumeral base n (numeral base n) := by
  have hsign := numeral_head base n hbase hsmall
  refine ⟨?_, fun hzero => ?_⟩
  · rw [decodeSigned, if_neg hsign, decode_numeral base n hbase hsmall]
    rfl
  · rw [magnitude, if_neg hsign] at hzero
    rw [numeral_leading_zero base n hbase hsmall hzero]
    exact ⟨rfl, numeral_zero base⟩

theorem exactNumeral_minus (base n : Nat) (hbase : 1 < base) (hsmall : base ≤ 16) (hn : n ≠ 0) :
    ExactNumeral base (-(n : Int)) (45 :: numeral base n) := by
  have hsign : (45 :: numeral base n).head? = some 45 := rfl
  refine ⟨?_, fun hzero => ?_⟩
  · rw [decodeSigned, if_pos hsign, List.tail_cons, decode_numeral base n hbase hsmall]
    rfl
  · rw [magnitude, if_pos hsign] at hzero
    exact absurd (numeral_leading_zero base n hbase hsmall hzero) hn

end Decoding

end Machine
