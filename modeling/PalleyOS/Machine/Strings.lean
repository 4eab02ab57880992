import PalleyOS.Machine.Memory
import Mathlib.Data.List.Lex
import Mathlib.Data.Nat.Digits.Defs

namespace Machine

-- Strings of bytes in memory.
section Strings

def HoldsBytes (m : Memory) (a : Nat) (bytes : List UInt8) : Prop :=
  ∀ i (hi : i < bytes.length), load8 m (a + i) = bytes[i].toNat

structure HoldsString (m : Memory) (a : Nat) (bytes : List UInt8) : Prop where
  holds : HoldsBytes m a bytes
  terminated : load8 m (a + bytes.length) = 0
  no_nul : ∀ byte ∈ bytes, byte ≠ 0

theorem HoldsBytes.nil (m : Memory) (a : Nat) : HoldsBytes m a [] :=
  fun i hi => absurd hi (Nat.not_lt_zero i)

theorem HoldsBytes.snoc {m : Memory} {a : Nat} {bytes : List UInt8} (h : HoldsBytes m a bytes)
    (byte : UInt8) (hbyte : load8 m (a + bytes.length) = byte.toNat) :
    HoldsBytes m a (bytes ++ [byte]) := by
  intro i hi
  rw [List.length_append, List.length_singleton] at hi
  by_cases hlast : i = bytes.length
  · subst i
    simpa using hbyte
  · rw [List.getElem_append_left (by omega)]
    exact h i (by omega)

theorem HoldsBytes.congr {m m' : Memory} {a : Nat} {bytes : List UInt8}
    (h : HoldsBytes m a bytes)
    (hsame : ∀ i < bytes.length, load8 m' (a + i) = load8 m (a + i)) : HoldsBytes m' a bytes :=
  fun i hi => (hsame i hi).trans (h i hi)

theorem HoldsString.congr {m m' : Memory} {a : Nat} {bytes : List UInt8}
    (h : HoldsString m a bytes)
    (hsame : ∀ i ≤ bytes.length, load8 m' (a + i) = load8 m (a + i)) : HoldsString m' a bytes :=
  ⟨h.holds.congr (fun i hi => hsame i (Nat.le_of_lt hi)),
    (hsame bytes.length (Nat.le_refl _)).trans h.terminated, h.no_nul⟩

theorem HoldsString.tail {m : Memory} {a : Nat} {byte : UInt8} {bytes : List UInt8}
    (h : HoldsString m a (byte :: bytes)) : HoldsString m (a + 1) bytes := by
  refine ⟨fun i hi => ?_, ?_, fun other hother => h.no_nul other (List.mem_cons_of_mem _ hother)⟩
  · have hnext := h.holds (i + 1) (Nat.succ_lt_succ hi)
    rw [Nat.add_assoc, Nat.add_comm 1 i]
    exact hnext
  · have hend := h.terminated
    rw [List.length_cons] at hend
    rw [Nat.add_assoc, Nat.add_comm 1]
    exact hend

theorem HoldsString.head {m : Memory} {a : Nat} {byte : UInt8} {bytes : List UInt8}
    (h : HoldsString m a (byte :: bytes)) : load8 m a = byte.toNat ∧ byte.toNat ≠ 0 := by
  refine ⟨h.holds 0 (Nat.succ_pos _), fun hzero => ?_⟩
  exact h.no_nul byte (List.mem_cons_self ..) (UInt8.toNat_inj.mp hzero)

-- A string ends before it meets its own start again.
theorem HoldsString.length_lt {m : Memory} {a : Nat} {bytes : List UInt8}
    (h : HoldsString m a bytes) : bytes.length < 4294967296 := by
  by_contra hlong
  have hinside : bytes.length - 4294967296 < bytes.length := by omega
  have hbyte := h.holds (bytes.length - 4294967296) hinside
  have hsame := load8_mod m (a + (bytes.length - 4294967296)) (a + bytes.length) (by omega)
  rw [hsame, h.terminated] at hbyte
  exact h.no_nul _ (List.getElem_mem hinside) (UInt8.toNat_inj.mp hbyte.symm)

end Strings

-- Strings in the order of a dictionary.
section Order

variable {α : Type*} [LinearOrder α]

-- Lists that part at some position are ordered by what stands there.
theorem append_cons_lt_iff (same : List α) (a b : α) (rest rest' : List α) (hne : a ≠ b) :
    same ++ a :: rest < same ++ b :: rest' ↔ a < b := by
  induction same with
  | nil =>
      rw [List.nil_append, List.nil_append, List.cons_lt_cons_iff]
      exact or_iff_left (fun hsame => hne hsame.1)
  | cons c same ih =>
      rw [List.cons_append, List.cons_append, List.cons_lt_cons_self]
      exact ih

end Order

-- Numerals by their digits, the least significant first.
section Numerals

def digitList (base n : Nat) : List Nat := if n = 0 then [0] else Nat.digits base n

theorem digitList_eq (base n : Nat) (hbase : 1 < base) :
    digitList base n =
      n % base :: if n / base = 0 then [] else digitList base (n / base) := by
  unfold digitList
  by_cases hn : n = 0
  · subst n
    simp
  · rw [if_neg hn, Nat.digits_def' hbase (Nat.pos_of_ne_zero hn)]
    by_cases hq : n / base = 0
    · rw [if_pos hq, hq, Nat.digits_zero]
    · rw [if_neg hq, if_neg hq]

def digitByte (d : Nat) : UInt8 := UInt8.ofNat (if d < 10 then 48 + d else 87 + d)

def numeral (base n : Nat) : List UInt8 := (digitList base n).reverse.map digitByte

end Numerals

end Machine
