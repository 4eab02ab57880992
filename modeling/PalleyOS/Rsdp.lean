import PalleyOS.Machine.Strings
import Mathlib.Algebra.BigOperators.Group.List.Basic
import Mathlib.Data.List.GetD

namespace PalleyOS.Rsdp

open Machine

-- A byte of memory, addresses wrap.
def byteAt (m : Memory) (a : Nat) : UInt8 := m (a % 4294967296)

section Source

-- The bytes of `struct RSDPDescriptor`, which is packed.
def sizeofRSDPDescriptor : Nat := 8 + 1 + 6 + 1 + 4

-- The characters of "RSD PTR ".
def signature : List UInt8 := [82, 83, 68, 32, 80, 84, 82, 32]

-- The loop over two blocks of memory, `num` bytes from the `i`-th on. The difference
-- is an `int` that is returned as a `size_t`.
def kmemcmp (ptr1 ptr2 : Nat → UInt8) : Nat → Nat → Nat
  | 0, _ => 0
  | num + 1, i =>
      let diff : Int := (ptr1 i).toNat - (ptr2 i).toNat
      if diff ≠ 0 then (diff % 4294967296).toNat else kmemcmp ptr1 ptr2 num (i + 1)

-- `sum += ((char*)rsdp)[i]`, where a `char` is signed and the sum is kept in 8 bits.
def sumFrom (m : Memory) (rsdp : Nat) : Nat → Nat → UInt8 → UInt8
  | 0, _, sum => sum
  | remaining + 1, i, sum =>
      sumFrom m rsdp remaining (i + 1)
        (UInt8.ofInt (sum.toNat + (byteAt m (rsdp + i)).toInt8.toInt))

def evalRSDPChecksum (m : Memory) (rsdp : Nat) : Bool :=
  sumFrom m rsdp sizeofRSDPDescriptor 0 0 = 0

-- The loop of `getRSDP`, `none` when it still runs after `rounds` rounds. `NULL` is 0.
def scanFrom (m : Memory) : Nat → Nat → Option Nat
  | 0, _ => none
  | rounds + 1, loc =>
      if loc ≤ 0x000FFFFF then
        if kmemcmp (fun i => signature.getD i 0) (fun i => byteAt m (loc + i)) 8 0 = 0 then
          if evalRSDPChecksum m loc = false then scanFrom m rounds ((loc + 16) % 4294967296)
          else some loc
        else scanFrom m rounds ((loc + 16) % 4294967296)
      else some 0

def getRSDP (rounds : Nat) (m : Memory) : Option Nat := scanFrom m rounds 0x000E0000

end Source

section Lemmas

theorem byte_difference (a b : UInt8) : (a.toNat : Int) - b.toNat = 0 ↔ a = b := by
  rw [Int.sub_eq_zero, Int.ofNat_inj, UInt8.toNat_inj]

-- A difference is not lost in the conversion.
theorem returned_difference (a b : UInt8) (h : (a.toNat : Int) - b.toNat ≠ 0) :
    (((a.toNat : Int) - b.toNat) % 4294967296).toNat ≠ 0 := by
  have ha := a.toNat_lt
  have hb := b.toNat_lt
  omega

theorem kmemcmp_eq_zero_iff (ptr1 ptr2 : Nat → UInt8) (num i : Nat) :
    kmemcmp ptr1 ptr2 num i = 0 ↔ ∀ k < num, ptr1 (i + k) = ptr2 (i + k) := by
  induction num generalizing i with
  | zero => exact iff_of_true rfl (fun k hk => absurd hk (Nat.not_lt_zero k))
  | succ num ih =>
      rw [kmemcmp]
      by_cases hdiff : ((ptr1 i).toNat : Int) - (ptr2 i).toNat = 0
      · simp only [hdiff, ne_eq, not_true_eq_false, if_false]
        rw [ih]
        have hfirst := (byte_difference _ _).mp hdiff
        constructor
        · intro h k hk
          cases k with
          | zero => exact hfirst
          | succ k =>
              have hnext := h k (by omega)
              rw [Nat.add_assoc, Nat.add_comm 1] at hnext
              exact hnext
        · intro h k hk
          rw [Nat.add_assoc, Nat.add_comm 1]
          exact h (k + 1) (by omega)
      · simp only [ne_eq, hdiff, not_false_eq_true, if_true]
        refine iff_of_false (returned_difference _ _ hdiff) (fun h => hdiff ?_)
        exact (byte_difference _ _).mpr (h 0 (Nat.succ_pos num))

-- In 8 bits a signed character adds what the byte adds.
theorem add_char (sum c : UInt8) : UInt8.ofInt (sum.toNat + c.toInt8.toInt) = sum + c := by
  have hsum := sum.toNat_lt
  have hc := c.toNat_lt
  have hchar : c.toInt8.toInt = (c.toNat : Int).bmod 256 := BitVec.toInt_eq_toNat_bmod c.toBitVec
  apply UInt8.toNat_inj.mp
  rw [UInt8.ofInt, UInt8.toNat_ofNat', UInt8.toNat_add, hchar, Int.bmod_def]
  split <;> omega

theorem sumFrom_toNat (m : Memory) (rsdp remaining i : Nat) (sum : UInt8) :
    (sumFrom m rsdp remaining i sum).toNat =
      (sum.toNat + ((List.range remaining).map (fun k => load8 m (rsdp + i + k))).sum) % 256 := by
  induction remaining generalizing i sum with
  | zero =>
      have hsum := sum.toNat_lt
      simp only [sumFrom, List.range_zero, List.map_nil, List.sum_nil]
      omega
  | succ remaining ih =>
      have hrest : (List.range remaining).map (fun k => load8 m (rsdp + i + (k + 1))) =
          (List.range remaining).map (fun k => load8 m (rsdp + (i + 1) + k)) := by
        refine List.map_congr_left (fun k _ => ?_)
        rw [show rsdp + i + (k + 1) = rsdp + (i + 1) + k by omega]
      have hbyte : (byteAt m (rsdp + i)).toNat = load8 m (rsdp + i) := rfl
      rw [sumFrom, ih, add_char, UInt8.toNat_add, hbyte, List.range_succ_eq_map, List.map_cons,
        List.map_map, List.sum_cons]
      simp only [Function.comp_def, Nat.succ_eq_add_one, hrest, Nat.add_zero]
      omega

end Lemmas

section Discovery

-- The sum of `size` bytes.
def byteSum (m : Memory) (a size : Nat) : Nat :=
  ((List.range size).map (fun k => load8 m (a + k))).sum

structure Table (m : Memory) (a : Nat) : Prop where
  low : 0xE0000 ≤ a
  high : a ≤ 0xFFFFF
  aligned : 16 ∣ a
  signature : HoldsBytes m a signature
  checksum : byteSum m a 20 % 256 = 0

theorem signature_iff (m : Memory) (loc : Nat) :
    kmemcmp (fun i => signature.getD i 0) (fun i => byteAt m (loc + i)) 8 0 = 0 ↔
      HoldsBytes m loc signature := by
  rw [kmemcmp_eq_zero_iff]
  refine forall_congr' fun k => forall_congr' fun hk => ?_
  have hin : k < signature.length := hk
  rw [Nat.zero_add, List.getD_eq_getElem _ _ hin, ← UInt8.toNat_inj]
  exact eq_comm

theorem evalRSDPChecksum_iff (m : Memory) (loc : Nat) :
    evalRSDPChecksum m loc = true ↔ byteSum m loc 20 % 256 = 0 := by
  have hsum := sumFrom_toNat m loc 20 0 0
  rw [UInt8.toNat_zero, Nat.zero_add, Nat.add_zero] at hsum
  rw [evalRSDPChecksum, decide_eq_true_iff, ← UInt8.toNat_inj, byteSum, ← hsum]
  rfl

-- One round either stops at a table or goes on behind a place where there is none.
theorem scanFrom_round (m : Memory) (rounds loc : Nat) (hlow : 0xE0000 ≤ loc)
    (hhigh : loc ≤ 0xFFFFF) (haligned : 16 ∣ loc) :
    (Table m loc ∧ scanFrom m (rounds + 1) loc = some loc) ∨
    (¬Table m loc ∧ scanFrom m (rounds + 1) loc = scanFrom m rounds (loc + 16)) := by
  have hnext : (loc + 16) % 4294967296 = loc + 16 := Nat.mod_eq_of_lt (by omega)
  rw [scanFrom, if_pos hhigh, hnext]
  by_cases hsignature : HoldsBytes m loc signature
  · rw [if_pos ((signature_iff m loc).mpr hsignature)]
    cases hsum : evalRSDPChecksum m loc with
    | true =>
        have hchecksum := (evalRSDPChecksum_iff m loc).mp hsum
        exact .inl ⟨⟨hlow, hhigh, haligned, hsignature, hchecksum⟩, rfl⟩
    | false =>
        refine .inr ⟨fun htable => ?_, rfl⟩
        have htrue := (evalRSDPChecksum_iff m loc).mpr htable.checksum
        rw [hsum] at htrue
        cases htrue
  · rw [if_neg (fun hzero => hsignature ((signature_iff m loc).mp hzero))]
    exact .inr ⟨fun htable => hsignature htable.signature, rfl⟩

-- No place before `loc` holds a table.
theorem scanFrom_spec (m : Memory) (rounds loc : Nat) (hlow : 0xE0000 ≤ loc)
    (hhigh : loc ≤ 0x100000) (haligned : 16 ∣ loc)
    (hrounds : (0x100000 - loc) / 16 < rounds) (hbefore : ∀ a < loc, ¬Table m a) :
    ∃ p, scanFrom m rounds loc = some p ∧ (p = 0 ↔ ∀ a, ¬Table m a) ∧
      (p ≠ 0 → Table m p ∧ ∀ a < p, ¬Table m a) := by
  induction rounds generalizing loc with
  | zero => exact absurd hrounds (Nat.not_lt_zero _)
  | succ rounds ih =>
      by_cases hend : loc ≤ 0xFFFFF
      · obtain ⟨htable, hfound⟩ | ⟨hnone, hnext⟩ := scanFrom_round m rounds loc hlow hend haligned
        · refine ⟨loc, hfound, ⟨fun hzero => by omega, fun hnone => ?_⟩, fun _ => ⟨htable, hbefore⟩⟩
          exact absurd htable (hnone loc)
        · rw [hnext]
          refine ih (loc + 16) (by omega) (by omega) (by omega) (by omega) (fun a ha htable => ?_)
          have haligned' := htable.aligned
          by_cases hearlier : a < loc
          · exact hbefore a hearlier htable
          · have hsame : a = loc := by omega
            exact hnone (hsame ▸ htable)
      · rw [scanFrom, if_neg hend]
        refine ⟨0, rfl, ⟨fun _ a htable => ?_, fun _ => rfl⟩, fun hzero => absurd rfl hzero⟩
        exact hbefore a (by have := htable.high; omega) htable

-- The scan ends, with the first table or with `NULL` exactly when there is none.
theorem getRSDP_exact (m : Memory) :
    ∃ bound, ∀ rounds ≥ bound, ∃ p, getRSDP rounds m = some p ∧
      (p = 0 ↔ ∀ a, ¬Table m a) ∧ (p ≠ 0 → Table m p ∧ ∀ a < p, ¬Table m a) := by
  refine ⟨8193, fun rounds hrounds => ?_⟩
  apply scanFrom_spec m rounds 0xE0000 (Nat.le_refl _) (by omega) (by omega) (by omega)
  intro a ha htable
  exact absurd htable.low (Nat.not_le.mpr ha)

end Discovery

end PalleyOS.Rsdp
