import PalleyOS.Kheap
import PalleyOS.Machine.Copy
import PalleyOS.Rsdp

namespace PalleyOS.Kstdlib

open Machine

-- The functions that write memory, on the bytes they are given. Sizes are words of 32
-- bits.
section Source

def kmemset : Nat → Nat → Nat → Memory → Memory
  | _, _, 0, m => m
  | dest, value, num + 1, m => kmemset (dest + 1) value num (store8 m dest value)

-- `none` when the loop still runs after `fuel` rounds.
def kstrcpyFrom : Nat → Nat → Nat → Nat → Memory → Option (Nat × Memory)
  | 0, _, _, _, _ => none
  | fuel + 1, dest, src, num_written, m =>
      if load8 m src ≠ 0 then
        kstrcpyFrom fuel (dest + 1) (src + 1) ((num_written + 1) % 4294967296)
          (store8 m dest (load8 m src))
      else some (num_written, store8 m dest 0)

def kstrcpy (fuel dest src : Nat) (m : Memory) : Option (Nat × Memory) :=
  kstrcpyFrom fuel dest src 0 m

def kstrncpyFrom (max : Nat) : Nat → Nat → Nat → Nat → Memory → Option (Nat × Memory)
  | 0, _, _, _, _ => none
  | fuel + 1, dest, src, num_written, m =>
      if load8 m src ≠ 0 ∧ num_written < sub32 max 1 then
        kstrncpyFrom max fuel (dest + 1) (src + 1) ((num_written + 1) % 4294967296)
          (store8 m dest (load8 m src))
      else some (num_written, store8 m dest 0)

def kstrncpy (fuel dest src max : Nat) (m : Memory) : Option (Nat × Memory) :=
  kstrncpyFrom max fuel dest src 0 m

end Source

section Blocks

open Kheap

theorem kmemcpy_copied (num : Nat) {m₀ m : Memory} {dest src n : Nat}
    (h : Copied m₀ dest src n m) (hnum : n + num ≤ 4294967296) :
    Copied m₀ dest src (n + num) (kmemcpy m (dest + n) (src + n) num) := by
  induction num generalizing m n with
  | zero => exact h
  | succ num ih =>
      have hrest := ih (h.step (by omega)) (by omega)
      rw [kmemcpy, Nat.add_assoc dest, Nat.add_assoc src]
      rw [Nat.add_assoc, Nat.add_comm 1] at hrest
      exact hrest

-- Whatever the ranges are: a destination inside the source makes the bytes in front of
-- it come again and again.
theorem kmemcpy_exact (m : Memory) (dest src num : UInt32) :
    (∀ i < num.toNat, load8 (kmemcpy m dest.toNat src.toNat num.toNat) (dest.toNat + i) =
      load8 m (src.toNat + i % sub32 dest.toNat src.toNat)) ∧
    ∀ x, Misses dest.toNat num.toNat x →
      load8 (kmemcpy m dest.toNat src.toNat num.toNat) x = load8 m x := by
  have hcopied := kmemcpy_copied num.toNat (Copied.zero m dest.toNat src.toNat)
    (by have hlt := num.toNat_lt; omega)
  rw [Nat.zero_add] at hcopied
  exact ⟨hcopied.inside, hcopied.outside⟩

theorem kmemset_filled (num : Nat) {m₀ m : Memory} {dest value n : Nat}
    (h : Filled m₀ dest n value m) :
    Filled m₀ dest (n + num) value (kmemset (dest + n) value num m) := by
  induction num generalizing m n with
  | zero => exact h
  | succ num ih =>
      have hrest := ih h.step
      rw [kmemset, Nat.add_assoc dest]
      rw [Nat.add_assoc, Nat.add_comm 1] at hrest
      exact hrest

end Blocks

section Comparison

open Rsdp

theorem kmemcmp_from (ptr1 ptr2 : Nat → UInt8) (num i : Nat) :
    (kmemcmp ptr1 ptr2 num i = 0 ↔ (List.range' i num).map ptr1 = (List.range' i num).map ptr2) ∧
    (2147483648 ≤ kmemcmp ptr1 ptr2 num i ↔
      (List.range' i num).map ptr1 < (List.range' i num).map ptr2) := by
  induction num generalizing i with
  | zero => simp [kmemcmp]
  | succ num ih =>
      obtain ⟨hequal, hless⟩ := ih (i + 1)
      simp only [List.range'_succ, List.map_cons, List.cons.injEq, List.cons_lt_cons_iff]
      rw [kmemcmp]
      by_cases hsame : ptr1 i = ptr2 i
      · have hzero := (byte_difference _ _).mpr hsame
        rw [if_neg (not_not_intro hzero), hsame]
        refine ⟨hequal.trans (and_iff_right rfl).symm, hless.trans ?_⟩
        rw [or_iff_right (UInt8.lt_irrefl _), and_iff_right rfl]
      · have hdiff := fun hzero => hsame ((byte_difference (ptr1 i) (ptr2 i)).mp hzero)
        have hlost := returned_difference _ _ hdiff
        have hfirst := (ptr1 i).toNat_lt
        have hsecond := (ptr2 i).toNat_lt
        rw [if_pos hdiff]
        refine ⟨iff_of_false hlost (fun h => hsame h.1), ?_⟩
        rw [or_iff_left (fun h => hsame h.1), UInt8.lt_iff_toNat_lt]
        omega

-- The result is a difference of bytes taken for a size. It is that of the two blocks in
-- the order of a dictionary, with the upper half of the sizes for the negative ones.
theorem kmemcmp_order (ptr1 ptr2 : Nat → UInt8) (num : Nat) :
    (kmemcmp ptr1 ptr2 num 0 = 0 ↔ (List.range num).map ptr1 = (List.range num).map ptr2) ∧
    (2147483648 ≤ kmemcmp ptr1 ptr2 num 0 ↔
      (List.range num).map ptr1 < (List.range num).map ptr2) := by
  rw [List.range_eq_range']
  exact kmemcmp_from ptr1 ptr2 num 0

end Comparison

section Strings

variable {m₀ m : Memory} {dest src n : Nat} {bytes : List UInt8}

theorem byte_ne_zero (h : HoldsString m₀ src bytes) (i : Nat) (hi : i < bytes.length) :
    load8 m₀ (src + i) ≠ 0 := by
  rw [h.holds i hi]
  exact fun hzero => h.no_nul _ (List.getElem_mem hi) (UInt8.toNat_inj.mp hzero)

-- The destination is inside the string or at its end.
def Smears (dest src length : Nat) : Prop := 0 < sub32 dest src ∧ sub32 dest src ≤ length

instance (dest src length : Nat) : Decidable (Smears dest src length) :=
  inferInstanceAs (Decidable (0 < sub32 dest src ∧ sub32 dest src ≤ length))

theorem apart_of_not_smears {length : Nat} (h : ¬Smears dest src length) :
    sub32 dest src = 0 ∨ length < sub32 dest src := by
  unfold Smears at h
  omega

-- Such a copy never reads the end of the string, which it has written over by then.
theorem smeared_byte (h : Copied m₀ dest src n m) (hstring : HoldsString m₀ src bytes)
    (hsmears : Smears dest src bytes.length) (hn : n < 4294967296) :
    load8 m (src + n) ≠ 0 := by
  rw [h.next hn]
  apply byte_ne_zero hstring
  exact Nat.lt_of_lt_of_le (Nat.mod_lt _ hsmears.1) hsmears.2

-- Any other one reads the string as it was.
theorem apart_byte (h : Copied m₀ dest src n m) (hapart : ¬Smears dest src bytes.length)
    (hn : n ≤ bytes.length) (hlength : bytes.length < 4294967296) :
    load8 m (src + n) = load8 m₀ (src + n) := by
  rw [h.next (by omega)]
  rcases apart_of_not_smears hapart with hzero | hlong
  · rw [hzero, Nat.mod_zero]
  · rw [Nat.mod_eq_of_lt (by omega)]

-- The string is at the destination and nothing else was written.
structure Delivered (m₀ : Memory) (dest : Nat) (bytes : List UInt8) (m : Memory) : Prop where
  string : HoldsString m dest bytes
  frame : ∀ x, Misses dest (bytes.length + 1) x → load8 m x = load8 m₀ x

theorem delivered (h : Copied m₀ dest src bytes.length m) (hstring : HoldsString m₀ src bytes)
    (hapart : ¬Smears dest src bytes.length) :
    Delivered m₀ dest bytes (store8 m (dest + bytes.length) 0) := by
  have hlength := hstring.length_lt
  obtain ⟨-, hframe⟩ := h.store hlength 0
  refine ⟨⟨?_, ?_, hstring.no_nul⟩, hframe⟩
  · have hbytes := h.holds hstring.holds
      ((apart_of_not_smears hapart).imp_right Nat.le_of_lt)
    apply hbytes.congr
    intro i hi
    apply load8_store8_of_ne
    omega
  · rw [load8_store8_self]

theorem kstrcpyFrom_apart (hstring : HoldsString m₀ src bytes)
    (hapart : ¬Smears dest src bytes.length) (fuel : Nat) (h : Copied m₀ dest src n m)
    (hn : n ≤ bytes.length) :
    match kstrcpyFrom fuel (dest + n) (src + n) n m with
    | some (num_written, m') => bytes.length < n + fuel ∧ num_written = bytes.length ∧
        Delivered m₀ dest bytes m'
    | none => n + fuel ≤ bytes.length := by
  have hlength := hstring.length_lt
  induction fuel generalizing n m with
  | zero => exact hn
  | succ fuel ih =>
      have hread := apart_byte h hapart hn hlength
      rw [kstrcpyFrom]
      by_cases hend : n = bytes.length
      · subst n
        rw [if_neg (not_not_intro (hread.trans hstring.terminated))]
        exact ⟨by omega, rfl, delivered h hstring hapart⟩
      · have hbyte := byte_ne_zero hstring n (by omega)
        rw [if_pos (hread ▸ hbyte), Nat.mod_eq_of_lt (by omega), Nat.add_assoc dest,
          Nat.add_assoc src]
        have hrest := ih (h.step (by omega)) (by omega)
        rw [Nat.add_assoc n, Nat.add_comm 1] at hrest
        exact hrest

theorem kstrcpyFrom_nonzero (fuel dest src num_written : Nat) (m : Memory)
    (h : ∀ x, load8 m x ≠ 0) : kstrcpyFrom fuel dest src num_written m = none := by
  induction fuel generalizing dest src num_written m with
  | zero => rfl
  | succ fuel ih =>
      rw [kstrcpyFrom, if_pos (h src)]
      apply ih
      intro x
      by_cases hhit : x % 4294967296 = dest % 4294967296
      · rw [load8_mod _ _ _ hhit, load8_store8_self, Nat.mod_eq_of_lt (load8_lt _ _)]
        exact h src
      · rw [load8_store8_of_ne _ _ _ _ hhit]
        exact h x

-- The copy goes around the whole memory and on.
theorem kstrcpyFrom_smears (hstring : HoldsString m₀ src bytes)
    (hsmears : Smears dest src bytes.length) (fuel num_written : Nat)
    (h : Copied m₀ dest src n m) (hn : n ≤ 4294967296) :
    kstrcpyFrom fuel (dest + n) (src + n) num_written m = none := by
  induction fuel generalizing n m num_written with
  | zero => rfl
  | succ fuel ih =>
      by_cases hround : n = 4294967296
      · subst n
        apply kstrcpyFrom_nonzero
        intro x
        obtain ⟨i, -, hx⟩ := h.everywhere x
        rw [hx]
        apply byte_ne_zero hstring
        exact Nat.lt_of_lt_of_le (Nat.mod_lt _ hsmears.1) hsmears.2
      · rw [kstrcpyFrom, if_pos (smeared_byte h hstring hsmears (by omega)), Nat.add_assoc dest,
          Nat.add_assoc src]
        exact ih _ (h.step (by omega)) (by omega)

-- A string is copied as it is, also onto itself or to where it overlaps itself from
-- below. A destination inside of it or at its end is never got away from.
theorem kstrcpy_returns_iff (m : Memory) (dest src : UInt32) (bytes : List UInt8)
    (h : HoldsString m src.toNat bytes) (fuel : Nat) :
    match kstrcpy fuel dest.toNat src.toNat m with
    | some (num_written, m') => ¬Smears dest.toNat src.toNat bytes.length ∧
        bytes.length < fuel ∧ num_written = bytes.length ∧ Delivered m dest.toNat bytes m'
    | none => Smears dest.toNat src.toNat bytes.length ∨ fuel ≤ bytes.length := by
  have hnone := Copied.zero m dest.toNat src.toNat
  by_cases hsmears : Smears dest.toNat src.toNat bytes.length
  · have hruns := kstrcpyFrom_smears h hsmears fuel 0 hnone (by decide)
    rw [Nat.add_zero, Nat.add_zero] at hruns
    rw [kstrcpy, hruns]
    exact .inl hsmears
  · have hruns := kstrcpyFrom_apart h hsmears fuel hnone (Nat.zero_le _)
    rw [Nat.add_zero, Nat.add_zero, Nat.zero_add] at hruns
    rw [kstrcpy]
    generalize kstrcpyFrom fuel dest.toNat src.toNat 0 m = answer at hruns ⊢
    cases answer with
    | none => exact .inr hruns
    | some answer => exact ⟨hsmears, hruns⟩

-- What `kstrncpy` writes before the terminator.
def count (dest src length max : Nat) : Nat :=
  if Smears dest src length then sub32 max 1 else min length (sub32 max 1)

theorem count_le (dest src length max : Nat) : count dest src length max ≤ sub32 max 1 := by
  unfold count
  split
  · exact Nat.le_refl _
  · exact Nat.min_le_right _ _

-- The loop goes on exactly up to the count.
theorem goes_on_iff (hstring : HoldsString m₀ src bytes) (max : Nat) (h : Copied m₀ dest src n m)
    (hn : n ≤ count dest src bytes.length max) :
    load8 m (src + n) ≠ 0 ∧ n < sub32 max 1 ↔ n < count dest src bytes.length max := by
  have hlimit : sub32 max 1 < 4294967296 := Nat.mod_lt _ (by decide)
  have hcount := count_le dest src bytes.length max
  by_cases hsmears : Smears dest src bytes.length
  · have hread := smeared_byte h hstring hsmears (by omega)
    rw [count, if_pos hsmears]
    exact and_iff_right hread
  · have hmin : count dest src bytes.length max = min bytes.length (sub32 max 1) := if_neg hsmears
    rw [hmin] at hn ⊢
    have hlength := hstring.length_lt
    rw [apart_byte h hsmears (by omega) hlength]
    by_cases hend : n = bytes.length
    · refine iff_of_false (fun hgoes => ?_) (by omega)
      exact hgoes.1 (hend ▸ hstring.terminated)
    · have hbyte := byte_ne_zero hstring n (by omega)
      rw [and_iff_right hbyte]
      omega

theorem kstrncpyFrom_stops (hstring : HoldsString m₀ src bytes) (max fuel : Nat)
    (h : Copied m₀ dest src n m) (left : Nat)
    (hleft : n + left = count dest src bytes.length max) (hfuel : left < fuel) :
    kstrncpyFrom max fuel (dest + n) (src + n) n m =
      some (n + left, store8 (Kheap.kmemcpy m (dest + n) (src + n) left) (dest + (n + left)) 0) := by
  have hlimit : sub32 max 1 < 4294967296 := Nat.mod_lt _ (by decide)
  have hcount := count_le dest src bytes.length max
  have hgoes := goes_on_iff hstring max h (by omega)
  obtain ⟨fuel, rfl⟩ := Nat.exists_eq_add_one_of_ne_zero (Nat.ne_zero_of_lt hfuel)
  rw [kstrncpyFrom]
  induction left generalizing fuel n m with
  | zero =>
      rw [if_neg (fun hgo => absurd (hgoes.mp hgo) (by omega))]
      rfl
  | succ left ih =>
      obtain ⟨fuel, rfl⟩ := Nat.exists_eq_add_one_of_ne_zero (n := fuel) (by omega)
      have hstep := h.step (by omega)
      have hrest := ih hstep (by omega) (goes_on_iff hstring max hstep (by omega)) fuel (by omega)
      rw [if_pos (hgoes.mpr (by omega)), Nat.mod_eq_of_lt (by omega), Nat.add_assoc dest,
        Nat.add_assoc src, kstrncpyFrom, hrest, Kheap.kmemcpy, Nat.add_assoc n, Nat.add_comm 1,
        Nat.add_assoc dest, Nat.add_assoc src]

-- The copy always ends and is that of so many bytes with a terminator behind them. From
-- a maximum of 0 the bound wraps to the largest size.
theorem kstrncpy_exact (m : Memory) (dest src max : UInt32) (bytes : List UInt8)
    (h : HoldsString m src.toNat bytes) :
    let n := count dest.toNat src.toNat bytes.length max.toNat
    let copy := store8 (Kheap.kmemcpy m dest.toNat src.toNat n) (dest.toNat + n) 0
    (∀ fuel > n, kstrncpy fuel dest.toNat src.toNat max.toNat m = some (n, copy)) ∧
      (∀ i < n, load8 copy (dest.toNat + i) =
        load8 m (src.toNat + i % sub32 dest.toNat src.toNat)) ∧
      load8 copy (dest.toNat + n) = 0 ∧
      ∀ x, Misses dest.toNat (n + 1) x → load8 copy x = load8 m x := by
  intro n copy
  have hlimit : sub32 max.toNat 1 < 4294967296 := Nat.mod_lt _ (by decide)
  have hcount : n ≤ sub32 max.toNat 1 := count_le _ _ _ _
  have hnone := Copied.zero m dest.toNat src.toNat
  have hcopied := kmemcpy_copied n hnone (by omega)
  rw [Nat.zero_add] at hcopied
  obtain ⟨hinside, houtside⟩ := hcopied.store (by omega) 0
  refine ⟨fun fuel hfuel => ?_, hinside, load8_store8_self _ _ _, houtside⟩
  have hruns := kstrncpyFrom_stops h max.toNat fuel hnone n (Nat.zero_add n) hfuel
  rw [Nat.zero_add] at hruns
  exact hruns

-- Two letters in front of zeros.
def lettersMemory : Memory := fun x => if x = 16 then 97 else if x = 17 then 98 else 0

theorem lettersMemory_holds : HoldsString lettersMemory 16 [97, 98] := by
  refine ⟨?_, rfl, by simp⟩
  intro i hi
  match i, hi with
  | 0, _ => rfl
  | 1, _ => rfl

theorem kstrcpy_returns_iff_letters :
    (match kstrcpy 3 15 16 lettersMemory with
      | some (num_written, m') => ¬Smears 15 16 2 ∧ 2 < 3 ∧ num_written = 2 ∧
          Delivered lettersMemory 15 [97, 98] m'
      | none => Smears 15 16 2 ∨ 3 ≤ 2) ∧
    match kstrcpy 9 17 16 lettersMemory with
    | some (num_written, m') => ¬Smears 17 16 2 ∧ 2 < 9 ∧ num_written = 2 ∧
        Delivered lettersMemory 17 [97, 98] m'
    | none => Smears 17 16 2 ∨ 9 ≤ 2 :=
  ⟨kstrcpy_returns_iff lettersMemory 15 16 [97, 98] lettersMemory_holds 3,
    kstrcpy_returns_iff lettersMemory 17 16 [97, 98] lettersMemory_holds 9⟩

theorem kstrncpy_exact_letters :
    let n := count 17 16 2 0
    let copy := store8 (Kheap.kmemcpy lettersMemory 17 16 n) (17 + n) 0
    (∀ fuel > n, kstrncpy fuel 17 16 0 lettersMemory = some (n, copy)) ∧
      (∀ i < n, load8 copy (17 + i) = load8 lettersMemory (16 + i % sub32 17 16)) ∧
      load8 copy (17 + n) = 0 ∧
      ∀ x, Misses 17 (n + 1) x → load8 copy x = load8 lettersMemory x :=
  kstrncpy_exact lettersMemory 17 16 0 [97, 98] lettersMemory_holds

end Strings

end PalleyOS.Kstdlib
