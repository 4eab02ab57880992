import PalleyOS.Machine.Strings
import PalleyOS.SknyFS.Lookup
import Mathlib.Data.Int.Order.Basic
import Mathlib.Logic.Embedding.Basic

namespace PalleyOS.SknyFS

section Parting

-- `c` and `d` are the characters at the first position where the strings differ.
def PartAt (bytes other : List UInt8) (c d : UInt8) : Prop :=
  c ≠ d ∧ ∃ same rest rest', bytes = same ++ c :: rest ∧ other = same ++ d :: rest'

theorem PartAt.symm {bytes other : List UInt8} {c d : UInt8} (h : PartAt bytes other c d) :
    PartAt other bytes d c := by
  obtain ⟨hne, same, rest, rest', hbytes, hother⟩ := h
  exact ⟨hne.symm, same, rest', rest, hother, hbytes⟩

theorem PartAt.cons {bytes other : List UInt8} {c d : UInt8} (first : UInt8)
    (h : PartAt bytes other c d) : PartAt (first :: bytes) (first :: other) c d := by
  obtain ⟨hne, same, rest, rest', rfl, rfl⟩ := h
  exact ⟨hne, first :: same, rest, rest', rfl, rfl⟩

theorem Alike.symm {bytes other : List UInt8} (h : Alike bytes other) : Alike other bytes :=
  Or.symm h

theorem alike_or_partAt (bytes other : List UInt8) :
    Alike bytes other ∨ ∃ c d, PartAt bytes other c d := by
  induction bytes generalizing other with
  | nil => exact .inl (.inl List.nil_prefix)
  | cons c bytes ih =>
      cases other with
      | nil => exact .inl (.inr List.nil_prefix)
      | cons d other =>
          by_cases hsame : c = d
          · subst d
            rcases ih other with halike | ⟨a, b, hpart⟩
            · exact .inl ((alike_cons_iff c c bytes other).mpr ⟨rfl, halike⟩)
            · exact .inr ⟨a, b, hpart.cons c⟩
          · exact .inr ⟨c, d, hsame, [], bytes, other, rfl, rfl⟩

theorem spells_append (seen bytes : List UInt8) (hno_nul : ∀ byte ∈ bytes, byte ≠ 0) :
    Spells (fun k => (seen ++ bytes).getD k 0) seen.length bytes := by
  induction bytes generalizing seen with
  | nil => simp [Spells]
  | cons c bytes ih =>
      have hrest := ih (seen ++ [c]) (fun byte hbyte => hno_nul byte (List.mem_cons_of_mem c hbyte))
      rw [List.append_assoc, List.singleton_append, List.length_append] at hrest
      exact ⟨by simp, hno_nul c List.mem_cons_self, hrest⟩

theorem CString.spells (string : CString) : Spells string.load 0 string.bytes :=
  spells_append [] string.bytes string.no_nul

-- The loop passes over what the strings share and returns the difference there.
theorem kstrcmpFrom_partAt (str2 : Nat → UInt8) (same rest rest' : List UInt8) (c d : UInt8)
    (k : Nat) (hne : c ≠ d) (h : Spells str2 k (same ++ d :: rest')) :
    kstrcmpFrom str2 (same ++ c :: rest) k = (charDiff c d % 4294967296).toNat := by
  induction same generalizing k with
  | nil =>
      obtain ⟨hd, hnonzero, -⟩ := h
      have hdiff : charDiff c d ≠ 0 := fun hzero => hne ((charDiff_eq_zero_iff c d).mp hzero)
      rw [List.nil_append, kstrcmpFrom, hd, if_neg hnonzero]
      exact if_pos hdiff
  | cons a same ih =>
      obtain ⟨ha, hnonzero, hrest⟩ := h
      have hdiff : charDiff a a = 0 := (charDiff_eq_zero_iff a a).mpr rfl
      rw [List.cons_append, kstrcmpFrom, ha, if_neg hnonzero, hdiff]
      exact ih (k + 1) hrest

end Parting

section Comparison

-- The order of the strings when the characters have these values.
def Precedes (value : UInt8 ↪ Int) (s t : CString) : Prop :=
  s.bytes.map value < t.bytes.map value

def signedChar : UInt8 ↪ Int where
  toFun c := c.toInt8.toInt
  inj' c d hsame := by
    have hdiff : charDiff c d = 0 := Int.sub_eq_zero.mpr hsame
    exact (charDiff_eq_zero_iff c d).mp hdiff

-- What the comment promises of the value that comes back, a `size_t`.
structure Orders (value : UInt8 ↪ Int) (s t : CString) : Prop where
  equal : kstrcmp s t.load = 0 ↔ s = t
  below : Precedes value s t → kstrcmp s t.load < 0
  above : Precedes value t s → 0 < kstrcmp s t.load

-- The two calls give opposite answers.
structure Reverses (s t : CString) : Prop where
  below : kstrcmp s t.load < 0 ↔ 0 < kstrcmp t s.load
  above : 0 < kstrcmp s t.load ↔ kstrcmp t s.load < 0

-- Only equal strings are each at most the other.
def Separates (s t : CString) : Prop :=
  kstrcmp s t.load ≤ 0 → kstrcmp t s.load ≤ 0 → s = t

structure Chains (s t u : CString) : Prop where
  below : kstrcmp s t.load < 0 → kstrcmp t u.load < 0 → kstrcmp s u.load < 0
  equal : kstrcmp s t.load = 0 → kstrcmp t u.load = 0 → kstrcmp s u.load = 0
  above : 0 < kstrcmp s t.load → 0 < kstrcmp t u.load → 0 < kstrcmp s u.load

theorem CString.eq_of_bytes {s t : CString} (h : s.bytes = t.bytes) : s = t := by
  cases s
  cases t
  cases h
  rfl

theorem kstrcmp_eq_zero_iff (s t : CString) : kstrcmp s t.load = 0 ↔ Alike s.bytes t.bytes :=
  kstrcmpFrom_eq_zero_iff t.load s.bytes t.bytes 0 t.spells

theorem kstrcmp_pos_iff (s t : CString) : 0 < kstrcmp s t.load ↔ ¬Alike s.bytes t.bytes := by
  rw [Nat.pos_iff_ne_zero]
  exact not_congr (kstrcmp_eq_zero_iff s t)

theorem kstrcmp_partAt {s t : CString} {c d : UInt8} (h : PartAt s.bytes t.bytes c d) :
    kstrcmp s t.load = (charDiff c d % 4294967296).toNat := by
  obtain ⟨hne, same, rest, rest', hs, ht⟩ := h
  have hspells := t.spells
  rw [ht] at hspells
  rw [kstrcmp, hs]
  exact kstrcmpFrom_partAt t.load same rest rest' c d 0 hne hspells

theorem PartAt.not_alike {s t : CString} {c d : UInt8} (h : PartAt s.bytes t.bytes c d) :
    ¬Alike s.bytes t.bytes := by
  rw [← kstrcmp_eq_zero_iff, kstrcmp_partAt h]
  exact charDiff_returned c d (fun hzero => h.1 ((charDiff_eq_zero_iff c d).mp hzero))

variable (value : UInt8 ↪ Int)

theorem PartAt.precedes_iff {s t : CString} {c d : UInt8} (h : PartAt s.bytes t.bytes c d) :
    Precedes value s t ↔ value c < value d := by
  obtain ⟨hne, same, rest, rest', hs, ht⟩ := h
  rw [Precedes, hs, ht, List.map_append, List.map_append, List.map_cons, List.map_cons]
  exact Machine.append_cons_lt_iff _ _ _ _ _ (fun hsame => hne (value.injective hsame))

theorem precedes_or (s t : CString) : Precedes value s t ∨ s = t ∨ Precedes value t s := by
  rcases lt_trichotomy (s.bytes.map value) (t.bytes.map value) with hlt | hsame | hlt
  · exact .inl hlt
  · exact .inr (.inl (CString.eq_of_bytes (List.map_injective_iff.mpr value.injective hsame)))
  · exact .inr (.inr hlt)

-- An `int` goes through the `size_t` unchanged.
theorem charDiff_read (a b : UInt8) :
    ((charDiff a b % 4294967296).toNat : Int).bmod 4294967296 = charDiff a b := by
  have ha := Int8.le_toInt a.toInt8
  have ha' := Int8.toInt_lt a.toInt8
  have hb := Int8.le_toInt b.toInt8
  have hb' := Int8.toInt_lt b.toInt8
  rw [Int.toNat_of_nonneg (Int.emod_nonneg _ (by decide))]
  refine (Int.emod_bmod _ 4294967296).trans ?_
  unfold charDiff
  exact Int.bmod_eq_of_le (by omega) (by omega)

-- Read as an `int`, the value has the sign of the order of strings that part.
theorem kstrcmp_as_int (s t : CString) (hdiffer : ¬Alike s.bytes t.bytes) :
    ((kstrcmp s t.load : Int).bmod 4294967296 < 0 ↔ Precedes signedChar s t) ∧
    (0 < (kstrcmp s t.load : Int).bmod 4294967296 ↔ Precedes signedChar t s) := by
  obtain ⟨c, d, hpart⟩ := (alike_or_partAt s.bytes t.bytes).resolve_left hdiffer
  have hdiff : charDiff c d = signedChar c - signedChar d := rfl
  rw [kstrcmp_partAt hpart, charDiff_read, hpart.precedes_iff, hpart.symm.precedes_iff, hdiff]
  omega

-- The promise is kept by equal strings and by those that part at a character
-- that is higher in the first one.
theorem orders_iff (s t : CString) :
    Orders value s t ↔
      s = t ∨ ∃ c d, PartAt s.bytes t.bytes c d ∧ value d < value c := by
  constructor
  · intro horders
    rcases precedes_or value s t with hlt | hsame | hlt
    · exact absurd (horders.below hlt) (Nat.not_lt_zero _)
    · exact .inl hsame
    · have hdiffer := (kstrcmp_pos_iff s t).mp (horders.above hlt)
      obtain ⟨c, d, hpart⟩ := (alike_or_partAt s.bytes t.bytes).resolve_left hdiffer
      exact .inr ⟨c, d, hpart, (hpart.symm.precedes_iff value).mp hlt⟩
  · rintro (rfl | ⟨c, d, hpart, hlt⟩)
    · have halike : Alike s.bytes s.bytes := .inl (List.prefix_refl _)
      have hirrefl : ¬Precedes value s s := lt_irrefl _
      exact ⟨iff_of_true ((kstrcmp_eq_zero_iff s s).mpr halike) rfl,
        fun h => absurd h hirrefl, fun h => absurd h hirrefl⟩
    · have hdiffer := hpart.not_alike
      refine ⟨iff_of_false (mt (kstrcmp_eq_zero_iff s t).mp hdiffer) ?_, fun h => ?_,
        fun _ => (kstrcmp_pos_iff s t).mpr hdiffer⟩
      · rintro rfl
        exact hdiffer (.inl (List.prefix_refl _))
      · exact absurd ((hpart.precedes_iff value).mp h) (Int.lt_asymm hlt)

theorem reverses_iff (s t : CString) : Reverses s t ↔ Alike s.bytes t.bytes := by
  constructor
  · intro hreverses
    by_contra hdiffer
    exact absurd (hreverses.above.mp ((kstrcmp_pos_iff s t).mpr hdiffer)) (Nat.not_lt_zero _)
  · intro halike
    have hst := (kstrcmp_eq_zero_iff s t).mpr halike
    have hts := (kstrcmp_eq_zero_iff t s).mpr halike.symm
    constructor <;> rw [hst, hts]

theorem separates_iff (s t : CString) :
    Separates s t ↔ s = t ∨ ∃ c d, PartAt s.bytes t.bytes c d := by
  constructor
  · intro hseparates
    rcases alike_or_partAt s.bytes t.bytes with halike | hpart
    · exact .inl (hseparates (Nat.le_of_eq ((kstrcmp_eq_zero_iff s t).mpr halike))
        (Nat.le_of_eq ((kstrcmp_eq_zero_iff t s).mpr halike.symm)))
    · exact .inr hpart
  · rintro (hsame | ⟨c, d, hpart⟩) hst -
    · exact hsame
    · exact absurd ((kstrcmp_eq_zero_iff s t).mp (Nat.le_zero.mp hst)) hpart.not_alike

theorem chains_iff (s t u : CString) :
    Chains s t u ↔
      (t.bytes <+: s.bytes → t.bytes <+: u.bytes → Alike s.bytes u.bytes) ∧
      (Alike s.bytes u.bytes → Alike s.bytes t.bytes ∨ Alike t.bytes u.bytes) := by
  have hst := kstrcmp_eq_zero_iff s t
  have htu := kstrcmp_eq_zero_iff t u
  have hsu := kstrcmp_eq_zero_iff s u
  constructor
  · intro hchains
    constructor
    · intro hs hu
      exact hsu.mp (hchains.equal (hst.mpr (.inr hs)) (htu.mpr (.inl hu)))
    · intro halike
      by_contra hdiffer
      rw [not_or, ← kstrcmp_pos_iff, ← kstrcmp_pos_iff] at hdiffer
      have habove := hchains.above hdiffer.1 hdiffer.2
      exact (kstrcmp_pos_iff s u).mp habove halike
  · rintro ⟨hshared, hbetween⟩
    refine ⟨fun h => absurd h (Nat.not_lt_zero _), fun hs hu => ?_, fun hs hu => ?_⟩
    · rw [hst] at hs
      rw [htu] at hu
      rw [hsu]
      -- Only a `t` at the start of both leaves the other two unrelated.
      rcases hs with hs | hs <;> rcases hu with hu | hu
      · exact .inl (hs.trans hu)
      · exact List.prefix_or_prefix_of_prefix hs hu
      · exact hshared hs hu
      · exact .inr (hu.trans hs)
    · rw [kstrcmp_pos_iff] at hs hu ⊢
      exact fun halike => (hbetween halike).elim hs hu

-- Which strings `kstrcmp` compares as promised.
theorem kstrcmp_orders_iff (s t u : CString) :
    (Orders value s t ↔ s = t ∨ ∃ c d, PartAt s.bytes t.bytes c d ∧ value d < value c) ∧
    (Reverses s t ↔ Alike s.bytes t.bytes) ∧
    (Separates s t ↔ s = t ∨ ∃ c d, PartAt s.bytes t.bytes c d) ∧
    (Chains s t u ↔
      (t.bytes <+: s.bytes → t.bytes <+: u.bytes → Alike s.bytes u.bytes) ∧
      (Alike s.bytes u.bytes → Alike s.bytes t.bytes ∨ Alike t.bytes u.bytes)) :=
  ⟨orders_iff value s t, reverses_iff s t, separates_iff s t, chains_iff s t u⟩

def emptyString : CString := { bytes := [], no_nul := by simp }

def letterB : CString := { bytes := [98], no_nul := by simp }

-- The difference of two letters comes back as a large number, and the empty
-- string is no different from another.
theorem letters_not_ordered :
    kstrcmp letterA letterB.load = 4294967295 ∧ Precedes signedChar letterA letterB ∧
    ¬Orders signedChar letterA letterB ∧ ¬Reverses letterA letterB ∧
    kstrcmp emptyString letterA.load = 0 ∧ Precedes signedChar emptyString letterA ∧
    ¬Orders signedChar emptyString letterA ∧ ¬Separates emptyString letterA ∧
    ¬Chains letterA emptyString letterB := by
  have hletters : kstrcmp letterA letterB.load = 4294967295 := by decide
  have hempty : kstrcmp emptyString letterA.load = 0 := rfl
  have hended : kstrcmp letterA emptyString.load = 0 := rfl
  have hbelow : Precedes signedChar letterA letterB := .rel (by decide)
  have hfirst : Precedes signedChar emptyString letterA := .nil
  refine ⟨hletters, hbelow, fun h => ?_, fun h => ?_, hempty, hfirst, fun h => ?_, fun h => ?_,
    fun h => ?_⟩
  · exact absurd (h.below hbelow) (Nat.not_lt_zero _)
  · have habove : 0 < kstrcmp letterA letterB.load := by
      rw [hletters]
      decide
    exact absurd (h.above.mp habove) (Nat.not_lt_zero _)
  · exact absurd (h.below hfirst) (Nat.not_lt_zero _)
  · have hsame : emptyString = letterA := h (Nat.le_of_eq hempty) (Nat.le_of_eq hended)
    exact absurd (congrArg CString.bytes hsame) (by decide)
  · have hzero : kstrcmp letterA letterB.load = 0 := h.equal hended rfl
    rw [hletters] at hzero
    cases hzero

end Comparison

end PalleyOS.SknyFS
