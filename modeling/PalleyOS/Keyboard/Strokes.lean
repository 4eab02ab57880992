import PalleyOS.Keyboard.Decoder
import PalleyOS.Tio.Bounds
import Mathlib.Data.List.Induction

namespace PalleyOS.Keyboard

-- What the tables say of the codes they cover.
section Tables

variable (behind : List UInt8 → Nat → UInt8)

theorem tableRead_inside (table : List UInt8) (code : UInt8) (h : code.toNat < table.length) :
    tableRead behind table code = table.getD code.toNat 0 := by
  rw [tableRead, List.getD_eq_getElem?_getD, List.getD_eq_getElem?_getD,
    List.getElem?_eq_getElem h]
  rfl

theorem set1_enter : ∀ n < 88,
    scancode_set1ToMapped.getD n 0 = KEY_ENTER ↔ n = 0x1C ∨ n = 0x52 := by decide

theorem special_enter : ∀ n < 120, special_keys_to_mapped.getD n 0 ≠ KEY_ENTER := by decide

end Tables

section Enter

variable (behind : List UInt8 → Nat → UInt8)

def enterMake : Stroke := { extended := false, code := 0x1C, release := false }

def keypadZeroMake : Stroke := { extended := false, code := 0x52, release := false }

-- The codes that both tables of the mapping cover.
def Stroke.Covered (stroke : Stroke) : Prop := stroke.Below 88 120

theorem Stroke.Covered.code_lt {stroke : Stroke} (h : stroke.Covered) :
    stroke.code < 128 ∧ stroke.Clear := Stroke.Below.code_lt h (by decide) (by decide)

-- A key ends the line whatever the other keys' states are.
theorem ends_iff (stroke : Stroke) (h : stroke.Covered) (states : KeyStates) :
    Ends (stroke.key behind states) ↔ stroke = enterMake ∨ stroke = keypadZeroMake := by
  obtain ⟨hdown, hcode, -⟩ := stroke.byte_spec h.code_lt.1
  obtain ⟨extended, code, release⟩ := stroke
  have hsame (n : Nat) (hn : n < 256) : code.toNat = n ↔ code = UInt8.ofNat n := by
    rw [← UInt8.toNat_inj, UInt8.toNat_ofNat', Nat.mod_eq_of_lt hn]
  rw [Stroke.Covered, Stroke.Below] at h
  cases extended with
  | true =>
      have hlow : code.toNat < 120 := h
      have hother := special_enter code.toNat hlow
      refine iff_of_false ?_ (by simp [enterMake, keypadZeroMake])
      rintro ⟨-, hmapped⟩
      refine hother ?_
      rw [← tableRead_inside behind special_keys_to_mapped code hlow]
      simpa [Stroke.key, e0Key, specialToMapped, hcode] using hmapped
  | false =>
      have hlow : code.toNat < 88 := h
      have henter := set1_enter code.toNat hlow
      rw [← tableRead_inside behind scancode_set1ToMapped code hlow, hsame 0x1C (by decide),
        hsame 0x52 (by decide)] at henter
      simp only [Ends, Stroke.key, Bool.false_eq_true, if_false, plainKey, hdown, hcode,
        set1ToMapped, henter, enterMake, keypadZeroMake, Stroke.mk.injEq, true_and]
      cases release <;> simp

theorem getLineLoop_isSome (strokes : List Stroke) (h : ∀ stroke ∈ strokes, stroke.Covered)
    (states : KeyStates) (line : Line) :
    (getLineLoop behind (strokes.flatMap Stroke.encode) false states line).isSome = true ↔
      enterMake ∈ strokes ∨ keypadZeroMake ∈ strokes := by
  induction strokes generalizing states line with
  | nil => simp [getLineLoop]
  | cons stroke rest ih =>
      have hfirst := h stroke (List.mem_cons_self ..)
      have hrest := fun other hother => h other (List.mem_cons_of_mem stroke hother)
      have hends := ends_iff behind stroke hfirst states
      rw [List.flatMap_cons, getLineLoop_stroke behind stroke hfirst.code_lt.2]
      by_cases hlast : Ends (stroke.key behind states)
      · rw [if_pos hlast]
        refine iff_of_true rfl ?_
        rcases hends.mp hlast with rfl | rfl
        · exact .inl (List.mem_cons_self ..)
        · exact .inr (List.mem_cons_self ..)
      · rw [hends, not_or] at hlast
        rw [if_neg (fun hnow => (hends.mp hnow).elim hlast.1 hlast.2), ih hrest, List.mem_cons,
          List.mem_cons, or_iff_right (Ne.symm hlast.1), or_iff_right (Ne.symm hlast.2)]

theorem mem_take_iff (strokes : List Stroke) (n : Nat) (stroke : Stroke) :
    stroke ∈ strokes.take n ↔ ∃ i < n, strokes[i]? = some stroke := by
  rw [List.mem_iff_getElem?]
  constructor
  · rintro ⟨i, hi⟩
    rw [List.getElem?_take] at hi
    split at hi
    · exact ⟨i, ‹_›, hi⟩
    · cases hi
  · rintro ⟨i, hlt, hi⟩
    exact ⟨i, by rw [List.getElem?_take, if_pos hlt, hi]⟩

-- `kbGetLine` has returned after a part of the strokes exactly when Enter has
-- gone down in it, for every part, as long as the keypad's 0 does not come first.
theorem line_ends_iff (strokes : List Stroke) (h : ∀ stroke ∈ strokes, stroke.Covered)
    (states : KeyStates) (line : Line) :
    (∀ n, (getLineLoop behind ((strokes.take n).flatMap Stroke.encode) false states
        line).isSome = true ↔ enterMake ∈ strokes.take n) ↔
      ∀ i : Nat, strokes[i]? = some keypadZeroMake →
        ∃ j : Nat, j < i ∧ strokes[j]? = some enterMake := by
  have hpart (n : Nat) := getLineLoop_isSome behind (strokes.take n)
    (fun stroke hstroke => h stroke (List.mem_of_mem_take hstroke)) states line
  constructor
  · intro hends i hi
    have hzero : keypadZeroMake ∈ strokes.take (i + 1) :=
      (mem_take_iff strokes (i + 1) keypadZeroMake).mpr ⟨i, Nat.lt_succ_self i, hi⟩
    have hreturned := (hends (i + 1)).mp ((hpart (i + 1)).mpr (.inr hzero))
    obtain ⟨j, hj, henter⟩ := (mem_take_iff strokes (i + 1) enterMake).mp hreturned
    refine ⟨j, Nat.lt_of_le_of_ne (Nat.le_of_lt_succ hj) ?_, henter⟩
    rintro rfl
    rw [hi] at henter
    cases henter
  · intro hfirst n
    rw [hpart n, or_iff_left_iff_imp]
    intro hzero
    obtain ⟨i, hi, hat⟩ := (mem_take_iff strokes n keypadZeroMake).mp hzero
    obtain ⟨j, hj, henter⟩ := hfirst i hat
    exact (mem_take_iff strokes n enterMake).mpr ⟨j, Nat.lt_trans hj hi, henter⟩

def letterMake : Stroke := { extended := false, code := 0x1E, release := false }

def emptyLine : Line :=
  { buffer := fun _ => 0, index := 0, size := 1, term := Tio.emptyTerminal }

theorem line_ends_iff_letter_and_enter :
    (∀ n, (getLineLoop (fun _ _ => 0) (([letterMake, enterMake].take n).flatMap Stroke.encode)
        false (fun _ => false) emptyLine).isSome = true ↔
          enterMake ∈ [letterMake, enterMake].take n) ↔
      ∀ i : Nat, [letterMake, enterMake][i]? = some keypadZeroMake →
        ∃ j : Nat, j < i ∧ [letterMake, enterMake][j]? = some enterMake := by
  refine line_ends_iff _ _ (fun stroke hstroke => ?_) _ _
  rcases List.mem_cons.mp hstroke with rfl | hstroke
  · exact show 0x1E < 88 by decide
  · rw [List.mem_singleton.mp hstroke]
    exact show 0x1C < 88 by decide

-- The keypad's 0 alone ends the line.
theorem keypad_zero_ends_line :
    ¬∀ (behind : List UInt8 → Nat → UInt8) (strokes : List Stroke) (line : Line),
      (∀ stroke ∈ strokes, stroke.Covered) →
      ∀ n, (getLineLoop behind ((strokes.take n).flatMap Stroke.encode) false (fun _ => false)
        line).isSome = true ↔ enterMake ∈ strokes.take n := by
  intro h
  have hcovered : ∀ stroke ∈ [keypadZeroMake], stroke.Covered := by
    intro stroke hstroke
    rw [List.mem_singleton.mp hstroke]
    exact show 0x52 < 88 by decide
  have hends := h (fun _ _ => 0) [keypadZeroMake] emptyLine hcovered 1
  have hreturned := (getLineLoop_isSome (fun _ _ => 0) [keypadZeroMake] hcovered (fun _ => false)
    emptyLine).mpr (.inr (List.mem_cons_self ..))
  exact absurd (hends.mp hreturned) (by decide)

end Enter

section Modifiers

-- The last event of the key was a make.
def lastDown (isKey : Stroke → Bool) (history : List Stroke) : Bool :=
  ((history.filter isKey).getLast?.map fun stroke => !stroke.release).getD false

def oddMakes (isKey : Stroke → Bool) (history : List Stroke) : Bool :=
  history.countP (fun stroke => isKey stroke && !stroke.release) % 2 == 1

def Stroke.isPlain (code : UInt8) (stroke : Stroke) : Bool :=
  !stroke.extended && stroke.code == code

def LEFT_SHIFT : UInt8 := 0x2A
def RIGHT_SHIFT : UInt8 := 0x36
def CAPS_LOCK : UInt8 := 0x3A
def F12 : UInt8 := 0x58

def shiftHeld (history : List Stroke) : Bool :=
  lastDown (Stroke.isPlain LEFT_SHIFT) history || lastDown (Stroke.isPlain RIGHT_SHIFT) history ||
    oddMakes (Stroke.isPlain CAPS_LOCK) history

-- A key, with F12 counted as it when the byte behind the table is the key's.
def actsAs (beyond mapped_code code : UInt8) (stroke : Stroke) : Bool :=
  stroke.isPlain code || (beyond == mapped_code && stroke.isPlain F12)

def shiftHeldWithF12 (beyond : UInt8) (history : List Stroke) : Bool :=
  lastDown (actsAs beyond KEY_L_SHIFT LEFT_SHIFT) history ||
    lastDown (actsAs beyond KEY_R_SHIFT RIGHT_SHIFT) history ||
    oddMakes (actsAs beyond KEY_CAPS CAPS_LOCK) history

theorem lastDown_snoc (isKey : Stroke → Bool) (history : List Stroke) (stroke : Stroke) :
    lastDown isKey (history ++ [stroke]) =
      if isKey stroke then !stroke.release else lastDown isKey history := by
  rw [lastDown, lastDown, List.filter_append]
  by_cases hkey : isKey stroke = true
  · rw [if_pos hkey, List.filter_cons_of_pos hkey, List.filter_nil, List.getLast?_append]
    rfl
  · rw [if_neg hkey, List.filter_cons_of_neg hkey, List.filter_nil, List.append_nil]

theorem oddMakes_snoc (isKey : Stroke → Bool) (history : List Stroke) (stroke : Stroke) :
    oddMakes isKey (history ++ [stroke]) =
      if isKey stroke && !stroke.release then !oddMakes isKey history
      else oddMakes isKey history := by
  rw [oddMakes, oddMakes, List.countP_append, List.countP_singleton]
  by_cases hkey : (isKey stroke && !stroke.release) = true
  · rw [if_pos hkey, if_pos hkey]
    generalize history.countP (fun stroke => isKey stroke && !stroke.release) = count
    rcases Nat.mod_two_eq_zero_or_one count with heven | hodd
    · have hnext : (count + 1) % 2 = 1 := by omega
      rw [heven, hnext]
      rfl
    · have hnext : (count + 1) % 2 = 0 := by omega
      rw [hodd, hnext]
      rfl
  · rw [if_neg hkey, if_neg hkey, Nat.add_zero]

-- Codes below 0x59, the last of which is F12's.
def Stroke.Known (stroke : Stroke) : Prop := stroke.Below 0x59 120

variable (behind : List UInt8 → Nat → UInt8)

-- The byte that F12 reads.
def beyondTable : UInt8 := behind scancode_set1ToMapped 88

theorem set1_modifiers : ∀ n < 88,
    (scancode_set1ToMapped.getD n 0 = KEY_L_SHIFT ↔ n = 0x2A) ∧
    (scancode_set1ToMapped.getD n 0 = KEY_R_SHIFT ↔ n = 0x36) ∧
    (scancode_set1ToMapped.getD n 0 = KEY_CAPS ↔ n = 0x3A) := by decide

theorem special_modifiers : ∀ n < 120,
    special_keys_to_mapped.getD n 0 ≠ KEY_L_SHIFT ∧
    special_keys_to_mapped.getD n 0 ≠ KEY_R_SHIFT ∧
    special_keys_to_mapped.getD n 0 ≠ KEY_CAPS := by decide

structure Tracks (history : List Stroke) (states : KeyStates) : Prop where
  left : states KEY_L_SHIFT = lastDown (actsAs (beyondTable behind) KEY_L_SHIFT LEFT_SHIFT) history
  right : states KEY_R_SHIFT =
    lastDown (actsAs (beyondTable behind) KEY_R_SHIFT RIGHT_SHIFT) history
  caps : states KEY_CAPS = oddMakes (actsAs (beyondTable behind) KEY_CAPS CAPS_LOCK) history

theorem plainStates_of_ne (code : UInt8) (states : KeyStates) (key : UInt8)
    (hkey : key ≠ KEY_CAPS) :
    plainStates behind code states key =
      if set1ToMapped behind (keyCode code) = key then pressed code else states key := by
  simp only [plainStates]
  by_cases hsame : set1ToMapped behind (keyCode code) = key
  · have hother : ¬(Unknown behind code ∧ set1ToMapped behind (keyCode code) = KEY_CAPS) := by
      rintro ⟨-, hcaps⟩
      exact hkey (hsame.symm.trans hcaps)
    rw [if_neg hother, if_pos hsame, hsame, Function.update_self]
  · rw [if_neg hsame]
    split
    · split
      · rw [Function.update_of_ne hkey]
      · rfl
    · rw [Function.update_of_ne (Ne.symm hsame)]

theorem plainStates_caps (code : UInt8) (states : KeyStates)
    (hunknown : set1ToMapped behind (keyCode code) = KEY_CAPS → Unknown behind code) :
    plainStates behind code states KEY_CAPS =
      if set1ToMapped behind (keyCode code) = KEY_CAPS ∧ pressed code = true then
        !states KEY_CAPS
      else states KEY_CAPS := by
  simp only [plainStates]
  by_cases hsame : set1ToMapped behind (keyCode code) = KEY_CAPS
  · rw [if_pos ⟨hunknown hsame, hsame⟩]
    cases hpressed : pressed code with
    | true => rw [if_pos rfl, if_pos ⟨hsame, rfl⟩, Function.update_self]
    | false => rw [if_neg Bool.false_ne_true, if_neg (fun h => Bool.false_ne_true h.2)]
  · rw [if_neg (fun h => hsame h.2), if_neg (fun h => hsame h.1),
      Function.update_of_ne (Ne.symm hsame)]

-- The place of a modifier in `key_states` belongs to its own key, and to F12 when
-- the byte that F12 reads says so.
theorem mapped_iff (stroke : Stroke) (hplain : stroke.extended = false)
    (hlow : stroke.code.toNat < 0x59) (mapped_code own : UInt8) (hown : own.toNat < 88)
    (htable : ∀ n < 88, scancode_set1ToMapped.getD n 0 = mapped_code ↔ n = own.toNat) :
    set1ToMapped behind stroke.code = mapped_code ↔
      actsAs (beyondTable behind) mapped_code own stroke = true := by
  have hsame (code : UInt8) : stroke.code.toNat = code.toNat ↔ stroke.code = code :=
    UInt8.toNat_inj
  simp only [actsAs, Stroke.isPlain, hplain, Bool.not_false, Bool.true_and, Bool.or_eq_true,
    beq_iff_eq, Bool.and_eq_true]
  by_cases hlast : stroke.code = F12
  · have hread : set1ToMapped behind stroke.code = beyondTable behind := by
      rw [hlast]
      rfl
    have hother : stroke.code ≠ own := by
      rintro heq
      rw [← heq, hlast] at hown
      exact absurd hown (by decide)
    rw [hread, or_iff_right hother, and_iff_left hlast]
  · have hin : stroke.code.toNat < 88 := by
      have hne : stroke.code.toNat ≠ 88 := fun h => hlast ((hsame F12).mp h)
      omega
    rw [set1ToMapped, tableRead_inside behind scancode_set1ToMapped stroke.code hin,
      htable _ hin, hsame own, or_iff_left (fun h => hlast h.2)]

-- Caps Lock has no character, nor has F12.
theorem caps_unknown (stroke : Stroke) (hplain : stroke.extended = false) (h : stroke.Known)
    (hcaps : set1ToMapped behind stroke.code = KEY_CAPS) : Unknown behind stroke.byte := by
  obtain ⟨hdown, -⟩ := Stroke.Below.code_lt h (by decide) (by decide)
  rw [Stroke.Known, Stroke.Below, hplain] at h
  have hacts := (mapped_iff behind stroke hplain h KEY_CAPS CAPS_LOCK (by decide)
    fun n hn => (set1_modifiers n hn).2.2).mp hcaps
  have hcode : stroke.code = CAPS_LOCK ∨ stroke.code = F12 := by
    simp only [actsAs, Stroke.isPlain, hplain, Bool.not_false, Bool.true_and, Bool.or_eq_true,
      beq_iff_eq, Bool.and_eq_true] at hacts
    exact hacts.imp_right And.right
  rw [Unknown, (stroke.byte_spec hdown).2.1]
  rcases hcode with hcode | hcode
  · rw [hcode]
    rfl
  · rw [hcode]
    rfl

theorem tracks_after (history : List Stroke) (stroke : Stroke) (h : stroke.Known)
    (states : KeyStates) (htracks : Tracks behind history states) :
    Tracks behind (history ++ [stroke]) (stroke.after behind states) := by
  obtain ⟨hlow, -⟩ := Stroke.Below.code_lt h (by decide) (by decide)
  obtain ⟨hdown, hcode, -⟩ := stroke.byte_spec hlow
  cases hextended : stroke.extended with
  | true =>
      have hrange : stroke.code.toNat < 120 := by
        rw [Stroke.Known, Stroke.Below, hextended] at h
        exact h
      have hspecial : specialToMapped behind stroke.code =
          special_keys_to_mapped.getD stroke.code.toNat 0 :=
        tableRead_inside behind special_keys_to_mapped stroke.code hrange
      obtain ⟨hleft, hright, hcaps⟩ := special_modifiers stroke.code.toNat hrange
      have hidle (beyond mapped_code own : UInt8) :
          actsAs beyond mapped_code own stroke = false := by
        simp [actsAs, Stroke.isPlain, hextended]
      have hafter : stroke.after behind states = Function.update states
          (special_keys_to_mapped.getD stroke.code.toNat 0) (!stroke.release) := by
        rw [Stroke.after, hextended, if_pos rfl, e0States, hcode, hdown, hspecial]
      rw [hafter]
      refine ⟨?_, ?_, ?_⟩
      · rw [lastDown_snoc, hidle, if_neg Bool.false_ne_true,
          Function.update_of_ne (Ne.symm hleft), htracks.left]
      · rw [lastDown_snoc, hidle, if_neg Bool.false_ne_true,
          Function.update_of_ne (Ne.symm hright), htracks.right]
      · rw [oddMakes_snoc, hidle, Bool.false_and, if_neg Bool.false_ne_true,
          Function.update_of_ne (Ne.symm hcaps), htracks.caps]
  | false =>
      have hrange : stroke.code.toNat < 0x59 := by
        rw [Stroke.Known, Stroke.Below, hextended] at h
        exact h
      have hleft := mapped_iff behind stroke hextended hrange KEY_L_SHIFT LEFT_SHIFT (by decide)
        fun n hn => (set1_modifiers n hn).1
      have hright := mapped_iff behind stroke hextended hrange KEY_R_SHIFT RIGHT_SHIFT (by decide)
        fun n hn => (set1_modifiers n hn).2.1
      have hcaps := mapped_iff behind stroke hextended hrange KEY_CAPS CAPS_LOCK (by decide)
        fun n hn => (set1_modifiers n hn).2.2
      have hunknown := caps_unknown behind stroke hextended h
      have hafter : stroke.after behind states = plainStates behind stroke.byte states := by
        rw [Stroke.after, hextended, if_neg Bool.false_ne_true]
      rw [hafter]
      refine ⟨?_, ?_, ?_⟩
      · rw [lastDown_snoc, plainStates_of_ne _ _ _ _ (by decide), hcode, hdown, htracks.left]
        simp only [hleft]
      · rw [lastDown_snoc, plainStates_of_ne _ _ _ _ (by decide), hcode, hdown, htracks.right]
        simp only [hright]
      · rw [oddMakes_snoc, plainStates_caps _ _ _ (by rw [hcode]; exact hunknown), hcode, hdown,
          htracks.caps]
        simp only [hcaps, Bool.and_eq_true]

theorem tracks_statesAfter (strokes : List Stroke) (h : ∀ stroke ∈ strokes, stroke.Known) :
    Tracks behind strokes (statesAfter behind strokes fun _ => false) := by
  induction strokes using List.reverseRecOn with
  | nil => exact ⟨rfl, rfl, rfl⟩
  | append_singleton history stroke ih =>
      have hhistory := ih fun other hother => h other (List.mem_append_left _ hother)
      have hstroke := h stroke (List.mem_append_right _ (List.mem_singleton.mpr rfl))
      rw [statesAfter, List.foldl_append]
      exact tracks_after behind history stroke hstroke _ hhistory

-- A key with a character going down.
def Stroke.Prints (stroke : Stroke) : Prop :=
  stroke.extended = false ∧ stroke.release = false ∧
    scancode_set1.getD stroke.code.toNat 0 ≠ 63

theorem key_prints_iff (stroke : Stroke) (h : stroke.Known) (states : KeyStates) :
    ((stroke.key behind states).printable = true ∧
      (stroke.key behind states).down_stroke = true ↔ stroke.Prints) ∧
    (stroke.Prints → (stroke.key behind states).capitalized =
      anyShift (stroke.after behind states)) := by
  obtain ⟨hlow, -⟩ := Stroke.Below.code_lt h (by decide) (by decide)
  obtain ⟨hdown, hcode, -⟩ := stroke.byte_spec hlow
  rw [Stroke.Known, Stroke.Below] at h
  rw [Stroke.key, Stroke.after, Stroke.Prints]
  cases hextended : stroke.extended with
  | true => simp [e0Key]
  | false =>
      have hrange : stroke.code.toNat < 90 := by
        rw [hextended] at h
        exact Nat.lt_trans h (by decide)
      have hunknown : Unknown behind stroke.byte ↔
          scancode_set1.getD stroke.code.toNat 0 = 63 := by
        rw [Unknown, hcode, tableRead_inside behind scancode_set1 stroke.code hrange]
      simp only [Bool.false_eq_true, if_false, plainKey, hunknown, hdown, true_and]
      refine ⟨?_, ?_⟩
      · rw [decide_eq_true_iff, Bool.not_eq_true', and_comm]
      · rintro ⟨hmake, hprints⟩
        rw [decide_eq_true hprints, hmake]
        rfl

theorem capitalized_held (strokes : List Stroke) (h : ∀ stroke ∈ strokes, stroke.Known)
    (n : Nat) (stroke : Stroke) (hat : strokes[n]? = some stroke) (hprints : stroke.Prints) :
    (stroke.key behind (statesAfter behind (strokes.take n) fun _ => false)).capitalized =
      shiftHeldWithF12 (beyondTable behind) (strokes.take (n + 1)) := by
  have hknown := h stroke (List.mem_of_getElem? hat)
  have hhistory : strokes.take (n + 1) = strokes.take n ++ [stroke] := by
    rw [List.take_add_one, hat]
    rfl
  have htracks := tracks_after behind _ stroke hknown _
    (tracks_statesAfter behind (strokes.take n)
      fun other hother => h other (List.mem_of_mem_take hother))
  rw [(key_prints_iff behind stroke hknown _).2 hprints, hhistory, anyShift, shiftHeldWithF12,
    htracks.left, htracks.right, htracks.caps]

-- Every character key that goes down is capitalized as the shifts and Caps Lock
-- say.
def CapitalizedRight (strokes : List Stroke) : Prop :=
  ∀ (n : Nat) (key : MappedKey),
    (keysOf behind (strokes.flatMap Stroke.encode) false fun _ => false)[n]? = some key →
      key.printable = true → key.down_stroke = true →
        (key.capitalized = true ↔ shiftHeld (strokes.take (n + 1)) = true)

-- It is so exactly when counting F12 as the key behind the table changes no
-- answer, and so always when that byte is no modifier's.
theorem capitalized_iff (strokes : List Stroke) (h : ∀ stroke ∈ strokes, stroke.Known) :
    (CapitalizedRight behind strokes ↔
      ∀ (n : Nat) (stroke : Stroke), strokes[n]? = some stroke → stroke.Prints →
        shiftHeldWithF12 (beyondTable behind) (strokes.take (n + 1)) =
          shiftHeld (strokes.take (n + 1))) ∧
    (beyondTable behind ∉ [KEY_L_SHIFT, KEY_R_SHIFT, KEY_CAPS] →
      CapitalizedRight behind strokes) := by
  have hclear : ∀ stroke ∈ strokes, stroke.Clear := fun stroke hstroke =>
    (Stroke.Below.code_lt (h stroke hstroke) (by decide) (by decide)).2
  have hiff : CapitalizedRight behind strokes ↔
      ∀ (n : Nat) (stroke : Stroke), strokes[n]? = some stroke → stroke.Prints →
        shiftHeldWithF12 (beyondTable behind) (strokes.take (n + 1)) =
          shiftHeld (strokes.take (n + 1)) := by
    constructor
    · intro hright n stroke hat hprints
      have hkey := keysOf_encode behind strokes hclear (fun _ => false) n
      rw [hat, Option.map_some] at hkey
      obtain ⟨hprintable, hdown⟩ := (key_prints_iff behind stroke
        (h stroke (List.mem_of_getElem? hat)) _).1.mpr hprints
      rw [← capitalized_held behind strokes h n stroke hat hprints]
      exact Bool.eq_iff_iff.mpr (hright n _ hkey hprintable hdown)
    · intro hsame n key hkey hprintable hdown
      rw [keysOf_encode behind strokes hclear, Option.map_eq_some_iff] at hkey
      obtain ⟨stroke, hat, rfl⟩ := hkey
      have hprints := (key_prints_iff behind stroke
        (h stroke (List.mem_of_getElem? hat)) _).1.mp ⟨hprintable, hdown⟩
      rw [capitalized_held behind strokes h n stroke hat hprints, hsame n stroke hat hprints]
  refine ⟨hiff, fun hother => hiff.mpr fun n stroke _ _ => ?_⟩
  simp only [List.mem_cons, List.not_mem_nil, or_false, not_or] at hother
  obtain ⟨hleft, hright, hcaps⟩ := hother
  have hplain (mapped_code own : UInt8) (hne : beyondTable behind ≠ mapped_code) :
      actsAs (beyondTable behind) mapped_code own = Stroke.isPlain own := by
    funext stroke
    rw [actsAs, beq_false_of_ne hne, Bool.false_and, Bool.or_false]
  rw [shiftHeldWithF12, hplain _ _ hleft, hplain _ _ hright, hplain _ _ hcaps, shiftHeld]

def f12Make : Stroke := { extended := false, code := F12, release := false }

theorem f12_letter_known : ∀ stroke ∈ [f12Make, letterMake], stroke.Known := by
  intro stroke hstroke
  rcases List.mem_cons.mp hstroke with rfl | hstroke
  · exact show 0x58 < 0x59 by decide
  · rw [List.mem_singleton.mp hstroke]
    exact show 0x1E < 0x59 by decide

theorem capitalized_iff_f12_letter :
    (CapitalizedRight (fun _ _ => 0) [f12Make, letterMake] ↔
      ∀ (n : Nat) (stroke : Stroke), [f12Make, letterMake][n]? = some stroke → stroke.Prints →
        shiftHeldWithF12 (beyondTable fun _ _ => 0) ([f12Make, letterMake].take (n + 1)) =
          shiftHeld ([f12Make, letterMake].take (n + 1))) ∧
    (beyondTable (fun _ _ => 0) ∉ [KEY_L_SHIFT, KEY_R_SHIFT, KEY_CAPS] →
      CapitalizedRight (fun _ _ => 0) [f12Make, letterMake]) :=
  capitalized_iff (fun _ _ => 0) [f12Make, letterMake] f12_letter_known

-- With the left shift's code behind the table F12 stays a shift.
theorem f12_capitalizes :
    ¬∀ (behind : List UInt8 → Nat → UInt8) (strokes : List Stroke),
      (∀ stroke ∈ strokes, stroke.Known) → CapitalizedRight behind strokes := by
  intro h
  have hright := h (fun _ _ => KEY_L_SHIFT) [f12Make, letterMake] f12_letter_known 1
    { mapped_code := 0x61
      scancode := 0x1E
      e0_key := false
      printable := true
      down_stroke := true
      capitalized := true } (by decide +kernel) rfl rfl
  exact absurd (hright.mp rfl) (by decide)

end Modifiers

end PalleyOS.Keyboard
