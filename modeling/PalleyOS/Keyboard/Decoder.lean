import PalleyOS.Keyboard.Input

namespace PalleyOS.Keyboard

open Machine

-- `kbNextMappedKey` as a function of the bytes it takes and of `key_states`.
section Decoding

variable (behind : List UInt8 → Nat → UInt8)

abbrev KeyStates := UInt8 → Bool

def pressed (code : UInt8) : Bool := (code &&& (1 : UInt8) <<< 7) == 0

def keyCode (code : UInt8) : UInt8 := if pressed code then code else code ^^^ (1 : UInt8) <<< 7

-- A '?' stands for no character.
def Unknown (code : UInt8) : Prop := tableRead behind scancode_set1 (keyCode code) = 63

instance (code : UInt8) : Decidable (Unknown behind code) :=
  inferInstanceAs (Decidable (tableRead behind scancode_set1 (keyCode code) = 63))

def e0States (code : UInt8) (states : KeyStates) : KeyStates :=
  Function.update states (specialToMapped behind (keyCode code)) (pressed code)

def e0Key (code : UInt8) : MappedKey :=
  { mapped_code := specialToMapped behind (keyCode code)
    scancode := keyCode code
    e0_key := true
    printable := false
    down_stroke := pressed code
    capitalized := false }

def plainStates (code : UInt8) (states : KeyStates) : KeyStates :=
  let mapped_code := set1ToMapped behind (keyCode code)
  if Unknown behind code ∧ mapped_code = KEY_CAPS then
    if pressed code then Function.update states KEY_CAPS (!states KEY_CAPS) else states
  else Function.update states mapped_code (pressed code)

def anyShift (states : KeyStates) : Bool :=
  states KEY_L_SHIFT || states KEY_R_SHIFT || states KEY_CAPS

def plainKey (code : UInt8) (states : KeyStates) : MappedKey :=
  let printable := decide (¬Unknown behind code)
  { mapped_code := set1ToMapped behind (keyCode code)
    scancode := keyCode code
    e0_key := false
    printable := printable
    down_stroke := pressed code
    capitalized := printable && pressed code && anyShift (plainStates behind code states) }

-- The keys that come out of a stream of bytes, `extended` between a 0xE0 and the
-- byte that `handleE0Key` takes.
def keysOf : List UInt8 → Bool → KeyStates → List MappedKey
  | [], _, _ => []
  | code :: rest, extended, states =>
      if extended then e0Key behind code :: keysOf rest false (e0States behind code states)
      else if code = 0xE0 then keysOf rest true states
      else plainKey behind code states :: keysOf rest false (plainStates behind code states)

def Ends (key : MappedKey) : Prop := key.down_stroke = true ∧ key.mapped_code = KEY_ENTER

instance (key : MappedKey) : Decidable (Ends key) :=
  inferInstanceAs (Decidable (key.down_stroke = true ∧ key.mapped_code = KEY_ENTER))

-- The loop of `kbGetLine` on the bytes, with what is left of them when it ends.
-- `none` when it still waits after the last one. Where `handleE0Key` reads the next cell
-- at once, the byte behind 0xE0 is taken to be there.
def getLineLoop : List UInt8 → Bool → KeyStates → Line → Option (Line × List UInt8)
  | [], _, _, _ => none
  | code :: rest, extended, states, line =>
      if extended then
        if Ends (e0Key behind code) then some (processKey (e0Key behind code) line, rest)
        else getLineLoop rest false (e0States behind code states)
          (processKey (e0Key behind code) line)
      else if code = 0xE0 then getLineLoop rest true states line
      else
        if Ends (plainKey behind code states) then
          some (processKey (plainKey behind code states) line, rest)
        else getLineLoop rest false (plainStates behind code states)
          (processKey (plainKey behind code states) line)

-- The line of a finished loop is that of the keys it processed.
theorem getLineLoop_processed (codes : List UInt8) (extended : Bool) (states : KeyStates)
    (line result : Line) (rest : List UInt8)
    (h : getLineLoop behind codes extended states line = some (result, rest)) :
    result = (processed (keysOf behind codes extended states)).foldl
      (fun line key => processKey key line) line := by
  have hstep (key : MappedKey) (keys : List MappedKey) : processed (key :: keys) =
      if Ends key then [key] else key :: processed keys := rfl
  induction codes generalizing extended states line with
  | nil => cases h
  | cons code codes ih =>
      rw [getLineLoop] at h
      rw [keysOf]
      cases extended with
      | true =>
          simp only [if_true] at h ⊢
          rw [hstep]
          split at h
          · rw [if_pos ‹_›]
            cases h
            rfl
          · rw [if_neg ‹_›]
            exact ih false _ _ h
      | false =>
          simp only [Bool.false_eq_true, if_false] at h ⊢
          split at h
          · rw [if_pos ‹_›]
            exact ih true states line h
          · rw [if_neg ‹_›, hstep]
            split at h
            · rw [if_pos ‹_›]
              cases h
              rfl
            · rw [if_neg ‹_›]
              exact ih false _ _ h

end Decoding

-- Interrupts between the accesses change nothing of it.
section Shared

variable (behind : List UInt8 → Nat → UInt8) {α : Type} (t : Code)

def keyStates (t : Code) : KeyStates := t.memory.keyboard.key_states

theorem key_states_stable (states : KeyStates) :
    Thread.Stable isr (fun kernel => kernel.keyboard.key_states = states) := by
  intro interrupt kernel h
  cases interrupt <;> exact h

theorem interrupted_keyStates : keyStates (t.interrupted isr) = keyStates t :=
  (key_states_stable (keyStates t)).interrupted t rfl

@[simp] theorem load_keyStates (f : Kernel → α) : keyStates (load f t).2 = keyStates t :=
  interrupted_keyStates t

theorem storeKeyboard_keyStates (f : KeyboardState → KeyboardState) :
    keyStates (storeKeyboard f t) = (f (t.interrupted isr).memory.keyboard).key_states := rfl

@[simp] theorem setKey_keyStates (mapped_code : UInt8) (being_pressed : Bool) :
    keyStates (storeKeyboard (setKey mapped_code being_pressed) t) =
      Function.update (keyStates t) mapped_code being_pressed := by
  rw [storeKeyboard_keyStates, ← interrupted_keyStates t]
  rfl

theorem toggled_keyStates :
    keyStates (storeKeyboard (fun keyboard => setKey KEY_CAPS (!keyboard.key_states KEY_CAPS)
      keyboard) t) = Function.update (keyStates t) KEY_CAPS (!keyStates t KEY_CAPS) := by
  rw [storeKeyboard_keyStates, ← interrupted_keyStates t]
  rfl

@[simp] theorem takeCode_keyStates : keyStates (takeCode t).2 = keyStates t := by
  have hslot := load_keyStates t fun kernel => kernel.keyboard.queue_ridx
  simp only [takeCode, load_keyStates, storeKeyboard_keyStates]
  rw [← hslot]
  exact interrupted_keyStates _

theorem keyState_value (key : UInt8) : (keyState key t).1 = keyStates t key :=
  congrFun (interrupted_keyStates t) key

@[simp] theorem keyState_keyStates (key : UInt8) : keyStates (keyState key t).2 = keyStates t :=
  load_keyStates t _

theorem shifted_value : (shifted t).1 = anyShift (keyStates t) ∧
    keyStates (shifted t).2 = keyStates t := by
  simp only [shifted, anyShift, keyState_value, keyState_keyStates]
  cases hleft : keyStates t KEY_L_SHIFT with
  | true => simp
  | false =>
      cases hright : keyStates t KEY_R_SHIFT with
      | true => simp
      | false => simp [keyState_value]

theorem nextMappedKey_extended (h : (takeCode t).1 = 0xE0) :
    (nextMappedKey behind t).1 = e0Key behind (takeCode (takeCode t).2).1 ∧
    keyStates (nextMappedKey behind t).2 =
      e0States behind (takeCode (takeCode t).2).1 (keyStates t) := by
  simp only [nextMappedKey, h, if_true, handleE0Key, setKey_keyStates, takeCode_keyStates]
  exact ⟨rfl, rfl⟩

theorem handleUnknownKey_eq (code mapped_code : UInt8) (being_pressed : Bool) :
    keyStates (handleUnknownKey code mapped_code being_pressed t).2 =
      if mapped_code = KEY_CAPS then
        if being_pressed then Function.update (keyStates t) KEY_CAPS (!keyStates t KEY_CAPS)
        else keyStates t
      else Function.update (keyStates t) mapped_code being_pressed := by
  simp only [handleUnknownKey]
  by_cases hcaps : mapped_code = KEY_CAPS
  · rw [if_neg (not_not_intro hcaps), if_pos hcaps]
    cases being_pressed with
    | true => exact toggled_keyStates t
    | false => rfl
  · rw [if_pos hcaps, if_neg hcaps, setKey_keyStates]

-- What the two branches of `kbNextMappedKey` without a prefix leave behind.
theorem nextMappedKey_plain (h : (takeCode t).1 ≠ 0xE0) :
    (nextMappedKey behind t).1 = plainKey behind (takeCode t).1 (keyStates t) ∧
    keyStates (nextMappedKey behind t).2 =
      plainStates behind (takeCode t).1 (keyStates t) := by
  have hkey : nextMappedKey behind t =
      if Unknown behind (takeCode t).1 then
        handleUnknownKey (keyCode (takeCode t).1)
          (set1ToMapped behind (keyCode (takeCode t).1)) (pressed (takeCode t).1) (takeCode t).2
      else
        let stored := storeKeyboard
          (setKey (set1ToMapped behind (keyCode (takeCode t).1)) (pressed (takeCode t).1))
          (takeCode t).2
        let answer := if pressed (takeCode t).1 then shifted stored else (false, stored)
        ({ mapped_code := set1ToMapped behind (keyCode (takeCode t).1)
           scancode := keyCode (takeCode t).1
           e0_key := false
           printable := true
           down_stroke := pressed (takeCode t).1
           capitalized := answer.1 }, answer.2) := by
    simp only [nextMappedKey, if_neg h]
    rfl
  rw [hkey]
  generalize (takeCode t).1 = code
  by_cases hunknown : Unknown behind code
  · have hplain : plainKey behind code (keyStates t) =
        { mapped_code := set1ToMapped behind (keyCode code)
          scancode := keyCode code
          e0_key := false
          printable := false
          down_stroke := pressed code
          capitalized := false } := by
      simp [plainKey, hunknown]
    rw [if_pos hunknown, hplain, handleUnknownKey_eq, takeCode_keyStates]
    refine ⟨rfl, ?_⟩
    simp only [plainStates, hunknown, true_and]
  · have hstates : plainStates behind code (keyStates t) =
        Function.update (keyStates t) (set1ToMapped behind (keyCode code)) (pressed code) := by
      simp [plainStates, hunknown]
    rw [if_neg hunknown, hstates]
    have hstored := setKey_keyStates (takeCode t).2 (set1ToMapped behind (keyCode code))
      (pressed code)
    rw [takeCode_keyStates] at hstored
    generalize storeKeyboard (setKey (set1ToMapped behind (keyCode code)) (pressed code))
      (takeCode t).2 = stored at hstored ⊢
    obtain ⟨hvalue, hkept⟩ := shifted_value stored
    cases hpressed : pressed code with
    | true =>
        rw [hpressed] at hstored
        simp only [if_true]
        refine ⟨?_, hkept.trans hstored⟩
        simp [plainKey, hunknown, hstates, hpressed, hvalue, hstored]
    | false =>
        rw [hpressed] at hstored
        refine ⟨?_, hstored⟩
        simp [plainKey, hunknown, hpressed]

end Shared

-- A key going down or up, as the keyboard sends it.
section Strokes

structure Stroke where
  extended : Bool
  code : UInt8
  release : Bool
  deriving DecidableEq, Repr

namespace Stroke

def byte (stroke : Stroke) : UInt8 :=
  if stroke.release then stroke.code ||| (1 : UInt8) <<< 7 else stroke.code

def encode (stroke : Stroke) : List UInt8 :=
  if stroke.extended then [0xE0, stroke.byte] else [stroke.byte]

-- The code is below `plain`, behind a prefix below `prefixed`.
def Below (plain prefixed : Nat) (stroke : Stroke) : Prop :=
  stroke.code.toNat < if stroke.extended then prefixed else plain

variable (behind : List UInt8 → Nat → UInt8)

def key (stroke : Stroke) (states : KeyStates) : MappedKey :=
  if stroke.extended then e0Key behind stroke.byte else plainKey behind stroke.byte states

def after (stroke : Stroke) (states : KeyStates) : KeyStates :=
  if stroke.extended then e0States behind stroke.byte states
  else plainStates behind stroke.byte states

end Stroke

-- A fact about every byte.
theorem forall_byte {p : UInt8 → Prop} (h : ∀ n < 256, p (UInt8.ofNat n)) :
    ∀ code, p code := by
  intro code
  have hcode := h code.toNat code.toNat_lt
  rw [UInt8.ofNat_toNat] at hcode
  exact hcode

theorem byte_decoded : ∀ code : UInt8, code < 128 →
    (pressed code = true ∧ keyCode code = code) ∧
    (pressed (code ||| (1 : UInt8) <<< 7) = false ∧
      keyCode (code ||| (1 : UInt8) <<< 7) = code) ∧
    (code < 0x60 → code ≠ 0xE0 ∧ code ||| (1 : UInt8) <<< 7 ≠ 0xE0) :=
  forall_byte (by decide +kernel)

theorem Stroke.byte_spec (stroke : Stroke) (h : stroke.code < 128) :
    pressed stroke.byte = !stroke.release ∧ keyCode stroke.byte = stroke.code ∧
    (stroke.code < 0x60 → stroke.byte ≠ 0xE0) := by
  obtain ⟨⟨hdown, hdown'⟩, ⟨hup, hup'⟩, hplain⟩ := byte_decoded stroke.code h
  rw [Stroke.byte]
  cases stroke.release with
  | true => exact ⟨hup, hup', fun hlow => (hplain hlow).2⟩
  | false => exact ⟨hdown, hdown', fun hlow => (hplain hlow).1⟩

variable (behind : List UInt8 → Nat → UInt8)

-- The prefix byte is not itself a stroke.
def Stroke.Clear (stroke : Stroke) : Prop := stroke.extended = true ∨ stroke.byte ≠ 0xE0

theorem Stroke.Below.code_lt {plain prefixed : Nat} {stroke : Stroke}
    (h : stroke.Below plain prefixed) (hplain : plain ≤ 0x60) (hplained : prefixed ≤ 128) :
    stroke.code < 128 ∧ stroke.Clear := by
  rw [Stroke.Below] at h
  have hlow : stroke.code < 128 := by
    rw [UInt8.lt_iff_toNat_lt]
    simp only [UInt8.reduceToNat]
    split at h <;> omega
  refine ⟨hlow, ?_⟩
  cases hextended : stroke.extended with
  | true => exact .inl hextended
  | false =>
      rw [hextended] at h
      refine .inr ((stroke.byte_spec hlow).2.2 ?_)
      rw [UInt8.lt_iff_toNat_lt]
      simp only [UInt8.reduceToNat]
      simp only [Bool.false_eq_true, if_false] at h
      omega

theorem keysOf_stroke (stroke : Stroke) (hclear : stroke.Clear) (rest : List UInt8)
    (states : KeyStates) :
    keysOf behind (stroke.encode ++ rest) false states =
      stroke.key behind states :: keysOf behind rest false (stroke.after behind states) := by
  rw [Stroke.encode, Stroke.key, Stroke.after]
  cases hextended : stroke.extended with
  | true => simp [keysOf]
  | false =>
      have hplain : stroke.byte ≠ 0xE0 := hclear.resolve_left (by simp [hextended])
      simp [keysOf, hplain]

theorem getLineLoop_stroke (stroke : Stroke) (hclear : stroke.Clear) (rest : List UInt8)
    (states : KeyStates) (line : Line) :
    getLineLoop behind (stroke.encode ++ rest) false states line =
      if Ends (stroke.key behind states) then
        some (processKey (stroke.key behind states) line, rest)
      else getLineLoop behind rest false (stroke.after behind states)
        (processKey (stroke.key behind states) line) := by
  rw [Stroke.encode, Stroke.key, Stroke.after]
  cases hextended : stroke.extended with
  | true => simp [getLineLoop]
  | false =>
      have hplain : stroke.byte ≠ 0xE0 := hclear.resolve_left (by simp [hextended])
      simp [getLineLoop, hplain]

def statesAfter (strokes : List Stroke) (states : KeyStates) : KeyStates :=
  strokes.foldl (fun states stroke => stroke.after behind states) states

-- The keys of a stream of strokes, one for one.
theorem keysOf_encode (strokes : List Stroke) (hclear : ∀ stroke ∈ strokes, stroke.Clear)
    (states : KeyStates) (n : Nat) :
    (keysOf behind (strokes.flatMap Stroke.encode) false states)[n]? =
      strokes[n]?.map fun stroke =>
        stroke.key behind (statesAfter behind (strokes.take n) states) := by
  induction strokes generalizing states n with
  | nil => rfl
  | cons stroke rest ih =>
      have hfirst := hclear stroke (List.mem_cons_self ..)
      have hrest := fun other hother => hclear other (List.mem_cons_of_mem stroke hother)
      rw [List.flatMap_cons, keysOf_stroke behind stroke hfirst]
      cases n with
      | zero => rfl
      | succ n =>
          rw [List.getElem?_cons_succ, List.getElem?_cons_succ, ih hrest, List.take_succ_cons]
          rfl

end Strokes

end PalleyOS.Keyboard
