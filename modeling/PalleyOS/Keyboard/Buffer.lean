import PalleyOS.Keyboard.Editor
import PalleyOS.Keyboard.Strokes

namespace PalleyOS.Keyboard

open Machine Tio

-- `kbGetLine` with every index that it gives to `buffer`.
section Recording

inductive BufferAccess where
  | read (index : Int)
  | write (index : Int)
  deriving DecidableEq

def BufferAccess.index : BufferAccess → Int
  | .read index => index
  | .write index => index

structure Recorded extends Line where
  accesses : List BufferAccess

def Recorded.read (i : Int) (r : Recorded) : UInt8 × Recorded :=
  (r.buffer i.toNat, { r with accesses := r.accesses ++ [.read i] })

def Recorded.write (i : Int) (value : UInt8) (r : Recorded) : Recorded :=
  { r with
    buffer := Function.update r.buffer i.toNat value
    accesses := r.accesses ++ [.write i] }

def Recorded.moveDown : Nat → Int → Recorded → Recorded
  | 0, _, r => r
  | remaining + 1, i, r =>
      let (value, r) := r.read (i + 1)
      Recorded.moveDown remaining (i + 1) (r.write i value)

def Recorded.moveUp : Nat → Int → Recorded → Recorded
  | 0, _, r => r
  | remaining + 1, i, r =>
      let (value, r) := r.read (i - 1)
      Recorded.moveUp remaining (i - 1) (r.write i value)

def Recorded.backspace (r : Recorded) : Recorded :=
  if r.index ≤ 0 then r
  else
    let r := { r with term := tio_shift_left r.term }
    let r :=
      if r.index ≠ r.size - 1 then
        Recorded.moveDown (r.size - r.index).toNat (r.index - 1) r
      else r
    let index := r.index - 1
    let size := r.size - 1
    let r :=
      { r with
        index := if index < 0 then 0 else index
        size := if size < 1 then 1 else size }
    let r := r.write (r.size - 1) 0
    { r with term := tio_backspace r.term }

def Recorded.insertChar (ret : UInt8) (r : Recorded) : Recorded :=
  let r :=
    if r.index ≠ r.size - 1 then
      let r := Recorded.moveUp (r.size - r.index).toNat r.size r
      { r with term := tio_shift_right r.term }
    else r
  let r := r.write r.index ret
  let r := { r with term := tio_write [ret] r.term, index := r.index + 1, size := r.size + 1 }
  r.write (r.size - 1) 0

def Recorded.processKey (key : MappedKey) (r : Recorded) : Recorded :=
  if key.down_stroke = false then r
  else if !key.printable then
    if key.mapped_code = KEY_ARROW_LEFT then { r with toLine := arrowLeft r.toLine }
    else if key.mapped_code = KEY_ARROW_RIGHT then { r with toLine := arrowRight r.toLine }
    else if key.mapped_code = KEY_ARROW_UP then
      { r with term := tio_shift_view .SHIFT_DIRECTION_DOWN 1 r.term }
    else if key.mapped_code = KEY_ARROW_DOWN then
      { r with term := tio_shift_view .SHIFT_DIRECTION_UP 1 r.term }
    else if key.mapped_code = KEY_BACKSPACE then r.backspace
    else r
  else r.insertChar (keyChar key)

-- Between two keys.
structure Bounded (line : Line) : Prop where
  size_low : 1 ≤ line.size
  index_low : 0 ≤ line.index
  index_high : line.index ≤ line.size - 1

end Recording

-- The loops, without and with their accesses.
section Loops

theorem moveDown_line (remaining : Nat) (i : Int) (r : Recorded) (hi : 0 ≤ i) :
    (Recorded.moveDown remaining i r).toLine =
      { r.toLine with buffer := moveDown remaining i.toNat r.buffer } := by
  induction remaining generalizing i r with
  | zero => rfl
  | succ remaining ih =>
      have hnext : (i + 1).toNat = i.toNat + 1 := by omega
      rw [Recorded.moveDown, ih _ _ (by omega), moveDown, hnext]
      simp only [Recorded.read, Recorded.write, hnext]

theorem moveUp_line (remaining : Nat) (i : Int) (r : Recorded) (hi : (remaining : Int) ≤ i) :
    (Recorded.moveUp remaining i r).toLine =
      { r.toLine with buffer := moveUp remaining i.toNat r.buffer } := by
  induction remaining generalizing i r with
  | zero => rfl
  | succ remaining ih =>
      have hnext : (i - 1).toNat = i.toNat - 1 := by omega
      rw [Recorded.moveUp, ih _ _ (by omega), moveUp, hnext]
      simp only [Recorded.read, Recorded.write, hnext]

theorem mem_moveDown (remaining : Nat) (i : Int) (r : Recorded) (a : BufferAccess) :
    a ∈ (Recorded.moveDown remaining i r).accesses ↔
      a ∈ r.accesses ∨ ∃ k < remaining, a = .read (i + k + 1) ∨ a = .write (i + k) := by
  induction remaining generalizing i r with
  | zero => simp [Recorded.moveDown]
  | succ remaining ih =>
      have hshift (k : Nat) : i + 1 + k = i + (k + 1 : Nat) := by omega
      rw [Recorded.moveDown, ih, Nat.exists_lt_succ_left]
      simp only [Recorded.read, Recorded.write, List.mem_append, List.mem_singleton, hshift,
        Int.natCast_zero, Int.add_zero]
      rw [or_assoc, or_assoc, or_assoc]

theorem mem_moveUp (remaining : Nat) (i : Int) (r : Recorded) (a : BufferAccess) :
    a ∈ (Recorded.moveUp remaining i r).accesses ↔
      a ∈ r.accesses ∨ ∃ k < remaining, a = .read (i - k - 1) ∨ a = .write (i - k) := by
  induction remaining generalizing i r with
  | zero => simp [Recorded.moveUp]
  | succ remaining ih =>
      have hshift (k : Nat) : i - 1 - k = i - (k + 1 : Nat) := by omega
      rw [Recorded.moveUp, ih, Nat.exists_lt_succ_left]
      simp only [Recorded.read, Recorded.write, List.mem_append, List.mem_singleton, hshift,
        Int.natCast_zero, Int.sub_zero]
      rw [or_assoc, or_assoc, or_assoc]

end Loops

-- Both kinds of keys in two parts: the cells that move, and the rest.
section Gaps

-- The line with room for a character, and with one character less.
def opened (t : Terminal) (r : Recorded) : Recorded :=
  if r.index ≠ r.size - 1 then
    { Recorded.moveUp (r.size - r.index).toNat r.size r with term := t }
  else r

def closed (r : Recorded) : Recorded :=
  if r.index ≠ r.size - 1 then
    Recorded.moveDown (r.size - r.index).toNat (r.index - 1) r
  else r

def filled (ret : UInt8) (t : Terminal) (r : Recorded) : Recorded :=
  { r.write r.index ret with term := t, index := r.index + 1, size := r.size + 1 }.write
    (r.size + 1 - 1) 0

def shortened (index size : Int) (t : Terminal) (r : Recorded) : Recorded :=
  { { r with index := index, size := size }.write (size - 1) 0 with term := t }

theorem insertChar_eq (ret : UInt8) (r : Recorded) :
    let o := opened (tio_shift_right (Recorded.moveUp (r.size - r.index).toNat r.size r).term) r
    r.insertChar ret = filled ret (tio_write [ret] o.term) o := rfl

theorem backspace_eq (r : Recorded) :
    let o := closed { r with term := tio_shift_left r.term }
    r.backspace =
      if r.index ≤ 0 then r
      else shortened (if o.index - 1 < 0 then 0 else o.index - 1)
        (if o.size - 1 < 1 then 1 else o.size - 1) (tio_backspace o.term) o := rfl

theorem opened_spec (t : Terminal) (r : Recorded) (h : Bounded r.toLine) :
    (opened t r).toLine =
      { r.toLine with
        buffer :=
          if r.index ≠ r.size - 1 then moveUp (r.size - r.index).toNat r.size.toNat r.buffer
          else r.buffer
        term := if r.index ≠ r.size - 1 then t else r.term } ∧
    ∀ a, a ∈ (opened t r).accesses ↔ a ∈ r.accesses ∨
      (r.index ≠ r.size - 1 ∧ ∃ k < (r.size - r.index).toNat,
        a = .read (r.size - k - 1) ∨ a = .write (r.size - k)) := by
  have hlow := h.index_low
  have hhigh := h.index_high
  have hline := moveUp_line (r.size - r.index).toNat r.size r (by omega)
  have hmoved := mem_moveUp (r.size - r.index).toNat r.size r
  rw [opened]
  by_cases hinside : r.index ≠ r.size - 1
  · simp only [if_pos hinside, hline, and_iff_right hinside]
    exact ⟨trivial, hmoved⟩
  · rw [if_neg hinside, if_neg hinside, if_neg hinside]
    exact ⟨rfl, fun a => (or_iff_left fun hmoves => hinside hmoves.1).symm⟩

theorem closed_spec (t : Terminal) (r : Recorded) (hpos : 0 < r.index) :
    (closed { r with term := t }).toLine =
      { r.toLine with
        buffer :=
          if r.index ≠ r.size - 1 then
            moveDown (r.size - r.index).toNat (r.index - 1).toNat r.buffer
          else r.buffer
        term := t } ∧
    ∀ a, a ∈ (closed { r with term := t }).accesses ↔ a ∈ r.accesses ∨
      (r.index ≠ r.size - 1 ∧ ∃ k < (r.size - r.index).toNat,
        a = .read (r.index - 1 + k + 1) ∨ a = .write (r.index - 1 + k)) := by
  have hline := moveDown_line (r.size - r.index).toNat (r.index - 1) { r with term := t }
    (by omega)
  have hmoved := mem_moveDown (r.size - r.index).toNat (r.index - 1) { r with term := t }
  rw [closed]
  by_cases hinside : r.index ≠ r.size - 1
  · rw [if_pos hinside, if_pos hinside]
    exact ⟨hline, fun a => (hmoved a).trans (or_congr_right (and_iff_right hinside).symm)⟩
  · rw [if_neg hinside, if_neg hinside]
    exact ⟨rfl, fun a => (or_iff_left fun hmoves => hinside hmoves.1).symm⟩

theorem filled_spec (ret : UInt8) (t : Terminal) (r : Recorded) :
    (filled ret t r).toLine =
      { buffer := Function.update (Function.update r.buffer r.index.toNat ret)
          (r.size + 1 - 1).toNat 0
        index := r.index + 1, size := r.size + 1, term := t } ∧
    (filled ret t r).accesses =
      r.accesses ++ [.write r.index] ++ [.write (r.size + 1 - 1)] := ⟨rfl, rfl⟩

theorem shortened_spec (index size : Int) (t : Terminal) (r : Recorded) :
    (shortened index size t r).toLine =
      { buffer := Function.update r.buffer (size - 1).toNat 0, index := index, size := size
        term := t } ∧
    (shortened index size t r).accesses = r.accesses ++ [.write (size - 1)] := ⟨rfl, rfl⟩

end Gaps

section Erasure

theorem backspace_line (r : Recorded) : r.backspace.toLine = backspace r.toLine := by
  rw [backspace_eq, backspace]
  by_cases hstart : r.index ≤ 0
  · rw [if_pos hstart, if_pos hstart]
  · rw [if_neg hstart, if_neg hstart, (shortened_spec _ _ _ _).1]
    rw [(closed_spec (tio_shift_left r.term) r (Int.not_le.mp hstart)).1]

theorem insertChar_line (ret : UInt8) (r : Recorded) (h : Bounded r.toLine) :
    (r.insertChar ret).toLine = insertChar ret r.toLine := by
  have hlow := h.index_low
  have hhigh := h.index_high
  have hmoved := moveUp_line (r.size - r.index).toNat r.size r (by omega)
  have hterm : (Recorded.moveUp (r.size - r.index).toNat r.size r).term = r.term := by rw [hmoved]
  rw [insertChar_eq, (filled_spec _ _ _).1, hterm, insertChar]
  rw [(opened_spec (tio_shift_right r.term) r h).1]

-- Forgetting the accesses gives the loop's round back.
theorem processKey_line (key : MappedKey) (r : Recorded) (h : Bounded r.toLine) :
    (r.processKey key).toLine = processKey key r.toLine := by
  rw [Recorded.processKey, processKey]
  have hback := backspace_line r
  have hinsert := insertChar_line (keyChar key) r h
  split
  · rfl
  · split
    · split
      · rfl
      · split
        · rfl
        · split
          · rfl
          · split
            · rfl
            · split
              · exact hback
              · rfl
    · exact hinsert

end Erasure

-- The characters before the terminator.
section Typed

def typed (line : Line) : List UInt8 := (List.range (line.size - 1).toNat).map line.buffer

theorem typed_length (line : Line) : (typed line).length = (line.size - 1).toNat := by
  rw [typed, List.length_map, List.length_range]

theorem typed_getElem (line : Line) (k : Nat) (hk : k < (typed line).length) :
    (typed line)[k] = text line k := by
  have hin : (k : Int) < line.size - 1 := by
    rw [typed_length] at hk
    omega
  simp only [typed, List.getElem_map, List.getElem_range]
  rw [text, if_pos hin]

theorem insertChar_size (c : UInt8) (line : Line) :
    (insertChar c line).size = line.size + 1 ∧ (insertChar c line).index = line.index + 1 :=
  ⟨rfl, rfl⟩

theorem typed_insertChar (c : UInt8) (line : Line) (h : Bounded line) :
    typed (insertChar c line) = (typed line).insertIdx line.index.toNat c := by
  have hlow := h.index_low
  have hhigh := h.index_high
  have htext := text_insertChar line line.index.toNat (line.size - 1).toNat (by omega) (by omega)
    (by omega) c
  have hlength := typed_length line
  have hlength' := typed_length (insertChar c line)
  rw [(insertChar_size c line).1] at hlength'
  apply List.ext_getElem
  · rw [List.length_insertIdx_of_le_length (by omega)]
    omega
  · intro k hk hk'
    rw [typed_getElem, htext, List.getElem_insertIdx]
    by_cases hbefore : k < line.index.toNat
    · rw [if_pos hbefore, dif_pos hbefore, typed_getElem]
    · rw [if_neg hbefore, dif_neg hbefore]
      by_cases hat : k = line.index.toNat
      · rw [if_pos hat, dif_pos hat]
      · rw [if_neg hat, dif_neg hat, typed_getElem]

theorem backspace_size (line : Line) (h : Bounded line) (hpos : 0 < line.index) :
    (backspace line).size = line.size - 1 ∧ (backspace line).index = line.index - 1 := by
  have hhigh := h.index_high
  rw [backspace, if_neg (Int.not_le.mpr hpos)]
  simp only
  rw [if_neg (by omega), if_neg (by omega)]
  exact ⟨rfl, rfl⟩

theorem typed_backspace (line : Line) (h : Bounded line) (hpos : 0 < line.index) :
    typed (backspace line) = (typed line).eraseIdx (line.index - 1).toNat := by
  have hhigh := h.index_high
  have htext := text_backspace line line.index.toNat (line.size - 1).toNat (by omega) (by omega)
    (by omega) (by omega)
  have hlength := typed_length line
  have hlength' := typed_length (backspace line)
  rw [(backspace_size line h hpos).1] at hlength'
  apply List.ext_getElem
  · rw [List.length_eraseIdx_of_lt (by omega)]
    omega
  · intro k hk hk'
    rw [typed_getElem, htext, List.getElem_eraseIdx]
    by_cases hbefore : k + 1 < line.index.toNat
    · rw [if_pos hbefore, dif_pos (by omega), typed_getElem]
    · rw [if_neg hbefore, dif_neg (by omega), typed_getElem]

end Typed

-- One key of any kind.
section Keys

def Inserts (key : MappedKey) : Prop := key.down_stroke = true ∧ key.printable = true

instance (key : MappedKey) : Decidable (Inserts key) :=
  inferInstanceAs (Decidable (key.down_stroke = true ∧ key.printable = true))

instance (key : MappedKey) : Decidable (Backspaces key) :=
  inferInstanceAs (Decidable
    (key.down_stroke = true ∧ key.printable = false ∧ key.mapped_code = KEY_BACKSPACE))

def Deletes (key : MappedKey) (line : Line) : Prop := Backspaces key ∧ 0 < line.index

instance (key : MappedKey) (line : Line) : Decidable (Deletes key line) :=
  inferInstanceAs (Decidable (Backspaces key ∧ 0 < line.index))

theorem arrowLeft_fields (line : Line) :
    (arrowLeft line).buffer = line.buffer ∧ (arrowLeft line).size = line.size ∧
    (Bounded line → Bounded (arrowLeft line)) := by
  simp only [arrowLeft]
  split
  · refine ⟨rfl, rfl, fun h => ?_⟩
    have hhigh := h.index_high
    have hsize := h.size_low
    refine ⟨hsize, ?_, ?_⟩
    · simp only
      split <;> omega
    · simp only
      split <;> omega
  · exact ⟨rfl, rfl, fun h => ⟨h.size_low, h.index_low, h.index_high⟩⟩

theorem arrowRight_fields (line : Line) :
    (arrowRight line).buffer = line.buffer ∧ (arrowRight line).size = line.size ∧
    (Bounded line → Bounded (arrowRight line)) := by
  refine ⟨rfl, rfl, fun h => ?_⟩
  have hlow := h.index_low
  have hsize := h.size_low
  simp only [arrowRight]
  refine ⟨hsize, ?_, ?_⟩
  · simp only
    split <;> split <;> omega
  · simp only
    split <;> omega

-- What stays when only the index and the terminal of the line change.
theorem kept_line (r : Recorded) (line : Line) (hbuffer : line.buffer = r.buffer)
    (hsize : line.size = r.size) (hbounded : Bounded r.toLine → Bounded line) :
    { r with toLine := line }.accesses = r.accesses ∧
    { r with toLine := line }.buffer = r.buffer ∧ { r with toLine := line }.size = r.size ∧
    (Bounded r.toLine → Bounded { r with toLine := line }.toLine) := ⟨rfl, hbuffer, hsize, hbounded⟩

theorem kept_terminal (r : Recorded) (t : Terminal) :
    { r with term := t }.accesses = r.accesses ∧ { r with term := t }.buffer = r.buffer ∧
    { r with term := t }.size = r.size ∧
    (Bounded r.toLine → Bounded { r with term := t }.toLine) :=
  ⟨rfl, rfl, rfl, fun h => ⟨h.size_low, h.index_low, h.index_high⟩⟩

-- A key puts a character in, takes one out, or leaves the buffer alone.
theorem processKey_cases (key : MappedKey) (r : Recorded) :
    (Inserts key ∧ r.processKey key = r.insertChar (keyChar key)) ∨
    (¬Inserts key ∧ Deletes key r.toLine ∧ r.processKey key = r.backspace) ∨
    (¬Inserts key ∧ ¬Deletes key r.toLine ∧ (r.processKey key).accesses = r.accesses ∧
      (r.processKey key).buffer = r.buffer ∧ (r.processKey key).size = r.size ∧
      (Bounded r.toLine → Bounded (r.processKey key).toLine)) := by
  rw [Recorded.processKey]
  by_cases hup : key.down_stroke = false
  · rw [if_pos hup]
    refine .inr (.inr ⟨?_, ?_, rfl, rfl, rfl, fun h => h⟩)
    · rintro ⟨hdown, -⟩
      exact Bool.false_ne_true (hup.symm.trans hdown)
    · rintro ⟨⟨hdown, -⟩, -⟩
      exact Bool.false_ne_true (hup.symm.trans hdown)
  rw [if_neg hup]
  cases hprint : key.printable with
  | true => exact .inl ⟨⟨eq_true_of_ne_false hup, hprint⟩, rfl⟩
  | false =>
      have hnone : ¬Inserts key := by
        rintro ⟨-, hprints⟩
        exact Bool.false_ne_true (hprint.symm.trans hprints)
      have hother (hcode : key.mapped_code ≠ KEY_BACKSPACE) : ¬Deletes key r.toLine :=
        fun h => hcode h.1.2.2
      simp only [Bool.not_false, if_true]
      by_cases hleft : key.mapped_code = KEY_ARROW_LEFT
      · obtain ⟨hbuffer, hsize, hbounded⟩ := arrowLeft_fields r.toLine
        rw [if_pos hleft]
        exact .inr (.inr ⟨hnone, hother (by rw [hleft]; decide),
          kept_line r (arrowLeft r.toLine) hbuffer hsize hbounded⟩)
      rw [if_neg hleft]
      by_cases hright : key.mapped_code = KEY_ARROW_RIGHT
      · obtain ⟨hbuffer, hsize, hbounded⟩ := arrowRight_fields r.toLine
        rw [if_pos hright]
        exact .inr (.inr ⟨hnone, hother (by rw [hright]; decide),
          kept_line r (arrowRight r.toLine) hbuffer hsize hbounded⟩)
      rw [if_neg hright]
      by_cases hback : key.mapped_code = KEY_BACKSPACE
      · have hcodes : KEY_BACKSPACE ≠ KEY_ARROW_UP ∧ KEY_BACKSPACE ≠ KEY_ARROW_DOWN := by decide
        rw [hback, if_neg hcodes.1, if_neg hcodes.2, if_pos rfl]
        by_cases hpos : 0 < r.index
        · exact .inr (.inl ⟨hnone, ⟨⟨eq_true_of_ne_false hup, hprint, hback⟩, hpos⟩, rfl⟩)
        · have hidle : r.backspace = r := by rw [Recorded.backspace, if_pos (Int.not_lt.mp hpos)]
          rw [hidle]
          exact .inr (.inr ⟨hnone, fun h => hpos h.2, rfl, rfl, rfl, fun h => h⟩)
      · refine .inr (.inr ⟨hnone, hother hback, ?_⟩)
        rw [if_neg hback]
        split
        · exact kept_terminal r _
        · split
          · exact kept_terminal r _
          · exact ⟨rfl, rfl, rfl, fun h => h⟩

end Keys

-- What the two kinds of keys that change the buffer do to it.
section Changes

theorem insertChar_bounded (c : UInt8) (line : Line) (h : Bounded line) :
    Bounded (insertChar c line) ∧
    (insertChar c line).buffer ((insertChar c line).size - 1).toNat = 0 := by
  have hlow := h.index_low
  have hhigh := h.index_high
  have hsize := h.size_low
  obtain ⟨hgrown, hnext⟩ := insertChar_size c line
  exact ⟨⟨by omega, by omega, by omega⟩, Function.update_self ..⟩

theorem backspace_bounded (line : Line) (h : Bounded line) (hpos : 0 < line.index) :
    Bounded (backspace line) ∧
    (backspace line).buffer ((backspace line).size - 1).toNat = 0 := by
  have hhigh := h.index_high
  obtain ⟨hshrunk, hprev⟩ := backspace_size line h hpos
  refine ⟨⟨by omega, by omega, by omega⟩, ?_⟩
  rw [backspace, if_neg (Int.not_le.mpr hpos)]
  exact Function.update_self ..

-- The cells moved are those from the index to the terminator.
theorem mem_insertChar (c : UInt8) (r : Recorded) (h : Bounded r.toLine) (a : BufferAccess) :
    a ∈ (r.insertChar c).accesses ↔ a ∈ r.accesses ∨
      (r.index ≠ r.size - 1 ∧ ∃ k < (r.size - r.index).toNat,
        a = .read (r.size - k - 1) ∨ a = .write (r.size - k)) ∨
      a = .write r.index ∨ a = .write r.size := by
  rw [insertChar_eq, (filled_spec _ _ _).2]
  obtain ⟨hline, hmoved⟩ := opened_spec
    (tio_shift_right (Recorded.moveUp (r.size - r.index).toNat r.size r).term) r h
  rw [hline]
  simp only
  rw [Int.add_sub_cancel, List.mem_append, List.mem_append, List.mem_singleton,
    List.mem_singleton, hmoved, or_assoc, or_assoc]

theorem mem_backspace (r : Recorded) (hpos : 0 < r.index) (h : Bounded r.toLine)
    (a : BufferAccess) :
    a ∈ r.backspace.accesses ↔ a ∈ r.accesses ∨
      (r.index ≠ r.size - 1 ∧ ∃ k < (r.size - r.index).toNat,
        a = .read (r.index - 1 + k + 1) ∨ a = .write (r.index - 1 + k)) ∨
      a = .write (r.size - 2) := by
  have hhigh := h.index_high
  have hlast : (if r.size - 1 < 1 then 1 else r.size - 1) - 1 = r.size - 2 := by
    rw [if_neg (by omega)]
    omega
  rw [backspace_eq, if_neg (Int.not_le.mpr hpos), (shortened_spec _ _ _ _).2]
  obtain ⟨hline, hmoved⟩ := closed_spec (tio_shift_left r.term) r hpos
  rw [hline]
  simp only
  rw [hlast, List.mem_append, List.mem_singleton, hmoved, or_assoc]

theorem insertChar_accesses (c : UInt8) (r : Recorded) (h : Bounded r.toLine) (a : BufferAccess)
    (ha : a ∈ (r.insertChar c).accesses) :
    a ∈ r.accesses ∨ (∃ i, a = .read i ∧ 0 ≤ i ∧ i < r.size) ∨
      ∃ i, a = .write i ∧ 0 ≤ i ∧ i ≤ r.size := by
  have hlow := h.index_low
  have hhigh := h.index_high
  rw [mem_insertChar c r h] at ha
  rcases ha with hold | ⟨-, k, hk, rfl | rfl⟩ | rfl | rfl
  · exact .inl hold
  · exact .inr (.inl ⟨_, rfl, by omega, by omega⟩)
  · exact .inr (.inr ⟨_, rfl, by omega, by omega⟩)
  · exact .inr (.inr ⟨_, rfl, hlow, by omega⟩)
  · exact .inr (.inr ⟨_, rfl, by omega, Int.le_refl _⟩)

theorem backspace_accesses (r : Recorded) (hpos : 0 < r.index) (h : Bounded r.toLine)
    (a : BufferAccess) (ha : a ∈ r.backspace.accesses) :
    a ∈ r.accesses ∨ 0 ≤ a.index ∧ a.index < r.size := by
  have hhigh := h.index_high
  rw [mem_backspace r hpos h] at ha
  rcases ha with hold | ⟨-, k, hk, rfl | rfl⟩ | rfl
  · exact .inl hold
  · exact .inr ⟨show 0 ≤ r.index - 1 + k + 1 by omega, show r.index - 1 + k + 1 < r.size by omega⟩
  · exact .inr ⟨show 0 ≤ r.index - 1 + k by omega, show r.index - 1 + k < r.size by omega⟩
  · exact .inr ⟨show 0 ≤ r.size - 2 by omega, show r.size - 2 < r.size by omega⟩

theorem processKey_size (key : MappedKey) (r : Recorded) (h : Bounded r.toLine) :
    (r.processKey key).size =
      if Inserts key then r.size + 1 else if Deletes key r.toLine then r.size - 1 else r.size := by
  rcases processKey_cases key r with ⟨hinserts, heq⟩ | ⟨hnone, hdeletes, heq⟩ |
    ⟨hnone, hkeeps, -, -, hkept, -⟩
  · rw [heq, insertChar_line (keyChar key) r h, (insertChar_size (keyChar key) r.toLine).1,
      if_pos hinserts]
  · rw [heq, backspace_line r, (backspace_size r.toLine h hdeletes.2).1, if_neg hnone,
      if_pos hdeletes]
  · rw [hkept, if_neg hnone, if_neg hkeeps]

end Changes

section Editing

def start (term : Terminal) : Recorded :=
  { buffer := fun _ => 0, index := 0, size := 1, term := term, accesses := [] }

-- One key as an editor would take it.
structure Edits (s : Recorded) (key : MappedKey) (t : Recorded) : Prop where
  index_low : 0 ≤ t.index
  index_high : t.index ≤ t.size - 1
  terminated : t.buffer (t.size - 1).toNat = 0
  text : typed t.toLine =
    if Inserts key then (typed s.toLine).insertIdx s.index.toNat (keyChar key)
    else if Deletes key s.toLine then (typed s.toLine).eraseIdx (s.index - 1).toNat
    else typed s.toLine
  reads : ∀ i, .read i ∈ t.accesses → .read i ∈ s.accesses ∨ 0 ≤ i ∧ i ≤ s.size - 1

structure Whole (line : Line) : Prop extends Bounded line where
  terminated : line.buffer (line.size - 1).toNat = 0

theorem start_whole (term : Terminal) : Whole (start term).toLine :=
  ⟨⟨Int.le_refl 1, Int.le_refl 0, Int.le_refl 0⟩, rfl⟩

theorem processKey_edits (key : MappedKey) (r : Recorded) (h : Whole r.toLine) :
    Whole (r.processKey key).toLine ∧ Edits r key (r.processKey key) := by
  rcases processKey_cases key r with ⟨hinserts, heq⟩ | ⟨hnone, hdeletes, heq⟩ |
    ⟨hnone, hkeeps, haccesses, hbuffer, hsize, hbounded⟩
  · obtain ⟨hbounded, hend⟩ := insertChar_bounded (keyChar key) r.toLine h.toBounded
    have htext := typed_insertChar (keyChar key) r.toLine h.toBounded
    rw [← insertChar_line (keyChar key) r h.toBounded] at hbounded hend htext
    rw [heq]
    refine ⟨⟨hbounded, hend⟩, hbounded.index_low, hbounded.index_high, hend, ?_, fun i hi => ?_⟩
    · rw [htext, if_pos hinserts]
    · rcases insertChar_accesses (keyChar key) r h.toBounded _ hi with hold | ⟨j, hj, hin⟩ | hwrite
      · exact .inl hold
      · cases hj
        exact .inr (by omega)
      · obtain ⟨j, hj, -⟩ := hwrite
        cases hj
  · obtain ⟨hbounded, hend⟩ := backspace_bounded r.toLine h.toBounded hdeletes.2
    have htext := typed_backspace r.toLine h.toBounded hdeletes.2
    rw [← backspace_line r] at hbounded hend htext
    rw [heq]
    refine ⟨⟨hbounded, hend⟩, hbounded.index_low, hbounded.index_high, hend, ?_, fun i hi => ?_⟩
    · rw [htext, if_neg hnone, if_pos hdeletes]
    · rcases backspace_accesses r hdeletes.2 h.toBounded _ hi with hold | ⟨hlow, hhigh⟩
      · exact .inl hold
      · exact .inr ⟨hlow, Int.le_sub_one_of_lt hhigh⟩
  · have hnext := hbounded h.toBounded
    have hend : (r.processKey key).buffer ((r.processKey key).size - 1).toNat = 0 := by
      rw [hbuffer, hsize]
      exact h.terminated
    refine ⟨⟨hnext, hend⟩, hnext.index_low, hnext.index_high, hend, ?_, fun i hi => ?_⟩
    · rw [if_neg hnone, if_neg hkeeps, typed, typed, hbuffer, hsize]
    · rw [haccesses] at hi
      exact .inl hi

end Editing

-- `kShellStart` has a buffer of 512.
section Bounds

def Within (r : Recorded) : Prop := ∀ a ∈ r.accesses, 0 ≤ a.index ∧ a.index < 512

-- There is room for a character and the terminator behind it.
def Fits (r : Recorded) (key : MappedKey) (_t : Recorded) : Prop := Inserts key → r.size ≤ 511

theorem within_iff (key : MappedKey) (r : Recorded) (h : Bounded r.toLine) (hsize : r.size ≤ 512)
    (hwithin : Within r) (t : Recorded) : Within (r.processKey key) ↔ Fits r key t := by
  rcases processKey_cases key r with ⟨hinserts, heq⟩ | ⟨hnone, hdeletes, heq⟩ |
    ⟨hnone, -, haccesses, -⟩
  · have hlast : .write r.size ∈ (r.insertChar (keyChar key)).accesses :=
      (mem_insertChar (keyChar key) r h _).mpr (.inr (.inr (.inr rfl)))
    rw [heq, Fits]
    constructor
    · intro hnext _
      have hroom : r.size < 512 := (hnext _ hlast).2
      omega
    · intro hroom a ha
      have hfits := hroom hinserts
      rcases insertChar_accesses (keyChar key) r h a ha with hold | ⟨i, rfl, hi⟩ | ⟨i, rfl, hi⟩
      · exact hwithin a hold
      · exact ⟨hi.1, show i < 512 by omega⟩
      · exact ⟨hi.1, show i < 512 by omega⟩
  · rw [heq]
    refine iff_of_true (fun a ha => ?_) fun hinserts => absurd hinserts hnone
    rcases backspace_accesses r hdeletes.2 h a ha with hold | ⟨hlow, hhigh⟩
    · exact hwithin a hold
    · exact ⟨hlow, by omega⟩
  · refine iff_of_true (fun a ha => ?_) fun hinserts => absurd hinserts hnone
    rw [haccesses] at ha
    exact hwithin a ha

theorem size_fits (key : MappedKey) (r : Recorded) (h : Bounded r.toLine) (hsize : r.size ≤ 512)
    (t : Recorded) (hfits : Fits r key t) : (r.processKey key).size ≤ 512 := by
  rw [processKey_size key r h]
  split
  · have hroom := hfits ‹Inserts key›
    omega
  · split <;> omega

theorem keys_within_iff (term : Terminal) (keys : List MappedKey) :
    Along (fun _ _ t => Within t) (start term) (traceOf Recorded.processKey (start term) keys) ↔
      Along Fits (start term) (traceOf Recorded.processKey (start term) keys) := by
  refine along_iff (fun r => Whole r.toLine ∧ r.size ≤ 512 ∧ Within r) ?_ ?_
    ⟨start_whole term, show (1 : Int) ≤ 512 by decide, fun a ha => by cases ha⟩
    (along_traceOf Recorded.processKey _ _)
  · intro r key t hr ht hfits
    obtain ⟨hwhole, hsize, hwithin⟩ := hr
    rw [ht]
    exact ⟨(processKey_edits key r hwhole).1, size_fits key r hwhole.toBounded hsize t hfits,
      (within_iff key r hwhole.toBounded hsize hwithin t).mpr hfits⟩
  · intro r key t hr ht
    obtain ⟨hwhole, hsize, hwithin⟩ := hr
    rw [ht]
    exact within_iff key r hwhole.toBounded hsize hwithin _

-- Fewer characters than cells always fit.
theorem few_fit (keys : List MappedKey) (r : Recorded) (h : Whole r.toLine)
    (hfew : r.size + keys.countP (fun key => decide (Inserts key)) ≤ 512) :
    Along Fits r (traceOf Recorded.processKey r keys) := by
  induction keys generalizing r with
  | nil => trivial
  | cons key rest ih =>
      have hwhole := (processKey_edits key r h).1
      have hsize := processKey_size key r h.toBounded
      rw [List.countP_cons] at hfew
      by_cases hinserts : Inserts key
      · rw [if_pos hinserts] at hsize
        rw [if_pos (decide_eq_true hinserts)] at hfew
        exact ⟨fun _ => by omega, ih _ hwhole (by omega)⟩
      · have hshort : (r.processKey key).size ≤ r.size := by
          rw [hsize, if_neg hinserts]
          split <;> omega
        exact ⟨fun hnow => absurd hnow hinserts, ih _ hwhole (by omega)⟩

-- Every key that `kbGetLine` takes, whatever the terminal does; and as long as
-- fewer than 511 characters are typed the buffer of the shell is large enough.
theorem line_edited (term : Terminal) (keys : List MappedKey) :
    Along Edits (start term) (traceOf Recorded.processKey (start term) (processed keys)) ∧
    ((processed keys).countP (fun key => decide (Inserts key)) < 511 →
      Along (fun _ _ t => Within t) (start term)
        (traceOf Recorded.processKey (start term) (processed keys))) := by
  have hstart := start_whole term
  refine ⟨?_, fun hfew => ?_⟩
  · generalize start term = r at hstart ⊢
    induction processed keys generalizing r with
    | nil => trivial
    | cons key rest ih =>
        obtain ⟨hwhole, hedits⟩ := processKey_edits key r hstart
        exact ⟨hedits, ih (r.processKey key) hwhole⟩
  · have hsize : (start term).size = 1 := rfl
    exact (keys_within_iff term (processed keys)).mpr (few_fit _ _ hstart (by omega))

-- Whatever scan codes come in, no access leaves the buffer exactly as long as every
-- character typed finds at most 511 cells of it in use.
theorem buffer_within_iff (behind : List UInt8 → Nat → UInt8) (codes : List UInt8)
    (states : KeyStates) (term : Terminal) :
    Along (fun _ _ t => Within t) (start term) (traceOf Recorded.processKey (start term)
        (processed (keysOf behind codes false states))) ↔
      Along Fits (start term) (traceOf Recorded.processKey (start term)
        (processed (keysOf behind codes false states))) := keys_within_iff term _

theorem typed_fit (keys : List MappedKey) (r : Recorded) (h : Whole r.toLine)
    (hsize : r.size ≤ 512) (hinserts : ∀ key ∈ keys, Inserts key)
    (hfits : Along Fits r (traceOf Recorded.processKey r keys)) : r.size + keys.length ≤ 512 := by
  induction keys generalizing r with
  | nil => exact show r.size + 0 ≤ 512 by omega
  | cons key rest ih =>
      obtain ⟨hfirst, hrest⟩ := hfits
      have hnow := hinserts key (List.mem_cons_self ..)
      have hwhole := (processKey_edits key r h).1
      have hroom := hfirst hnow
      have hgrown := processKey_size key r h.toBounded
      rw [if_pos hnow] at hgrown
      have hlast := ih (r.processKey key) hwhole (by omega)
        (fun other hother => hinserts other (List.mem_cons_of_mem key hother)) hrest
      rw [List.length_cons]
      omega

theorem processed_of_not_ends (keys : List MappedKey) (h : ∀ key ∈ keys, ¬Ends key) :
    processed keys = keys := by
  induction keys with
  | nil => rfl
  | cons key rest ih =>
      have hkey : ¬(key.down_stroke = true ∧ key.mapped_code = KEY_ENTER) :=
        h key (List.mem_cons_self ..)
      rw [processed, if_neg hkey, ih fun other hother => h other (List.mem_cons_of_mem key hother)]

theorem letters_encode (n : Nat) :
    (List.replicate n letterMake).flatMap Stroke.encode = List.replicate n 0x1E := by
  induction n with
  | zero => rfl
  | succ n ih =>
      rw [List.replicate_succ, List.flatMap_cons, ih]
      rfl

-- The same letter over and over types as many characters.
theorem letters_typed (behind : List UInt8 → Nat → UInt8) (n : Nat) (states : KeyStates) :
    n ≤ (keysOf behind (List.replicate n 0x1E) false states).length ∧
    ∀ key ∈ keysOf behind (List.replicate n 0x1E) false states, Inserts key ∧ ¬Ends key := by
  have hcovered : letterMake.Covered := show 0x1E < 88 by decide
  have hclear : ∀ stroke ∈ List.replicate n letterMake, stroke.Clear := by
    intro stroke hstroke
    rw [List.eq_of_mem_replicate hstroke]
    exact hcovered.code_lt.2
  have hkeys := keysOf_encode behind (List.replicate n letterMake) hclear states
  rw [letters_encode] at hkeys
  refine ⟨?_, fun key hkey => ?_⟩
  · rw [← Nat.not_lt]
    intro hshort
    have hmissing := hkeys (keysOf behind (List.replicate n 0x1E) false states).length
    rw [List.getElem?_eq_none (Nat.le_refl _), List.getElem?_replicate, if_pos hshort] at hmissing
    cases hmissing
  · obtain ⟨i, hi⟩ := List.mem_iff_getElem?.mp hkey
    rw [hkeys i, Option.map_eq_some_iff] at hi
    obtain ⟨stroke, hstroke, rfl⟩ := hi
    rw [List.eq_of_mem_replicate (List.mem_of_getElem? hstroke)]
    obtain ⟨hprintable, hdown⟩ := (key_prints_iff behind letterMake
      (show 0x1E < 0x59 by decide) _).1.mpr ⟨rfl, rfl, by decide⟩
    refine ⟨⟨hdown, hprintable⟩, ?_⟩
    rw [ends_iff behind letterMake hcovered]
    decide

-- 512 letters without Enter write behind the buffer.
theorem buffer_exceeded_by_512_letters :
    ¬∀ (behind : List UInt8 → Nat → UInt8) (codes : List UInt8) (term : Terminal),
      Along (fun _ _ t => Within t) (start term) (traceOf Recorded.processKey (start term)
        (processed (keysOf behind codes false fun _ => false))) := by
  intro h
  obtain ⟨letters, hletters⟩ : ∃ letters : Nat, letters = 512 := ⟨512, rfl⟩
  have hwithin := h (fun _ _ => 0) (List.replicate letters 0x1E) emptyTerminal
  obtain ⟨hmany, hkeys⟩ := letters_typed (fun _ _ => 0) letters fun _ => false
  rw [processed_of_not_ends _ fun key hkey => (hkeys key hkey).2, keys_within_iff] at hwithin
  have hfits := typed_fit _ _ (start_whole emptyTerminal) (show (1 : Int) ≤ 512 by decide)
    (fun key hkey => (hkeys key hkey).1) hwithin
  have hsize : (start emptyTerminal).size = 1 := rfl
  omega

end Bounds

end PalleyOS.Keyboard
