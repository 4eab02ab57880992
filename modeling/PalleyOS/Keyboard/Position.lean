import PalleyOS.Keyboard.Buffer
import PalleyOS.Tio.Position

namespace PalleyOS.Keyboard

open Machine Tio

-- The write position of the terminal against the index into the line, which was
-- begun at the position `start`.
section Position

def AtIndex (start : Int) (line : Line) : Prop := writePosition line.term = start + line.index

structure Located (start : Int) (line : Line) : Prop extends Bounded line where
  roams : Roams line.term
  at_index : AtIndex start line

theorem arrowLeft_located_iff (start : Int) (line : Line) (h : Located start line) :
    Roams (arrowLeft line).term ∧
    (AtIndex start (arrowLeft line) ↔ 0 < line.index ∨ line.term.cursor.x ≤ 2) := by
  have hat := h.at_index
  have hlow := h.index_low
  obtain ⟨-, hposition⟩ := tio_cursor_dec_position line.term h.roams.toRanged
  have hroams := (tio_cursor_dec_roams line.term h.roams).1
  rw [arrowLeft, tio_try_cursor_dec]
  by_cases hstart : line.term.cursor.x ≤ 2
  · rw [if_pos hstart]
    exact ⟨h.roams, iff_of_true hat (.inr hstart)⟩
  · have hback : writePosition (tio_cursor_dec line.term) = writePosition line.term - 1 :=
      hposition.mpr fun htop => hstart (by omega)
    rw [if_neg hstart]
    refine ⟨hroams, ?_⟩
    rw [AtIndex] at hat ⊢
    simp only [if_true, hback]
    split <;> omega

theorem arrowRight_located_iff (start : Int) (line : Line) (h : Located start line)
    (hpages : recycled (arrowRight line).term = recycled line.term) :
    Roams (arrowRight line).term ∧
    (AtIndex start (arrowRight line) ↔
      line.index < line.size - 1 ∨ line.size + 1 ≤ line.term.cursor.x) := by
  have hat := h.at_index
  have hhigh := h.index_high
  have hmoves := tio_cursor_inc_moves line.term h.roams.toRanged
  have hroams := (tio_cursor_inc_roams line.term h.roams.toRanged).1
  rw [arrowRight, tio_try_cursor_inc] at hpages ⊢
  rw [AtIndex] at hat ⊢
  by_cases hinside : line.term.cursor.x < 2 + line.size - 1
  · rw [if_pos hinside] at hpages ⊢
    have hnext := hmoves.position hpages
    refine ⟨hroams, ?_⟩
    simp only [if_true, hnext]
    split <;> omega
  · rw [if_neg hinside]
    refine ⟨h.roams, ?_⟩
    simp only [Bool.false_eq_true, if_false]
    split <;> omega

theorem backspace_located_iff (start : Int) (line : Line) (h : Located start line)
    (hpages : recycled (backspace line).term = recycled line.term) (hpos : 0 < line.index) :
    Roams (backspace line).term ∧
    (AtIndex start (backspace line) ↔ ¬(line.term.cursor.x = 0 ∧ line.term.cursor.y = 0)) := by
  have hat := h.at_index
  have hroams := (tio_shift_left_roams line.term h.roams).1
  obtain ⟨hstill, hcursor⟩ := tio_shift_left_still line.term
  obtain ⟨hkept, hposition⟩ := tio_backspace_position (tio_shift_left line.term) hroams.toRanged
  have hterm : (backspace line).term = tio_backspace (tio_shift_left line.term) := by
    rw [backspace, if_neg (Int.not_le.mpr hpos)]
  rw [hterm, hkept] at hpages
  have hsame := hstill.position hpages
  rw [AtIndex] at hat ⊢
  rw [(backspace_size line h.toBounded hpos).2, hterm, ← hcursor, ← hposition]
  refine ⟨(tio_backspace_roams _ hroams).1, ?_⟩
  omega

theorem insertChar_moves (c : UInt8) (line : Line) (h : Roams line.term) (hzero : c ≠ 0)
    (hn : c ≠ 10) (hr : c ≠ 13) :
    Roams (insertChar c line).term ∧ Moves 1 line.term (insertChar c line).term := by
  have hopened : ∃ t, Roams t ∧ Moves 0 line.term t ∧
      (insertChar c line).term = tio_write [c] t := by
    by_cases hinside : line.index ≠ line.size - 1
    · refine ⟨tio_shift_right line.term, (tio_shift_right_roams line.term h).1,
        tio_shift_right_still line.term, ?_⟩
      simp only [insertChar, if_pos hinside]
    · refine ⟨line.term, h, .still rfl rfl rfl, ?_⟩
      simp only [insertChar, if_neg hinside]
  obtain ⟨t, hroams, hstill, hterm⟩ := hopened
  obtain ⟨hwritten, hmoves⟩ := tio_write_moves t hroams c hzero hn hr
  rw [hterm]
  exact ⟨hwritten, hstill.trans hmoves⟩

end Position

section Keys

-- A printable key has a character.
def HasCharacter (key : MappedKey) : Prop :=
  key.printable = true → ∃ c, scancode_set1[key.scancode.toNat]? = some c ∧ c ≠ 63

-- The gate of the cursor agrees with that of the index, and nothing else stops the
-- cursor.
def MovesTogether (line : Line) (key : MappedKey) (_t : Line) : Prop :=
  key.down_stroke = true → key.printable = false →
    if key.mapped_code = KEY_ARROW_LEFT then 0 < line.index ∨ line.term.cursor.x ≤ 2
    else if key.mapped_code = KEY_ARROW_RIGHT then
      line.index < line.size - 1 ∨ line.size + 1 ≤ line.term.cursor.x
    else if key.mapped_code = KEY_ARROW_UP then 0 ≤ line.term.term_view.row
    else if key.mapped_code = KEY_BACKSPACE then
      0 < line.index → ¬(line.term.cursor.x = 0 ∧ line.term.cursor.y = 0)
    else True

theorem printed_located (start : Int) (key : MappedKey) (line : Line) (h : Located start line)
    (hcharacter : HasCharacter key) (hprint : key.printable = true)
    (hpages : recycled (insertChar (keyChar key) line).term = recycled line.term) :
    Located start (insertChar (keyChar key) line) := by
  have hat := h.at_index
  obtain ⟨c, hc, hne⟩ := hcharacter hprint
  obtain ⟨hzero, hn, hr⟩ := keyChar_prints key c hc hne
  obtain ⟨hroams, hmoves⟩ := insertChar_moves (keyChar key) line h.roams hzero hn hr
  have hnext := hmoves.position hpages
  refine ⟨(insertChar_bounded (keyChar key) line h.toBounded).1, hroams, ?_⟩
  rw [AtIndex] at hat ⊢
  rw [hnext, (insertChar_size (keyChar key) line).2]
  omega

-- The view moves and the line does not.
theorem scrolled_located_iff (start : Int) (line : Line) (h : Located start line)
    (dir : Shift_Direction)
    (hpages : recycled { line with term := tio_shift_view dir 1 line.term }.term =
      recycled line.term) :
    (AtIndex start { line with term := tio_shift_view dir 1 line.term } →
      Located start { line with term := tio_shift_view dir 1 line.term }) ∧
    (AtIndex start { line with term := tio_shift_view dir 1 line.term } ↔
      (dir = .SHIFT_DIRECTION_DOWN → 0 ≤ line.term.term_view.row)) := by
  have hat := h.at_index
  have hroams := (view_shift_roams dir (1 : UInt32).toNat line.term h.roams.toRanged).1
  refine ⟨fun hnext => ⟨⟨h.size_low, h.index_low, h.index_high⟩, hroams, hnext⟩, ?_⟩
  rw [AtIndex] at hat ⊢
  cases dir with
  | SHIFT_DIRECTION_UP =>
      have hsame := (view_shift_up_still (1 : UInt32).toNat line.term h.roams.toRanged).position
        hpages
      refine iff_of_true ?_ (fun hdown => by cases hdown)
      simp only [tio_shift_view, hsame]
      omega
  | SHIFT_DIRECTION_DOWN =>
      rw [← (shift_back_position_iff line.term h.roams.toRanged).2]
      simp only [forall_const]
      omega

theorem processKey_located_iff (start : Int) (key : MappedKey) (line : Line)
    (h : Located start line) (hcharacter : HasCharacter key)
    (hpages : recycled (processKey key line).term = recycled line.term) :
    (AtIndex start (processKey key line) → Located start (processKey key line)) ∧
    (AtIndex start (processKey key line) ↔ MovesTogether line key (processKey key line)) := by
  rw [MovesTogether]
  by_cases hup : key.down_stroke = false
  · have heq : processKey key line = line := by rw [processKey, if_pos hup]
    rw [heq]
    refine ⟨fun _ => h, iff_of_true h.at_index fun hdown => ?_⟩
    exact absurd (hup.symm.trans hdown) Bool.false_ne_true
  have hdown := eq_true_of_ne_false hup
  cases hprint : key.printable with
  | true =>
      have heq : processKey key line = insertChar (keyChar key) line := by
        rw [processKey, if_neg hup, hprint]
        rfl
      rw [heq] at hpages ⊢
      have hlocated := printed_located start key line h hcharacter hprint hpages
      refine ⟨fun _ => hlocated, iff_of_true hlocated.at_index fun _ hspecial => ?_⟩
      exact absurd hspecial.symm Bool.false_ne_true
  | false =>
      have hgate (condition : Prop) :
          (key.down_stroke = true → false = false → condition) ↔ condition :=
        ⟨fun hcondition => hcondition hdown rfl, fun hcondition _ _ => hcondition⟩
      have heq : processKey key line =
          if key.mapped_code = KEY_ARROW_LEFT then arrowLeft line
          else if key.mapped_code = KEY_ARROW_RIGHT then arrowRight line
          else if key.mapped_code = KEY_ARROW_UP then
            { line with term := tio_shift_view .SHIFT_DIRECTION_DOWN 1 line.term }
          else if key.mapped_code = KEY_ARROW_DOWN then
            { line with term := tio_shift_view .SHIFT_DIRECTION_UP 1 line.term }
          else if key.mapped_code = KEY_BACKSPACE then backspace line
          else line := by
        rw [processKey, if_neg hup, hprint]
        rfl
      rw [hgate]
      rw [heq] at hpages ⊢
      by_cases hleft : key.mapped_code = KEY_ARROW_LEFT
      · obtain ⟨hroams, hiff⟩ := arrowLeft_located_iff start line h
        rw [if_pos hleft, if_pos hleft]
        exact ⟨fun hat => ⟨(arrowLeft_fields line).2.2 h.toBounded, hroams, hat⟩, hiff⟩
      rw [if_neg hleft] at hpages
      rw [if_neg hleft, if_neg hleft]
      by_cases hright : key.mapped_code = KEY_ARROW_RIGHT
      · rw [if_pos hright] at hpages
        obtain ⟨hroams, hiff⟩ := arrowRight_located_iff start line h hpages
        rw [if_pos hright, if_pos hright]
        exact ⟨fun hat => ⟨(arrowRight_fields line).2.2 h.toBounded, hroams, hat⟩, hiff⟩
      rw [if_neg hright] at hpages
      rw [if_neg hright, if_neg hright]
      by_cases hback : key.mapped_code = KEY_ARROW_UP
      · rw [if_pos hback] at hpages
        obtain ⟨hlocated, hiff⟩ := scrolled_located_iff start line h .SHIFT_DIRECTION_DOWN hpages
        rw [if_pos hback, if_pos hback]
        exact ⟨hlocated, hiff.trans ⟨fun hrow => hrow rfl, fun hrow _ => hrow⟩⟩
      rw [if_neg hback] at hpages
      rw [if_neg hback, if_neg hback]
      by_cases hon : key.mapped_code = KEY_ARROW_DOWN
      · have hother : KEY_ARROW_DOWN ≠ KEY_BACKSPACE := by decide
        rw [if_pos hon] at hpages
        obtain ⟨hlocated, hiff⟩ := scrolled_located_iff start line h .SHIFT_DIRECTION_UP hpages
        rw [if_pos hon, hon, if_neg hother]
        exact ⟨hlocated, iff_of_true (hiff.mpr fun hdir => by cases hdir) trivial⟩
      rw [if_neg hon] at hpages
      rw [if_neg hon]
      by_cases hdelete : key.mapped_code = KEY_BACKSPACE
      · rw [if_pos hdelete] at hpages
        rw [if_pos hdelete, if_pos hdelete]
        by_cases hpos : 0 < line.index
        · obtain ⟨hroams, hiff⟩ := backspace_located_iff start line h hpages hpos
          exact ⟨fun hat => ⟨(backspace_bounded line h.toBounded hpos).1, hroams, hat⟩,
            hiff.trans ⟨fun hfree _ => hfree, fun hfree => hfree hpos⟩⟩
        · have hidle : backspace line = line := by rw [backspace, if_pos (Int.not_lt.mp hpos)]
          rw [hidle]
          exact ⟨fun _ => h, iff_of_true h.at_index fun hinside => absurd hinside hpos⟩
      · rw [if_neg hdelete, if_neg hdelete]
        exact ⟨fun _ => h, iff_of_true h.at_index trivial⟩

end Keys

section Runs

def KeepsPages (line : Line) (_key : MappedKey) (next : Line) : Prop :=
  recycled next.term = recycled line.term

theorem atPrompt_located (t : Terminal) (ht : Roams t) :
    Located (writePosition (atPrompt t).term) (atPrompt t) :=
  ⟨⟨Int.le_refl 1, Int.le_refl 0, Int.le_refl 0⟩, atPrompt_roams t ht, (Int.add_zero _).symm⟩

-- From any prompt, and any keys that recycle no page: the cursor is at the index
-- after every key exactly as long as each key moved both.
theorem cursor_at_index_iff (s : Terminal) (calls : List Call) (keys : List MappedKey) :
    let line := atPrompt (calls.foldl (fun s call => call.run s) (tio_init s))
    let trace := traceOf processKey line (processed keys)
    (∀ key ∈ keys, HasCharacter key) → Along KeepsPages line trace →
      (Along (fun _ _ next => AtIndex (writePosition line.term) next) line trace ↔
        Along MovesTogether line trace) := by
  intro line trace hkeys hpages
  have hroams := reached_roams s calls
  have hprocessed : ∀ key ∈ processed keys, HasCharacter key :=
    fun key hkey => hkeys key (mem_of_processed keys key hkey)
  refine along_iff (Located (writePosition line.term)) ?_ ?_ (atPrompt_located _ hroams)
    (hpages.with_labels HasCharacter hprocessed)
  · intro line key next h hstep htogether
    obtain ⟨rfl, hcharacter, hkept⟩ := hstep
    obtain ⟨hlocated, hiff⟩ := processKey_located_iff _ key line h hcharacter hkept
    exact hlocated (hiff.mpr htogether)
  · intro line key next h hstep
    obtain ⟨rfl, hcharacter, hkept⟩ := hstep
    exact (processKey_located_iff _ key line h hcharacter hkept).2

-- A prompt at the start of a row: the cursor and the index part only at the end of
-- a line that has left that row.
theorem gates_at_row_start (start : Int) (line : Line) (h : Located start line)
    (hstart : start % 80 = 2) :
    (0 < line.index ∨ line.term.cursor.x ≤ 2) ∧
    (line.index < line.size - 1 ∨ line.size + 1 ≤ line.term.cursor.x ↔
      line.index < line.size - 1 ∨ line.size ≤ 78) := by
  have hat := h.at_index
  have hlow := h.index_low
  have hhigh := h.index_high
  have hxl := h.roams.x_low
  have hxh := h.roams.x_high
  rw [AtIndex, writePosition, TERM_WIDTH] at hat
  omega

-- Characters alone, far above the last page.
theorem typed_located (start : Int) (keys : List MappedKey) (line : Line) (h : Located start line)
    (hkeys : ∀ key ∈ keys, Inserts key ∧ HasCharacter key)
    (hroom : start + line.index + keys.length < 17280) (hshort : line.size + keys.length ≤ 511) :
    Along (fun line key next => KeepsPages line key next ∧ next.size ≤ 511) line
        (traceOf processKey line keys) ∧
    Located start (keys.foldl (fun line key => processKey key line) line) ∧
    (keys.foldl (fun line key => processKey key line) line).index = line.index + keys.length ∧
    (keys.foldl (fun line key => processKey key line) line).size = line.size + keys.length := by
  induction keys generalizing line with
  | nil => exact ⟨trivial, h, (Int.add_zero _).symm, (Int.add_zero _).symm⟩
  | cons key rest ih =>
      have hat := h.at_index
      rw [AtIndex] at hat
      rw [List.length_cons] at hroom hshort
      obtain ⟨⟨hdown, hprint⟩, hcharacter⟩ := hkeys key (List.mem_cons_self ..)
      obtain ⟨c, hc, hne⟩ := hcharacter hprint
      obtain ⟨hzero, hn, hr⟩ := keyChar_prints key c hc hne
      have hmoves := (insertChar_moves (keyChar key) line h.roams hzero hn hr).2
      have hkept := hmoves.room (by omega)
      have heq : processKey key line = insertChar (keyChar key) line := by
        rw [processKey, if_neg (by rw [hdown]; decide), hprint]
        rfl
      have hlocated := printed_located start key line h hcharacter hprint hkept
      obtain ⟨hsize, hindex⟩ := insertChar_size (keyChar key) line
      rw [← heq] at hkept hlocated hsize hindex
      obtain ⟨htrace, hlast, hlastIndex, hlastSize⟩ := ih (processKey key line) hlocated
        (fun other hother => hkeys other (List.mem_cons_of_mem _ hother)) (by omega) (by omega)
      refine ⟨⟨⟨hkept, by omega⟩, htrace⟩, hlast, ?_, ?_⟩
      · rw [List.foldl_cons, hlastIndex, hindex, List.length_cons]
        omega
      · rw [List.foldl_cons, hlastSize, hsize, List.length_cons]
        omega

theorem letterA_types : Inserts letterA ∧ HasCharacter letterA :=
  ⟨⟨rfl, rfl⟩, fun _ => ⟨97, rfl, by decide⟩⟩

theorem cursor_at_index_iff_letter :
    let line := atPrompt (tio_init emptyTerminal)
    let trace := traceOf processKey line (processed [letterA])
    Along (fun _ _ next => AtIndex (writePosition line.term) next) line trace ↔
      Along MovesTogether line trace := by
  have hkeys : ∀ key ∈ [letterA], Inserts key ∧ HasCharacter key := by
    intro key hkey
    rw [List.mem_singleton.mp hkey]
    exact letterA_types
  obtain ⟨htrace, -⟩ := typed_located _ [letterA] _
    (atPrompt_located _ (tio_init_roams emptyTerminal)) hkeys (by decide) (by decide)
  exact cursor_at_index_iff emptyTerminal [] [letterA] (fun key hkey => (hkeys key hkey).2)
    (htrace.mono fun _ _ _ hkept => hkept.1)

def arrowRightKey : MappedKey :=
  { mapped_code := KEY_ARROW_RIGHT, scancode := 0x4D, e0_key := true, printable := false
    down_stroke := true, capitalized := false }

theorem arrowRight_keeps_pages (line : Line) (h : Roams line.term)
    (hroom : writePosition line.term + 1 < 17280) :
    recycled (arrowRight line).term = recycled line.term := by
  rw [arrowRight, tio_try_cursor_inc]
  by_cases hinside : line.term.cursor.x < 2 + line.size - 1
  · rw [if_pos hinside]
    exact (tio_cursor_inc_moves line.term h.toRanged).room hroom
  · rw [if_neg hinside]

-- 78 letters fill the row behind the prompt; at their end the right arrow moves the
-- cursor alone.
theorem cursor_leaves_line_of_78_letters :
    ¬∀ (s : Terminal) (calls : List Call) (keys : List MappedKey),
      let line := atPrompt (calls.foldl (fun s call => call.run s) (tio_init s))
      let trace := traceOf processKey line (processed keys)
      (∀ key ∈ keys, HasCharacter key) → Along KeepsPages line trace →
        Along (fun _ _ next => next.size ≤ 511) line trace →
        Along (fun _ _ next => AtIndex (writePosition line.term) next) line trace := by
  intro h
  obtain ⟨letters, hletters⟩ : ∃ letters : Nat, letters = 78 := ⟨78, rfl⟩
  have hclaim := h emptyTerminal [] (List.replicate letters letterA ++ [arrowRightKey])
  have hstart : writePosition (atPrompt (tio_init emptyTerminal)).term = 2 := by decide
  have hfirst : (atPrompt (tio_init emptyTerminal)).index = 0 ∧
      (atPrompt (tio_init emptyTerminal)).size = 1 := ⟨rfl, rfl⟩
  have hlocated := atPrompt_located _ (tio_init_roams emptyTerminal)
  rw [List.foldl_nil] at hclaim
  generalize atPrompt (tio_init emptyTerminal) = line at hclaim hstart hfirst hlocated
  simp only [hstart] at hclaim
  rw [hstart] at hlocated
  have hkeys : ∀ key ∈ List.replicate letters letterA, Inserts key ∧ HasCharacter key := by
    intro key hkey
    rw [List.eq_of_mem_replicate hkey]
    exact letterA_types
  have hlength : (List.replicate letters letterA).length = letters := List.length_replicate
  obtain ⟨htrace, hlast, hindex, hsize⟩ :=
    typed_located 2 (List.replicate letters letterA) line hlocated hkeys (by omega) (by omega)
  have hprocessed : processed (List.replicate letters letterA ++ [arrowRightKey]) =
      List.replicate letters letterA ++ [arrowRightKey] := by
    refine processed_of_not_ends _ fun key hkey => ?_
    rcases List.mem_append.mp hkey with hletter | hright
    · rw [List.eq_of_mem_replicate hletter]
      decide
    · rw [List.mem_singleton.mp hright]
      decide
  rw [hprocessed, along_traceOf_append, along_traceOf_append, along_traceOf_append] at hclaim
  generalize (List.replicate letters letterA).foldl (fun line key => processKey key line) line =
    last at hclaim hlast hindex hsize
  have hat := hlast.at_index
  rw [AtIndex] at hat
  have hkept := arrowRight_keeps_pages last hlast.roams (by omega)
  have hsame : (arrowRight last).size ≤ 511 := by
    rw [(arrowRight_fields last).2.1]
    omega
  have hcharacters : ∀ key ∈ List.replicate letters letterA ++ [arrowRightKey],
      HasCharacter key := by
    intro key hkey
    rcases List.mem_append.mp hkey with hletter | hlastKey
    · exact (hkeys key hletter).2
    · rw [List.mem_singleton.mp hlastKey]
      intro hprint
      cases hprint
  have hpages := htrace.mono fun _ _ _ hstep => hstep.1
  have hsizes := htrace.mono fun _ _ _ hstep => hstep.2
  obtain ⟨-, hmoved, -⟩ := hclaim hcharacters ⟨hpages, hkept, trivial⟩ ⟨hsizes, hsame, trivial⟩
  have hgate := (arrowRight_located_iff 2 last hlast hkept).2.mp hmoved
  rw [(gates_at_row_start 2 last hlast (by decide)).2] at hgate
  omega

end Runs

end PalleyOS.Keyboard
