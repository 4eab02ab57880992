import PalleyOS.Tio.Scrolling

namespace PalleyOS.Tio

open Machine

-- Accesses to video memory beyond its last cell.
section Log

def Access.off_screen : Access → Prop
  | .platform index => VB_SIZE ≤ index
  | _ => False

def ScreenOk (s : Terminal) : Prop := ∀ a ∈ s.log, ¬a.off_screen

-- What is between the two states stays on the screen.
structure Screened (s t : Terminal) : Prop where
  grows : Grows s t
  adds : ∀ a ∈ t.log, a.off_screen → a ∈ s.log

theorem Screened.of_log {s t : Terminal} (h : t.log = s.log) : Screened s t := by
  refine ⟨fun a ha => ?_, fun a ha _ => ?_⟩
  · rw [h]
    exact ha
  · rw [← h]
    exact ha

theorem Screened.trans {s t u : Terminal} (h : Screened s t) (h' : Screened t u) : Screened s u :=
  ⟨h.grows.trans h'.grows, fun a ha hoff => h.adds a (h'.adds a ha hoff) hoff⟩

theorem Screened.append {s t : Terminal} (a : Access) (h : t.log = s.log ++ [a])
    (ha : ¬a.off_screen) : Screened s t := by
  refine ⟨Grows.append s t a h, fun b hb hoff => ?_⟩
  rw [h] at hb
  rcases List.mem_append.mp hb with hold | hnew
  · exact hold
  · rw [List.mem_singleton.mp hnew] at hoff
    exact absurd hoff ha

theorem Screened.ok_iff {s t : Terminal} (h : Screened s t) : ScreenOk t ↔ ScreenOk s :=
  ⟨fun ht a ha => ht a (h.grows a ha), fun hs a ha hoff => hs a (h.adds a ha hoff) hoff⟩

-- One access in between decides.
theorem platform_ok_iff {s t : Terminal} (index : Nat) (h : t.log = s.log ++ [.platform index])
    (hs : ScreenOk s) : ScreenOk t ↔ index < VB_SIZE := by
  constructor
  · intro ht
    have hlast : Access.platform index ∈ t.log := by
      rw [h]
      exact List.mem_append_right _ (List.mem_singleton.mpr rfl)
    exact Nat.not_le.mp (ht (.platform index) hlast)
  · intro hindex a ha
    rw [h] at ha
    rcases List.mem_append.mp ha with hold | hnew
    · exact hs a hold
    · rw [List.mem_singleton.mp hnew]
      exact Nat.not_le.mpr hindex

end Log

section Drawing

theorem renderFrom_screened (view_index remaining i : Nat) (s : Terminal)
    (hroom : i + remaining ≤ VB_SIZE) : Screened s (renderFrom view_index remaining i s) := by
  induction remaining generalizing i s with
  | zero => exact .of_log rfl
  | succ remaining ih =>
      rw [renderFrom]
      have hread : Screened s (vb_get_value ((view_index + i) % 4294967296) s).2 :=
        .append (.vb ((view_index + i) % 4294967296)) rfl (fun h => h)
      have hset : Screened (vb_get_value ((view_index + i) % 4294967296) s).2
          (platform_set i (s.fvb ((view_index + i) % 4294967296))
            (vb_get_value ((view_index + i) % 4294967296) s).2) :=
        .append (.platform i) rfl (Nat.not_le.mpr (by omega))
      exact (hread.trans hset).trans (ih (i + 1) _ (by omega))

theorem render_screen_screened (s : Terminal) : Screened s (render_screen s) :=
  renderFrom_screened _ VB_SIZE 0 s (Nat.le_of_eq (Nat.zero_add _))

theorem setRow_screened (row : Int) (s : Terminal) : Screened s (setRow row s) :=
  .append (.view_row row) rfl fun h => h

theorem shiftUp_screened (s : Terminal) : Screened s (shiftUp s) := by
  have hmoved : Screened s (moved s) := .append (.view_row (s.term_view.row + 1)) rfl fun h => h
  rw [shiftUp_eq]
  split
  · have hpages : Screened (moved s) (vb_shift_pages (moved s)) :=
      .of_log (vb_shift_pages_fields (moved s)).2.2.2
    exact (hmoved.trans hpages).trans (setRow_screened _ _)
  · exact hmoved

theorem shiftDown_screened (s : Terminal) : Screened s (shiftDown s) := by
  rw [shiftDown]
  split
  · exact setRow_screened 0 s
  · exact .append (.view_row (s.term_view.row - 1)) rfl fun h => h

theorem shiftLoop_screened (dir : Shift_Direction) (rounds : Nat) (s : Terminal) :
    Screened s (shiftLoop dir rounds s).1 := by
  induction rounds generalizing s with
  | zero => exact .of_log rfl
  | succ rounds ih =>
      cases dir with
      | SHIFT_DIRECTION_UP =>
          rw [shiftLoop]
          split
          · exact .of_log rfl
          · exact (shiftUp_screened s).trans (ih (shiftUp s))
      | SHIFT_DIRECTION_DOWN =>
          rw [shiftLoop]
          exact (shiftDown_screened s).trans (ih (shiftDown s))

theorem refresh_screened (s : Terminal) : Screened s (refresh s) := by
  have hset : Screened s
      (setOnScreen (decide (s.cursor.y > 0 ∧ s.cursor.y < TERM_HEIGHT)) s) := .of_log rfl
  rw [refresh]
  exact hset.trans (render_screen_screened _)

theorem view_shift_screened (dir : Shift_Direction) (amt : Nat) (s : Terminal) :
    Screened s (view_shift dir amt s) := by
  have hloop := shiftLoop_screened dir amt s
  rw [view_shift]
  rcases hend : shiftLoop dir amt s with ⟨t, returned⟩
  rw [hend] at hloop
  cases returned with
  | false => exact hloop.trans (refresh_screened t)
  | true => exact hloop

theorem scrollToCursor_screened (s : Terminal) : Screened s (scrollToCursor s) := by
  rcases scrollToCursor_cases s with ⟨-, heq⟩ | ⟨-, heq⟩
  · rw [heq]
    exact view_shift_screened _ 1 s
  · rw [heq]
    exact .of_log rfl

theorem tio_cursor_inc_screened (s : Terminal) : Screened s (tio_cursor_inc s) := by
  have hadvanced : Screened s (advanced s) := by
    rw [advanced_eq]
    exact .of_log rfl
  exact hadvanced.trans (scrollToCursor_screened (advanced s))

theorem catchUp_screened (s : Terminal) : Screened s (catchUp s) := by
  rw [catchUp]
  split
  · exact .of_log rfl
  · exact view_shift_screened _ _ s

theorem tio_cursor_dec_log (s : Terminal) : (tio_cursor_dec s).log = s.log := by
  simp only [tio_cursor_dec]
  split <;> split <;> rfl

theorem shiftCellsRight_screened (remaining j : Nat) (s : Terminal) :
    Screened s (shiftCellsRight remaining j s) := by
  induction remaining generalizing j s with
  | zero => exact .of_log rfl
  | succ remaining ih =>
      rw [shiftCellsRight]
      have hread : Screened s (vb_get_value (j - 1) s).2 := .append (.vb (j - 1)) rfl fun h => h
      have hset : Screened (vb_get_value (j - 1) s).2
          (vb_set_value j (s.fvb (j - 1)) (vb_get_value (j - 1) s).2) :=
        .append (.vb j) rfl fun h => h
      exact (hread.trans hset).trans (ih (j - 1) _)

theorem shiftCellsLeft_screened (remaining j : Nat) (s : Terminal) :
    Screened s (shiftCellsLeft remaining j s) := by
  induction remaining generalizing j s with
  | zero => exact .of_log rfl
  | succ remaining ih =>
      rw [shiftCellsLeft]
      have hread : Screened s (vb_get_value (j + 1) s).2 := .append (.vb (j + 1)) rfl fun h => h
      have hset : Screened (vb_get_value (j + 1) s).2
          (vb_set_value j (s.fvb (j + 1)) (vb_get_value (j + 1) s).2) :=
        .append (.vb j) rfl fun h => h
      exact (hread.trans hset).trans (ih (j + 1) _)

end Drawing

-- Accesses at the cursor's cell of the screen.
section Cell

theorem cursor_get_index_iff (s : Terminal) (hx : 0 ≤ s.cursor.x) (hx' : s.cursor.x < 80)
    (hy : 0 ≤ s.cursor.y) : cursor_get_index s < VB_SIZE ↔ s.cursor.y ≤ 23 := by
  have hindex : cursor_get_index s = (s.cursor.y * 80 + s.cursor.x).toNat :=
    toUnsigned_of_nonneg _ (show 0 ≤ s.cursor.y * 80 + s.cursor.x by omega)
  have hsize : VB_SIZE = 1920 := rfl
  rw [hindex, hsize]
  omega

theorem copyFromScreen_ok_iff (index : Nat) (s : Terminal) (hs : ScreenOk s) :
    ScreenOk (copyFromScreen index s) ↔ cursor_get_index s < VB_SIZE := by
  rw [← platform_ok_iff (cursor_get_index s) (t := (platform_get (cursor_get_index s) s).2)
    rfl hs]
  have hset : Screened (platform_get (cursor_get_index s) s).2 (copyFromScreen index s) :=
    .append (.vb index) rfl fun h => h
  exact hset.ok_iff

theorem putEntry_ok_iff (vga_entry : Vga_Entry) (s : Terminal) (hroams : Roams s)
    (hs : ScreenOk s) : ScreenOk (putEntry vga_entry s) ↔ s.cursor.y ≤ 23 := by
  rw [← cursor_get_index_iff s hroams.x_low hroams.x_high hroams.y_low,
    ← platform_ok_iff (cursor_get_index s) (t := platform_set (cursor_get_index s) vga_entry s)
      rfl hs]
  have hcaught := catchUp_screened (platform_set (cursor_get_index s) vga_entry s)
  have hset : Screened (caught vga_entry s) (stored vga_entry s) :=
    .append (.vb (cursor_get_index_in_buffer (caught vga_entry s))) rfl fun h => h
  exact ((hcaught.trans hset).trans (tio_cursor_inc_screened _)).ok_iff

theorem tio_backspace_ok_iff (s : Terminal) (hroams : Roams s) (hs : ScreenOk s) :
    ScreenOk (tio_backspace s) ↔
      (if s.cursor.x = 0 then max (s.cursor.y - 1) 0 else s.cursor.y) ≤ 23 := by
  obtain ⟨hback, -⟩ := tio_cursor_dec_roams s hroams
  have hok : ScreenOk (tio_cursor_dec s) := (Screened.of_log (tio_cursor_dec_log s)).ok_iff.mpr hs
  rw [← (tio_cursor_dec_row s hroams.x_low hroams.y_low).2,
    ← cursor_get_index_iff _ hback.x_low hback.x_high hback.y_low]
  exact copyFromScreen_ok_iff _ _ hok

theorem tio_shift_right_ok_iff (s : Terminal) (hroams : Roams s) (hs : ScreenOk s) :
    ScreenOk (tio_shift_right s) ↔ s.cursor.y ≤ 23 := by
  have hmoved := shiftCellsRight_screened
    (view_get_buffer_end_index s - cursor_get_index_in_buffer s) (view_get_buffer_end_index s) s
  obtain ⟨-, -, hcursor⟩ := shiftCellsRight_fields
    (view_get_buffer_end_index s - cursor_get_index_in_buffer s) (view_get_buffer_end_index s) s
  have hcopied := copyFromScreen_ok_iff (cursor_get_index_in_buffer s) _ (hmoved.ok_iff.mpr hs)
  rw [← cursor_get_index_iff s hroams.x_low hroams.x_high hroams.y_low]
  rw [cursor_get_index, hcursor, ← cursor_get_index] at hcopied
  exact (render_screen_screened _).ok_iff.trans hcopied

end Cell

section Runs

def OnScreen (_s : Terminal) (_step : Step) (t : Terminal) : Prop :=
  ∀ index, .platform index ∈ t.log → index < VB_SIZE

-- The cell that the step uses at the cursor is one of the 24 rows.
def CursorShown (s : Terminal) (step : Step) (_t : Terminal) : Prop :=
  match step with
  | .write_char_color c _ => c = 10 ∨ c = 13 ∨ s.cursor.y ≤ 23
  | .backspace => (if s.cursor.x = 0 then max (s.cursor.y - 1) 0 else s.cursor.y) ≤ 23
  | .shift_right => s.cursor.y ≤ 23
  | _ => True

theorem screenOk_iff (s : Terminal) (step : Step) (t : Terminal) :
    OnScreen s step t ↔ ScreenOk t := by
  constructor
  · intro h a ha
    cases a with
    | platform index => exact Nat.not_le.mpr (h index ha)
    | vb index => exact fun hoff => hoff
    | view_row row => exact fun hoff => hoff
  · intro h index hindex
    exact Nat.not_le.mp (h (.platform index) hindex)

theorem step_screened_iff (s : Terminal) (step : Step) (t : Terminal) (hroams : Roams s)
    (hs : ScreenOk s) : ScreenOk (step.apply s) ↔ CursorShown s step t := by
  cases step with
  | write_char_color c vc =>
      simp only [CursorShown, Step.apply, tio_write_char_color]
      by_cases hn : c = 10
      · rw [if_pos hn]
        have hbroken : Screened s (setX 0 (setY (s.cursor.y + 1) s)) := .of_log rfl
        exact iff_of_true ((hbroken.trans (scrollToCursor_screened _)).ok_iff.mpr hs) (.inl hn)
      · by_cases hr : c = 13
        · rw [if_neg hn, if_pos hr]
          exact iff_of_true hs (.inr (.inl hr))
        · rw [if_neg hn, if_neg hr, putEntry_ok_iff _ s hroams hs]
          exact ⟨fun h => .inr (.inr h), fun h => (h.resolve_left hn).resolve_left hr⟩
  | shift_view dir amt =>
      exact iff_of_true ((view_shift_screened dir amt.toNat s).ok_iff.mpr hs) trivial
  | cursor_inc => exact iff_of_true ((tio_cursor_inc_screened s).ok_iff.mpr hs) trivial
  | cursor_dec =>
      have hback : Screened s (tio_cursor_dec s) := .of_log (tio_cursor_dec_log s)
      exact iff_of_true (hback.ok_iff.mpr hs) trivial
  | backspace => exact tio_backspace_ok_iff s hroams hs
  | shift_right => exact tio_shift_right_ok_iff s hroams hs
  | shift_left =>
      have hmoved := shiftCellsLeft_screened
        (view_get_buffer_end_index s -
          (if s.cursor.x = 0 then cursor_get_index_in_buffer s + 1
          else cursor_get_index_in_buffer s))
        (if s.cursor.x = 0 then cursor_get_index_in_buffer s + 1
          else cursor_get_index_in_buffer s) s
      exact iff_of_true ((hmoved.trans (render_screen_screened _)).ok_iff.mpr hs) trivial

-- Whole runs of calls after `tio_init`, character by character.
theorem video_memory_in_bounds_iff (s : Terminal) (calls : List Call) :
    Along OnScreen (tio_init s) (traceOf Step.apply (tio_init s) (calls.flatMap Call.steps)) ↔
      Along CursorShown (tio_init s)
        (traceOf Step.apply (tio_init s) (calls.flatMap Call.steps)) := by
  refine along_iff (fun s => Roams s ∧ ScreenOk s) ?_ ?_ ⟨tio_init_roams s, ?_⟩
    (along_traceOf Step.apply _ _)
  · rintro s step t ⟨hroams, hs⟩ rfl hshown
    exact ⟨step_roams s step hroams, (step_screened_iff s step _ hroams hs).mpr hshown⟩
  · rintro s step t ⟨hroams, hs⟩ rfl
    rw [screenOk_iff]
    exact step_screened_iff s step _ hroams hs
  · intro a ha
    cases ha

-- A recycled page leaves the view above the buffer.
def NeverRecycles (s : Terminal) : Prop := ∀ row, .view_row row ∈ s.log → 0 ≤ row

theorem Sane.neverRecycles {s : Terminal} (hs : Sane s) : NeverRecycles s :=
  fun row hrow => (hs.log_ok (.view_row row) hrow).1

theorem shiftLoop_down_row (rounds : Nat) (s : Terminal) (hlow : 0 ≤ s.term_view.row)
    (hfar : s.term_view.row ≤ rounds) :
    (shiftLoop .SHIFT_DIRECTION_DOWN rounds s).1.term_view.row = 0 := by
  induction rounds generalizing s with
  | zero =>
      exact Int.le_antisymm hfar hlow
  | succ rounds ih =>
      rw [shiftLoop]
      by_cases hfirst : s.term_view.row - 1 < 0
      · have hrow : (shiftDown s).term_view.row = 0 := by
          rw [shiftDown, if_pos hfirst]
          rfl
        exact ih (shiftDown s) (by omega) (by omega)
      · have hrow : (shiftDown s).term_view.row = s.term_view.row - 1 := by
          rw [shiftDown, if_neg hfirst]
          rfl
        exact ih (shiftDown s) (by omega) (by omega)

-- Scrolling back to the first line takes the cursor along.
theorem shift_back (amt : UInt32) (s : Terminal) (hs : Sane s)
    (hfar : s.term_view.row ≤ amt.toNat) :
    Sane (tio_shift_view .SHIFT_DIRECTION_DOWN amt s) ∧
    (tio_shift_view .SHIFT_DIRECTION_DOWN amt s).term_view.row = 0 ∧
    (tio_shift_view .SHIFT_DIRECTION_DOWN amt s).cursor.y = s.term_view.row + s.cursor.y := by
  have hrow := shiftLoop_down_row amt.toNat s hs.row_low hfar
  obtain ⟨-, -, hsum, hflag, -⟩ :=
    shiftLoop_down amt.toNat s hs.sized hs.log_ok hs.row_low hs.row_high hs.y_low
  refine ⟨view_shift_down amt.toNat s hs.toPlaced, ?_⟩
  rw [tio_shift_view, view_shift]
  rcases hloop : shiftLoop .SHIFT_DIRECTION_DOWN amt.toNat s with ⟨t, returned⟩
  rw [hloop] at hrow hsum hflag
  simp only at hrow hsum hflag
  subst hflag
  obtain ⟨-, hview, -, hy, -⟩ := refresh_fields t
  simp only [hview, hy]
  omega

theorem tio_write_letter (s : Terminal) :
    tio_write [97] s = putEntry (create_vga_entry 97 .VGA_COLOR_WHITE) s := by
  rw [tio_write, tio_write_color, if_pos (by decide), tio_write_color, tio_write_char_color,
    if_neg (by decide), if_neg (by decide)]

-- From the first line of the buffer the view catches up without recycling.
theorem letter_sane (s : Terminal) (hs : Sane s) (hrow : s.term_view.row = 0)
    (hy : s.cursor.y ≤ 24) : Sane (tio_write [97] s) := by
  have hreach : catchUpReach s.cursor.on_screen s.cursor.y ≤ 24 := by
    rw [catchUpReach]
    split
    · omega
    · split <;> omega
  rw [tio_write_letter]
  exact (putEntry_iff s hs _).1 ⟨by omega, fun _ => by omega⟩

-- 24 line breaks and back to the first line: the cursor is below the screen, and
-- there goes the next character.
theorem video_memory_exceeded_after_scrolling_back :
    ¬∀ (s : Terminal) (calls : List Call),
      NeverRecycles (calls.foldl (fun s call => call.run s) (tio_init s)) →
      ∀ index, .platform index ∈ (calls.foldl (fun s call => call.run s) (tio_init s)).log →
        index < VB_SIZE := by
  intro h
  obtain ⟨breaks, hbreaks⟩ : ∃ breaks : Nat, breaks = 24 := ⟨24, rfl⟩
  have hinit : (tio_init emptyTerminal).term_view.row + (tio_init emptyTerminal).cursor.y = 0 := rfl
  obtain ⟨t, ht, hsane, hy, hline⟩ := newlines_move breaks (tio_init emptyTerminal)
    (tio_init_sane emptyTerminal) (show (0 : Int) ≤ 22 by decide) (by omega)
  have hyl := hsane.y_low
  have hamt : (24 : UInt32).toNat = 24 := rfl
  obtain ⟨hback, hrow, hcursor⟩ := shift_back 24 t hsane (by omega)
  have hscrolled := h emptyTerminal
    [.write (List.replicate breaks 10), .single (.shift_view .SHIFT_DIRECTION_DOWN 24)]
  have hended := h emptyTerminal
    [.write (List.replicate breaks 10), .single (.shift_view .SHIFT_DIRECTION_DOWN 24),
      .write [97]]
  have hrun : [Call.write (List.replicate breaks 10),
      .single (.shift_view .SHIFT_DIRECTION_DOWN 24)].foldl (fun s call => call.run s)
      (tio_init emptyTerminal) = tio_shift_view .SHIFT_DIRECTION_DOWN 24 t := by
    rw [List.foldl_cons, List.foldl_cons, List.foldl_nil, Call.run, Call.run, ht, Step.apply]
  have hrun' : [Call.write (List.replicate breaks 10),
      .single (.shift_view .SHIFT_DIRECTION_DOWN 24), .write [97]].foldl
      (fun s call => call.run s) (tio_init emptyTerminal) =
      tio_write [97] (tio_shift_view .SHIFT_DIRECTION_DOWN 24 t) := by
    rw [List.foldl_cons, List.foldl_cons, List.foldl_cons, List.foldl_nil, Call.run, Call.run,
      Call.run, ht, Step.apply]
  rw [hrun] at hscrolled
  rw [hrun'] at hended
  have hok := (screenOk_iff t .cursor_dec _).mp (hscrolled hback.neverRecycles)
  have hok' := (screenOk_iff t .cursor_dec _).mp
    (hended (letter_sane _ hback hrow (by omega)).neverRecycles)
  rw [tio_write_letter] at hok'
  have hshown := (putEntry_ok_iff _ _ hback.roams hok).mp hok'
  omega

end Runs

end PalleyOS.Tio
