import PalleyOS.Tio.Screen

namespace PalleyOS.Tio

open Machine

-- Where the next character goes, across scrolling.
section Position

def writePosition (s : Terminal) : Int :=
  (s.term_view.row + s.cursor.y) * TERM_WIDTH + s.cursor.x

theorem buffer_index_of_position (s : Terminal) :
    cursor_get_index_in_buffer s = toUnsigned (writePosition s) := rfl

theorem writePosition_of_fields {s t : Terminal} (hview : t.term_view = s.term_view)
    (hcursor : t.cursor = s.cursor) : writePosition t = writePosition s := by
  rw [writePosition, writePosition, hview, hcursor]

-- How often the view went past the last page.
def recycled (s : Terminal) : Nat := s.log.count (.view_row 216)

theorem recycled_append {s t : Terminal} (a : Access) (h : t.log = s.log ++ [a])
    (ha : a ≠ .view_row 216) : recycled t = recycled s := by
  rw [recycled, recycled, h, List.count_append, List.count_singleton,
    if_neg (by simpa using ha), Nat.add_zero]

theorem recycled_of_log {s t : Terminal} (h : t.log = s.log) : recycled t = recycled s := by
  rw [recycled, recycled, h]

-- From one state to the next the write position goes `cells` further, as long as
-- no page is recycled; that takes a position below row 216.
structure Moves (cells : Nat) (s t : Terminal) : Prop where
  grows : recycled s ≤ recycled t
  position : recycled t = recycled s → writePosition t = writePosition s + cells
  room : writePosition s + cells < 17280 → recycled t = recycled s

theorem Moves.of_eq {cells : Nat} {s t : Terminal} (hpages : recycled t = recycled s)
    (hposition : writePosition t = writePosition s + cells) : Moves cells s t :=
  ⟨Nat.le_of_eq hpages.symm, fun _ => hposition, fun _ => hpages⟩

theorem Moves.trans {m n : Nat} {s t u : Terminal} (h : Moves m s t) (h' : Moves n t u) :
    Moves (m + n) s u := by
  have hgrows := h.grows
  have hgrows' := h'.grows
  refine ⟨Nat.le_trans hgrows hgrows', fun hsame => ?_, fun hroom => ?_⟩
  · have hfirst := h.position (by omega)
    have hsecond := h'.position (by omega)
    omega
  · have hkept := h.room (by omega)
    have hfirst := h.position hkept
    have hkept' := h'.room (by omega)
    omega

-- Neither the view nor the cursor moves.
theorem Moves.still {s t : Terminal} (hview : t.term_view = s.term_view)
    (hcursor : t.cursor = s.cursor) (hpages : recycled t = recycled s) : Moves 0 s t :=
  .of_eq hpages (by rw [writePosition_of_fields hview hcursor, Int.natCast_zero, Int.add_zero])

end Position

section Scrolls

theorem renderFrom_recycled (view_index remaining i : Nat) (s : Terminal) :
    recycled (renderFrom view_index remaining i s) = recycled s := by
  induction remaining generalizing i s with
  | zero => rfl
  | succ remaining ih =>
      have hread : recycled (vb_get_value ((view_index + i) % 4294967296) s).2 = recycled s :=
        recycled_append (.vb _) rfl (by simp)
      rw [renderFrom]
      exact ((ih (i + 1) _).trans (recycled_append (.platform i) rfl (by simp))).trans hread

theorem render_screen_still (s : Terminal) : Moves 0 s (render_screen s) := by
  obtain ⟨-, -, hview, hcursor, -⟩ := render_screen_fields s
  exact .still hview hcursor (renderFrom_recycled _ _ _ s)

theorem refresh_still (s : Terminal) : Moves 0 s (refresh s) := by
  have hset : Moves 0 s (setOnScreen (decide (s.cursor.y > 0 ∧ s.cursor.y < TERM_HEIGHT)) s) :=
    .of_eq rfl (Int.add_zero _).symm
  exact hset.trans (render_screen_still _)

-- A round either moves the view against the cursor or recycles a page.
theorem shiftUp_still (s : Terminal) (hs : Ranged s) (hy : 0 ≤ s.cursor.y - 1) :
    Moves 0 s (shiftUp s) := by
  have hxl := hs.x_low
  obtain ⟨-, hcursor, -⟩ := shiftUp_fields s hs.sized
  by_cases hroom : s.term_view.row < 215
  · obtain ⟨hrow, hlog⟩ := shiftUp_moves s hs.sized hroom
    have hother : Access.view_row (s.term_view.row + 1) ≠ .view_row 216 := by
      intro heq
      injection heq with heq
      omega
    refine .of_eq (recycled_append _ hlog hother) ?_
    rw [writePosition, writePosition, hrow, hcursor]
    simp only [TERM_WIDTH]
    omega
  · have hlast : s.term_view.row = 215 := Int.le_antisymm hs.row_high (Int.not_lt.mp hroom)
    have hreached : (moved s).log = s.log ++ [.view_row 216] := by
      simp only [moved, setRow, setY, hlast]
      rfl
    have hlog : (shiftUp s).log =
        s.log ++ [.view_row 216, .view_row (recycledRow (vb_shift_pages (moved s)))] := by
      rw [shiftUp_eq, if_pos ((page_full_iff s hs.sized).mpr (Int.le_of_eq hlast.symm)), setRow,
        (vb_shift_pages_fields (moved s)).2.2.2, hreached, List.append_assoc]
      rfl
    have hone : recycled s + 1 ≤ recycled (shiftUp s) := by
      rw [recycled, recycled, hlog, List.count_append, List.count_cons_self]
      omega
    refine ⟨by omega, fun hsame => by omega, fun hbelow => ?_⟩
    rw [writePosition, hlast, TERM_WIDTH] at hbelow
    omega

theorem shiftLoop_up_still (rounds : Nat) (s : Terminal) (hs : Ranged s) :
    Moves 0 s (shiftLoop .SHIFT_DIRECTION_UP rounds s).1 := by
  have hyl := hs.y_low
  induction rounds generalizing s with
  | zero => exact .still rfl rfl rfl
  | succ rounds ih =>
      rw [shiftLoop]
      split
      · have hfirst : s.cursor.y = 0 := by omega
        refine .of_eq rfl ?_
        simp only [writePosition, setOnScreen, setY, hfirst]
        omega
      · obtain ⟨hranged, -⟩ := shiftUp_ranged s hs (by omega)
        exact (shiftUp_still s hs (by omega)).trans (ih (shiftUp s) hranged hranged.y_low)

theorem view_shift_up_still (amt : Nat) (s : Terminal) (hs : Ranged s) :
    Moves 0 s (view_shift .SHIFT_DIRECTION_UP amt s) := by
  have hloop := shiftLoop_up_still amt s hs
  rw [view_shift]
  rcases hend : shiftLoop .SHIFT_DIRECTION_UP amt s with ⟨t, returned⟩
  rw [hend] at hloop
  cases returned with
  | false => exact hloop.trans (refresh_still t)
  | true => exact hloop

theorem scrollToCursor_still (s : Terminal) (hs : Ranged s) : Moves 0 s (scrollToCursor s) := by
  rcases scrollToCursor_cases s with ⟨-, heq⟩ | ⟨-, heq⟩
  · rw [heq]
    exact view_shift_up_still 1 s hs
  · rw [heq]
    exact .still rfl rfl rfl

theorem catchUp_still (s : Terminal) (hs : Ranged s) : Moves 0 s (catchUp s) := by
  rw [catchUp]
  split
  · exact .still rfl rfl rfl
  · exact view_shift_up_still _ s hs

-- Back by one row. Behind a recycled page the view jumps to row 0 and the cursor
-- stays where it is on the screen.
theorem shift_back_position_iff (s : Terminal) (hs : Ranged s) :
    recycled (tio_shift_view .SHIFT_DIRECTION_DOWN 1 s) = recycled s ∧
    (writePosition (tio_shift_view .SHIFT_DIRECTION_DOWN 1 s) = writePosition s ↔
      0 ≤ s.term_view.row) := by
  have hhigh := hs.row_high
  have hrefreshed := refresh_still (shiftDown s)
  have heq : tio_shift_view .SHIFT_DIRECTION_DOWN 1 s = refresh (shiftDown s) := rfl
  have hpages : recycled (refresh (shiftDown s)) = recycled (shiftDown s) := by
    rw [refresh, render_screen, renderFrom_recycled]
    rfl
  have hposition := hrefreshed.position hpages
  rw [heq, hpages, hposition, shiftDown]
  by_cases hfirst : s.term_view.row - 1 < 0
  · rw [if_pos hfirst]
    refine ⟨recycled_append (.view_row 0) rfl (by simp), ?_⟩
    simp only [writePosition, setRow, TERM_WIDTH]
    omega
  · rw [if_neg hfirst]
    have hother : Access.view_row (s.term_view.row - 1) ≠ .view_row 216 := by
      intro heq
      injection heq with heq
      omega
    refine ⟨recycled_append (.view_row (s.term_view.row - 1)) rfl hother, ?_⟩
    simp only [writePosition, setRow, setY, TERM_WIDTH]
    omega

end Scrolls

section Cursor

theorem advanced_position (s : Terminal) (hs : Ranged s) : Moves 1 s (advanced s) := by
  have hxh := hs.x_high
  refine .of_eq ?_ ?_
  · rw [advanced_eq]
    rfl
  · rw [advanced_eq]
    simp only [writePosition, setX, setY, advancedY, TERM_WIDTH]
    split <;> omega

theorem tio_cursor_inc_moves (s : Terminal) (hs : Ranged s) : Moves 1 s (tio_cursor_inc s) :=
  (advanced_position s hs).trans (scrollToCursor_still _ (advanced_ranged s hs).1)

theorem putEntry_moves (vga_entry : Vga_Entry) (s : Terminal) (hs : Roams s) :
    Moves 1 s (putEntry vga_entry s) := by
  have hset : Moves 0 s (platform_set (cursor_get_index s) vga_entry s) :=
    .still rfl rfl (recycled_append (.platform _) rfl (by simp))
  have hshown := platform_set_roams (cursor_get_index s) vga_entry s hs
  have hstored : Moves 0 (caught vga_entry s) (stored vga_entry s) :=
    .still rfl rfl (recycled_append (.vb _) rfl (by simp))
  have hcaught : Moves 0 s (stored vga_entry s) :=
    (hset.trans (catchUp_still _ hshown.toRanged)).trans hstored
  rw [putEntry_eq]
  exact hcaught.trans (tio_cursor_inc_moves _ (stored_ranged vga_entry s hs))

-- A character of a string of its own.
theorem tio_write_moves (s : Terminal) (hs : Roams s) (c : UInt8) (hzero : c ≠ 0) (hn : c ≠ 10)
    (hr : c ≠ 13) : Roams (tio_write [c] s) ∧ Moves 1 s (tio_write [c] s) := by
  have heq : tio_write [c] s = putEntry (create_vga_entry c .VGA_COLOR_WHITE) s := by
    rw [tio_write, tio_write_color, if_pos hzero, tio_write_color, tio_write_char_color,
      if_neg hn, if_neg hr]
  rw [heq]
  exact ⟨putEntry_roams _ s hs, putEntry_moves _ s hs⟩

-- A cell that is read and one that is written.
theorem cells_recycled (i j : Nat) (value : Vga_Entry) (s : Terminal) :
    recycled (vb_set_value j value (vb_get_value i s).2) = recycled s :=
  (recycled_append (.vb j) rfl (by simp)).trans
    (recycled_append (t := (vb_get_value i s).2) (.vb i) rfl (by simp))

theorem shiftCellsRight_recycled (remaining j : Nat) (s : Terminal) :
    recycled (shiftCellsRight remaining j s) = recycled s := by
  induction remaining generalizing j s with
  | zero => rfl
  | succ remaining ih =>
      rw [shiftCellsRight]
      exact (ih (j - 1) _).trans (cells_recycled (j - 1) j (s.fvb (j - 1)) s)

theorem shiftCellsLeft_recycled (remaining j : Nat) (s : Terminal) :
    recycled (shiftCellsLeft remaining j s) = recycled s := by
  induction remaining generalizing j s with
  | zero => rfl
  | succ remaining ih =>
      rw [shiftCellsLeft]
      exact (ih (j + 1) _).trans (cells_recycled (j + 1) j (s.fvb (j + 1)) s)

theorem copyFromScreen_recycled (index : Nat) (s : Terminal) :
    recycled (copyFromScreen index s) = recycled s :=
  (recycled_append (.vb index) rfl (by simp)).trans
    (recycled_append (t := (platform_get (cursor_get_index s) s).2) (.platform _) rfl (by simp))

theorem tio_shift_right_still (s : Terminal) : Moves 0 s (tio_shift_right s) := by
  obtain ⟨-, hview, hcursor⟩ := shiftCellsRight_fields
    (view_get_buffer_end_index s - cursor_get_index_in_buffer s) (view_get_buffer_end_index s) s
  have hpages := shiftCellsRight_recycled
    (view_get_buffer_end_index s - cursor_get_index_in_buffer s) (view_get_buffer_end_index s) s
  have heq : tio_shift_right s = render_screen (copyFromScreen (cursor_get_index_in_buffer s)
      (shiftCellsRight (view_get_buffer_end_index s - cursor_get_index_in_buffer s)
        (view_get_buffer_end_index s) s)) := rfl
  rw [heq]
  generalize shiftCellsRight (view_get_buffer_end_index s - cursor_get_index_in_buffer s)
    (view_get_buffer_end_index s) s = t at hview hcursor hpages ⊢
  have hcopied : Moves 0 s (copyFromScreen (cursor_get_index_in_buffer s) t) :=
    .still hview hcursor ((copyFromScreen_recycled _ t).trans hpages)
  exact hcopied.trans (render_screen_still _)

theorem tio_shift_left_still (s : Terminal) :
    Moves 0 s (tio_shift_left s) ∧ (tio_shift_left s).cursor = s.cursor := by
  rw [tio_shift_left]
  generalize (if s.cursor.x = 0 then cursor_get_index_in_buffer s + 1
    else cursor_get_index_in_buffer s) = index
  obtain ⟨-, hview, hcursor⟩ := shiftCellsLeft_fields
    (view_get_buffer_end_index s - index) index s
  obtain ⟨-, -, -, hcursor', -⟩ :=
    render_screen_fields (shiftCellsLeft (view_get_buffer_end_index s - index) index s)
  have hpages := shiftCellsLeft_recycled (view_get_buffer_end_index s - index) index s
  exact ⟨Moves.trans (.still hview hcursor hpages) (render_screen_still _),
    hcursor'.trans hcursor⟩

-- Back by one cell, except at the top left of the screen.
theorem tio_cursor_dec_position (s : Terminal) (hs : Ranged s) :
    recycled (tio_cursor_dec s) = recycled s ∧
    (writePosition (tio_cursor_dec s) = writePosition s - 1 ↔
      ¬(s.cursor.x = 0 ∧ s.cursor.y = 0)) := by
  have hxl := hs.x_low
  have hyl := hs.y_low
  refine ⟨recycled_of_log (tio_cursor_dec_log s), ?_⟩
  rw [tio_cursor_dec_eq s hxl hyl]
  by_cases hfirst : s.cursor.x = 0
  · rw [if_pos hfirst]
    simp only [writePosition, setX, setY, TERM_WIDTH]
    omega
  · rw [if_neg hfirst]
    simp only [writePosition, setX, TERM_WIDTH]
    omega

theorem tio_backspace_position (s : Terminal) (hs : Ranged s) :
    recycled (tio_backspace s) = recycled s ∧
    (writePosition (tio_backspace s) = writePosition s - 1 ↔
      ¬(s.cursor.x = 0 ∧ s.cursor.y = 0)) := by
  obtain ⟨hpages, hposition⟩ := tio_cursor_dec_position s hs
  have hcopied : writePosition (tio_backspace s) = writePosition (tio_cursor_dec s) :=
    writePosition_of_fields rfl rfl
  rw [hcopied]
  exact ⟨(copyFromScreen_recycled _ (tio_cursor_dec s)).trans hpages, hposition⟩

end Cursor

end PalleyOS.Tio
