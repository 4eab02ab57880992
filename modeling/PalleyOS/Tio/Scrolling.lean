import PalleyOS.Tio.Coherence

namespace PalleyOS.Tio

open Machine

-- The lines of text in the back buffer, and rows of the view as the buffer and
-- the screen have them.
section Lines

def line (s : Terminal) (row column : Nat) : Vga_Entry := s.fvb (row * 80 + column)

def window (s : Terminal) (row column : Nat) : Vga_Entry :=
  s.fvb (cell s.term_view.row (row * 80 + column))

def shown (s : Terminal) (row column : Nat) : Vga_Entry := s.platform_vb (row * 80 + column)

-- How many lines a shift by one recycles.
def discarded (s : Terminal) : Nat := if s.term_view.row < 215 then 0 else 24

-- Pages move down by one, from page `i` on.
theorem copyPages_apply (pages i : Nat) (fvb : Nat → Vga_Entry) (k : Nat) :
    copyPages pages (i + 1) fvb k =
      if i * 1920 ≤ k ∧ k < (i + pages) * 1920 then fvb (k + 1920) else fvb k := by
  induction pages generalizing i fvb with
  | zero => rw [copyPages, if_neg (fun h => absurd h.2 (Nat.not_lt.mpr h.1))]
  | succ pages ih =>
      have hpage (k : Nat) : vb_page_replace (fun k => fvb ((i + 1) * VB_SIZE + k)) i fvb k =
          if i * 1920 ≤ k ∧ k < (i + 1) * 1920 then fvb ((i + 1) * 1920 + (k - i * 1920))
          else fvb k := rfl
      rw [copyPages, Nat.add_sub_cancel, ih, hpage, hpage]
      by_cases hlater : (i + 1) * 1920 ≤ k ∧ k < (i + 1 + pages) * 1920
      · rw [if_pos hlater, if_neg (by omega), if_pos ⟨by omega, by omega⟩]
      · rw [if_neg hlater]
        by_cases hfirst : i * 1920 ≤ k ∧ k < (i + 1) * 1920
        · have hsource : (i + 1) * 1920 + (k - i * 1920) = k + 1920 := by omega
          rw [if_pos hfirst, if_pos ⟨hfirst.1, by omega⟩, hsource]
        · rw [if_neg hfirst, if_neg]
          rintro ⟨hlow, hhigh⟩
          have hpast : (i + 1) * 1920 ≤ k := Nat.not_lt.mp fun h => hfirst ⟨hlow, h⟩
          rw [Nat.add_comm pages 1, ← Nat.add_assoc] at hhigh
          exact hlater ⟨hpast, hhigh⟩

theorem vb_shift_pages_line (s : Terminal) (hpages : s.num_pages = 10) (row column : Nat)
    (hlow : 24 ≤ row) (hhigh : row < 240) (hcolumn : column < 80) :
    line (vb_shift_pages s) (row - 24) column = line s row column := by
  have hpage (k : Nat) (hk : k < 17280) : (vb_shift_pages s).fvb k = copyPages 9 1 s.fvb k := by
    have hlast : ¬(9 * VB_SIZE ≤ k ∧ k < (9 + 1) * VB_SIZE) :=
      fun h => absurd (show 17280 ≤ k from h.1) (Nat.not_le.mpr hk)
    rw [vb_shift_pages, hpages]
    exact if_neg hlast
  have hcopied := copyPages_apply 9 0 s.fvb ((row - 24) * 80 + column)
  rw [if_pos ⟨by omega, by omega⟩] at hcopied
  have hsource : (row - 24) * 80 + column + 1920 = row * 80 + column := by omega
  rw [line, line, hpage _ (by omega), hcopied, hsource]

-- A shift by one that is not stuck in the first row, before it repaints.
theorem view_shift_one (s : Terminal) (hy : 1 ≤ s.cursor.y) :
    tio_shift_view .SHIFT_DIRECTION_UP 1 s = refresh (shiftUp s) := by
  have hin : ¬s.cursor.y - 1 < 0 := by omega
  have hloop : shiftLoop .SHIFT_DIRECTION_UP 1 s = (shiftUp s, false) := by
    rw [shiftLoop, if_neg hin, shiftLoop]
  rw [tio_shift_view, view_shift, UInt32.toNat_one, hloop]

end Lines

-- One row further down, as a reader sees it.
section Continuity

-- `visible` is what a row of the view is.
structure Continuous (visible : Terminal → Nat → Nat → Vga_Entry) (s t : Terminal) :
    Prop where
  rows : ∀ row < 23, ∀ column < 80, visible t row column = visible s (row + 1) column
  line_kept : t.term_view.row + t.cursor.y + discarded s = s.term_view.row + s.cursor.y
  column_kept : t.cursor.x = s.cursor.x

def LinesKept (s t : Terminal) : Prop :=
  ∀ row, discarded s ≤ row → row < 240 → ∀ column < 80,
    line t (row - discarded s) column = line s row column

theorem shifted_lines (s : Terminal) (hs : Roams s) (hy : 1 ≤ s.cursor.y) :
    LinesKept s (tio_shift_view .SHIFT_DIRECTION_UP 1 s) := by
  intro row hlow hhigh column hcolumn
  have hrefreshed : (tio_shift_view .SHIFT_DIRECTION_UP 1 s).fvb = (shiftUp s).fvb := by
    rw [view_shift_one s hy]
    exact (refresh_scrolled (shiftUp s)).fvb
  have hline (row : Nat) : line (tio_shift_view .SHIFT_DIRECTION_UP 1 s) row column =
      line (shiftUp s) row column := by rw [line, line, hrefreshed]
  rw [hline]
  unfold discarded at hlow ⊢
  by_cases hroom : s.term_view.row < 215
  · rw [if_pos hroom, Nat.sub_zero, line, line, (shiftUp_scrolled s hs.sized hroom).fvb]
  · rw [if_neg hroom] at hlow ⊢
    have hfull := (page_full_iff s hs.sized).mpr (by omega)
    rw [shiftUp_eq, if_pos hfull]
    exact vb_shift_pages_line (moved s) hs.sized.1 row column hlow hhigh hcolumn

-- Row `row` of the view moved down by one is its row `row + 1`.
theorem cell_next_row (row : Int) (i : Nat) (hlow : -37 ≤ row) (hhigh : row < 215)
    (hi : i + 80 < 1920) : cell (row + 1) i = cell row (i + 80) := by
  have hnext := cell_eq (row + 1) i (by omega) (by omega) (by omega)
  have hsame := cell_eq row (i + 80) hlow (by omega) hi
  rw [Int.natCast_add] at hsame
  split at hnext <;> split at hsame <;> omega

theorem window_next (s : Terminal) (hs : Roams s) (hroom : s.term_view.row < 215)
    (hy : 1 ≤ s.cursor.y) (row : Nat) (hrow : row < 23) (column : Nat) (hcolumn : column < 80) :
    window (tio_shift_view .SHIFT_DIRECTION_UP 1 s) row column = window s (row + 1) column := by
  obtain ⟨-, hview, -, -, -⟩ := refresh_fields (shiftUp s)
  obtain ⟨hmoved, -⟩ := shiftUp_moves s hs.sized hroom
  have hfvb := (refresh_scrolled (shiftUp s)).fvb
  have hcell := cell_next_row s.term_view.row (row * 80 + column) hs.row_low hroom (by omega)
  have hindex : row * 80 + column + 80 = (row + 1) * 80 + column := by omega
  rw [window, window, view_shift_one s hy, hfvb, hview, hmoved,
    (shiftUp_scrolled s hs.sized hroom).fvb, hcell, hindex]

-- The repainted screen shows the window.
theorem shown_next (s : Terminal) (hs : Roams s) (hy : 1 ≤ s.cursor.y) (row column : Nat)
    (hrow : row < 24) (hcolumn : column < 80) :
    shown (tio_shift_view .SHIFT_DIRECTION_UP 1 s) row column =
      window (tio_shift_view .SHIFT_DIRECTION_UP 1 s) row column := by
  have hcoherent := (view_shift_roams .SHIFT_DIRECTION_UP 1 s hs.toRanged).2 fun _ => hy
  exact hcoherent (row * 80 + column) (show row * 80 + column < 1920 by omega)

theorem shiftUp_recycled_row (s : Terminal) (hs : Sized s) (hfull : 215 ≤ s.term_view.row) :
    (shiftUp s).term_view.row = -37 := by
  have hpages : (vb_shift_pages (moved s)).num_pages = 10 :=
    (vb_shift_pages_fields (moved s)).1.trans hs.1
  rw [shiftUp_eq, if_pos ((page_full_iff s hs).mpr hfull)]
  simp only [setRow, recycledRow, hpages, TERM_HEIGHT]
  rfl

theorem position_kept_iff (s : Terminal) (hs : Roams s) (hy : 1 ≤ s.cursor.y) :
    (tio_shift_view .SHIFT_DIRECTION_UP 1 s).term_view.row +
        (tio_shift_view .SHIFT_DIRECTION_UP 1 s).cursor.y + discarded s =
      s.term_view.row + s.cursor.y ↔ s.term_view.row < 215 := by
  obtain ⟨-, hview, -, hrefreshed, -⟩ := refresh_fields (shiftUp s)
  rw [view_shift_one s hy, hview, hrefreshed]
  unfold discarded
  by_cases hroom : s.term_view.row < 215
  · have hscrolled := (shiftUp_scrolled s hs.sized hroom).row
    rw [if_pos hroom]
    exact iff_of_true (by omega) hroom
  · obtain ⟨-, hcursor, -⟩ := shiftUp_fields s hs.sized
    rw [if_neg hroom, shiftUp_recycled_row s hs.sized (Int.not_lt.mp hroom), hcursor]
    simp only
    exact iff_of_false (by omega) hroom

theorem column_kept (s : Terminal) (hs : Roams s) (hy : 1 ≤ s.cursor.y) :
    (tio_shift_view .SHIFT_DIRECTION_UP 1 s).cursor.x = s.cursor.x := by
  obtain ⟨-, -, hx, -, -⟩ := refresh_fields (shiftUp s)
  obtain ⟨-, hcursor, -⟩ := shiftUp_fields s hs.sized
  rw [view_shift_one s hy, hx, hcursor]

theorem continuous_window_iff (s : Terminal) (hs : Roams s) (hy : 1 ≤ s.cursor.y) :
    Continuous window s (tio_shift_view .SHIFT_DIRECTION_UP 1 s) ↔ s.term_view.row < 215 := by
  rw [← position_kept_iff s hs hy]
  constructor
  · intro h
    exact h.line_kept
  · intro hline
    have hroom := (position_kept_iff s hs hy).mp hline
    exact ⟨window_next s hs hroom hy, hline, column_kept s hs hy⟩

theorem continuous_shown_iff (s : Terminal) (hs : Roams s) (hy : 1 ≤ s.cursor.y) :
    Continuous shown s (tio_shift_view .SHIFT_DIRECTION_UP 1 s) ↔
      s.term_view.row < 215 ∧
      ∀ row < 23, ∀ column < 80, shown s (row + 1) column = window s (row + 1) column := by
  have hpainted (hroom : s.term_view.row < 215) (row column : Nat) (hrow : row < 23)
      (hcolumn : column < 80) : shown (tio_shift_view .SHIFT_DIRECTION_UP 1 s) row column =
        window s (row + 1) column := by
    rw [shown_next s hs hy row column (by omega) hcolumn,
      window_next s hs hroom hy row hrow column hcolumn]
  constructor
  · intro h
    have hroom := (position_kept_iff s hs hy).mp h.line_kept
    refine ⟨hroom, fun row hrow column hcolumn => ?_⟩
    rw [← h.rows row hrow column hcolumn, hpainted hroom row column hrow hcolumn]
  · rintro ⟨hroom, hsame⟩
    refine ⟨fun row hrow column hcolumn => ?_, (position_kept_iff s hs hy).mpr hroom,
      column_kept s hs hy⟩
    rw [hpainted hroom row column hrow hcolumn, hsame row hrow column hcolumn]

end Continuity

section Reached

-- In the first row of the view there is nothing to move.
theorem lifted_of_moved (s : Terminal) (hs : Roams s)
    (h : (tio_shift_view .SHIFT_DIRECTION_UP 1 s).term_view.row ≠ s.term_view.row) :
    1 ≤ s.cursor.y := by
  have hyl := hs.y_low
  by_contra hlow
  refine h ?_
  rw [tio_shift_view, UInt32.toNat_one, view_shift_up_stuck 1 s Nat.one_pos (by omega)]
  rfl

-- After any calls, a shift by one that changes the view.
theorem scrolling_continuous_iff (s : Terminal) (calls : List Call) :
    let reached := calls.foldl (fun s call => call.run s) (tio_init s)
    let shifted := tio_shift_view .SHIFT_DIRECTION_UP 1 reached
    shifted.term_view.row ≠ reached.term_view.row →
      LinesKept reached shifted ∧
      (Continuous window reached shifted ↔ reached.term_view.row < 215) ∧
      (Continuous shown reached shifted ↔ reached.term_view.row < 215 ∧
        ∀ row < 23, ∀ column < 80,
          shown reached (row + 1) column = window reached (row + 1) column) := by
  intro reached shifted hmoved
  have hroams : Roams reached := reached_roams s calls
  have hy := lifted_of_moved reached hroams hmoved
  exact ⟨shifted_lines reached hroams hy, continuous_window_iff reached hroams hy,
    continuous_shown_iff reached hroams hy⟩

-- Line breaks until the last row, one row to a break.
theorem newlines_move (breaks : Nat) (s : Terminal) (hs : Sane s) (hy : s.cursor.y ≤ 22)
    (hfew : s.term_view.row + s.cursor.y + breaks ≤ 237) :
    ∃ t, tio_write (List.replicate breaks 10) s = t ∧ Sane t ∧ t.cursor.y ≤ 22 ∧
      t.term_view.row + t.cursor.y = s.term_view.row + s.cursor.y + breaks := by
  induction breaks generalizing s with
  | zero => exact ⟨s, rfl, hs, hy, by omega⟩
  | succ breaks ih =>
      have hroomy : Roomy s.term_view.row (s.cursor.y + 1) := by
        intro hlast
        omega
      obtain ⟨hsum, hy'⟩ := newline_moves s hs hy .VGA_COLOR_WHITE hroomy
      have hnext := (newline_iff s hs.toPlaced).1 hroomy
      obtain ⟨t, ht, hsane, hlast, hline⟩ :=
        ih (tio_write_char_color 10 .VGA_COLOR_WHITE s) hnext hy' (by omega)
      exact ⟨t, ht, hsane, hlast, by omega⟩

-- One line down, one row further.
theorem scrolling_continuous_iff_one_line :
    let reached := [Call.write [10]].foldl (fun s call => call.run s) (tio_init emptyTerminal)
    let shifted := tio_shift_view .SHIFT_DIRECTION_UP 1 reached
    LinesKept reached shifted ∧
    (Continuous window reached shifted ↔ reached.term_view.row < 215) ∧
    (Continuous shown reached shifted ↔ reached.term_view.row < 215 ∧
      ∀ row < 23, ∀ column < 80,
        shown reached (row + 1) column = window reached (row + 1) column) := by
  refine scrolling_continuous_iff emptyTerminal [.write [10]] ?_
  have hone : (1 : Int) ≤ ([Call.write [10]].foldl (fun s call => call.run s)
    (tio_init emptyTerminal)).cursor.y := by decide
  rw [view_shift_one _ hone, (refresh_fields _).2.1]
  decide

-- 237 line breaks fill the buffer; the next row recycles a page and loses the place.
theorem scrolling_discontinuous_when_full :
    ¬∀ (s : Terminal) (calls : List Call),
      let reached := calls.foldl (fun s call => call.run s) (tio_init s)
      let shifted := tio_shift_view .SHIFT_DIRECTION_UP 1 reached
      shifted.term_view.row ≠ reached.term_view.row → Continuous window reached shifted := by
  intro h
  obtain ⟨breaks, hbreaks⟩ : ∃ breaks : Nat, breaks = 237 := ⟨237, rfl⟩
  have hinit : (tio_init emptyTerminal).term_view.row + (tio_init emptyTerminal).cursor.y = 0 := rfl
  obtain ⟨t, ht, hsane, hy, hline⟩ := newlines_move breaks (tio_init emptyTerminal)
    (tio_init_sane emptyTerminal) (show (0 : Int) ≤ 22 by decide) (by omega)
  have hhigh := hsane.row_high
  have hroams := hsane.roams
  have hlifted : 1 ≤ t.cursor.y := by omega
  have hcontinuous := h emptyTerminal [.write (List.replicate breaks 10)]
  have hrun : [Call.write (List.replicate breaks 10)].foldl (fun s call => call.run s)
      (tio_init emptyTerminal) = t := ht
  simp only [hrun] at hcontinuous
  have hmoved : (tio_shift_view .SHIFT_DIRECTION_UP 1 t).term_view.row ≠ t.term_view.row := by
    have hrecycled := shiftUp_recycled_row t hroams.sized (by omega)
    rw [view_shift_one t hlifted, (refresh_fields _).2.1, hrecycled]
    omega
  have hroom := (continuous_window_iff t hroams hlifted).mp (hcontinuous hmoved)
  omega

end Reached

end PalleyOS.Tio
