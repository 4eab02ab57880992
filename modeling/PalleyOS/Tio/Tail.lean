import PalleyOS.Tio.Coherence

namespace PalleyOS.Tio

open Machine

-- What the two shifts of text do to the back buffer, cell by cell.
section Shifts

-- The view is inside the buffer and the cursor on the visible screen.
structure OnView (s : Terminal) : Prop where
  sized : Sized s
  row_low : 0 ≤ s.term_view.row
  row_high : s.term_view.row + s.term_view.height ≤ s.num_pages * TERM_HEIGHT
  x_low : 0 ≤ s.cursor.x
  x_high : s.cursor.x < TERM_WIDTH
  y_low : 0 ≤ s.cursor.y
  y_high : s.cursor.y < TERM_HEIGHT

theorem OnView.indices {s : Terminal} (hs : OnView s) :
    (cursor_get_index s : Int) = s.cursor.y * 80 + s.cursor.x ∧
    (cursor_get_index_in_buffer s : Int) = (s.term_view.row + s.cursor.y) * 80 + s.cursor.x ∧
    (view_get_buffer_end_index s : Int) = (s.term_view.row + 24) * 80 ∧
    view_get_buffer_end_index s ≤ PVB_SIZE := by
  obtain ⟨hpages, hheight⟩ := hs.sized
  have hrow := hs.row_low
  have hrow' := hs.row_high
  have hx := hs.x_low
  have hy := hs.y_low
  have hsize : PVB_SIZE = 19200 := rfl
  rw [hpages, hheight] at hrow'
  unfold TERM_HEIGHT at hrow'
  unfold cursor_get_index cursor_get_index_in_buffer view_get_buffer_end_index TERM_WIDTH
  rw [hheight, hsize]
  rw [toUnsigned_of_nonneg _ (by omega), toUnsigned_of_nonneg _ (by omega),
    toUnsigned_of_nonneg _ (by omega)]
  omega

theorem OnView.cursor_before_end {s : Terminal} (hs : OnView s) :
    cursor_get_index_in_buffer s < view_get_buffer_end_index s := by
  obtain ⟨-, hcursor, hend, -⟩ := hs.indices
  have hx := hs.x_high
  have hy := hs.y_high
  unfold TERM_WIDTH at hx
  unfold TERM_HEIGHT at hy
  omega

-- On a coherent screen the cursor's cell is the same in both buffers.
theorem OnView.cursor_shown {s : Terminal} (hs : OnView s) (h : Coherent s) :
    s.platform_vb (cursor_get_index s) = s.fvb (cursor_get_index_in_buffer s) := by
  obtain ⟨hindex, hbuffer, -, -⟩ := hs.indices
  obtain ⟨hpages, hheight⟩ := hs.sized
  have hrow := hs.row_low
  have hrow' := hs.row_high
  have hx := hs.x_high
  have hy := hs.y_high
  rw [hpages, hheight] at hrow'
  unfold TERM_WIDTH at hx
  unfold TERM_HEIGHT at hy hrow'
  have hin : cursor_get_index s < 1920 := by omega
  have hcell := cell_eq s.term_view.row (cursor_get_index s) (by omega) (by omega) hin
  rw [if_neg (by omega)] at hcell
  have hsame : cell s.term_view.row (cursor_get_index s) = cursor_get_index_in_buffer s := by omega
  rw [h _ hin, hsame]

-- Every cell behind the cursor's takes the one before it, up to the cell behind the
-- view.
theorem tio_shift_right_cell (s : Terminal) (hs : OnView s) (h : Coherent s) (k : Nat) :
    (tio_shift_right s).fvb k =
      if cursor_get_index_in_buffer s < k ∧ k ≤ view_get_buffer_end_index s then s.fvb (k - 1)
      else s.fvb k := by
  rw [tio_shift_right_fvb, hs.cursor_shown h]
  by_cases hk : k = cursor_get_index_in_buffer s
  · rw [hk, if_pos rfl, if_neg (fun hbehind => Nat.lt_irrefl _ hbehind.1)]
  · rw [if_neg hk]

-- Back again, save the cell behind the view.
theorem tio_shift_left_right_cell (s : Terminal) (hs : OnView s) (h : Coherent s) (k : Nat) :
    (tio_shift_left (tio_shift_right s)).fvb k =
      if k = view_get_buffer_end_index s then s.fvb (k - 1) else s.fvb k := by
  have hbefore := hs.cursor_before_end
  obtain ⟨-, hview, hcursor⟩ := tio_shift_right_fields s
  have hend : view_get_buffer_end_index (tio_shift_right s) = view_get_buffer_end_index s := by
    unfold view_get_buffer_end_index
    rw [hview]
  have hfirst : firstMoved (tio_shift_right s) = firstMoved s := by
    unfold firstMoved cursor_get_index_in_buffer
    rw [hview, hcursor]
  have hstart : cursor_get_index_in_buffer s ≤ firstMoved s ∧
      firstMoved s ≤ cursor_get_index_in_buffer s + 1 := by
    unfold firstMoved
    split <;> omega
  rw [tio_shift_left_fvb, hend, hfirst, tio_shift_right_cell s hs h, tio_shift_right_cell s hs h]
  by_cases hmoved : firstMoved s ≤ k ∧ k < view_get_buffer_end_index s
  · rw [if_pos hmoved, if_pos ⟨by omega, hmoved.2⟩, if_neg (by omega), Nat.add_sub_cancel]
  · rw [if_neg hmoved]
    by_cases hlast : k = view_get_buffer_end_index s
    · rw [if_pos hlast, if_pos ⟨by omega, Nat.le_of_eq hlast⟩]
    · rw [if_neg hlast]
      by_cases hcell : cursor_get_index_in_buffer s < k ∧ k ≤ view_get_buffer_end_index s
      · exact absurd ⟨by omega, by omega⟩ hmoved
      · rw [if_neg hcell]

end Shifts

section Tail

structure TailOnly (s : Terminal) : Prop where
  right_before : ∀ k < cursor_get_index_in_buffer s, (tio_shift_right s).fvb k = s.fvb k
  right_behind : ∀ k, view_get_buffer_end_index s ≤ k → k < PVB_SIZE →
    (tio_shift_right s).fvb k = s.fvb k
  left_before : ∀ k < cursor_get_index_in_buffer s, (tio_shift_left s).fvb k = s.fvb k
  left_behind : ∀ k, view_get_buffer_end_index s ≤ k → k < PVB_SIZE →
    (tio_shift_left s).fvb k = s.fvb k
  restored : ∀ k < PVB_SIZE, (tio_shift_left (tio_shift_right s)).fvb k = s.fvb k

-- The shift to the right also writes the cell behind the view, which shows unless
-- the buffer ends there or the cell holds the last character of the view already.
theorem shifts_keep_tail_iff (s : Terminal) (hs : OnView s) (h : Coherent s) :
    TailOnly s ↔
      view_get_buffer_end_index s = PVB_SIZE ∨
        s.fvb (view_get_buffer_end_index s) = s.fvb (view_get_buffer_end_index s - 1) := by
  have hbefore := hs.cursor_before_end
  obtain ⟨-, -, -, hinside⟩ := hs.indices
  have hstart : cursor_get_index_in_buffer s ≤ firstMoved s := by
    unfold firstMoved
    split <;> omega
  constructor
  · intro htail
    by_cases hlast : view_get_buffer_end_index s = PVB_SIZE
    · exact .inl hlast
    · have hbehind := htail.right_behind _ (Nat.le_refl _) (by omega)
      rw [tio_shift_right_cell s hs h, if_pos ⟨hbefore, Nat.le_refl _⟩] at hbehind
      exact .inr hbehind.symm
  · intro hsame
    have hcell (k : Nat) (hk : k < PVB_SIZE) (hend : k = view_get_buffer_end_index s) :
        s.fvb (k - 1) = s.fvb k := by
      rw [hend]
      exact (hsame.resolve_left (by omega)).symm
    refine ⟨fun k hk => ?_, fun k hk hin => ?_, fun k hk => ?_, fun k hk _ => ?_, fun k hin => ?_⟩
    · rw [tio_shift_right_cell s hs h, if_neg (by omega)]
    · rw [tio_shift_right_cell s hs h]
      split
      · exact hcell k hin (by omega)
      · rfl
    · rw [tio_shift_left_fvb, if_neg (by omega)]
    · rw [tio_shift_left_fvb, if_neg (by omega)]
    · rw [tio_shift_left_right_cell s hs h]
      split
      · exact hcell k hin ‹_›
      · rfl

-- The screen is blank and an `a` stands right behind the view.
def textBelow : Terminal :=
  { tio_init blankTerminal with
    fvb := Function.update (tio_init blankTerminal).fvb 1920
      (create_vga_entry 97 .VGA_COLOR_WHITE) }

theorem textBelow_onView : OnView textBelow :=
  ⟨⟨rfl, rfl⟩, by decide, by decide, by decide, by decide, by decide, by decide⟩

theorem textBelow_coherent : Coherent textBelow := by
  intro i hi
  have hi' : i < 1920 := hi
  have hcell := cell_eq 0 i (by decide) (by decide) hi'
  rw [if_neg (by omega)] at hcell
  have hother : cell textBelow.term_view.row i ≠ 1920 := by
    rw [show textBelow.term_view.row = 0 from rfl]
    omega
  exact (blankTerminal_coherent i hi).trans (Function.update_of_ne hother _ _).symm

theorem shifts_keep_tail_iff_below :
    TailOnly textBelow ↔
      view_get_buffer_end_index textBelow = PVB_SIZE ∨
        textBelow.fvb (view_get_buffer_end_index textBelow) =
          textBelow.fvb (view_get_buffer_end_index textBelow - 1) :=
  shifts_keep_tail_iff textBelow textBelow_onView textBelow_coherent

theorem text_below_overwritten :
    ¬∀ s : Terminal, OnView s → Coherent s → TailOnly s := by
  intro h
  have htail := h textBelow textBelow_onView textBelow_coherent
  have hbehind := htail.right_behind 1920 (by decide) (by decide)
  have hwritten := tio_shift_right_cell textBelow textBelow_onView textBelow_coherent 1920
  have hblank : textBelow.fvb 1919 = (tio_init blankTerminal).fvb 1919 :=
    Function.update_of_ne (show 1919 ≠ 1920 by decide) (create_vga_entry 97 .VGA_COLOR_WHITE) _
  have hletter : textBelow.fvb 1920 = create_vga_entry 97 .VGA_COLOR_WHITE :=
    Function.update_self 1920 _ (tio_init blankTerminal).fvb
  have hspace := copyBlank_apply 10 0 blankTerminal.fvb 1919
  rw [if_pos (by decide)] at hspace
  rw [if_pos (by decide), hbehind, hletter] at hwritten
  exact absurd ((hwritten.trans hblank).trans hspace) (by decide)

end Tail

end PalleyOS.Tio
