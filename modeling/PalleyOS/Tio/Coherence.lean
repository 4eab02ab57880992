import PalleyOS.Machine.Shift
import PalleyOS.Tio.Reference

namespace PalleyOS.Tio

open Machine

-- Video memory against the window of the back buffer that the view shows.
section Picture

def cell (row : Int) (i : Nat) : Nat := (toUnsigned (row * TERM_WIDTH) + i) % 4294967296

def Coherent (s : Terminal) : Prop :=
  ∀ i < VB_SIZE, s.platform_vb i = s.fvb (cell s.term_view.row i)

-- Where the view and the cursor can be at all, recycled pages included.
structure Ranged (s : Terminal) : Prop where
  sized : Sized s
  row_low : -37 ≤ s.term_view.row
  row_high : s.term_view.row ≤ 215
  x_low : 0 ≤ s.cursor.x
  x_high : s.cursor.x < 80
  y_low : 0 ≤ s.cursor.y

structure Roams (s : Terminal) : Prop extends Ranged s where
  visible : s.cursor.on_screen = true → s.cursor.y ≤ 23

theorem cell_eq (row : Int) (i : Nat) (hlow : -37 ≤ row) (hhigh : row ≤ 240) (hi : i < 1920) :
    (cell row i : Int) = if row * 80 + i < 0 then row * 80 + i + 4294967296 else row * 80 + i := by
  unfold cell toUnsigned TERM_WIDTH
  split <;> split <;> omega

theorem cell_injective (row : Int) (i j : Nat) (hlow : -37 ≤ row) (hhigh : row ≤ 240)
    (hi : i < 1920) (hj : j < 1920) (h : cell row i = cell row j) : i = j := by
  have hcell := cell_eq row i hlow hhigh hi
  have hcell' := cell_eq row j hlow hhigh hj
  rw [← h, hcell] at hcell'
  split at hcell' <;> split at hcell' <;> omega

-- The cursor's cell of the buffer is its cell of the screen.
theorem cursor_cell (s : Terminal) (hs : Ranged s) (hy : s.cursor.y ≤ 23) :
    cursor_get_index s < 1920 ∧
    cursor_get_index_in_buffer s = cell s.term_view.row (cursor_get_index s) := by
  have hrow := hs.row_low
  have hrow' := hs.row_high
  have hx := hs.x_low
  have hx' := hs.x_high
  have hyl := hs.y_low
  have hindex : cursor_get_index s = (s.cursor.y * 80 + s.cursor.x).toNat :=
    toUnsigned_of_nonneg _ (by unfold TERM_WIDTH; omega)
  have hin : cursor_get_index s < 1920 := by
    rw [hindex]
    omega
  have hcell := cell_eq s.term_view.row (cursor_get_index s) hrow (by omega) hin
  refine ⟨hin, ?_⟩
  rw [hindex] at hcell ⊢
  unfold cursor_get_index_in_buffer toUnsigned TERM_WIDTH
  split at hcell <;> split <;> omega

theorem renderFrom_platform (view_index remaining i : Nat) (s : Terminal) (k : Nat) :
    (renderFrom view_index remaining i s).platform_vb k =
      if i ≤ k ∧ k < i + remaining then s.fvb ((view_index + k) % 4294967296)
      else s.platform_vb k := by
  induction remaining generalizing i s with
  | zero => rw [renderFrom, if_neg (by omega)]
  | succ remaining ih =>
      rw [renderFrom]
      simp only [vb_get_value]
      rw [ih]
      simp only [platform_set]
      by_cases hlater : i + 1 ≤ k ∧ k < i + 1 + remaining
      · rw [if_pos hlater, if_pos ⟨by omega, by omega⟩]
      · rw [if_neg hlater]
        by_cases hk : k = i
        · rw [hk, Function.update_self, if_pos ⟨by omega, by omega⟩]
        · rw [Function.update_of_ne hk, if_neg (fun h => hlater ⟨by omega, by omega⟩)]

theorem render_screen_coherent (s : Terminal) : Coherent (render_screen s) := by
  intro i hi
  obtain ⟨hfvb, -, hview, -, -⟩ := render_screen_fields s
  have hin : 0 ≤ i ∧ i < 0 + VB_SIZE := ⟨Nat.zero_le i, by rw [Nat.zero_add]; exact hi⟩
  rw [hfvb, hview]
  unfold render_screen
  rw [renderFrom_platform, if_pos hin]
  rfl

end Picture

-- No operation leaves the range.
section Range

theorem shiftUp_ranged (s : Terminal) (hs : Ranged s) (hy : 0 ≤ s.cursor.y - 1) :
    Ranged (shiftUp s) ∧ (shiftUp s).cursor.y = s.cursor.y - 1 := by
  have hlow := hs.row_low
  have hhigh := hs.row_high
  obtain ⟨hsized, hcursor, -⟩ := shiftUp_fields s hs.sized
  have hrow : -37 ≤ (shiftUp s).term_view.row ∧ (shiftUp s).term_view.row ≤ 215 := by
    by_cases hlast : 215 ≤ s.term_view.row
    · rw [shiftUp_eq, if_pos ((page_full_iff s hs.sized).mpr hlast)]
      have hpages : (vb_shift_pages (moved s)).num_pages = 10 :=
        (vb_shift_pages_fields (moved s)).1.trans hs.sized.1
      simp only [setRow, recycledRow, hpages, TERM_HEIGHT]
      omega
    · obtain ⟨hmoved, -⟩ := shiftUp_moves s hs.sized (by omega)
      omega
  refine ⟨⟨hsized, hrow.1, hrow.2, ?_, ?_, ?_⟩, by rw [hcursor]⟩
  · rw [hcursor]
    exact hs.x_low
  · rw [hcursor]
    exact hs.x_high
  · rw [hcursor]
    exact hy

theorem shiftDown_ranged (s : Terminal) (hs : Ranged s) : Ranged (shiftDown s) := by
  have hlow := hs.row_low
  have hhigh := hs.row_high
  have hyl := hs.y_low
  unfold shiftDown
  split
  · exact ⟨hs.sized, show (-37 : Int) ≤ 0 by decide, show (0 : Int) ≤ 215 by decide, hs.x_low,
      hs.x_high, hyl⟩
  · exact ⟨hs.sized, show -37 ≤ s.term_view.row - 1 by omega,
      show s.term_view.row - 1 ≤ 215 by omega, hs.x_low, hs.x_high,
      show 0 ≤ s.cursor.y + 1 by omega⟩

-- The loop returns from inside exactly when it runs out of rows.
theorem shiftLoop_up_ranged (rounds : Nat) (s : Terminal) (hs : Ranged s) :
    Ranged (shiftLoop .SHIFT_DIRECTION_UP rounds s).1 ∧
    (shiftLoop .SHIFT_DIRECTION_UP rounds s).2 = decide (s.cursor.y < rounds) ∧
    (shiftLoop .SHIFT_DIRECTION_UP rounds s).1.cursor.y = s.cursor.y - reach rounds s := by
  have hyl := hs.y_low
  induction rounds generalizing s with
  | zero =>
      unfold reach
      refine ⟨hs, ?_, ?_⟩
      · simp only [shiftLoop, false_eq_decide_iff]
        omega
      · simp only [shiftLoop]
        omega
  | succ rounds ih =>
      rw [shiftLoop]
      unfold reach at ih ⊢
      split
      · refine ⟨⟨hs.sized, hs.row_low, hs.row_high, hs.x_low, hs.x_high, Int.le_refl 0⟩, ?_, ?_⟩
        · simp only [true_eq_decide_iff]
          omega
        · simp only [setOnScreen, setY]
          omega
      · obtain ⟨hranged, hy⟩ := shiftUp_ranged s hs (by omega)
        obtain ⟨hranged', hflag, hy'⟩ := ih (shiftUp s) hranged hranged.y_low
        refine ⟨hranged', ?_, by omega⟩
        rw [hflag, hy]
        exact decide_eq_decide.mpr (by omega)

theorem shiftLoop_down_ranged (rounds : Nat) (s : Terminal) (hs : Ranged s) :
    Ranged (shiftLoop .SHIFT_DIRECTION_DOWN rounds s).1 ∧
    (shiftLoop .SHIFT_DIRECTION_DOWN rounds s).2 = false := by
  induction rounds generalizing s with
  | zero => exact ⟨hs, rfl⟩
  | succ rounds ih => exact ih (shiftDown s) (shiftDown_ranged s hs)

theorem Ranged.of_fields {s t : Terminal} (hs : Ranged s) (hpages : t.num_pages = s.num_pages)
    (hview : t.term_view = s.term_view) (hx : t.cursor.x = s.cursor.x)
    (hy : t.cursor.y = s.cursor.y) : Ranged t := by
  refine ⟨⟨hpages.trans hs.sized.1, ?_⟩, ?_, ?_, ?_, ?_, ?_⟩
  · rw [hview]
    exact hs.sized.2
  · rw [hview]
    exact hs.row_low
  · rw [hview]
    exact hs.row_high
  · rw [hx]
    exact hs.x_low
  · rw [hx]
    exact hs.x_high
  · rw [hy]
    exact hs.y_low

theorem refresh_roams (s : Terminal) (hs : Ranged s) : Roams (refresh s) := by
  obtain ⟨hpages, hview, hx, hy, -⟩ := refresh_fields s
  refine ⟨hs.of_fields hpages hview hx hy, fun hon => ?_⟩
  rw [hy]
  have hcursor := (render_screen_fields
    (setOnScreen (decide (s.cursor.y > 0 ∧ s.cursor.y < TERM_HEIGHT)) s)).2.2.2.1
  unfold refresh at hon
  rw [hcursor] at hon
  have hrange : s.cursor.y > 0 ∧ s.cursor.y < 24 := of_decide_eq_true hon
  omega

-- A shift repaints unless it runs out of rows; then the cursor ends in row 0.
theorem view_shift_roams (dir : Shift_Direction) (amt : Nat) (s : Terminal) (hs : Ranged s) :
    Roams (view_shift dir amt s) ∧
    ((dir = .SHIFT_DIRECTION_UP → (amt : Int) ≤ s.cursor.y) → Coherent (view_shift dir amt s)) := by
  unfold view_shift
  cases dir with
  | SHIFT_DIRECTION_UP =>
      obtain ⟨hranged, hflag, hy⟩ := shiftLoop_up_ranged amt s hs
      rcases hloop : shiftLoop .SHIFT_DIRECTION_UP amt s with ⟨t, returned⟩
      rw [hloop] at hranged hflag hy
      cases returned with
      | false => exact ⟨refresh_roams t hranged, fun _ => render_screen_coherent _⟩
      | true =>
          have hshort : s.cursor.y < amt := of_decide_eq_true hflag.symm
          refine ⟨⟨hranged, fun _ => ?_⟩, fun h => absurd (h rfl) (by omega)⟩
          rw [reach_of_lt hshort] at hy
          simp only at hy ⊢
          omega
  | SHIFT_DIRECTION_DOWN =>
      obtain ⟨hranged, hflag⟩ := shiftLoop_down_ranged amt s hs
      rcases hloop : shiftLoop .SHIFT_DIRECTION_DOWN amt s with ⟨t, returned⟩
      rw [hloop] at hranged hflag
      simp only at hflag
      rw [hflag]
      exact ⟨refresh_roams t hranged, fun _ => render_screen_coherent _⟩

theorem view_shift_up_y (amt : Nat) (s : Terminal) (hs : Ranged s) :
    (view_shift .SHIFT_DIRECTION_UP amt s).cursor.y = s.cursor.y - reach amt s := by
  obtain ⟨-, -, hy⟩ := shiftLoop_up_ranged amt s hs
  unfold view_shift
  rcases hloop : shiftLoop .SHIFT_DIRECTION_UP amt s with ⟨t, returned⟩
  rw [hloop] at hy
  cases returned with
  | false =>
      obtain ⟨-, -, -, hrefreshed, -⟩ := refresh_fields t
      simp only [hrefreshed]
      exact hy
  | true => exact hy

-- In row 0 the first round already returns.
theorem view_shift_up_stuck (amt : Nat) (s : Terminal) (hamt : 0 < amt) (hy : s.cursor.y = 0) :
    view_shift .SHIFT_DIRECTION_UP amt s = setOnScreen true (setY 0 s) := by
  have hout : s.cursor.y - 1 < 0 := by omega
  cases amt with
  | zero => exact absurd hamt (Nat.lt_irrefl 0)
  | succ rounds =>
      unfold view_shift
      rw [shiftLoop, if_pos hout]

theorem scrollToCursor_roams (s : Terminal) (hs : Ranged s) :
    Roams (scrollToCursor s) ∧ (Coherent s ∨ 23 ≤ s.cursor.y → Coherent (scrollToCursor s)) := by
  rcases scrollToCursor_cases s with ⟨hy, heq⟩ | ⟨hy, heq⟩
  · obtain ⟨hroams, hcoherent⟩ := view_shift_roams .SHIFT_DIRECTION_UP 1 s hs
    rw [heq]
    exact ⟨hroams, fun _ => hcoherent (fun _ => by omega)⟩
  · rw [heq]
    exact ⟨⟨hs, fun _ => by omega⟩, fun h => h.resolve_right (by omega)⟩

end Range

section Writing

theorem Ranged.moveTo {s : Terminal} (hs : Ranged s) (x y : Int) (hxl : 0 ≤ x) (hxh : x < 80)
    (hyl : 0 ≤ y) : Ranged (setX x (setY y s)) :=
  ⟨hs.sized, hs.row_low, hs.row_high, hxl, hxh, hyl⟩

theorem advanced_ranged (s : Terminal) (hs : Ranged s) :
    Ranged (advanced s) ∧ (advanced s).cursor.y = advancedY s.cursor.x s.cursor.y ∧
    (Coherent s → Coherent (advanced s)) := by
  obtain ⟨hxl, hxh⟩ := advancedX_range s.cursor.x hs.x_low
  have hyl := advancedY_range s.cursor.x s.cursor.y hs.y_low
  rw [advanced_eq]
  exact ⟨hs.moveTo _ _ hxl hxh hyl, rfl, fun h => h⟩

theorem tio_cursor_inc_roams (s : Terminal) (hs : Ranged s) :
    Roams (tio_cursor_inc s) ∧
    (Coherent s ∨ 23 ≤ s.cursor.y → Coherent (tio_cursor_inc s)) := by
  have heq : tio_cursor_inc s = scrollToCursor (advanced s) := rfl
  obtain ⟨hranged, hy, hcoherent⟩ := advanced_ranged s hs
  obtain ⟨hroams, hscrolled⟩ := scrollToCursor_roams (advanced s) hranged
  rw [heq]
  refine ⟨hroams, fun h => hscrolled (h.imp hcoherent fun hlast => ?_)⟩
  rw [hy]
  unfold advancedY
  split <;> omega

-- A character written to both buffers.
def written (vga_entry : Vga_Entry) (s : Terminal) : Terminal :=
  vb_set_value (cursor_get_index_in_buffer s) vga_entry
    (platform_set (cursor_get_index s) vga_entry s)

theorem written_coherent (vga_entry : Vga_Entry) (s : Terminal) (hs : Ranged s)
    (hy : s.cursor.y ≤ 23) (h : Coherent s) : Coherent (written vga_entry s) := by
  obtain ⟨hin, hindex⟩ := cursor_cell s hs hy
  have hlow := hs.row_low
  have hhigh := hs.row_high
  intro i hi
  simp only [written, vb_set_value, platform_set, hindex]
  by_cases hcell : i = cursor_get_index s
  · rw [hcell, Function.update_self, Function.update_self]
  · have hother : cell s.term_view.row i ≠ cell s.term_view.row (cursor_get_index s) :=
      fun heq => hcell (cell_injective _ i _ hlow (by omega) hi hin heq)
    rw [Function.update_of_ne hcell, Function.update_of_ne hother]
    exact h i hi

theorem platform_set_roams (index : Nat) (value : Vga_Entry) (s : Terminal) (hs : Roams s) :
    Roams (platform_set index value s) :=
  ⟨⟨hs.sized, hs.row_low, hs.row_high, hs.x_low, hs.x_high, hs.y_low⟩, hs.visible⟩

theorem catchUp_roams (s : Terminal) (hs : Roams s) : Roams (catchUp s) := by
  unfold catchUp
  split
  · exact hs
  · exact (view_shift_roams _ _ s hs.toRanged).1

theorem stored_ranged (vga_entry : Vga_Entry) (s : Terminal) (hs : Roams s) :
    Ranged (stored vga_entry s) := by
  have hcaught := catchUp_roams _ (platform_set_roams (cursor_get_index s) vga_entry s hs)
  exact ⟨hcaught.sized, hcaught.row_low, hcaught.row_high, hcaught.x_low, hcaught.x_high,
    hcaught.y_low⟩

theorem putEntry_roams (vga_entry : Vga_Entry) (s : Terminal) (hs : Roams s) :
    Roams (putEntry vga_entry s) := by
  rw [putEntry_eq]
  exact (tio_cursor_inc_roams _ (stored_ranged vga_entry s hs)).1

-- The cursor is on the screen, in the first row, or in the last row or below.
def Settled (s : Terminal) : Prop :=
  s.cursor.on_screen = true ∨ s.cursor.y = 0 ∨ 23 ≤ s.cursor.y

theorem putEntry_coherent (vga_entry : Vga_Entry) (s : Terminal) (hs : Roams s)
    (hsettled : Settled s) (h : Coherent s) : Coherent (putEntry vga_entry s) := by
  have hshown := platform_set_roams (cursor_get_index s) vga_entry s hs
  rw [putEntry_eq]
  refine (tio_cursor_inc_roams _ (stored_ranged vga_entry s hs)).2 ?_
  cases hon : s.cursor.on_screen with
  | true =>
      have hstored : stored vga_entry s = written vga_entry s := by
        simp only [stored, caught, catchUp, platform_set, hon, if_true]
        rfl
      rw [hstored]
      exact .inl (written_coherent vga_entry s hs.toRanged (hs.visible hon) h)
  | false =>
      have hcaught : caught vga_entry s = view_shift .SHIFT_DIRECTION_UP
          (toUnsigned (s.cursor.y - TERM_HEIGHT + 1))
          (platform_set (cursor_get_index s) vga_entry s) := by
        simp only [caught, catchUp, platform_set, hon, Bool.false_eq_true, if_false]
      rcases hsettled with hvisible | hfirst | hlast
      · exact absurd hvisible (by rw [hon]; exact Bool.false_ne_true)
      · have hamt : 0 < toUnsigned (s.cursor.y - TERM_HEIGHT + 1) := by
          unfold toUnsigned TERM_HEIGHT
          rw [hfirst]
          decide
        have hstuck := view_shift_up_stuck _
          (platform_set (cursor_get_index s) vga_entry s) hamt hfirst
        have hindex : cursor_get_index_in_buffer (caught vga_entry s) =
            cursor_get_index_in_buffer s := by
          rw [hcaught, hstuck]
          simp only [cursor_get_index_in_buffer, setOnScreen, setY, platform_set, hfirst]
        have hwritten := written_coherent vga_entry s hs.toRanged (by omega) h
        refine .inl fun i hi => ?_
        have hcell := hwritten i hi
        simp only [written, vb_set_value] at hcell
        simp only [stored, vb_set_value, hindex]
        rw [hcaught, hstuck]
        exact hcell
      · have hy : (caught vga_entry s).cursor.y = 23 := by
          have hreach := reach_catchUp s (by omega) hon
          rw [hcaught, view_shift_up_y _ _ hshown.toRanged]
          simp only [catchUpReach, hon, if_pos hlast] at hreach
          have hsame : reach (toUnsigned (s.cursor.y - TERM_HEIGHT + 1))
              (platform_set (cursor_get_index s) vga_entry s) =
              reach (toUnsigned (s.cursor.y - TERM_HEIGHT + 1)) s := rfl
          rw [hsame, hreach]
          simp only [platform_set, Bool.false_eq_true, if_false]
          omega
        exact .inr (Int.le_of_eq hy.symm)

end Writing

section Editing

-- What the shifts of a row leave alone.
theorem shiftCellsRight_fields (remaining j : Nat) (s : Terminal) :
    (shiftCellsRight remaining j s).num_pages = s.num_pages ∧
    (shiftCellsRight remaining j s).term_view = s.term_view ∧
    (shiftCellsRight remaining j s).cursor = s.cursor := by
  induction remaining generalizing j s with
  | zero => exact ⟨rfl, rfl, rfl⟩
  | succ remaining ih =>
      rw [shiftCellsRight]
      exact ih (j - 1) _

theorem shiftCellsLeft_fields (remaining j : Nat) (s : Terminal) :
    (shiftCellsLeft remaining j s).num_pages = s.num_pages ∧
    (shiftCellsLeft remaining j s).term_view = s.term_view ∧
    (shiftCellsLeft remaining j s).cursor = s.cursor := by
  induction remaining generalizing j s with
  | zero => exact ⟨rfl, rfl, rfl⟩
  | succ remaining ih =>
      rw [shiftCellsLeft]
      exact ih (j + 1) _

theorem shiftCellsRight_up : ShiftsUp Terminal.fvb shiftCellsRight :=
  ⟨fun _ _ => rfl, fun _ _ _ => ⟨_, rfl, rfl⟩⟩

theorem shiftCellsLeft_down : ShiftsDown Terminal.fvb shiftCellsLeft :=
  ⟨fun _ _ => rfl, fun _ _ _ => ⟨_, rfl, rfl⟩⟩

theorem shiftCellsRight_platform (remaining j : Nat) (s : Terminal) :
    (shiftCellsRight remaining j s).platform_vb = s.platform_vb := by
  induction remaining generalizing j s with
  | zero => rfl
  | succ remaining ih =>
      rw [shiftCellsRight]
      exact ih (j - 1) _

theorem Roams.of_fields {s t : Terminal} (hs : Roams s) (hpages : t.num_pages = s.num_pages)
    (hview : t.term_view = s.term_view) (hcursor : t.cursor = s.cursor) : Roams t := by
  refine ⟨hs.toRanged.of_fields hpages hview ?_ ?_, ?_⟩
  · rw [hcursor]
  · rw [hcursor]
  · rw [hcursor]
    exact hs.visible

theorem Roams.render {s : Terminal} (hs : Roams s) : Roams (render_screen s) := by
  obtain ⟨-, hpages, hview, hcursor, -⟩ := render_screen_fields s
  exact hs.of_fields hpages hview hcursor

-- Both shifts as a whole: what they leave alone and what each cell of the buffer
-- takes.
theorem tio_shift_right_fields (s : Terminal) :
    (tio_shift_right s).num_pages = s.num_pages ∧
    (tio_shift_right s).term_view = s.term_view ∧ (tio_shift_right s).cursor = s.cursor := by
  obtain ⟨hpages, hview, hcursor⟩ := shiftCellsRight_fields
    (view_get_buffer_end_index s - cursor_get_index_in_buffer s) (view_get_buffer_end_index s) s
  obtain ⟨-, hpages', hview', hcursor', -⟩ := render_screen_fields
    (copyFromScreen (cursor_get_index_in_buffer s)
      (shiftCellsRight (view_get_buffer_end_index s - cursor_get_index_in_buffer s)
        (view_get_buffer_end_index s) s))
  exact ⟨hpages'.trans hpages, hview'.trans hview, hcursor'.trans hcursor⟩

theorem tio_shift_right_fvb (s : Terminal) (k : Nat) :
    (tio_shift_right s).fvb k =
      if k = cursor_get_index_in_buffer s then s.platform_vb (cursor_get_index s)
      else if cursor_get_index_in_buffer s < k ∧ k ≤ view_get_buffer_end_index s then s.fvb (k - 1)
      else s.fvb k := by
  obtain ⟨-, -, hcursor⟩ := shiftCellsRight_fields
    (view_get_buffer_end_index s - cursor_get_index_in_buffer s) (view_get_buffer_end_index s) s
  have hplatform := shiftCellsRight_platform
    (view_get_buffer_end_index s - cursor_get_index_in_buffer s) (view_get_buffer_end_index s) s
  have hcells := shiftCellsRight_up.apply
    (view_get_buffer_end_index s - cursor_get_index_in_buffer s) (view_get_buffer_end_index s) s k
    (Nat.sub_le _ _)
  unfold tio_shift_right
  rw [(render_screen_fields _).1]
  generalize shiftCellsRight (view_get_buffer_end_index s - cursor_get_index_in_buffer s)
    (view_get_buffer_end_index s) s = t at hcursor hplatform hcells ⊢
  have hindex : cursor_get_index t = cursor_get_index s := by
    unfold cursor_get_index
    rw [hcursor]
  simp only [copyFromScreen, platform_get, vb_set_value, hindex, hplatform]
  by_cases hk : k = cursor_get_index_in_buffer s
  · rw [hk, Function.update_self, if_pos rfl]
  · rw [Function.update_of_ne hk, if_neg hk, hcells]
    by_cases hin : cursor_get_index_in_buffer s < k ∧ k ≤ view_get_buffer_end_index s
    · rw [if_pos hin, if_pos ⟨by omega, hin.2⟩]
    · rw [if_neg hin, if_neg (fun hmoved => hin ⟨by omega, hmoved.2⟩)]

-- The cursor's cell stays where it is in column 0.
def firstMoved (s : Terminal) : Nat :=
  if s.cursor.x = 0 then cursor_get_index_in_buffer s + 1 else cursor_get_index_in_buffer s

theorem tio_shift_left_eq (s : Terminal) :
    tio_shift_left s = render_screen
      (shiftCellsLeft (view_get_buffer_end_index s - firstMoved s) (firstMoved s) s) := rfl

theorem tio_shift_left_fields (s : Terminal) :
    (tio_shift_left s).num_pages = s.num_pages ∧
    (tio_shift_left s).term_view = s.term_view ∧ (tio_shift_left s).cursor = s.cursor := by
  obtain ⟨hpages, hview, hcursor⟩ :=
    shiftCellsLeft_fields (view_get_buffer_end_index s - firstMoved s) (firstMoved s) s
  obtain ⟨-, hpages', hview', hcursor', -⟩ := render_screen_fields
    (shiftCellsLeft (view_get_buffer_end_index s - firstMoved s) (firstMoved s) s)
  exact ⟨hpages'.trans hpages, hview'.trans hview, hcursor'.trans hcursor⟩

theorem tio_shift_left_fvb (s : Terminal) (k : Nat) :
    (tio_shift_left s).fvb k =
      if firstMoved s ≤ k ∧ k < view_get_buffer_end_index s then s.fvb (k + 1) else s.fvb k := by
  rw [tio_shift_left_eq, (render_screen_fields _).1, shiftCellsLeft_down.apply]
  by_cases hin : firstMoved s ≤ k ∧ k < view_get_buffer_end_index s
  · rw [if_pos hin, if_pos ⟨hin.1, by omega⟩]
  · rw [if_neg hin, if_neg (fun hmoved => hin ⟨hmoved.1, by omega⟩)]

theorem tio_shift_right_roams (s : Terminal) (hs : Roams s) :
    Roams (tio_shift_right s) ∧ Coherent (tio_shift_right s) := by
  obtain ⟨hpages, hview, hcursor⟩ := tio_shift_right_fields s
  exact ⟨hs.of_fields hpages hview hcursor, render_screen_coherent _⟩

theorem tio_shift_left_roams (s : Terminal) (hs : Roams s) :
    Roams (tio_shift_left s) ∧ Coherent (tio_shift_left s) := by
  obtain ⟨hpages, hview, hcursor⟩ := tio_shift_left_fields s
  rw [tio_shift_left_eq] at hpages hview hcursor ⊢
  exact ⟨hs.of_fields hpages hview hcursor, render_screen_coherent _⟩

theorem tio_cursor_dec_roams (s : Terminal) (hs : Roams s) :
    Roams (tio_cursor_dec s) ∧ (Coherent s → Coherent (tio_cursor_dec s)) := by
  have hxl := hs.x_low
  have hxh := hs.x_high
  have hvisible := hs.visible
  rw [tio_cursor_dec_eq s hxl hs.y_low]
  split
  · refine ⟨⟨hs.moveTo 79 _ (by decide) (by decide) (Int.le_max_right _ _), fun hon => ?_⟩,
      fun h => h⟩
    have hy := hvisible hon
    exact show max (s.cursor.y - 1) 0 ≤ 23 by omega
  · exact ⟨⟨hs.moveTo (s.cursor.x - 1) s.cursor.y (by omega) (by omega) hs.y_low, hvisible⟩,
      fun h => h⟩

-- The index computed for the cursor fits an `int`, or the view is inside the
-- buffer.
def Addressable (s : Terminal) : Prop :=
  0 ≤ s.term_view.row ∨ (s.cursor.y + 1) * TERM_WIDTH ≤ 2147483648

-- Below the screen the copied cell is not among those shown.
theorem copyFromScreen_coherent (s : Terminal) (hs : Roams s) (hfits : Addressable s)
    (h : Coherent s) : Coherent (copyFromScreen (cursor_get_index_in_buffer s) s) := by
  have hlow := hs.row_low
  have hhigh := hs.row_high
  have hxl := hs.x_low
  have hxh := hs.x_high
  have hyl := hs.y_low
  intro i hi
  have hcells := h i hi
  simp only [copyFromScreen, platform_get, vb_set_value]
  by_cases hsame : cell s.term_view.row i = cursor_get_index_in_buffer s
  · rw [hsame, Function.update_self]
    by_cases hy : s.cursor.y ≤ 23
    · obtain ⟨hin, hindex⟩ := cursor_cell s hs.toRanged hy
      rw [hindex] at hsame
      rw [cell_injective _ i _ hlow (by omega) hi hin hsame]
    · exfalso
      have hcell := cell_eq s.term_view.row i hlow (by omega) hi
      have hi' : i < 1920 := hi
      unfold Addressable TERM_WIDTH at hfits
      rw [hsame] at hcell
      unfold cursor_get_index_in_buffer toUnsigned TERM_WIDTH at hcell
      split at hcell <;> split at hcell <;> omega
  · rw [Function.update_of_ne hsame]
    exact hcells

theorem tio_backspace_roams (s : Terminal) (hs : Roams s) :
    Roams (tio_backspace s) ∧ (Addressable s → Coherent s → Coherent (tio_backspace s)) := by
  obtain ⟨hroams, hcoherent⟩ := tio_cursor_dec_roams s hs
  obtain ⟨hview, hy⟩ := tio_cursor_dec_row s hs.x_low hs.y_low
  refine ⟨hroams.of_fields rfl rfl rfl, fun hfits h => ?_⟩
  refine copyFromScreen_coherent _ hroams ?_ (hcoherent h)
  unfold Addressable TERM_WIDTH at hfits ⊢
  rw [hview]
  omega

end Editing

-- A shift that runs out of rows moves the view without repainting.
section Lost

theorem shiftLoop_platform (dir : Shift_Direction) (rounds : Nat) (s : Terminal) :
    (shiftLoop dir rounds s).1.platform_vb = s.platform_vb := by
  induction rounds generalizing s with
  | zero => rfl
  | succ rounds ih =>
      cases dir with
      | SHIFT_DIRECTION_UP =>
          rw [shiftLoop]
          split
          · rfl
          · rw [ih, shiftUp_eq]
            unfold vb_shift_pages
            split
            · split <;> rfl
            · rfl
      | SHIFT_DIRECTION_DOWN =>
          rw [shiftLoop, ih]
          unfold shiftDown
          split <;> rfl

theorem view_shift_up_lost (amt : Nat) (s : Terminal) (hs : Ranged s)
    (hshort : s.cursor.y < amt) (hroom : s.term_view.row + s.cursor.y < 216) :
    (view_shift .SHIFT_DIRECTION_UP amt s).fvb = s.fvb ∧
    (view_shift .SHIFT_DIRECTION_UP amt s).platform_vb = s.platform_vb ∧
    (view_shift .SHIFT_DIRECTION_UP amt s).term_view.row = s.term_view.row + s.cursor.y ∧
    (view_shift .SHIFT_DIRECTION_UP amt s).cursor.y = 0 ∧
    (view_shift .SHIFT_DIRECTION_UP amt s).cursor.x = s.cursor.x := by
  obtain ⟨-, hflag, hy⟩ := shiftLoop_up_ranged amt s hs
  have hplatform := shiftLoop_platform .SHIFT_DIRECTION_UP amt s
  have hreach := reach_of_lt hshort
  have hscrolled := shiftLoop_up_scrolled amt s hs.sized hs.y_low (by omega)
  have hsum := hscrolled.row
  unfold view_shift
  rcases hloop : shiftLoop .SHIFT_DIRECTION_UP amt s with ⟨t, returned⟩
  rw [hloop] at hflag hy hplatform hscrolled hsum
  cases returned with
  | false => exact absurd hshort (of_decide_eq_false hflag.symm)
  | true =>
      simp only at hy hplatform hsum ⊢
      exact ⟨hscrolled.fvb, hplatform, by omega, by omega, hscrolled.column⟩

-- What the screen would have to show already.
def SamePicture (s : Terminal) : Step → Prop
  | .write_char_color c vc => ∀ i < VB_SIZE,
      Function.update s.platform_vb (cursor_get_index s) (create_vga_entry c vc) i =
        Function.update s.fvb (cursor_get_index_in_buffer s) (create_vga_entry c vc)
          (cell (s.term_view.row + s.cursor.y) i)
  | .shift_view _ _ => ∀ i < VB_SIZE,
      s.platform_vb i = s.fvb (cell (s.term_view.row + s.cursor.y) i)
  | _ => False

theorem shift_view_lost_iff (amt : UInt32) (s : Terminal) (hs : Roams s)
    (hshort : s.cursor.y < amt.toNat) (hroom : s.term_view.row + s.cursor.y < 216) :
    Coherent (tio_shift_view .SHIFT_DIRECTION_UP amt s) ↔
      SamePicture s (.shift_view .SHIFT_DIRECTION_UP amt) := by
  obtain ⟨hfvb, hplatform, hrow, -, -⟩ := view_shift_up_lost amt.toNat s hs.toRanged hshort hroom
  unfold Coherent tio_shift_view SamePicture
  rw [hfvb, hplatform, hrow]

theorem putEntry_lost_iff (c : UInt8) (vc : Vga_Color) (s : Terminal) (hs : Roams s)
    (hunsettled : ¬Settled s) (hroom : s.term_view.row + s.cursor.y < 216) :
    Coherent (putEntry (create_vga_entry c vc) s) ↔ SamePicture s (.write_char_color c vc) := by
  have hyl := hs.y_low
  have hxh := hs.x_high
  have hsplit : s.cursor.on_screen = false ∧ s.cursor.y < 23 := by
    simp only [Settled, not_or, Int.not_le] at hunsettled
    exact ⟨Bool.eq_false_iff.mpr hunsettled.1, hunsettled.2.2⟩
  have hshort : s.cursor.y < toUnsigned (s.cursor.y - TERM_HEIGHT + 1) := by
    unfold toUnsigned TERM_HEIGHT
    split <;> omega
  have hcaught : caught (create_vga_entry c vc) s = view_shift .SHIFT_DIRECTION_UP
      (toUnsigned (s.cursor.y - TERM_HEIGHT + 1))
      (platform_set (cursor_get_index s) (create_vga_entry c vc) s) := by
    simp only [caught, catchUp, platform_set, hsplit.1, Bool.false_eq_true, if_false]
  have hshown := platform_set_roams (cursor_get_index s) (create_vga_entry c vc) s hs
  obtain ⟨hfvb, hplatform, hrow, hy, hx⟩ :=
    view_shift_up_lost _ _ hshown.toRanged hshort hroom
  rw [← hcaught] at hfvb hplatform hrow hy hx
  have hindex : cursor_get_index_in_buffer (caught (create_vga_entry c vc) s) =
      cursor_get_index_in_buffer s := by
    simp only [cursor_get_index_in_buffer, hrow, hy, hx, platform_set, Int.add_zero]
  have hinc : putEntry (create_vga_entry c vc) s = advanced (stored (create_vga_entry c vc) s) := by
    have hnext := (advanced_ranged _ (stored_ranged (create_vga_entry c vc) s hs)).2.1
    have hstored : (stored (create_vga_entry c vc) s).cursor.y = 0 := hy
    rw [hstored] at hnext
    have hnear : ¬(advanced (stored (create_vga_entry c vc) s)).cursor.y ≥ TERM_HEIGHT - 1 := by
      rw [hnext]
      unfold advancedY TERM_HEIGHT
      split <;> omega
    have heq : tio_cursor_inc (stored (create_vga_entry c vc) s) =
        scrollToCursor (advanced (stored (create_vga_entry c vc) s)) := rfl
    rw [putEntry_eq, heq, scrollToCursor, if_neg hnear]
  have hfields : (advanced (stored (create_vga_entry c vc) s)).fvb =
        Function.update s.fvb (cursor_get_index_in_buffer s) (create_vga_entry c vc) ∧
      (advanced (stored (create_vga_entry c vc) s)).platform_vb =
        Function.update s.platform_vb (cursor_get_index s) (create_vga_entry c vc) ∧
      (advanced (stored (create_vga_entry c vc) s)).term_view.row =
        s.term_view.row + s.cursor.y := by
    rw [← hindex]
    unfold advanced
    split <;> exact ⟨congrArg (Function.update · _ _) hfvb, hplatform, hrow⟩
  unfold Coherent SamePicture
  rw [hinc, hfields.1, hfields.2.1, hfields.2.2]

end Lost

section Runs

-- The view ends where it was painted: it is repainted, it does not move, or what
-- it should show now is what the screen shows already.
def Repaints (s : Terminal) : Step → Prop
  | .write_char_color c _ => c = 10 ∨ c = 13 ∨ Settled s
  | .shift_view .SHIFT_DIRECTION_UP amt => (amt.toNat : Int) ≤ s.cursor.y ∨ s.cursor.y = 0
  | .backspace => Addressable s
  | _ => True

def Kept (s : Terminal) (step : Step) (_t : Terminal) : Prop :=
  Repaints s step ∨ s.term_view.row + s.cursor.y < 216 ∧ SamePicture s step

theorem newline_ranged (s : Terminal) (hs : Ranged s) :
    Ranged (setX 0 (setY (s.cursor.y + 1) s)) := by
  have hyl := hs.y_low
  exact hs.moveTo 0 _ (Int.le_refl 0) zero_lt_width (by omega)

theorem step_roams (s : Terminal) (step : Step) (hs : Roams s) : Roams (step.apply s) := by
  cases step with
  | write_char_color c vc =>
      simp only [Step.apply, tio_write_char_color]
      by_cases hn : c = 10
      · rw [if_pos hn]
        exact (scrollToCursor_roams _ (newline_ranged s hs.toRanged)).1
      · rw [if_neg hn]
        by_cases hr : c = 13
        · rw [if_pos hr]
          exact ⟨hs.moveTo 0 s.cursor.y (Int.le_refl 0) zero_lt_width hs.y_low, hs.visible⟩
        · rw [if_neg hr]
          exact putEntry_roams _ s hs
  | shift_view dir amt => exact (view_shift_roams dir amt.toNat s hs.toRanged).1
  | cursor_inc => exact (tio_cursor_inc_roams s hs.toRanged).1
  | cursor_dec => exact (tio_cursor_dec_roams s hs).1
  | backspace => exact (tio_backspace_roams s hs).1
  | shift_right => exact (tio_shift_right_roams s hs).1
  | shift_left => exact (tio_shift_left_roams s hs).1

theorem step_coherent (s : Terminal) (step : Step) (hs : Roams s) (h : Coherent s)
    (hrepaints : Repaints s step) : Coherent (step.apply s) := by
  cases step with
  | write_char_color c vc =>
      simp only [Step.apply, tio_write_char_color]
      by_cases hn : c = 10
      · rw [if_pos hn]
        exact (scrollToCursor_roams _ (newline_ranged s hs.toRanged)).2 (.inl h)
      · rw [if_neg hn]
        by_cases hr : c = 13
        · rw [if_pos hr]
          exact h
        · rw [if_neg hr]
          exact putEntry_coherent _ s hs ((hrepaints.resolve_left hn).resolve_left hr) h
  | shift_view dir amt =>
      cases dir with
      | SHIFT_DIRECTION_UP =>
          by_cases hlong : (amt.toNat : Int) ≤ s.cursor.y
          · exact (view_shift_roams _ amt.toNat s hs.toRanged).2 (fun _ => hlong)
          · have hy : s.cursor.y = 0 := hrepaints.resolve_left hlong
            have hstuck := view_shift_up_stuck amt.toNat s (by omega) hy
            simp only [Step.apply, tio_shift_view, hstuck]
            exact h
      | SHIFT_DIRECTION_DOWN =>
          exact (view_shift_roams _ amt.toNat s hs.toRanged).2 (fun hdir => by cases hdir)
  | cursor_inc => exact (tio_cursor_inc_roams s hs.toRanged).2 (.inl h)
  | cursor_dec => exact (tio_cursor_dec_roams s hs).2 h
  | backspace => exact (tio_backspace_roams s hs).2 hrepaints h
  | shift_right => exact (tio_shift_right_roams s hs).2
  | shift_left => exact (tio_shift_left_roams s hs).2

theorem step_lost (s : Terminal) (step : Step) (hs : Roams s) (hunpainted : ¬Repaints s step)
    (hroom : s.term_view.row + s.cursor.y < 216) :
    Coherent (step.apply s) ↔ SamePicture s step := by
  have hlow := hs.row_low
  cases step with
  | write_char_color c vc =>
      simp only [Repaints, not_or] at hunpainted
      simp only [Step.apply, tio_write_char_color, if_neg hunpainted.1, if_neg hunpainted.2.1]
      exact putEntry_lost_iff c vc s hs hunpainted.2.2 hroom
  | shift_view dir amt =>
      cases dir with
      | SHIFT_DIRECTION_UP =>
          simp only [Repaints, not_or, Int.not_le] at hunpainted
          exact shift_view_lost_iff amt s hs hunpainted.1 hroom
      | SHIFT_DIRECTION_DOWN => exact absurd trivial hunpainted
  | backspace =>
      -- the view is far from where the index would overflow
      refine absurd (.inr ?_) hunpainted
      unfold TERM_WIDTH
      omega
  | _ => exact absurd trivial hunpainted

theorem kept_coherent (s : Terminal) (step : Step) (hs : Roams s) (h : Coherent s)
    (hkept : Kept s step (step.apply s)) : Coherent (step.apply s) := by
  by_cases hrepaints : Repaints s step
  · exact step_coherent s step hs h hrepaints
  · obtain ⟨hroom, hsame⟩ := hkept.resolve_left hrepaints
    exact (step_lost s step hs hrepaints hroom).mpr hsame

theorem Sane.roams {s : Terminal} (hs : Sane s) : Roams s := by
  have hlow := hs.row_low
  exact ⟨⟨hs.sized, by omega, hs.row_high, hs.x_low, hs.x_high, hs.y_low⟩, hs.visible⟩

theorem tio_init_roams (s : Terminal) : Roams (tio_init s) := (tio_init_sane s).roams

theorem steps_roam (steps : List Step) (s : Terminal) (hs : Roams s) :
    Roams (lastState s (traceOf Step.apply s steps)) := by
  induction steps generalizing s with
  | nil => exact hs
  | cons step rest ih => exact ih (step.apply s) (step_roams s step hs)

theorem reached_roams (s : Terminal) (calls : List Call) :
    Roams (calls.foldl (fun s call => call.run s) (tio_init s)) := by
  rw [runs_eq]
  exact steps_roam _ _ (tio_init_roams s)

theorem call_coherent (s : Terminal) (call : Call) (hs : Roams s) (h : Coherent s)
    (hkept : Along Kept s (traceOf Step.apply s call.steps)) : Coherent (call.run s) := by
  rw [call.run_eq, ← lastState_traceOf]
  refine (Along.lastState (fun s => Roams s ∧ Coherent s) ?_ ⟨hs, h⟩
    (along_traceOf Step.apply s call.steps) hkept).2
  rintro s step t ⟨hs, h⟩ rfl hkept
  exact ⟨step_roams s step hs, kept_coherent s step hs h hkept⟩

-- From any state that calls lead to and that is coherent: a call whose steps all
-- keep the picture leaves it coherent, and as long as no page is recycled no
-- other step does.
theorem coherent_iff_kept (s : Terminal) (calls : List Call) :
    let reached := calls.foldl (fun s call => call.run s) (tio_init s)
    Coherent reached →
      (∀ call : Call, Along Kept reached (traceOf Step.apply reached call.steps) →
        Coherent (call.run reached)) ∧
      ∀ step : Step, reached.term_view.row + reached.cursor.y < 216 →
        (Coherent (step.apply reached) ↔ Kept reached step (step.apply reached)) := by
  intro reached hcoherent
  have hroams : Roams reached := reached_roams s calls
  refine ⟨fun call => call_coherent reached call hroams hcoherent, fun step hroom => ?_⟩
  constructor
  · intro h
    by_cases hrepaints : Repaints reached step
    · exact .inl hrepaints
    · exact .inr ⟨hroom, (step_lost reached step hroams hrepaints hroom).mp h⟩
  · exact kept_coherent reached step hroams hcoherent

-- A terminal whose screen was blank before `tio_init`.
def blankTerminal : Terminal := { emptyTerminal with platform_vb := fun _ => blank }

theorem blankTerminal_coherent : Coherent (tio_init blankTerminal) := by
  intro i hi
  have hi' : i < 1920 := hi
  have hcell : cell 0 i = i := by
    have := cell_eq 0 i (by decide) (by decide) hi'
    split at this <;> omega
  have hblank := copyBlank_apply 10 0 blankTerminal.fvb i
  rw [if_pos (by omega)] at hblank
  rw [show (tio_init blankTerminal).term_view.row = 0 from rfl, hcell]
  exact hblank.symm

theorem coherent_iff_kept_blank :
    let reached := [Call.write [97, 10]].foldl (fun s call => call.run s) (tio_init blankTerminal)
    (∀ call : Call, Along Kept reached (traceOf Step.apply reached call.steps) →
      Coherent (call.run reached)) ∧
    ∀ step : Step, reached.term_view.row + reached.cursor.y < 216 →
      (Coherent (step.apply reached) ↔ Kept reached step (step.apply reached)) := by
  refine coherent_iff_kept blankTerminal [Call.write [97, 10]] ?_
  refine call_coherent _ (.write [97, 10]) (tio_init_roams _) blankTerminal_coherent ?_
  exact ⟨.inl (.inr (.inr (.inl rfl))), .inl (.inl rfl), trivial⟩

-- One line down, a scroll by five rows stops after one and leaves the old picture.
theorem scroll_past_cursor_incoherent :
    ¬∀ (s : Terminal) (calls : List Call) (call : Call),
      Coherent (calls.foldl (fun s call => call.run s) (tio_init s)) →
        Coherent (call.run (calls.foldl (fun s call => call.run s) (tio_init s))) := by
  intro h
  have hcoherent := h blankTerminal [.write [97, 10]] (.single (.shift_view .SHIFT_DIRECTION_UP 5))
    (call_coherent _ (.write [97, 10]) (tio_init_roams _) blankTerminal_coherent
      ⟨.inl (.inr (.inr (.inl rfl))), .inl (.inl rfl), trivial⟩)
  exact absurd (hcoherent 0 (by decide)) (by decide)

end Runs

end PalleyOS.Tio
