import PalleyOS.Tio.Lemmas
import PalleyOS.Machine.Runs

namespace PalleyOS.Tio

open Machine

section Placement

-- The view and the cursor between two operations. An operation may break the
-- last clause on its way.
structure Placed (s : Terminal) : Prop where
  sized : Sized s
  log_ok : LogOk s
  row_low : 0 ≤ s.term_view.row
  row_high : s.term_view.row ≤ 215
  x_low : 0 ≤ s.cursor.x
  x_high : s.cursor.x < 80
  y_low : 0 ≤ s.cursor.y

structure Sane (s : Terminal) : Prop extends Placed s where
  visible : s.cursor.on_screen = true → s.cursor.y ≤ 23

theorem Placed.of_fields {s t : Terminal} (hs : Placed s) (hok : LogOk t)
    (hpages : t.num_pages = s.num_pages) (hview : t.term_view = s.term_view)
    (hx : t.cursor.x = s.cursor.x) (hy : t.cursor.y = s.cursor.y) : Placed t := by
  refine ⟨⟨hpages.trans hs.sized.1, ?_⟩, hok, ?_, ?_, ?_, ?_, ?_⟩
  · rw [hview]
    exact hs.sized.2
  · rw [hview]
    exact hs.row_low
  · rw [hview]
    exact hs.row_high
  · rw [hx]
    exact hs.x_low
  · rw [hx]
    exact hs.x_high
  · rw [hy]
    exact hs.y_low

theorem refresh_fields (s : Terminal) :
    (refresh s).num_pages = s.num_pages ∧ (refresh s).term_view = s.term_view ∧
    (refresh s).cursor.x = s.cursor.x ∧ (refresh s).cursor.y = s.cursor.y ∧
    Grows s (refresh s) := by
  obtain ⟨-, hpages, hview, hcursor, hgrows⟩ := render_screen_fields
    (setOnScreen (decide (s.cursor.y > 0 ∧ s.cursor.y < TERM_HEIGHT)) s)
  unfold refresh
  rw [hcursor]
  exact ⟨hpages, hview, rfl, rfl, hgrows⟩

theorem refresh_sane (s : Terminal) (hs : Placed s) : Sane (refresh s) := by
  have hrow : s.term_view.row ≤ 216 := by
    have := hs.row_high
    omega
  have hok := render_screen_ok
    (setOnScreen (decide (s.cursor.y > 0 ∧ s.cursor.y < TERM_HEIGHT)) s) hs.log_ok hs.row_low hrow
  obtain ⟨-, hpages, hview, hcursor, -⟩ := render_screen_fields
    (setOnScreen (decide (s.cursor.y > 0 ∧ s.cursor.y < TERM_HEIGHT)) s)
  unfold refresh
  refine ⟨hs.of_fields hok hpages hview ?_ ?_, ?_⟩
  · rw [hcursor]
    rfl
  · rw [hcursor]
    rfl
  · rw [hcursor]
    intro hvisible
    have hrange : s.cursor.y > 0 ∧ s.cursor.y < 24 := of_decide_eq_true hvisible
    have hy : s.cursor.y ≤ 23 := by omega
    exact hy

theorem view_shift_fields (dir : Shift_Direction) (amt : Nat) (s : Terminal) (hs : Sized s) :
    Sized (view_shift dir amt s) ∧ Grows s (view_shift dir amt s) := by
  obtain ⟨hsized, hgrows, -⟩ := shiftLoop_fields dir amt s hs
  unfold view_shift
  rcases hloop : shiftLoop dir amt s with ⟨t, _ | _⟩
  · rw [hloop] at hsized hgrows
    obtain ⟨hpages, hview, -, -, hrender⟩ := refresh_fields t
    refine ⟨⟨hpages.trans hsized.1, ?_⟩, hgrows.trans hrender⟩
    simp only [hview]
    exact hsized.2
  · rw [hloop] at hsized hgrows
    exact ⟨hsized, hgrows⟩

-- Without recycling the view and the cursor move by `reach` against each other.
theorem view_shift_up (amt : Nat) (s : Terminal) (hs : Placed s)
    (hreach : s.term_view.row + reach amt s < 216) :
    Sane (view_shift .SHIFT_DIRECTION_UP amt s) ∧
    (view_shift .SHIFT_DIRECTION_UP amt s).term_view.row = s.term_view.row + reach amt s ∧
    (view_shift .SHIFT_DIRECTION_UP amt s).cursor.y = s.cursor.y - reach amt s ∧
    (view_shift .SHIFT_DIRECTION_UP amt s).cursor.x = s.cursor.x := by
  obtain ⟨hsized, -, hx⟩ := shiftLoop_fields .SHIFT_DIRECTION_UP amt s hs.sized
  obtain ⟨hrow, hy, hflag, hlog⟩ :=
    shiftLoop_up amt s hs.sized hs.log_ok hs.row_low hs.y_low hreach
  have hr : 0 ≤ reach amt s ∧ reach amt s ≤ s.cursor.y ∧
      (s.cursor.y < amt → reach amt s = s.cursor.y) :=
    ⟨reach_nonneg amt s hs.y_low, reach_le_y amt s, reach_of_lt⟩
  have hlow := hs.row_low
  have hxl := hs.x_low
  have hxh := hs.x_high
  unfold view_shift
  rcases hloop : shiftLoop .SHIFT_DIRECTION_UP amt s with ⟨t, returned⟩
  rw [hloop] at hsized hx hrow hy hflag hlog
  simp only at hsized hx hrow hy hflag hlog ⊢
  have hplaced : Placed t :=
    ⟨hsized, hlog, by omega, by omega, by omega, by omega, by omega⟩
  have hshort (hy' : s.cursor.y < amt) : t.cursor.y ≤ 23 := by omega
  cases returned with
  | false =>
      obtain ⟨-, hview, hx', hy', -⟩ := refresh_fields t
      refine ⟨refresh_sane t hplaced, ?_, ?_, ?_⟩
      · simp only [hview]
        exact hrow
      · simp only [hy']
        exact hy
      · simp only [hx']
        exact hx
  | true =>
      exact ⟨⟨hplaced, fun _ => hshort (of_decide_eq_true hflag.symm)⟩, hrow, hy, hx⟩

theorem view_shift_up_recycles (amt : Nat) (s : Terminal) (hs : Placed s)
    (hreach : 216 ≤ s.term_view.row + reach amt s) :
    Recycled (view_shift .SHIFT_DIRECTION_UP amt s) := by
  have hbad := shiftLoop_up_recycles amt s hs.sized hs.row_high hs.y_low hreach
  unfold view_shift
  rcases hloop : shiftLoop .SHIFT_DIRECTION_UP amt s with ⟨t, returned⟩
  rw [hloop] at hbad
  cases returned with
  | false =>
      obtain ⟨-, -, -, -, hgrows⟩ := refresh_fields t
      exact hbad.grows hgrows
  | true => exact hbad

theorem view_shift_down (amt : Nat) (s : Terminal) (hs : Placed s) :
    Sane (view_shift .SHIFT_DIRECTION_DOWN amt s) := by
  obtain ⟨hsized, -, hx⟩ := shiftLoop_fields .SHIFT_DIRECTION_DOWN amt s hs.sized
  obtain ⟨hlow, hle, hsum, hflag, hlog⟩ :=
    shiftLoop_down amt s hs.sized hs.log_ok hs.row_low hs.row_high hs.y_low
  have hrow := hs.row_high
  have hxl := hs.x_low
  have hxh := hs.x_high
  have hyl := hs.y_low
  unfold view_shift
  rcases hloop : shiftLoop .SHIFT_DIRECTION_DOWN amt s with ⟨t, returned⟩
  rw [hloop] at hsized hx hlow hle hsum hflag hlog
  simp only at hsized hx hlow hle hsum hflag hlog ⊢
  subst hflag
  exact refresh_sane t ⟨hsized, hlog, by omega, by omega, by omega, by omega, by omega⟩

end Placement

-- Each operation against the condition under which it stays in bounds.
section Operations

-- Moving on from row `y` of the view recycles no page.
def Roomy (row y : Int) : Prop := 23 ≤ y → row < 215

theorem scrollToCursor_cases (s : Terminal) :
    (23 ≤ s.cursor.y ∧ scrollToCursor s = view_shift .SHIFT_DIRECTION_UP 1 s) ∨
    (s.cursor.y ≤ 22 ∧ scrollToCursor s = s) := by
  by_cases hy : s.cursor.y ≥ TERM_HEIGHT - 1
  · exact .inl ⟨hy, if_pos hy⟩
  · exact .inr ⟨Int.not_lt.mp fun h => hy h, if_neg hy⟩

theorem scrollToCursor_sane (s : Terminal) (hs : Placed s)
    (hroomy : Roomy s.term_view.row s.cursor.y) : Sane (scrollToCursor s) := by
  rcases scrollToCursor_cases s with ⟨hy, heq⟩ | ⟨hy, heq⟩
  · have hrow := hroomy hy
    have hone := reach_le 1 s
    rw [heq]
    exact (view_shift_up 1 s hs (by omega)).1
  · rw [heq]
    exact ⟨hs, fun _ => by omega⟩

theorem scrollToCursor_grows (s : Terminal) (hs : Sized s) :
    Sized (scrollToCursor s) ∧ Grows s (scrollToCursor s) := by
  rcases scrollToCursor_cases s with ⟨-, heq⟩ | ⟨-, heq⟩
  · rw [heq]
    exact view_shift_fields _ _ s hs
  · rw [heq]
    exact ⟨hs, Grows.refl s⟩

theorem scrollToCursor_recycles (s : Terminal) (hs : Placed s)
    (hfull : ¬Roomy s.term_view.row s.cursor.y) : Recycled (scrollToCursor s) := by
  obtain ⟨hlast, hrow⟩ := Classical.not_imp.mp hfull
  rcases scrollToCursor_cases s with ⟨hy, heq⟩ | ⟨hy, heq⟩
  · have hone : reach 1 s = 1 := reach_of_le (by omega)
    rw [heq]
    exact view_shift_up_recycles 1 s hs (by omega)
  · omega

-- The row of the cursor after one cell to the right, before the view follows.
def advancedY (x y : Int) : Int := if x + 1 ≥ 80 then y + 1 else y

theorem zero_lt_width : (0 : Int) < 80 := by decide

def advanced (s : Terminal) : Terminal :=
  if s.cursor.x + 1 ≥ TERM_WIDTH then setX 0 (setY (s.cursor.y + 1) s)
  else setX (s.cursor.x + 1) s

theorem advanced_eq (s : Terminal) :
    advanced s = setX (if s.cursor.x + 1 ≥ 80 then 0 else s.cursor.x + 1)
      (setY (advancedY s.cursor.x s.cursor.y) s) := by
  unfold advanced advancedY
  by_cases hx : s.cursor.x + 1 ≥ 80
  · rw [if_pos (show s.cursor.x + 1 ≥ TERM_WIDTH from hx), if_pos hx, if_pos hx]
  · rw [if_neg (show ¬s.cursor.x + 1 ≥ TERM_WIDTH from hx), if_neg hx, if_neg hx]
    rfl

theorem advancedX_range (x : Int) (hx : 0 ≤ x) :
    0 ≤ (if x + 1 ≥ 80 then 0 else x + 1) ∧ (if x + 1 ≥ 80 then 0 else x + 1) < 80 := by
  split <;> omega

theorem advancedY_range (x y : Int) (hy : 0 ≤ y) : 0 ≤ advancedY x y := by
  unfold advancedY
  split <;> omega

theorem Placed.moveTo {s : Terminal} (hs : Placed s) (x y : Int) (hxl : 0 ≤ x) (hxh : x < 80)
    (hyl : 0 ≤ y) : Placed (setX x (setY y s)) :=
  ⟨hs.sized, hs.log_ok, hs.row_low, hs.row_high, hxl, hxh, hyl⟩

theorem advanced_placed (s : Terminal) (hs : Placed s) :
    Placed (advanced s) ∧ (advanced s).term_view.row = s.term_view.row ∧
    (advanced s).cursor.y = advancedY s.cursor.x s.cursor.y ∧ Grows s (advanced s) := by
  obtain ⟨hxl, hxh⟩ := advancedX_range s.cursor.x hs.x_low
  have hyl := advancedY_range s.cursor.x s.cursor.y hs.y_low
  rw [advanced_eq]
  exact ⟨hs.moveTo _ _ hxl hxh hyl, rfl, rfl, Grows.refl s⟩

theorem tio_cursor_inc_iff (s : Terminal) (hs : Placed s) :
    (Roomy s.term_view.row (advancedY s.cursor.x s.cursor.y) → Sane (tio_cursor_inc s)) ∧
    (¬Roomy s.term_view.row (advancedY s.cursor.x s.cursor.y) → Recycled (tio_cursor_inc s)) ∧
    Grows s (tio_cursor_inc s) := by
  have heq : tio_cursor_inc s = scrollToCursor (advanced s) := rfl
  obtain ⟨hplaced, hrow, hy, hgrows⟩ := advanced_placed s hs
  rw [heq, ← hrow, ← hy]
  exact ⟨scrollToCursor_sane _ hplaced, scrollToCursor_recycles _ hplaced,
    hgrows.trans (scrollToCursor_grows _ hplaced.sized).2⟩

theorem newline_iff (s : Terminal) (hs : Placed s) :
    (Roomy s.term_view.row (s.cursor.y + 1) →
      Sane (scrollToCursor (setX 0 (setY (s.cursor.y + 1) s)))) ∧
    (¬Roomy s.term_view.row (s.cursor.y + 1) →
      Recycled (scrollToCursor (setX 0 (setY (s.cursor.y + 1) s)))) := by
  have hyl := hs.y_low
  have hplaced : Placed (setX 0 (setY (s.cursor.y + 1) s)) :=
    hs.moveTo 0 _ (Int.le_refl 0) zero_lt_width (by omega)
  exact ⟨scrollToCursor_sane _ hplaced, scrollToCursor_recycles _ hplaced⟩

theorem buffer_index (s : Terminal) (hs : Placed s) :
    cursor_get_index_in_buffer s < PVB_SIZE ↔ s.term_view.row + s.cursor.y < 240 := by
  have hlow := hs.row_low
  have hyl := hs.y_low
  have hxl := hs.x_low
  have hxh := hs.x_high
  unfold cursor_get_index_in_buffer PVB_SIZE TERM_WIDTH
  rw [toUnsigned_of_nonneg _ (by omega)]
  omega

-- The write at the cursor.
theorem vb_set_cursor_iff (s : Terminal) (hs : Placed s) (value : Vga_Entry) :
    LogOk (vb_set_value (cursor_get_index_in_buffer s) value s) ↔
      s.term_view.row + s.cursor.y < 240 := by
  rw [← buffer_index s hs]
  constructor
  · intro hlog
    exact hlog (.vb (cursor_get_index_in_buffer s))
      (List.mem_append_right _ (List.mem_singleton.mpr rfl))
  · intro hindex
    exact LogOk.append (a := .vb (cursor_get_index_in_buffer s)) hs.log_ok rfl hindex

-- How far an ordinary character moves the view to bring back the cursor.
def catchUpReach (on_screen : Bool) (y : Int) : Int :=
  if on_screen then 0 else if 23 ≤ y then y - 23 else y

theorem reach_catchUp (s : Terminal) (hy : 0 ≤ s.cursor.y) (hoff : s.cursor.on_screen = false) :
    reach (toUnsigned (s.cursor.y - TERM_HEIGHT + 1)) s =
      catchUpReach s.cursor.on_screen s.cursor.y := by
  unfold reach catchUpReach toUnsigned TERM_HEIGHT
  rw [hoff, if_neg Bool.false_ne_true]
  split <;> split <;> omega

theorem catchUp_iff (s : Terminal) (hs : Sane s) :
    (s.term_view.row + catchUpReach s.cursor.on_screen s.cursor.y < 216 →
      Sane (catchUp s) ∧
      (catchUp s).term_view.row =
        s.term_view.row + catchUpReach s.cursor.on_screen s.cursor.y ∧
      (catchUp s).cursor.y = s.cursor.y - catchUpReach s.cursor.on_screen s.cursor.y ∧
      (catchUp s).cursor.x = s.cursor.x) ∧
    (¬s.term_view.row + catchUpReach s.cursor.on_screen s.cursor.y < 216 →
      Recycled (catchUp s)) := by
  have hrow := hs.row_high
  cases hon : s.cursor.on_screen with
  | true =>
      have heq : catchUp s = s := by
        unfold catchUp
        rw [if_pos hon]
      have hzero : catchUpReach true s.cursor.y = 0 := rfl
      rw [heq, hzero]
      exact ⟨fun _ => ⟨hs, by omega, by omega, rfl⟩, fun h => absurd h (by omega)⟩
  | false =>
      have heq : catchUp s = view_shift .SHIFT_DIRECTION_UP
          (toUnsigned (s.cursor.y - TERM_HEIGHT + 1)) s := by
        unfold catchUp
        rw [if_neg (by rw [hon]; exact Bool.false_ne_true)]
      have hreach := reach_catchUp s hs.y_low hon
      rw [hon] at hreach
      rw [heq, ← hreach]
      exact ⟨view_shift_up _ s hs.toPlaced, fun hfull =>
        view_shift_up_recycles _ s hs.toPlaced (by omega)⟩

theorem Sane.platform_set {s : Terminal} (hs : Sane s) (index : Nat) (value : Vga_Entry) :
    Sane (platform_set index value s) :=
  ⟨⟨hs.sized, hs.log_ok.append rfl trivial, hs.row_low, hs.row_high, hs.x_low, hs.x_high,
    hs.y_low⟩, hs.visible⟩

-- The cell at `index` is written, wherever it is.
theorem copyFromScreen_sane (index : Nat) (s : Terminal) (hs : Sane s) :
    (index < PVB_SIZE → Sane (copyFromScreen index s)) ∧
    .vb index ∈ (copyFromScreen index s).log := by
  have hread : LogOk (platform_get (cursor_get_index s) s).2 :=
    hs.log_ok.append (a := .platform (cursor_get_index s)) rfl trivial
  refine ⟨fun hindex => ?_, List.mem_append_right _ (List.mem_singleton.mpr rfl)⟩
  exact ⟨⟨hs.sized, hread.append (a := .vb index) rfl hindex, hs.row_low, hs.row_high, hs.x_low,
    hs.x_high, hs.y_low⟩, hs.visible⟩

theorem catchUp_grows (s : Terminal) (hs : Sized s) : Sized (catchUp s) ∧ Grows s (catchUp s) := by
  unfold catchUp
  split
  · exact ⟨hs, Grows.refl s⟩
  · exact view_shift_fields _ _ s hs

theorem tio_cursor_inc_grows (s : Terminal) (hs : Sized s) :
    Sized (tio_cursor_inc s) ∧ Grows s (tio_cursor_inc s) := by
  have heq : tio_cursor_inc s = scrollToCursor (advanced s) := rfl
  have hadvanced : Sized (advanced s) ∧ Grows s (advanced s) := by
    unfold advanced
    split <;> exact ⟨hs, Grows.refl s⟩
  obtain ⟨hsized, hgrows⟩ := scrollToCursor_grows _ hadvanced.1
  rw [heq]
  exact ⟨hsized, hadvanced.2.trans hgrows⟩

-- An ordinary character: the view catches up, the entry is stored, the cursor
-- moves on.
def caught (vga_entry : Vga_Entry) (s : Terminal) : Terminal :=
  catchUp (platform_set (cursor_get_index s) vga_entry s)

def stored (vga_entry : Vga_Entry) (s : Terminal) : Terminal :=
  vb_set_value (cursor_get_index_in_buffer (caught vga_entry s)) vga_entry (caught vga_entry s)

theorem putEntry_eq (vga_entry : Vga_Entry) (s : Terminal) :
    putEntry vga_entry s = tio_cursor_inc (stored vga_entry s) := rfl

def PutSafe (s : Terminal) : Prop :=
  s.term_view.row + catchUpReach s.cursor.on_screen s.cursor.y < 216 ∧
  Roomy (s.term_view.row + catchUpReach s.cursor.on_screen s.cursor.y)
    (advancedY s.cursor.x (s.cursor.y - catchUpReach s.cursor.on_screen s.cursor.y))

-- The cursor is in the view when the entry is stored.
theorem caught_near (s : Terminal) (hs : Sane s) :
    s.cursor.y - catchUpReach s.cursor.on_screen s.cursor.y ≤ 23 := by
  have hvisible := hs.visible
  unfold catchUpReach
  split
  · rename_i hon
    have := hvisible hon
    omega
  · split <;> omega

theorem caught_iff (s : Terminal) (hs : Sane s) (vga_entry : Vga_Entry) :
    (s.term_view.row + catchUpReach s.cursor.on_screen s.cursor.y < 216 →
      Sane (caught vga_entry s) ∧
      (caught vga_entry s).term_view.row =
        s.term_view.row + catchUpReach s.cursor.on_screen s.cursor.y ∧
      (caught vga_entry s).cursor.y =
        s.cursor.y - catchUpReach s.cursor.on_screen s.cursor.y ∧
      (caught vga_entry s).cursor.x = s.cursor.x) ∧
    (¬s.term_view.row + catchUpReach s.cursor.on_screen s.cursor.y < 216 →
      Recycled (caught vga_entry s)) :=
  catchUp_iff _ (hs.platform_set (cursor_get_index s) vga_entry)

theorem stored_placed (s : Terminal) (hs : Sane s) (vga_entry : Vga_Entry)
    (hfirst : s.term_view.row + catchUpReach s.cursor.on_screen s.cursor.y < 216) :
    Placed (stored vga_entry s) := by
  obtain ⟨hsane, -, hy, -⟩ := (caught_iff s hs vga_entry).1 hfirst
  have hnear := caught_near s hs
  have hput := (vb_set_cursor_iff _ hsane.toPlaced vga_entry).mpr (by
    have := hsane.row_high
    omega)
  exact ⟨hsane.sized, hput, hsane.row_low, hsane.row_high, hsane.x_low, hsane.x_high, hsane.y_low⟩

theorem caught_grows (vga_entry : Vga_Entry) (s : Terminal) (hs : Sized s) :
    Sized (caught vga_entry s) ∧ Grows s (caught vga_entry s) := by
  have hset : Grows s (platform_set (cursor_get_index s) vga_entry s) := Grows.append _ _ _ rfl
  obtain ⟨hsized, hgrows⟩ := catchUp_grows (platform_set (cursor_get_index s) vga_entry s) hs
  exact ⟨hsized, hset.trans hgrows⟩

theorem putEntry_iff (s : Terminal) (hs : Sane s) (vga_entry : Vga_Entry) :
    (PutSafe s → Sane (putEntry vga_entry s)) ∧
    (¬PutSafe s → Recycled (putEntry vga_entry s)) := by
  obtain ⟨hcatch, hrecycles⟩ := caught_iff s hs vga_entry
  rw [putEntry_eq]
  by_cases hfirst : s.term_view.row + catchUpReach s.cursor.on_screen s.cursor.y < 216
  · obtain ⟨-, hrow, hy, hx⟩ := hcatch hfirst
    obtain ⟨hmoves, hfull, -⟩ := tio_cursor_inc_iff _ (stored_placed s hs vga_entry hfirst)
    have hcell : (stored vga_entry s).term_view = (caught vga_entry s).term_view ∧
        (stored vga_entry s).cursor = (caught vga_entry s).cursor := ⟨rfl, rfl⟩
    rw [hcell.1, hcell.2, hrow, hy, hx] at hmoves hfull
    exact ⟨fun hsafe => hmoves hsafe.2, fun hunsafe => hfull fun h => hunsafe ⟨hfirst, h⟩⟩
  · refine ⟨fun hsafe => absurd hsafe.1 hfirst, fun _ => ?_⟩
    obtain ⟨hsized, -⟩ := caught_grows vga_entry s hs.sized
    have hset : Grows (caught vga_entry s) (stored vga_entry s) := Grows.append _ _ _ rfl
    exact (hrecycles hfirst).grows (hset.trans (tio_cursor_inc_grows (stored vga_entry s) hsized).2)

-- One cell to the left, or the end of the row above as far as there is one.
theorem tio_cursor_dec_eq (s : Terminal) (hx : 0 ≤ s.cursor.x) (hy : 0 ≤ s.cursor.y) :
    tio_cursor_dec s =
      if s.cursor.x = 0 then setX 79 (setY (max (s.cursor.y - 1) 0) s)
      else setX (s.cursor.x - 1) s := by
  unfold tio_cursor_dec
  by_cases hfirst : s.cursor.x = 0
  · simp only [if_pos (show s.cursor.x - 1 < 0 by omega), if_pos hfirst]
    by_cases htop : s.cursor.y = 0
    · have hmax : max (s.cursor.y - 1) 0 = 0 := by omega
      rw [hmax]
      exact if_pos (show s.cursor.y - 1 < 0 by omega)
    · have hmax : max (s.cursor.y - 1) 0 = s.cursor.y - 1 := by omega
      rw [hmax]
      exact if_neg (show ¬s.cursor.y - 1 < 0 by omega)
  · simp only [if_neg (show ¬s.cursor.x - 1 < 0 by omega), if_neg hfirst]
    exact if_neg (Int.not_lt.mpr hy)

theorem tio_cursor_dec_row (s : Terminal) (hx : 0 ≤ s.cursor.x) (hy : 0 ≤ s.cursor.y) :
    (tio_cursor_dec s).term_view = s.term_view ∧
    (tio_cursor_dec s).cursor.y = if s.cursor.x = 0 then max (s.cursor.y - 1) 0 else s.cursor.y := by
  rw [tio_cursor_dec_eq s hx hy]
  split
  · exact ⟨rfl, rfl⟩
  · exact ⟨rfl, rfl⟩

theorem tio_cursor_dec_sane (s : Terminal) (hs : Sane s) : Sane (tio_cursor_dec s) := by
  have hxh := hs.x_high
  have hvisible := hs.visible
  rw [tio_cursor_dec_eq s hs.x_low hs.y_low]
  split
  · refine ⟨hs.moveTo 79 _ (by decide) (by decide) (Int.le_max_right _ _), fun hon => ?_⟩
    have hy := hvisible hon
    exact show max (s.cursor.y - 1) 0 ≤ 23 by omega
  · have hxl := hs.x_low
    exact ⟨hs.moveTo (s.cursor.x - 1) s.cursor.y (by omega) (by omega) hs.y_low, hvisible⟩

theorem tio_backspace_iff (s : Terminal) (hs : Sane s) :
    (s.term_view.row + (if s.cursor.x = 0 then max (s.cursor.y - 1) 0 else s.cursor.y) < 240 →
      Sane (tio_backspace s)) ∧
    (LogOk (tio_backspace s) →
      s.term_view.row + (if s.cursor.x = 0 then max (s.cursor.y - 1) 0 else s.cursor.y) < 240) := by
  have hdec := tio_cursor_dec_sane s hs
  obtain ⟨hview, hy⟩ := tio_cursor_dec_row s hs.x_low hs.y_low
  obtain ⟨hsane, hwritten⟩ := copyFromScreen_sane
    (cursor_get_index_in_buffer (tio_cursor_dec s)) (tio_cursor_dec s) hdec
  rw [← hy, ← hview, ← buffer_index _ hdec.toPlaced]
  exact ⟨hsane, fun hlog => hlog _ hwritten⟩

-- The loops of the two shifts move along cells before the end of the view.
theorem shiftCellsRight_sane (remaining j : Nat) (s : Terminal) (hs : Sane s)
    (hj : j < PVB_SIZE) :
    Sane (shiftCellsRight remaining j s) := by
  induction remaining generalizing j s with
  | zero => exact hs
  | succ remaining ih =>
      have hread : LogOk (vb_get_value (j - 1) s).2 :=
        LogOk.append (a := .vb (j - 1)) hs.log_ok rfl (Nat.lt_of_le_of_lt (Nat.sub_le j 1) hj)
      have hwritten : LogOk (vb_set_value j (s.fvb (j - 1)) (vb_get_value (j - 1) s).2) :=
        LogOk.append (a := .vb j) hread rfl hj
      exact ih (j - 1) (vb_set_value j (s.fvb (j - 1)) (vb_get_value (j - 1) s).2)
        ⟨⟨hs.sized, hwritten, hs.row_low, hs.row_high, hs.x_low, hs.x_high, hs.y_low⟩,
          hs.visible⟩ (Nat.lt_of_le_of_lt (Nat.sub_le j 1) hj)

theorem shiftCellsLeft_sane (remaining j : Nat) (s : Terminal) (hs : Sane s)
    (hj : j + remaining < PVB_SIZE) : Sane (shiftCellsLeft remaining j s) := by
  induction remaining generalizing j s with
  | zero => exact hs
  | succ remaining ih =>
      have hread : LogOk (vb_get_value (j + 1) s).2 :=
        LogOk.append (a := .vb (j + 1)) hs.log_ok rfl (show j + 1 < PVB_SIZE by omega)
      have hwritten : LogOk (vb_set_value j (s.fvb (j + 1)) (vb_get_value (j + 1) s).2) :=
        LogOk.append (a := .vb j) hread rfl (show j < PVB_SIZE by omega)
      exact ih (j + 1) (vb_set_value j (s.fvb (j + 1)) (vb_get_value (j + 1) s).2)
        ⟨⟨hs.sized, hwritten, hs.row_low, hs.row_high, hs.x_low, hs.x_high, hs.y_low⟩,
          hs.visible⟩ (by omega)

theorem end_index_lt (s : Terminal) (hs : Placed s) : view_get_buffer_end_index s < PVB_SIZE := by
  have hlow := hs.row_low
  have hhigh := hs.row_high
  unfold view_get_buffer_end_index PVB_SIZE TERM_WIDTH
  rw [hs.sized.2, toUnsigned_of_nonneg _ (by omega)]
  omega

theorem Sane.render {s : Terminal} (hs : Sane s) : Sane (render_screen s) := by
  have hrow := hs.row_high
  have hok := render_screen_ok s hs.log_ok hs.row_low (by omega)
  obtain ⟨-, hpages, hview, hcursor, -⟩ := render_screen_fields s
  refine ⟨hs.of_fields hok hpages hview ?_ ?_, ?_⟩
  · rw [hcursor]
  · rw [hcursor]
  · rw [hcursor]
    exact hs.visible

theorem tio_shift_left_sane (s : Terminal) (hs : Sane s) : Sane (tio_shift_left s) := by
  have hend := end_index_lt s hs.toPlaced
  unfold tio_shift_left
  simp only
  apply Sane.render
  by_cases hstart : (if s.cursor.x = 0 then cursor_get_index_in_buffer s + 1
      else cursor_get_index_in_buffer s) ≤ view_get_buffer_end_index s
  · apply shiftCellsLeft_sane _ _ _ hs
    omega
  · rw [Nat.sub_eq_zero_of_le (by omega)]
    exact hs

theorem tio_shift_right_iff (s : Terminal) (hs : Sane s) :
    (s.term_view.row + s.cursor.y < 240 → Sane (tio_shift_right s)) ∧
    (LogOk (tio_shift_right s) → s.term_view.row + s.cursor.y < 240) := by
  have hmoved := shiftCellsRight_sane
    (view_get_buffer_end_index s - cursor_get_index_in_buffer s) (view_get_buffer_end_index s) s hs
    (end_index_lt s hs.toPlaced)
  obtain ⟨hsane, hwritten⟩ := copyFromScreen_sane (cursor_get_index_in_buffer s) _ hmoved
  obtain ⟨-, -, -, -, hgrows⟩ := render_screen_fields (copyFromScreen (cursor_get_index_in_buffer s)
    (shiftCellsRight (view_get_buffer_end_index s - cursor_get_index_in_buffer s)
      (view_get_buffer_end_index s) s))
  rw [← buffer_index s hs.toPlaced]
  exact ⟨fun hindex => (hsane hindex).render, fun hlog => hlog _ (hgrows _ hwritten)⟩

end Operations

section Runs

theorem tio_write_color_eq (string : List UInt8) (vc : Vga_Color) (s : Terminal) :
    tio_write_color string vc s = (Call.steps (.write_color string vc)).foldl
      (fun s step => step.apply s) s := by
  simp only [Call.steps]
  induction string generalizing s with
  | nil => rfl
  | cons c rest ih =>
      rw [tio_write_color]
      by_cases hc : c = 0
      · simp [hc]
      · rw [if_pos hc, ih]
        simp [hc, Step.apply]

-- A call is the steps it is made of.
theorem Call.run_eq (call : Call) (s : Terminal) :
    call.run s = call.steps.foldl (fun s step => step.apply s) s := by
  cases call with
  | write string => exact tio_write_color_eq string .VGA_COLOR_WHITE s
  | write_color string vc => exact tio_write_color_eq string vc s
  | single step => rfl

theorem runs_eq (calls : List Call) (s : Terminal) :
    calls.foldl (fun s call => call.run s) s =
      lastState s (traceOf Step.apply s (calls.flatMap Call.steps)) := by
  rw [lastState_traceOf]
  induction calls generalizing s with
  | nil => rfl
  | cons call rest ih =>
      rw [List.foldl_cons, List.flatMap_cons, List.foldl_append, ih, call.run_eq]

-- The view stays in the buffer, every row on the way too, and so did every index.
def InBounds (_s : Terminal) (_step : Step) (t : Terminal) : Prop :=
  0 ≤ t.term_view.row ∧ t.term_view.row + TERM_HEIGHT ≤ FVB_PAGES * TERM_HEIGHT ∧ LogOk t

-- No page is recycled, and the two operations that use the cursor's cell of the
-- buffer without moving the view find it inside.
def StepSafe (s : Terminal) (step : Step) (_t : Terminal) : Prop :=
  match step with
  | .write_char_color c _ =>
      if c = 10 then Roomy s.term_view.row (s.cursor.y + 1)
      else if c = 13 then True
      else PutSafe s
  | .shift_view .SHIFT_DIRECTION_UP amt => s.term_view.row + reach amt.toNat s < 216
  | .shift_view .SHIFT_DIRECTION_DOWN _ => True
  | .cursor_inc => Roomy s.term_view.row (advancedY s.cursor.x s.cursor.y)
  | .cursor_dec => True
  | .backspace =>
      s.term_view.row + (if s.cursor.x = 0 then max (s.cursor.y - 1) 0 else s.cursor.y) < 240
  | .shift_right => s.term_view.row + s.cursor.y < 240
  | .shift_left => True

theorem stepSafe_iff (s : Terminal) (step : Step) (t : Terminal) (hs : Sane s) :
    (StepSafe s step t → Sane (step.apply s)) ∧ (LogOk (step.apply s) → StepSafe s step t) := by
  cases step with
  | write_char_color c vc =>
      simp only [StepSafe, Step.apply, tio_write_char_color]
      by_cases hn : c = 10
      · simp only [if_pos hn]
        obtain ⟨hsane, hbad⟩ := newline_iff s hs.toPlaced
        exact ⟨hsane, fun hlog => by_contra fun h => (hbad h).not_ok hlog⟩
      · by_cases hr : c = 13
        · simp only [if_neg hn, if_pos hr]
          refine ⟨fun _ => ?_, fun _ => trivial⟩
          exact ⟨hs.moveTo 0 s.cursor.y (Int.le_refl 0) zero_lt_width hs.y_low, hs.visible⟩
        · simp only [if_neg hn, if_neg hr]
          obtain ⟨hsane, hbad⟩ := putEntry_iff s hs (create_vga_entry c vc)
          exact ⟨hsane, fun hlog => by_contra fun h => (hbad h).not_ok hlog⟩
  | shift_view dir amt =>
      cases dir with
      | SHIFT_DIRECTION_UP =>
          refine ⟨fun h => (view_shift_up amt.toNat s hs.toPlaced h).1, fun hlog => ?_⟩
          by_contra h
          exact (view_shift_up_recycles amt.toNat s hs.toPlaced (Int.not_lt.mp h)).not_ok hlog
      | SHIFT_DIRECTION_DOWN =>
          exact ⟨fun _ => view_shift_down amt.toNat s hs.toPlaced, fun _ => trivial⟩
  | cursor_inc =>
      obtain ⟨hsane, hbad, -⟩ := tio_cursor_inc_iff s hs.toPlaced
      exact ⟨hsane, fun hlog => by_contra fun h => (hbad h).not_ok hlog⟩
  | cursor_dec => exact ⟨fun _ => tio_cursor_dec_sane s hs, fun _ => trivial⟩
  | backspace => exact tio_backspace_iff s hs
  | shift_right => exact tio_shift_right_iff s hs
  | shift_left => exact ⟨fun _ => tio_shift_left_sane s hs, fun _ => trivial⟩

theorem tio_init_sane (s : Terminal) : Sane (tio_init s) := by
  refine ⟨⟨⟨rfl, rfl⟩, ?_, ?_, ?_, ?_, ?_, ?_⟩, ?_⟩
  · intro a ha
    cases ha
  · exact Int.le_refl 0
  · exact show (0 : Int) ≤ 215 by decide
  · exact Int.le_refl 0
  · exact zero_lt_width
  · exact Int.le_refl 0
  · exact fun _ => show (0 : Int) ≤ 23 by decide

theorem inBounds_iff (s : Terminal) (step : Step) (t : Terminal) (hs : Sane s)
    (hstep : t = step.apply s) : InBounds s step t ↔ StepSafe s step t := by
  obtain ⟨hsane, hlog⟩ := stepSafe_iff s step t hs
  subst t
  constructor
  · rintro ⟨-, -, hok⟩
    exact hlog hok
  · intro hsafe
    have hnext := hsane hsafe
    have hrow := hnext.row_high
    refine ⟨hnext.row_low, ?_, hnext.log_ok⟩
    unfold TERM_HEIGHT FVB_PAGES
    omega

-- Whole runs of calls after `tio_init`, character by character.
theorem terminal_in_bounds_iff (s : Terminal) (calls : List Call) :
    Along InBounds (tio_init s)
        (traceOf Step.apply (tio_init s) (calls.flatMap Call.steps)) ↔
      Along StepSafe (tio_init s)
        (traceOf Step.apply (tio_init s) (calls.flatMap Call.steps)) := by
  refine along_iff Sane ?_ inBounds_iff (tio_init_sane s) (along_traceOf Step.apply _ _)
  intro s step t hs hstep hsafe
  rw [hstep]
  exact (stepSafe_iff s step t hs).1 hsafe

-- A line break with the cursor above the last row but one moves the write
-- position by exactly one row.
theorem newline_moves (s : Terminal) (hs : Sane s) (hy : s.cursor.y ≤ 22) (vc : Vga_Color)
    (hroomy : Roomy s.term_view.row (s.cursor.y + 1)) :
    (tio_write_char_color 10 vc s).term_view.row + (tio_write_char_color 10 vc s).cursor.y =
      s.term_view.row + s.cursor.y + 1 ∧ (tio_write_char_color 10 vc s).cursor.y ≤ 22 := by
  have hyl := hs.y_low
  have heq : tio_write_char_color 10 vc s = scrollToCursor (setX 0 (setY (s.cursor.y + 1) s)) := rfl
  have hplaced : Placed (setX 0 (setY (s.cursor.y + 1) s)) :=
    hs.moveTo 0 _ (Int.le_refl 0) zero_lt_width (by omega)
  have hrow : (setX 0 (setY (s.cursor.y + 1) s)).term_view.row = s.term_view.row := rfl
  have hcursor : (setX 0 (setY (s.cursor.y + 1) s)).cursor.y = s.cursor.y + 1 := rfl
  rw [heq]
  rcases scrollToCursor_cases (setX 0 (setY (s.cursor.y + 1) s)) with ⟨hlast, hscroll⟩ | ⟨hy', hscroll⟩
  · have hone : reach 1 (setX 0 (setY (s.cursor.y + 1) s)) = 1 := reach_of_le (by omega)
    have hroom : s.term_view.row < 215 := hroomy (hcursor ▸ hlast)
    obtain ⟨-, hrow', hy', -⟩ := view_shift_up 1 _ hplaced (by omega)
    rw [hscroll, hrow', hy']
    omega
  · rw [hscroll, hcursor]
    omega

-- Enough line breaks run into the recycling round.
theorem newlines_recycle (breaks : Nat) (vc : Vga_Color) (s : Terminal) (hs : Sane s)
    (hy : s.cursor.y ≤ 22) (hmany : 238 ≤ s.term_view.row + s.cursor.y + breaks) :
    ¬Along InBounds s
      (traceOf Step.apply s (List.replicate breaks (.write_char_color 10 vc))) := by
  induction breaks generalizing s with
  | zero =>
      have hrow := hs.row_high
      omega
  | succ breaks ih =>
      rw [List.replicate_succ]
      rintro ⟨hfirst, hrest⟩
      have hsafe := (inBounds_iff s _ _ hs rfl).mp hfirst
      have hnext := (stepSafe_iff s _ (Step.apply (.write_char_color 10 vc) s) hs).1 hsafe
      obtain ⟨hsum, hy'⟩ := newline_moves s hs hy vc hsafe
      have hsum' : (Step.apply (.write_char_color 10 vc) s).term_view.row +
          (Step.apply (.write_char_color 10 vc) s).cursor.y =
            s.term_view.row + s.cursor.y + 1 := hsum
      exact ih _ hnext hy' (by omega) hrest

theorem newline_steps (breaks : Nat) :
    [Call.write (List.replicate breaks 10)].flatMap Call.steps =
      List.replicate breaks (.write_char_color 10 .VGA_COLOR_WHITE) := by
  simp [Call.steps]

def emptyTerminal : Terminal :=
  { fvb := fun _ => 0
    num_pages := 0
    blank_buffer_page := fun _ => 0
    term_view := { row := 0, height := 0, width := 0 }
    cursor := { x := 0, y := 0, on_screen := false }
    platform_vb := fun _ => 0
    log := [] }

theorem view_row_negative_after_238_newlines :
    ¬Along InBounds (tio_init emptyTerminal) (traceOf Step.apply (tio_init emptyTerminal)
      ([Call.write (List.replicate 238 10)].flatMap Call.steps)) := by
  rw [newline_steps]
  apply newlines_recycle 238 _ _ (tio_init_sane emptyTerminal)
  · exact show (0 : Int) ≤ 22 by decide
  · exact show (238 : Int) ≤ 0 + 0 + (238 : Nat) by decide

end Runs

end PalleyOS.Tio
