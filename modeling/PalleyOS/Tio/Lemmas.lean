import PalleyOS.Tio

namespace PalleyOS.Tio

-- What the bounds ask of a log entry.
section Log

def Access.ok : Access → Prop
  | .vb index => index < PVB_SIZE
  | .platform _ => True
  | .view_row row => 0 ≤ row ∧ row + TERM_HEIGHT ≤ FVB_PAGES * TERM_HEIGHT

def LogOk (s : Terminal) : Prop := ∀ a ∈ s.log, a.ok

-- Nothing is ever taken out of the log.
def Grows (s t : Terminal) : Prop := ∀ a ∈ s.log, a ∈ t.log

theorem Grows.refl (s : Terminal) : Grows s s := fun _ ha => ha

theorem Grows.trans {s t u : Terminal} (h : Grows s t) (h' : Grows t u) : Grows s u :=
  fun a ha => h' a (h a ha)

theorem Grows.append (s t : Terminal) (a : Access) (h : t.log = s.log ++ [a]) : Grows s t := by
  intro b hb
  rw [h]
  exact List.mem_append_left _ hb

theorem LogOk.append {s t : Terminal} {a : Access} (hs : LogOk s) (h : t.log = s.log ++ [a])
    (ha : a.ok) : LogOk t := by
  intro b hb
  rw [h] at hb
  rcases List.mem_append.mp hb with hb | hb
  · exact hs b hb
  · rw [List.mem_singleton.mp hb]
    exact ha

-- What a recycling round leaves in the log: the row it reached and the row it
-- went back to.
def Recycled (s : Terminal) : Prop := .view_row 216 ∈ s.log ∧ .view_row (-37) ∈ s.log

theorem Recycled.grows {s t : Terminal} (hs : Recycled s) (h : Grows s t) : Recycled t :=
  ⟨h _ hs.1, h _ hs.2⟩

theorem Recycled.not_ok {s : Terminal} (hs : Recycled s) : ¬LogOk s := by
  intro hlog
  have hrow := (hlog _ hs.2).1
  omega

theorem toUnsigned_of_nonneg (n : Int) (hn : 0 ≤ n) : toUnsigned n = n.toNat := by
  unfold toUnsigned
  rw [if_neg (by omega)]

end Log

section Screen

-- Rendering touches video memory and the log only.
theorem renderFrom_fields (view_index remaining i : Nat) (s : Terminal) :
    (renderFrom view_index remaining i s).fvb = s.fvb ∧
    (renderFrom view_index remaining i s).num_pages = s.num_pages ∧
    (renderFrom view_index remaining i s).term_view = s.term_view ∧
    (renderFrom view_index remaining i s).cursor = s.cursor ∧
    Grows s (renderFrom view_index remaining i s) := by
  induction remaining generalizing i s with
  | zero => exact ⟨rfl, rfl, rfl, rfl, Grows.refl s⟩
  | succ remaining ih =>
      obtain ⟨hfvb, hpages, hview, hcursor, hgrows⟩ := ih (i + 1)
        (platform_set i (s.fvb ((view_index + i) % 4294967296))
          (vb_get_value ((view_index + i) % 4294967296) s).2)
      refine ⟨hfvb, hpages, hview, hcursor, ?_⟩
      have hread : Grows s (vb_get_value ((view_index + i) % 4294967296) s).2 :=
        Grows.append _ _ (.vb _) rfl
      have hwritten := hread.trans (Grows.append _
        (platform_set i (s.fvb ((view_index + i) % 4294967296))
          (vb_get_value ((view_index + i) % 4294967296) s).2) (.platform i) rfl)
      exact hwritten.trans hgrows

theorem renderFrom_ok (view_index remaining i : Nat) (s : Terminal) (hs : LogOk s)
    (hroom : view_index + i + remaining ≤ PVB_SIZE) :
    LogOk (renderFrom view_index remaining i s) := by
  have hsize : PVB_SIZE = 19200 := rfl
  induction remaining generalizing i s with
  | zero => exact hs
  | succ remaining ih =>
      apply ih (i + 1)
      · refine LogOk.append (s := (vb_get_value ((view_index + i) % 4294967296) s).2) ?_ rfl trivial
        refine hs.append rfl ?_
        simp only [Access.ok]
        omega
      · omega

theorem render_screen_fields (s : Terminal) :
    (render_screen s).fvb = s.fvb ∧ (render_screen s).num_pages = s.num_pages ∧
    (render_screen s).term_view = s.term_view ∧ (render_screen s).cursor = s.cursor ∧
    Grows s (render_screen s) := renderFrom_fields _ _ _ _

theorem render_screen_ok (s : Terminal) (hs : LogOk s) (hlow : 0 ≤ s.term_view.row)
    (hhigh : s.term_view.row ≤ 216) : LogOk (render_screen s) := by
  apply renderFrom_ok _ _ _ _ hs
  have hindex : view_get_buffer_start_index s = (s.term_view.row * 80).toNat :=
    toUnsigned_of_nonneg _ (Int.mul_nonneg hlow (by decide))
  have hsizes : VB_SIZE = 1920 ∧ PVB_SIZE = 19200 := ⟨rfl, rfl⟩
  rw [hindex, hsizes.1, hsizes.2]
  omega

end Screen

-- The loop of `__view_shift`.
section Shift

def Sized (s : Terminal) : Prop := s.num_pages = 10 ∧ s.term_view.height = 24

theorem vb_shift_pages_fields (s : Terminal) :
    (vb_shift_pages s).num_pages = s.num_pages ∧ (vb_shift_pages s).term_view = s.term_view ∧
    (vb_shift_pages s).cursor = s.cursor ∧ (vb_shift_pages s).log = s.log := by
  unfold vb_shift_pages
  split <;> exact ⟨rfl, rfl, rfl, rfl⟩

-- One round before the page test.
def moved (s : Terminal) : Terminal :=
  setRow (s.term_view.row + 1) (setY (s.cursor.y - 1) s)

theorem shiftUp_eq (s : Terminal) : shiftUp s =
    if (moved s).term_view.row + (moved s).term_view.height ≥ (moved s).num_pages * TERM_HEIGHT
    then setRow (recycledRow (vb_shift_pages (moved s))) (vb_shift_pages (moved s))
    else moved s := rfl

theorem page_full_iff (s : Terminal) (hs : Sized s) :
    (moved s).term_view.row + (moved s).term_view.height ≥ (moved s).num_pages * TERM_HEIGHT ↔
      215 ≤ s.term_view.row := by
  have hpages : (moved s).num_pages = 10 := hs.1
  have hheight : (moved s).term_view.height = 24 := hs.2
  have hrow : (moved s).term_view.row = s.term_view.row + 1 := rfl
  rw [hpages, hheight, hrow, TERM_HEIGHT]
  omega

theorem shiftUp_fields (s : Terminal) (hs : Sized s) :
    Sized (shiftUp s) ∧ (shiftUp s).cursor = { s.cursor with y := s.cursor.y - 1 } ∧
    Grows s (shiftUp s) := by
  obtain ⟨hpages, hview, hcursor, hlog⟩ := vb_shift_pages_fields (moved s)
  rw [shiftUp_eq]
  split
  · refine ⟨⟨hpages.trans hs.1, ?_⟩, hcursor, ?_⟩
    · simp only [setRow, hview]
      exact hs.2
    · intro a ha
      apply List.mem_append_left
      rw [hlog]
      exact List.mem_append_left _ ha
  · exact ⟨hs, rfl, Grows.append _ _ _ rfl⟩

-- Below row 215 a round moves the view by one row, at row 215 it recycles a page
-- and leaves the row at -37.
theorem shiftUp_moves (s : Terminal) (hs : Sized s) (hrow : s.term_view.row < 215) :
    (shiftUp s).term_view.row = s.term_view.row + 1 ∧
    (shiftUp s).log = s.log ++ [.view_row (s.term_view.row + 1)] := by
  rw [shiftUp_eq, if_neg (fun h => absurd ((page_full_iff s hs).mp h) (by omega))]
  exact ⟨rfl, rfl⟩

theorem shiftUp_recycles (s : Terminal) (hs : Sized s) (hrow : s.term_view.row = 215) :
    Recycled (shiftUp s) := by
  have hrecycled : recycledRow (vb_shift_pages (moved s)) = -37 := by
    unfold recycledRow
    rw [(vb_shift_pages_fields (moved s)).1, show (moved s).num_pages = 10 from hs.1]
    rfl
  have hreached : (moved s).log = s.log ++ [.view_row 216] := by
    simp only [moved, setRow, setY, hrow]
    rfl
  rw [shiftUp_eq, if_pos ((page_full_iff s hs).mpr (Int.le_of_eq hrow.symm)), hrecycled]
  refine ⟨List.mem_append_left _ ?_, List.mem_append_right _ (List.mem_singleton.mpr rfl)⟩
  rw [(vb_shift_pages_fields (moved s)).2.2.2, hreached]
  exact List.mem_append_right _ (List.mem_singleton.mpr rfl)

theorem shiftDown_fields (s : Terminal) (hs : Sized s) :
    Sized (shiftDown s) ∧ Grows s (shiftDown s) ∧ (shiftDown s).cursor.x = s.cursor.x ∧
    (shiftDown s).fvb = s.fvb := by
  unfold shiftDown
  split <;> exact ⟨hs, Grows.append _ _ _ rfl, rfl, rfl⟩

theorem shiftLoop_fields (dir : Shift_Direction) (rounds : Nat) (s : Terminal) (hs : Sized s) :
    Sized (shiftLoop dir rounds s).1 ∧ Grows s (shiftLoop dir rounds s).1 ∧
    (shiftLoop dir rounds s).1.cursor.x = s.cursor.x := by
  induction rounds generalizing s with
  | zero => exact ⟨hs, Grows.refl s, rfl⟩
  | succ rounds ih =>
      cases dir with
      | SHIFT_DIRECTION_UP =>
          rw [shiftLoop]
          split
          · exact ⟨hs, Grows.refl s, rfl⟩
          · obtain ⟨hsized, hcursor, hgrows⟩ := shiftUp_fields s hs
            obtain ⟨hsized', hgrows', hx⟩ := ih _ hsized
            refine ⟨hsized', hgrows.trans hgrows', hx.trans ?_⟩
            rw [hcursor]
      | SHIFT_DIRECTION_DOWN =>
          rw [shiftLoop]
          obtain ⟨hsized, hgrows, hx, -⟩ := shiftDown_fields s hs
          obtain ⟨hsized', hgrows', hx'⟩ := ih _ hsized
          exact ⟨hsized', hgrows.trans hgrows', hx'.trans hx⟩

-- How far a shift by `amt` moves the view up the buffer.
def reach (amt : Nat) (s : Terminal) : Int := min (amt : Int) s.cursor.y

theorem reach_le (amt : Nat) (s : Terminal) : reach amt s ≤ amt := Int.min_le_left _ _

theorem reach_le_y (amt : Nat) (s : Terminal) : reach amt s ≤ s.cursor.y := Int.min_le_right _ _

theorem reach_nonneg (amt : Nat) (s : Terminal) (hy : 0 ≤ s.cursor.y) : 0 ≤ reach amt s :=
  Int.le_min.mpr ⟨Int.natCast_nonneg amt, hy⟩

theorem reach_of_le {amt : Nat} {s : Terminal} (h : (amt : Int) ≤ s.cursor.y) :
    reach amt s = amt := Int.min_eq_left h

theorem reach_of_lt {amt : Nat} {s : Terminal} (h : s.cursor.y < amt) :
    reach amt s = s.cursor.y := Int.min_eq_right (Int.le_of_lt h)

theorem shiftLoop_up (rounds : Nat) (s : Terminal) (hs : Sized s) (hlog : LogOk s)
    (hlow : 0 ≤ s.term_view.row) (hy : 0 ≤ s.cursor.y)
    (hreach : s.term_view.row + reach rounds s < 216) :
    (shiftLoop .SHIFT_DIRECTION_UP rounds s).1.term_view.row =
      s.term_view.row + reach rounds s ∧
    (shiftLoop .SHIFT_DIRECTION_UP rounds s).1.cursor.y = s.cursor.y - reach rounds s ∧
    (shiftLoop .SHIFT_DIRECTION_UP rounds s).2 = decide (s.cursor.y < rounds) ∧
    LogOk (shiftLoop .SHIFT_DIRECTION_UP rounds s).1 := by
  induction rounds generalizing s with
  | zero =>
      have hzero : reach 0 s = 0 := reach_of_le hy
      rw [hzero, shiftLoop]
      refine ⟨(Int.add_zero _).symm, (Int.sub_zero _).symm, ?_, hlog⟩
      simp only [false_eq_decide_iff]
      omega
  | succ rounds ih =>
      rw [shiftLoop]
      unfold reach at hreach ⊢
      split
      · simp only [setOnScreen, setY]
        refine ⟨by omega, by omega, ?_, hlog⟩
        simp only [true_eq_decide_iff]
        omega
      · obtain ⟨hsized, hcursor, -⟩ := shiftUp_fields s hs
        obtain ⟨hrow, hentries⟩ := shiftUp_moves s hs (by omega)
        have hok : LogOk (shiftUp s) := by
          refine hlog.append hentries ?_
          simp only [Access.ok, TERM_HEIGHT, FVB_PAGES]
          omega
        have hy' : (shiftUp s).cursor.y = s.cursor.y - 1 := by rw [hcursor]
        obtain ⟨hrow', hy'', hflag, hlog'⟩ := ih (shiftUp s) hsized hok (by omega) (by omega) (by
          unfold reach
          omega)
        unfold reach at hrow' hy''
        refine ⟨by omega, by omega, ?_, hlog'⟩
        rw [hflag, hy']
        exact decide_eq_decide.mpr (by omega)

theorem shiftLoop_up_recycles (rounds : Nat) (s : Terminal) (hs : Sized s)
    (hhigh : s.term_view.row ≤ 215) (hy : 0 ≤ s.cursor.y)
    (hreach : 216 ≤ s.term_view.row + reach rounds s) :
    Recycled (shiftLoop .SHIFT_DIRECTION_UP rounds s).1 := by
  induction rounds generalizing s with
  | zero =>
      unfold reach at hreach
      omega
  | succ rounds ih =>
      unfold reach at hreach
      rw [shiftLoop, if_neg (by omega)]
      obtain ⟨hsized, hcursor, -⟩ := shiftUp_fields s hs
      obtain ⟨-, hgrows, -⟩ := shiftLoop_fields .SHIFT_DIRECTION_UP rounds (shiftUp s) hsized
      by_cases hlast : 215 ≤ s.term_view.row
      · exact (shiftUp_recycles s hs (by omega)).grows hgrows
      · obtain ⟨hrow, -⟩ := shiftUp_moves s hs (by omega)
        have hy' : (shiftUp s).cursor.y = s.cursor.y - 1 := by rw [hcursor]
        apply ih (shiftUp s) hsized (by omega) (by omega)
        unfold reach
        omega

theorem shiftLoop_down (rounds : Nat) (s : Terminal) (hs : Sized s) (hlog : LogOk s)
    (hlow : 0 ≤ s.term_view.row) (hhigh : s.term_view.row ≤ 215) (hy : 0 ≤ s.cursor.y) :
    0 ≤ (shiftLoop .SHIFT_DIRECTION_DOWN rounds s).1.term_view.row ∧
    (shiftLoop .SHIFT_DIRECTION_DOWN rounds s).1.term_view.row ≤ s.term_view.row ∧
    (shiftLoop .SHIFT_DIRECTION_DOWN rounds s).1.term_view.row +
      (shiftLoop .SHIFT_DIRECTION_DOWN rounds s).1.cursor.y = s.term_view.row + s.cursor.y ∧
    (shiftLoop .SHIFT_DIRECTION_DOWN rounds s).2 = false ∧
    LogOk (shiftLoop .SHIFT_DIRECTION_DOWN rounds s).1 := by
  induction rounds generalizing s with
  | zero => exact ⟨hlow, Int.le_refl _, rfl, rfl, hlog⟩
  | succ rounds ih =>
      rw [shiftLoop]
      obtain ⟨hsized, -, -, -⟩ := shiftDown_fields s hs
      have hmoved : 0 ≤ (shiftDown s).term_view.row ∧
          (shiftDown s).term_view.row ≤ s.term_view.row ∧ 0 ≤ (shiftDown s).cursor.y ∧
          (shiftDown s).term_view.row + (shiftDown s).cursor.y = s.term_view.row + s.cursor.y ∧
          LogOk (shiftDown s) := by
        unfold shiftDown
        split
        · refine ⟨Int.le_refl _, hlow, hy, ?_, hlog.append rfl ?_⟩
          · simp only [setRow]
            omega
          · simp only [Access.ok, TERM_HEIGHT, FVB_PAGES]
            omega
        · simp only [setRow, setY]
          refine ⟨by omega, by omega, by omega, by omega, ?_⟩
          refine LogOk.append hlog rfl ?_
          simp only [Access.ok, TERM_HEIGHT, FVB_PAGES]
          omega
      obtain ⟨hlow', hle, hy', hsum, hlog'⟩ := hmoved
      obtain ⟨hlow'', hle', hsum', hflag, hlog''⟩ :=
        ih (shiftDown s) hsized hlog' hlow' (by omega) hy'
      exact ⟨hlow'', by omega, by omega, hflag, hlog''⟩

end Shift

end PalleyOS.Tio
