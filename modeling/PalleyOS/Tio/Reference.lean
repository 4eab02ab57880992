import PalleyOS.Tio.Bounds

namespace PalleyOS.Tio

open Machine

-- The terminal a reader has in mind: rows of 80 characters without end, and the
-- place of the next one. Scrolling does not exist.
section Reference

structure Reference where
  grid : Nat → Nat → UInt8 × Vga_Color
  row : Nat
  column : Nat

namespace Reference

def initial : Reference := { grid := fun _ _ => (32, .VGA_COLOR_BLACK), row := 0, column := 0 }

def store (cell : UInt8 × Vga_Color) (r : Reference) : Nat → Nat → UInt8 × Vga_Color :=
  fun row column => if row = r.row ∧ column = r.column then cell else r.grid row column

def put (c : UInt8) (vc : Vga_Color) (r : Reference) : Reference :=
  if c = 10 then { r with row := r.row + 1, column := 0 }
  else if c = 13 then { r with column := 0 }
  else if r.column + 1 = 80 then { grid := r.store (c, vc), row := r.row + 1, column := 0 }
  else { r with grid := r.store (c, vc), column := r.column + 1 }

def print : List UInt8 → Vga_Color → Reference → Reference
  | [], _, r => r
  | c :: rest, vc, r => if c ≠ 0 then print rest vc (r.put c vc) else r

end Reference

-- What a program sends to the terminal.
inductive Output where
  | write (string : List UInt8)
  | write_color (string : List UInt8) (vc : Vga_Color)
  | shift_view (dir : Shift_Direction) (amt : UInt32)

def Output.call : Output → Call
  | .write string => .write string
  | .write_color string vc => .write_color string vc
  | .shift_view dir amt => .single (.shift_view dir amt)

def Output.print : Output → Reference → Reference
  | .write string, r => r.print string .VGA_COLOR_WHITE
  | .write_color string vc, r => r.print string vc
  | .shift_view _ _, r => r

-- The back buffer holds the rows of the grid and there is nothing beyond them.
structure Simulates (s : Terminal) (r : Reference) : Prop where
  cells : ∀ row column, row < 240 → column < 80 →
    s.fvb (row * 80 + column) = create_vga_entry (r.grid row column).1 (r.grid row column).2
  beyond : ∀ row column, 240 ≤ row → r.grid row column = (32, .VGA_COLOR_BLACK)
  row : s.term_view.row + s.cursor.y = r.row
  column : s.cursor.x = r.column

-- An entry determines its character and its colour.
theorem create_vga_entry_toNat (c : UInt8) (vc : Vga_Color) :
    (create_vga_entry c vc).toNat = c.toNat + 256 * vc.ctorIdx := by
  have hc := c.toNat_lt
  have hcolor : (UInt16.ofNat vc.ctorIdx <<< 8).toNat = 256 * vc.ctorIdx := by
    cases vc <;> rfl
  unfold create_vga_entry
  rw [UInt16.toNat_or, hcolor, UInt8.toNat_toUInt16, Nat.or_comm, Nat.mul_comm,
    ← Nat.shiftLeft_eq _ 8, ← Nat.shiftLeft_add_eq_or_of_lt hc, Nat.shiftLeft_eq]
  omega

theorem create_vga_entry_injective (c c' : UInt8) (vc vc' : Vga_Color)
    (h : create_vga_entry c vc = create_vga_entry c' vc') : c = c' ∧ vc = vc' := by
  have hc := c.toNat_lt
  have hc' := c'.toNat_lt
  have hnat := congrArg UInt16.toNat h
  rw [create_vga_entry_toNat, create_vga_entry_toNat] at hnat
  refine ⟨UInt8.toNat_inj.mp (by omega), ?_⟩
  have hcolor : vc.ctorIdx = vc'.ctorIdx := by omega
  cases vc <;> cases vc' <;> first | rfl | cases hcolor

end Reference

-- Scrolling moves the view and the cursor against each other over the same
-- buffer.
section Scrolling

structure Scrolled (s t : Terminal) : Prop where
  fvb : t.fvb = s.fvb
  row : t.term_view.row + t.cursor.y = s.term_view.row + s.cursor.y
  column : t.cursor.x = s.cursor.x

theorem Scrolled.trans {s t u : Terminal} (h : Scrolled s t) (h' : Scrolled t u) : Scrolled s u :=
  ⟨h'.fvb.trans h.fvb, h'.row.trans h.row, h'.column.trans h.column⟩

theorem Simulates.scroll {s t : Terminal} {r : Reference} (hsim : Simulates s r)
    (h : Scrolled s t) : Simulates t r := by
  refine ⟨?_, hsim.beyond, h.row.trans hsim.row, h.column.trans hsim.column⟩
  rw [h.fvb]
  exact hsim.cells

theorem shiftUp_scrolled (s : Terminal) (hs : Sized s) (hrow : s.term_view.row < 215) :
    Scrolled s (shiftUp s) := by
  rw [shiftUp_eq, if_neg (fun h => absurd ((page_full_iff s hs).mp h) (by omega))]
  refine ⟨rfl, ?_, rfl⟩
  simp only [moved, setRow, setY]
  omega

theorem shiftLoop_up_scrolled (rounds : Nat) (s : Terminal) (hs : Sized s)
    (hy : 0 ≤ s.cursor.y) (hreach : s.term_view.row + reach rounds s < 216) :
    Scrolled s (shiftLoop .SHIFT_DIRECTION_UP rounds s).1 := by
  induction rounds generalizing s with
  | zero => exact ⟨rfl, rfl, rfl⟩
  | succ rounds ih =>
      unfold reach at hreach
      rw [shiftLoop]
      split
      · refine ⟨rfl, ?_, rfl⟩
        simp only [setOnScreen, setY]
        omega
      · obtain ⟨hsized, hcursor, -⟩ := shiftUp_fields s hs
        obtain ⟨hrow, -⟩ := shiftUp_moves s hs (by omega)
        have hy' : (shiftUp s).cursor.y = s.cursor.y - 1 := by rw [hcursor]
        refine (shiftUp_scrolled s hs (by omega)).trans (ih (shiftUp s) hsized (by omega) ?_)
        unfold reach
        omega

theorem shiftLoop_down_scrolled (rounds : Nat) (s : Terminal) (hs : Placed s) :
    Scrolled s (shiftLoop .SHIFT_DIRECTION_DOWN rounds s).1 := by
  obtain ⟨-, -, hx⟩ := shiftLoop_fields .SHIFT_DIRECTION_DOWN rounds s hs.sized
  obtain ⟨-, -, hsum, -, -⟩ :=
    shiftLoop_down rounds s hs.sized hs.log_ok hs.row_low hs.row_high hs.y_low
  refine ⟨?_, hsum, hx⟩
  have hsized := hs.sized
  clear hsum hx hs
  induction rounds generalizing s with
  | zero => rfl
  | succ rounds ih =>
      obtain ⟨hsized', -, -, hfvb⟩ := shiftDown_fields s hsized
      rw [shiftLoop]
      exact (ih (shiftDown s) hsized').trans hfvb

theorem refresh_scrolled (s : Terminal) : Scrolled s (refresh s) := by
  obtain ⟨-, hview, hx, hy, -⟩ := refresh_fields s
  refine ⟨(render_screen_fields _).1, ?_, hx⟩
  rw [hview, hy]

theorem view_shift_scrolled (dir : Shift_Direction) (amt : Nat) (s : Terminal) (hs : Placed s)
    (hreach : dir = .SHIFT_DIRECTION_UP → s.term_view.row + reach amt s < 216) :
    Scrolled s (view_shift dir amt s) := by
  have hloop : Scrolled s (shiftLoop dir amt s).1 := by
    cases dir with
    | SHIFT_DIRECTION_UP => exact shiftLoop_up_scrolled amt s hs.sized hs.y_low (hreach rfl)
    | SHIFT_DIRECTION_DOWN => exact shiftLoop_down_scrolled amt s hs
  unfold view_shift
  rcases hend : shiftLoop dir amt s with ⟨t, returned⟩
  rw [hend] at hloop
  cases returned with
  | false => exact hloop.trans (refresh_scrolled t)
  | true => exact hloop

theorem scrollToCursor_scrolled (s : Terminal) (hs : Placed s)
    (hroomy : Roomy s.term_view.row s.cursor.y) : Scrolled s (scrollToCursor s) := by
  rcases scrollToCursor_cases s with ⟨hy, heq⟩ | ⟨-, heq⟩
  · have hrow := hroomy hy
    have hone := reach_le 1 s
    rw [heq]
    exact view_shift_scrolled _ 1 s hs (fun _ => by omega)
  · rw [heq]
    exact ⟨rfl, rfl, rfl⟩

theorem catchUp_scrolled (s : Terminal) (hs : Placed s)
    (hfirst : s.term_view.row + catchUpReach s.cursor.on_screen s.cursor.y < 216) :
    Scrolled s (catchUp s) := by
  unfold catchUp
  by_cases hon : s.cursor.on_screen = true
  · rw [if_pos hon]
    exact ⟨rfl, rfl, rfl⟩
  · rw [if_neg hon]
    refine view_shift_scrolled _ _ s hs (fun _ => ?_)
    rw [reach_catchUp s hs.y_low (Bool.eq_false_iff.mpr hon)]
    exact hfirst

end Scrolling

section Simulation

theorem newline_simulates (s : Terminal) (r : Reference) (hs : Sane s) (hsim : Simulates s r)
    (hroomy : Roomy s.term_view.row (s.cursor.y + 1)) :
    Simulates (scrollToCursor (setX 0 (setY (s.cursor.y + 1) s)))
      { r with row := r.row + 1, column := 0 } := by
  have hyl := hs.y_low
  have hplaced : Placed (setX 0 (setY (s.cursor.y + 1) s)) :=
    hs.moveTo 0 _ (Int.le_refl 0) zero_lt_width (by omega)
  have hbroken : Simulates (setX 0 (setY (s.cursor.y + 1) s))
      { r with row := r.row + 1, column := 0 } := by
    refine ⟨hsim.cells, hsim.beyond, ?_, rfl⟩
    have hrow := hsim.row
    simp only [setX, setY]
    omega
  exact hbroken.scroll (scrollToCursor_scrolled _ hplaced hroomy)

-- The entry is stored in the cell of the write position.
theorem stored_cells (s : Terminal) (r : Reference) (hs : Sane s) (hsim : Simulates s r)
    (c : UInt8) (vc : Vga_Color) :
    let s' := vb_set_value (cursor_get_index_in_buffer s) (create_vga_entry c vc) s
    ∀ row column, row < 240 → column < 80 → s'.fvb (row * 80 + column) =
      create_vga_entry (r.store (c, vc) row column).1 (r.store (c, vc) row column).2 := by
  intro s' row column hrow hcolumn
  have hrow' := hsim.row
  have hcolumn' := hsim.column
  have hx := hs.x_high
  have hindex : cursor_get_index_in_buffer s = r.row * 80 + r.column := by
    unfold cursor_get_index_in_buffer TERM_WIDTH
    rw [toUnsigned_of_nonneg _ (by omega)]
    omega
  simp only [s', vb_set_value, hindex, Reference.store]
  by_cases hcell : row = r.row ∧ column = r.column
  · rw [if_pos hcell, hcell.1, hcell.2, Function.update_self]
  · rw [if_neg hcell, Function.update_of_ne (by omega)]
    exact hsim.cells row column hrow hcolumn

-- The write position moves on as the cursor does, before the view follows.
theorem advanced_simulates (s t : Terminal) (r : Reference) (c : UInt8) (vc : Vga_Color)
    (hn : c ≠ 10) (hr : c ≠ 13) (hsim : Simulates s r) (hrow : r.row < 240)
    (hx : 0 ≤ s.cursor.x ∧ s.cursor.x < 80) (hview : t.term_view = s.term_view)
    (hcursor : t.cursor = s.cursor)
    (hcells : ∀ row column, row < 240 → column < 80 → t.fvb (row * 80 + column) =
      create_vga_entry (r.store (c, vc) row column).1 (r.store (c, vc) row column).2) :
    Simulates (advanced t) (r.put c vc) := by
  have hrow' := hsim.row
  have hcolumn' := hsim.column
  have hbeyond : ∀ row column, 240 ≤ row →
      r.store (c, vc) row column = (32, .VGA_COLOR_BLACK) := by
    intro row column hout
    unfold Reference.store
    rw [if_neg (by omega)]
    exact hsim.beyond row column hout
  unfold advanced Reference.put TERM_WIDTH
  rw [if_neg hn, if_neg hr, hcursor]
  by_cases hwrap : s.cursor.x + 1 ≥ 80
  · rw [if_pos hwrap, if_pos (by omega)]
    refine ⟨hcells, hbeyond, ?_, rfl⟩
    simp only [setX, setY, hview]
    omega
  · rw [if_neg hwrap, if_neg (by omega)]
    refine ⟨hcells, hbeyond, ?_, ?_⟩
    · simp only [setX, hview, hcursor]
      exact hrow'
    · simp only [setX]
      omega

theorem putEntry_simulates (s : Terminal) (r : Reference) (hs : Sane s) (hsim : Simulates s r)
    (c : UInt8) (vc : Vga_Color) (hn : c ≠ 10) (hr : c ≠ 13) (hsafe : PutSafe s) :
    Simulates (putEntry (create_vga_entry c vc) s) (r.put c vc) := by
  have hshown := hs.platform_set (cursor_get_index s) (create_vga_entry c vc)
  have hset : Scrolled s (platform_set (cursor_get_index s) (create_vga_entry c vc) s) :=
    ⟨rfl, rfl, rfl⟩
  have hscrolled : Scrolled s (caught (create_vga_entry c vc) s) :=
    hset.trans (catchUp_scrolled _ hshown.toPlaced hsafe.1)
  obtain ⟨hsane, hrow, hy, hx⟩ := (caught_iff s hs (create_vga_entry c vc)).1 hsafe.1
  have hnear := caught_near s hs
  have hhigh := hsane.row_high
  have hcaught := hsim.scroll hscrolled
  have hposition := hcaught.row
  have hadvanced : Simulates (advanced (stored (create_vga_entry c vc) s)) (r.put c vc) :=
    advanced_simulates _ (stored (create_vga_entry c vc) s) r c vc hn hr hcaught (by omega)
      ⟨hsane.x_low, hsane.x_high⟩ rfl rfl (stored_cells _ r hsane hcaught c vc)
  obtain ⟨hplaced, hrow', hy', -⟩ :=
    advanced_placed _ (stored_placed s hs (create_vga_entry c vc) hsafe.1)
  have hsame : (stored (create_vga_entry c vc) s).term_view.row =
      (caught (create_vga_entry c vc) s).term_view.row ∧
      (stored (create_vga_entry c vc) s).cursor = (caught (create_vga_entry c vc) s).cursor :=
    ⟨rfl, rfl⟩
  rw [hsame.1] at hrow'
  rw [hsame.2] at hy'
  refine hadvanced.scroll (scrollToCursor_scrolled _ hplaced ?_)
  rw [hrow', hy', hrow, hy, hx]
  exact hsafe.2

-- The steps of the outputs: a character at a time, or a scroll.
def Printing : Step → Prop
  | .write_char_color _ _ => True
  | .shift_view _ _ => True
  | _ => False

def Step.print : Step → Reference → Reference
  | .write_char_color c vc, r => r.put c vc
  | _, r => r

theorem step_simulates (s : Terminal) (r : Reference) (step : Step) (hprint : Printing step)
    (hs : Sane s) (hsim : Simulates s r) (hsafe : StepSafe s step (step.apply s)) :
    Simulates (step.apply s) (step.print r) := by
  cases step with
  | write_char_color c vc =>
      simp only [StepSafe] at hsafe
      simp only [Step.apply, Step.print, tio_write_char_color]
      by_cases hn : c = 10
      · rw [if_pos hn] at hsafe ⊢
        unfold Reference.put
        rw [if_pos hn]
        exact newline_simulates s r hs hsim hsafe
      · rw [if_neg hn] at hsafe ⊢
        by_cases hr : c = 13
        · rw [if_pos hr]
          unfold Reference.put
          rw [if_neg hn, if_pos hr]
          exact ⟨hsim.cells, hsim.beyond, hsim.row, rfl⟩
        · rw [if_neg hr] at hsafe ⊢
          exact putEntry_simulates s r hs hsim c vc hn hr hsafe
  | shift_view dir amt =>
      refine hsim.scroll (view_shift_scrolled dir amt.toNat s hs.toPlaced ?_)
      rintro rfl
      exact hsafe
  | _ => exact False.elim hprint

-- A printing step that recycles no page is safe.
theorem printing_safe (s : Terminal) (step : Step) (hprint : Printing step) (hs : Sane s)
    (hrows : .view_row 216 ∉ (step.apply s).log) : StepSafe s step (step.apply s) := by
  by_contra hunsafe
  suffices hrecycled : Recycled (step.apply s) from hrows hrecycled.1
  cases step with
  | write_char_color c vc =>
      simp only [StepSafe] at hunsafe
      simp only [Step.apply, tio_write_char_color]
      by_cases hn : c = 10
      · rw [if_pos hn] at hunsafe ⊢
        exact (newline_iff s hs.toPlaced).2 hunsafe
      · rw [if_neg hn] at hunsafe ⊢
        by_cases hr : c = 13
        · rw [if_pos hr] at hunsafe
          exact absurd trivial hunsafe
        · rw [if_neg hr] at hunsafe ⊢
          exact (putEntry_iff s hs _).2 hunsafe
  | shift_view dir amt =>
      cases dir with
      | SHIFT_DIRECTION_UP =>
          exact view_shift_up_recycles amt.toNat s hs.toPlaced (Int.not_lt.mp hunsafe)
      | SHIFT_DIRECTION_DOWN => exact absurd trivial hunsafe
  | _ => exact False.elim hprint

theorem printing_grows (s : Terminal) (step : Step) (hprint : Printing step) (hs : Sized s) :
    Sized (step.apply s) ∧ Grows s (step.apply s) := by
  cases step with
  | write_char_color c vc =>
      simp only [Step.apply, tio_write_char_color]
      split
      · exact scrollToCursor_grows _ hs
      · split
        · exact ⟨hs, Grows.refl s⟩
        · obtain ⟨hsized, hcaught⟩ := caught_grows (create_vga_entry c vc) s hs
          have hset : Grows (caught (create_vga_entry c vc) s) (stored (create_vga_entry c vc) s) :=
            Grows.append _ _ _ rfl
          obtain ⟨hsized', hinc⟩ := tio_cursor_inc_grows (stored (create_vga_entry c vc) s) hsized
          exact ⟨hsized', hcaught.trans (hset.trans hinc)⟩
  | shift_view dir amt => exact view_shift_fields dir amt.toNat s hs
  | _ => exact False.elim hprint

theorem steps_grow (steps : List Step) (s : Terminal) (hprint : ∀ step ∈ steps, Printing step)
    (hs : Sized s) : Grows s (lastState s (traceOf Step.apply s steps)) := by
  induction steps generalizing s with
  | nil => exact Grows.refl s
  | cons step rest ih =>
      obtain ⟨hsized, hgrows⟩ := printing_grows s step (hprint step (List.mem_cons_self ..)) hs
      exact hgrows.trans (ih (step.apply s) (fun t ht => hprint t (List.mem_cons_of_mem _ ht)) hsized)

theorem steps_simulate (steps : List Step) (s : Terminal) (r : Reference)
    (hprint : ∀ step ∈ steps, Printing step) (hs : Sane s) (hsim : Simulates s r)
    (hrows : .view_row 216 ∉ (lastState s (traceOf Step.apply s steps)).log) :
    Simulates (lastState s (traceOf Step.apply s steps))
      (steps.foldl (fun r step => step.print r) r) := by
  induction steps generalizing s r with
  | nil => exact hsim
  | cons step rest ih =>
      have hfirst := hprint step (List.mem_cons_self ..)
      have hrest : ∀ t ∈ rest, Printing t := fun t ht => hprint t (List.mem_cons_of_mem _ ht)
      obtain ⟨hsized, -⟩ := printing_grows s step hfirst hs.sized
      have hgrows := steps_grow rest (step.apply s) hrest hsized
      have hsafe := printing_safe s step hfirst hs (fun h => hrows (hgrows _ h))
      have hsane := (stepSafe_iff s step (step.apply s) hs).1 hsafe
      exact ih (step.apply s) (step.print r) hrest hsane
        (step_simulates s r step hfirst hs hsim hsafe) hrows

theorem print_eq (string : List UInt8) (vc : Vga_Color) (r : Reference) :
    r.print string vc =
      (Call.steps (.write_color string vc)).foldl (fun r step => step.print r) r := by
  simp only [Call.steps]
  induction string generalizing r with
  | nil => rfl
  | cons c rest ih =>
      rw [Reference.print]
      by_cases hc : c = 0
      · simp [hc]
      · rw [if_pos hc, ih]
        simp [hc, Step.print]

theorem Output.print_eq (output : Output) (r : Reference) :
    output.print r = output.call.steps.foldl (fun r step => step.print r) r := by
  cases output with
  | write string => exact Tio.print_eq string .VGA_COLOR_WHITE r
  | write_color string vc => exact Tio.print_eq string vc r
  | shift_view dir amt => rfl

theorem Output.printing (output : Output) : ∀ step ∈ output.call.steps, Printing step := by
  intro step hstep
  cases output with
  | write string =>
      obtain ⟨c, -, rfl⟩ := List.mem_map.mp hstep
      trivial
  | write_color string vc =>
      obtain ⟨c, -, rfl⟩ := List.mem_map.mp hstep
      trivial
  | shift_view dir amt =>
      rw [List.mem_singleton.mp hstep]
      trivial

-- `tio_init` blanks every page.
theorem copyBlank_apply (pages i : Nat) (fvb : Nat → Vga_Entry) (k : Nat) :
    tio_init.copyBlank pages i fvb k =
      if i * 1920 ≤ k ∧ k < (i + pages) * 1920 then blank else fvb k := by
  induction pages generalizing i fvb with
  | zero => rw [tio_init.copyBlank, if_neg (fun h => absurd h.2 (Nat.not_lt.mpr h.1))]
  | succ pages ih =>
      have hpage : vb_page_replace (fun _ => blank) i fvb k =
          if i * 1920 ≤ k ∧ k < (i + 1) * 1920 then blank else fvb k := rfl
      rw [tio_init.copyBlank, ih, hpage]
      by_cases hin : i * 1920 ≤ k ∧ k < (i + (pages + 1)) * 1920
      · rw [if_pos hin]
        by_cases hlater : (i + 1) * 1920 ≤ k
        · rw [if_pos ⟨hlater, by omega⟩]
        · rw [if_neg (fun h => hlater h.1), if_pos ⟨hin.1, Nat.lt_of_not_le hlater⟩]
      · rw [if_neg hin, if_neg (fun h => hin ⟨by omega, by omega⟩),
          if_neg (fun h => hin ⟨h.1, by omega⟩)]

theorem tio_init_simulates (s : Terminal) : Simulates (tio_init s) Reference.initial := by
  refine ⟨fun row column hrow hcolumn => ?_, fun _ _ _ => rfl, rfl, rfl⟩
  have hblank := copyBlank_apply 10 0 s.fvb (row * 80 + column)
  rw [if_pos (by omega)] at hblank
  exact hblank

end Simulation

end PalleyOS.Tio
