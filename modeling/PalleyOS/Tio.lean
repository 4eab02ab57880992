import Mathlib.Data.Int.Order.Basic
import Mathlib.Logic.Function.Basic

namespace PalleyOS.Tio

def TERM_WIDTH : Int := 80
def TERM_HEIGHT : Int := 24
def VB_SIZE : Nat := 1920
def FVB_PAGES : Int := 10
def PVB_SIZE : Nat := 19200

abbrev Vga_Entry := UInt16

inductive Vga_Color where
  | VGA_COLOR_BLACK
  | VGA_COLOR_BLUE
  | VGA_COLOR_GREEN
  | VGA_COLOR_CYAN
  | VGA_COLOR_RED
  | VGA_COLOR_MAGENTA
  | VGA_COLOR_BROWN
  | VGA_COLOR_LIGHT_GREY
  | VGA_COLOR_DARK_GREY
  | VGA_COLOR_LIGHT_BLUE
  | VGA_COLOR_LIGHT_GREEN
  | VGA_COLOR_LIGHT_CYAN
  | VGA_COLOR_LIGHT_RED
  | VGA_COLOR_LIGHT_MAGENTA
  | VGA_COLOR_LIGHT_BROWN
  | VGA_COLOR_WHITE
  deriving DecidableEq

inductive Shift_Direction where
  | SHIFT_DIRECTION_UP
  | SHIFT_DIRECTION_DOWN
  deriving DecidableEq

-- A C `int` is an integer here. It becomes a `size_t` or `uint32_t` by one
-- turn around the 32-bit circle.
def toUnsigned (n : Int) : Nat := if n < 0 then (n + 4294967296).toNat else n.toNat

structure Cursor where
  x : Int
  y : Int
  on_screen : Bool

structure VB_View where
  row : Int
  height : Int
  width : Int

-- What a run did: the indices given to `vb_get_value` and `vb_set_value`, those
-- of video memory, and the rows that the view went through.
inductive Access where
  | vb (index : Nat)
  | platform (index : Nat)
  | view_row (row : Int)
  deriving DecidableEq

-- The globals. Both buffers are functions of the entry index.
structure Terminal where
  fvb : Nat → Vga_Entry
  num_pages : Int
  blank_buffer_page : Nat → Vga_Entry
  term_view : VB_View
  cursor : Cursor
  platform_vb : Nat → Vga_Entry
  log : List Access

def create_vga_entry (uc : UInt8) (color : Vga_Color) : Vga_Entry :=
  uc.toUInt16 ||| UInt16.ofNat color.ctorIdx <<< 8

section Buffer

def vb_set_value (index : Nat) (value : Vga_Entry) (s : Terminal) : Terminal :=
  { s with fvb := Function.update s.fvb index value, log := s.log ++ [.vb index] }

def vb_get_value (index : Nat) (s : Terminal) : Vga_Entry × Terminal :=
  (s.fvb index, { s with log := s.log ++ [.vb index] })

def platform_set (index : Nat) (value : Vga_Entry) (s : Terminal) : Terminal :=
  { s with
    platform_vb := Function.update s.platform_vb index value
    log := s.log ++ [.platform index] }

def platform_get (index : Nat) (s : Terminal) : Vga_Entry × Terminal :=
  (s.platform_vb index, { s with log := s.log ++ [.platform index] })

def vb_page_replace (source : Nat → Vga_Entry) (dest : Nat) (fvb : Nat → Vga_Entry) :
    Nat → Vga_Entry := fun k =>
  if dest * VB_SIZE ≤ k ∧ k < (dest + 1) * VB_SIZE then source (k - dest * VB_SIZE) else fvb k

def copyPages : Nat → Nat → (Nat → Vga_Entry) → Nat → Vga_Entry
  | 0, _, fvb => fvb
  | pages + 1, i, fvb =>
      copyPages pages (i + 1) (vb_page_replace (fun k => fvb (i * VB_SIZE + k)) (i - 1) fvb)

def vb_shift_pages (s : Terminal) : Terminal :=
  if s.num_pages = 0 then s
  else
    { s with
      fvb := vb_page_replace s.blank_buffer_page (s.num_pages - 1).toNat
        (copyPages (s.num_pages - 1).toNat 1 s.fvb) }

end Buffer

section Render

def view_get_buffer_start_index (s : Terminal) : Nat := toUnsigned (s.term_view.row * TERM_WIDTH)

def view_get_buffer_end_index (s : Terminal) : Nat :=
  toUnsigned ((s.term_view.row + s.term_view.height) * TERM_WIDTH)

def cursor_get_index_in_buffer (s : Terminal) : Nat :=
  toUnsigned ((s.term_view.row + s.cursor.y) * TERM_WIDTH + s.cursor.x)

def cursor_get_index (s : Terminal) : Nat := toUnsigned (s.cursor.y * TERM_WIDTH + s.cursor.x)

def renderFrom (view_index : Nat) : Nat → Nat → Terminal → Terminal
  | 0, _, s => s
  | remaining + 1, i, s =>
      let (value, s) := vb_get_value ((view_index + i) % 4294967296) s
      renderFrom view_index remaining (i + 1) (platform_set i value s)

def render_screen (s : Terminal) : Terminal := renderFrom (view_get_buffer_start_index s) VB_SIZE 0 s

end Render

section View

def setRow (row : Int) (s : Terminal) : Terminal :=
  { s with term_view := { s.term_view with row := row }, log := s.log ++ [.view_row row] }

def setY (y : Int) (s : Terminal) : Terminal := { s with cursor := { s.cursor with y := y } }

def setOnScreen (on_screen : Bool) (s : Terminal) : Terminal :=
  { s with cursor := { s.cursor with on_screen := on_screen } }

-- `num_pages-2 * TERM_HEIGHT + 1`, with the precedence it has in C.
def recycledRow (s : Terminal) : Int := s.num_pages - 2 * TERM_HEIGHT + 1

-- One round in the UP direction with the cursor below the first row.
def shiftUp (s : Terminal) : Terminal :=
  let s := setRow (s.term_view.row + 1) (setY (s.cursor.y - 1) s)
  if s.term_view.row + s.term_view.height ≥ s.num_pages * TERM_HEIGHT then
    let s := vb_shift_pages s
    setRow (recycledRow s) s
  else s

def shiftDown (s : Terminal) : Terminal :=
  if s.term_view.row - 1 < 0 then setRow 0 s
  else setY (s.cursor.y + 1) (setRow (s.term_view.row - 1) s)

-- The loop of `__view_shift`. The flag is set when it returned from inside.
def shiftLoop (dir : Shift_Direction) : Nat → Terminal → Terminal × Bool
  | 0, s => (s, false)
  | rounds + 1, s =>
      match dir with
      | .SHIFT_DIRECTION_UP =>
          if s.cursor.y - 1 < 0 then (setOnScreen true (setY 0 s), true)
          else shiftLoop dir rounds (shiftUp s)
      | .SHIFT_DIRECTION_DOWN => shiftLoop dir rounds (shiftDown s)

-- What follows the loop.
def refresh (s : Terminal) : Terminal :=
  render_screen (setOnScreen (decide (s.cursor.y > 0 ∧ s.cursor.y < TERM_HEIGHT)) s)

def view_shift (dir : Shift_Direction) (amt : Nat) (s : Terminal) : Terminal :=
  match shiftLoop dir amt s with
  | (s, true) => s
  | (s, false) => refresh s

def tio_shift_view (dir : Shift_Direction) (amt : UInt32) (s : Terminal) : Terminal :=
  view_shift dir amt.toNat s

end View

section Operations

def setX (x : Int) (s : Terminal) : Terminal := { s with cursor := { s.cursor with x := x } }

-- The hardware cursor follows the globals and is not part of the state.
def scrollToCursor (s : Terminal) : Terminal :=
  if s.cursor.y ≥ TERM_HEIGHT - 1 then view_shift .SHIFT_DIRECTION_UP 1 s else s

def tio_cursor_inc (s : Terminal) : Terminal :=
  scrollToCursor
    (if s.cursor.x + 1 ≥ TERM_WIDTH then setX 0 (setY (s.cursor.y + 1) s)
    else setX (s.cursor.x + 1) s)

def tio_cursor_dec (s : Terminal) : Terminal :=
  let s := if s.cursor.x - 1 < 0 then setX (TERM_WIDTH - 1) (setY (s.cursor.y - 1) s)
    else setX (s.cursor.x - 1) s
  if s.cursor.y < 0 then setY 0 s else s

-- `vb_set_value(&fvb, index, platform_vb[cursor_index])`.
def copyFromScreen (index : Nat) (s : Terminal) : Terminal :=
  let (value, s) := platform_get (cursor_get_index s) s
  vb_set_value index value s

def tio_backspace (s : Terminal) : Terminal :=
  let s := tio_cursor_dec s
  copyFromScreen (cursor_get_index_in_buffer s) s

-- `remaining` cells move one to the right, from `j` down.
def shiftCellsRight : Nat → Nat → Terminal → Terminal
  | 0, _, s => s
  | remaining + 1, j, s =>
      let (value, s) := vb_get_value (j - 1) s
      shiftCellsRight remaining (j - 1) (vb_set_value j value s)

def tio_shift_right (s : Terminal) : Terminal :=
  let term_view_end_index := view_get_buffer_end_index s
  let cursor_buffer_index := cursor_get_index_in_buffer s
  let s := shiftCellsRight (term_view_end_index - cursor_buffer_index) term_view_end_index s
  render_screen (copyFromScreen cursor_buffer_index s)

-- `remaining` cells move one to the left, from `j` up.
def shiftCellsLeft : Nat → Nat → Terminal → Terminal
  | 0, _, s => s
  | remaining + 1, j, s =>
      let (value, s) := vb_get_value (j + 1) s
      shiftCellsLeft remaining (j + 1) (vb_set_value j value s)

def tio_shift_left (s : Terminal) : Terminal :=
  let term_view_end_index := view_get_buffer_end_index s
  let cursor_buffer_index := cursor_get_index_in_buffer s
  let fvb_index := if s.cursor.x = 0 then cursor_buffer_index + 1 else cursor_buffer_index
  render_screen (shiftCellsLeft (term_view_end_index - fvb_index) fvb_index s)

-- An ordinary character with the cursor outside the view first brings it back.
def catchUp (s : Terminal) : Terminal :=
  if s.cursor.on_screen then s
  else view_shift .SHIFT_DIRECTION_UP (toUnsigned (s.cursor.y - TERM_HEIGHT + 1)) s

def putEntry (vga_entry : Vga_Entry) (s : Terminal) : Terminal :=
  let s := catchUp (platform_set (cursor_get_index s) vga_entry s)
  tio_cursor_inc (vb_set_value (cursor_get_index_in_buffer s) vga_entry s)

def tio_write_char_color (c : UInt8) (vc : Vga_Color) (s : Terminal) : Terminal :=
  if c = 10 then scrollToCursor (setX 0 (setY (s.cursor.y + 1) s))
  else if c = 13 then setX 0 s
  else putEntry (create_vga_entry c vc) s

-- A string ends at its first zero byte.
def tio_write_color : List UInt8 → Vga_Color → Terminal → Terminal
  | [], _, s => s
  | c :: rest, vc, s =>
      if c ≠ 0 then tio_write_color rest vc (tio_write_char_color c vc s) else s

def tio_write (string : List UInt8) (s : Terminal) : Terminal := tio_write_color string .VGA_COLOR_WHITE s

end Operations

section Init

def blank : Vga_Entry := create_vga_entry 32 .VGA_COLOR_BLACK

-- `tio_init` on globals with any contents.
def tio_init (s : Terminal) : Terminal :=
  { fvb := copyBlank FVB_PAGES.toNat 0 s.fvb
    num_pages := FVB_PAGES
    blank_buffer_page := fun k => if k < VB_SIZE then blank else s.blank_buffer_page k
    term_view := { row := 0, height := TERM_HEIGHT, width := TERM_WIDTH }
    cursor := { x := 0, y := 0, on_screen := true }
    platform_vb := s.platform_vb
    log := [] }
where
  copyBlank : Nat → Nat → (Nat → Vga_Entry) → Nat → Vga_Entry
    | 0, _, fvb => fvb
    | pages + 1, i, fvb => copyBlank pages (i + 1) (vb_page_replace (fun _ => blank) i fvb)

end Init

section Calls

inductive Step where
  | write_char_color (c : UInt8) (vc : Vga_Color)
  | shift_view (dir : Shift_Direction) (amt : UInt32)
  | cursor_inc
  | cursor_dec
  | backspace
  | shift_right
  | shift_left

def Step.apply : Step → Terminal → Terminal
  | .write_char_color c vc, s => tio_write_char_color c vc s
  | .shift_view dir amt, s => tio_shift_view dir amt s
  | .cursor_inc, s => tio_cursor_inc s
  | .cursor_dec, s => tio_cursor_dec s
  | .backspace, s => tio_backspace s
  | .shift_right, s => tio_shift_right s
  | .shift_left, s => tio_shift_left s

-- The public calls: a string is written one character at a time.
inductive Call where
  | write (string : List UInt8)
  | write_color (string : List UInt8) (vc : Vga_Color)
  | single (step : Step)

def Call.run : Call → Terminal → Terminal
  | .write string, s => tio_write string s
  | .write_color string vc, s => tio_write_color string vc s
  | .single step, s => step.apply s

def Call.steps : Call → List Step
  | .write string =>
      (string.takeWhile (· ≠ 0)).map fun c => .write_char_color c .VGA_COLOR_WHITE
  | .write_color string vc => (string.takeWhile (· ≠ 0)).map fun c => .write_char_color c vc
  | .single step => [step]

end Calls

end PalleyOS.Tio
