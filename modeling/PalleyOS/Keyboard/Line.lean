import PalleyOS.Tio

namespace PalleyOS.Keyboard

open Tio

def KEY_BACKSPACE : UInt8 := 0x2D
def KEY_ENTER : UInt8 := 0x6c
def KEY_ARROW_UP : UInt8 := 0x8c
def KEY_ARROW_LEFT : UInt8 := 0xa8
def KEY_ARROW_RIGHT : UInt8 := 0xaa
def KEY_ARROW_DOWN : UInt8 := 0xa9

-- Characters by scancode. A '?' (63) marks the keys without one.
def scancode_set1 : List UInt8 :=
  [63, 63, 49, 50, 51, 52, 53, 54, 55, 56, 57, 48, 45, 61, 63, 63,
    113, 119, 101, 114, 116, 121, 117, 105, 111, 112, 91, 93, 63, 63, 97, 115,
    100, 102, 103, 104, 106, 107, 108, 59, 39, 96, 63, 92, 122, 120, 99, 118,
    98, 110, 109, 44, 46, 47, 63, 42, 63, 32, 63, 63, 63, 63, 63, 63,
    63, 63, 63, 63, 63, 63, 63, 55, 56, 57, 45, 52, 53, 54, 43, 49,
    50, 51, 48, 46, 63, 63, 63, 63, 63, 63]

def uppercase_scancode_set1 : List UInt8 :=
  [63, 63, 33, 64, 35, 36, 37, 94, 38, 42, 40, 41, 95, 43, 32, 32,
    81, 87, 69, 82, 84, 89, 85, 73, 79, 80, 123, 125, 63, 63, 65, 83,
    68, 70, 71, 72, 74, 75, 76, 59, 34, 126, 63, 124, 90, 88, 67, 86,
    66, 78, 77, 60, 62, 63, 63, 42, 63, 32, 63, 63, 63, 63, 63, 63,
    63, 63, 63, 63, 63, 63, 63, 55, 56, 57, 45, 52, 53, 54, 43, 49,
    50, 51, 48, 46, 63, 63, 63, 63, 63]

structure MappedKey where
  mapped_code : UInt8
  scancode : UInt8
  e0_key : Bool
  printable : Bool
  down_stroke : Bool
  capitalized : Bool
  deriving DecidableEq, Repr

def tio_try_cursor_inc (chars_typed padding_front : Int) (s : Terminal) : Bool × Terminal :=
  if s.cursor.x < padding_front + chars_typed - 1 then (true, tio_cursor_inc s) else (false, s)

def tio_try_cursor_dec (padding_size : Int) (s : Terminal) : Bool × Terminal :=
  if s.cursor.x ≤ padding_size then (false, s) else (true, tio_cursor_dec s)

-- The locals of `kbGetLine`, the caller's buffer and the terminal.
structure Line where
  buffer : Nat → UInt8
  index : Int
  size : Int
  term : Terminal

-- `for(int i = i; i < stop; i++) buffer[i] = buffer[i+1]`, `remaining` rounds.
def moveDown : Nat → Nat → (Nat → UInt8) → Nat → UInt8
  | 0, _, buffer => buffer
  | remaining + 1, i, buffer =>
      moveDown remaining (i + 1) (Function.update buffer i (buffer (i + 1)))

-- `for(int i = i; i > stop; i--) buffer[i] = buffer[i-1]`, `remaining` rounds.
def moveUp : Nat → Nat → (Nat → UInt8) → Nat → UInt8
  | 0, _, buffer => buffer
  | remaining + 1, i, buffer =>
      moveUp remaining (i - 1) (Function.update buffer i (buffer (i - 1)))

def keyChar (key : MappedKey) : UInt8 :=
  if key.capitalized then uppercase_scancode_set1.getD key.scancode.toNat 0
  else scancode_set1.getD key.scancode.toNat 0

def arrowLeft (line : Line) : Line :=
  let (moved, term) := tio_try_cursor_dec 2 line.term
  if moved then
    let index := line.index - 1
    { line with index := if index < 0 then 0 else index, term := term }
  else { line with term := term }

def arrowRight (line : Line) : Line :=
  let (moved, term) := tio_try_cursor_inc line.size 2 line.term
  let index := if moved then line.index + 1 else line.index
  { line with index := if index > line.size - 1 then line.size - 1 else index, term := term }

def backspace (line : Line) : Line :=
  if line.index ≤ 0 then line
  else
    let term := tio_shift_left line.term
    let buffer :=
      if line.index ≠ line.size - 1 then
        moveDown (line.size - line.index).toNat (line.index - 1).toNat line.buffer
      else line.buffer
    let index := line.index - 1
    let size := line.size - 1
    let index := if index < 0 then 0 else index
    let size := if size < 1 then 1 else size
    { buffer := Function.update buffer (size - 1).toNat 0
      index := index
      size := size
      term := tio_backspace term }

-- What is typed before the end of the line goes between the characters around it.
def insertChar (ret : UInt8) (line : Line) : Line :=
  let inside := line.index ≠ line.size - 1
  let buffer :=
    if inside then moveUp (line.size - line.index).toNat line.size.toNat line.buffer
    else line.buffer
  let term := if inside then tio_shift_right line.term else line.term
  let buffer := Function.update buffer line.index.toNat ret
  -- `kprintf("%c", ret)`
  let term := tio_write [ret] term
  let index := line.index + 1
  let size := line.size + 1
  { buffer := Function.update buffer (size - 1).toNat 0, index := index, size := size
    term := term }

-- One round of the loop of `kbGetLine` with a key at hand.
def processKey (key : MappedKey) (line : Line) : Line :=
  if key.down_stroke = false then line
  else if !key.printable then
    if key.mapped_code = KEY_ARROW_LEFT then arrowLeft line
    else if key.mapped_code = KEY_ARROW_RIGHT then arrowRight line
    else if key.mapped_code = KEY_ARROW_UP then
      { line with term := tio_shift_view .SHIFT_DIRECTION_DOWN 1 line.term }
    else if key.mapped_code = KEY_ARROW_DOWN then
      { line with term := tio_shift_view .SHIFT_DIRECTION_UP 1 line.term }
    else if key.mapped_code = KEY_BACKSPACE then backspace line
    else line
  else insertChar (keyChar key) line

-- The keys that `kbGetLine` reads before it returns.
def processed : List MappedKey → List MappedKey
  | [] => []
  | key :: rest =>
      if key.down_stroke ∧ key.mapped_code = KEY_ENTER then [key] else key :: processed rest

-- The line after the keys, on a zeroed buffer.
def kbGetLine (keys : List MappedKey) (term : Terminal) : Line :=
  (processed keys).foldl (fun line key => processKey key line)
    { buffer := fun _ => 0, index := 0, size := 1, term := term }

end PalleyOS.Keyboard
