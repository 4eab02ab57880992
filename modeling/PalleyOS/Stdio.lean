import Mathlib.Data.Stream.Init
import PalleyOS.Machine.Memory

namespace PalleyOS.Stdio

open Machine

-- `buffer` is the stack array of the renderers, which none of them initialises.
-- `written` only records the addresses of the bytes stored, the latest first.
structure Output where
  memory : Memory
  result_i : Nat
  buffer : Nat → UInt8
  written : List Nat

def Output.store (a value : Nat) (s : Output) : Output :=
  { s with memory := store8 s.memory a value, written := a % 4294967296 :: s.written }

-- `result[*result_i] = value; *result_i += 1;`
def Output.put (result value : Nat) (s : Output) : Output :=
  { s.store (result + s.result_i) value with result_i := (s.result_i + 1) % 4294967296 }

-- Copies a literal and its terminator.
def kstrcpy (dest : Nat) : List UInt8 → Output → Nat × Output
  | [], s => (0, s.store dest 0)
  | c :: src, s =>
      let (num_written, s) := kstrcpy (dest + 1) src (s.store dest c.toNat)
      (num_written + 1, s)

section Numbers

-- The `while(true)` of the number renderers, `none` when it still runs after
-- `fuel` rounds.
def digitLoop (base : Nat) : Nat → Nat → Nat → (Nat → UInt8) → Option (Nat × (Nat → UInt8))
  | 0, _, _, _ => none
  | fuel + 1, iter, i, buffer =>
      let buffer := Function.update buffer i (UInt8.ofNat (iter % base))
      let i := i + 1
      let iter := iter / base
      if iter = 0 then some (i, buffer) else digitLoop base fuel iter i buffer

-- `for(int32_t j = i - 1; j >= 0; j--)`, with `j + 1` rounds left.
def emitDigits (result : Nat) (digit : UInt8 → UInt8) : Nat → Output → Output
  | 0, s => s
  | j + 1, s => emitDigits result digit j (s.put result (digit (s.buffer j)).toNat)

def renderDigits (base : Nat) (digit : UInt8 → UInt8) (fuel result to_render : Nat) (s : Output) :
    Option Output :=
  (digitLoop base fuel to_render 0 s.buffer).map (fun (i, buffer) =>
    emitDigits result digit i { s with buffer := buffer })

def decimalDigit (d : UInt8) : UInt8 := d + 48

def hex_digits : List UInt8 := [48, 49, 50, 51, 52, 53, 54, 55, 56, 57, 97, 98, 99, 100, 101, 102]

def INT_MIN : Int := -2147483648

-- The characters of -2147483648.
def renderedMinimum : List UInt8 := [45, 50, 49, 52, 55, 52, 56, 51, 54, 52, 56]

-- A number that reaches the loop is not negative, and its remainders and
-- quotients are those of a natural number.
def render_integer (fuel result : Nat) (to_render : Int) (s : Output) : Option Output :=
  if to_render = INT_MIN then
    let (_, s) := kstrcpy (result + s.result_i) renderedMinimum s
    some { s with result_i := (s.result_i + renderedMinimum.length) % 4294967296 }
  else if to_render < 0 then
    renderDigits 10 decimalDigit fuel result (to_render * -1).toNat (s.put result 45)
  else renderDigits 10 decimalDigit fuel result to_render.toNat s

def render_unsigned_integer (fuel result to_render : Nat) (s : Output) : Option Output :=
  renderDigits 10 decimalDigit fuel result to_render s

def render_hexadecimal (fuel result to_render : Nat) (s : Output) : Option Output :=
  renderDigits 16 (fun d => hex_digits.getD d.toNat 0) fuel result to_render s

def render_binary (fuel result to_render : Nat) (s : Output) : Option Output :=
  renderDigits 2 decimalDigit fuel result to_render s

end Numbers

def render_string (result : Nat) : Nat → Nat → Output → Option Output
  | 0, _, _ => none
  | fuel + 1, to_render, s =>
      if load8 s.memory to_render = 0 then some s
      else render_string result fuel (to_render + 1) (s.put result (load8 s.memory to_render))

section Formats

-- One of the six directives with its argument, `none` in `Option (Option Output)`
-- for any other character.
def renderDirective (fuel result directive : Nat) (arg : UInt32) (s : Output) :
    Option (Option Output) :=
  if directive = 100 then some (render_integer fuel result arg.toInt32.toInt s)
  else if directive = 117 then some (render_unsigned_integer fuel result arg.toNat s)
  else if directive = 120 then some (render_hexadecimal fuel result arg.toNat s)
  else if directive = 98 then some (render_binary fuel result arg.toNat s)
  else if directive = 115 then some (render_string result fuel arg.toNat s)
  else if directive = 99 then some (some (s.put result (arg.toNat % 256)))
  else none

-- The loop of `kvsprintf`. `args` are the words that `va_arg` takes one by one. An
-- unknown directive returns without the terminator.
def formatLoop (fuel result format : Nat) :
    Nat → Nat → Stream' UInt32 → Output → Option Output
  | 0, _, _, _ => none
  | rounds + 1, format_i, args, s =>
      let c := load8 s.memory (format + format_i)
      let format_i := (format_i + 1) % 4294967296
      if c = 0 then some (s.store (result + s.result_i) 0)
      else if c = 37 then
        match renderDirective fuel result (load8 s.memory (format + format_i)) args.head s with
        | none => some s
        | some none => none
        | some (some s) =>
            formatLoop fuel result format rounds ((format_i + 1) % 4294967296) args.tail s
      else formatLoop fuel result format rounds format_i args (s.put result c)

def kvsprintf (fuel result format : Nat) (args : Stream' UInt32) (memory : Memory)
    (stack : Nat → UInt8) : Option Output :=
  formatLoop fuel result format fuel 0 args
    { memory := memory, result_i := 0, buffer := stack, written := [] }

end Formats

end PalleyOS.Stdio
