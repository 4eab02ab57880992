import Mathlib.Data.List.TakeWhile
import PalleyOS.Stdio.Printing
import PalleyOS.Tio.Reference

namespace PalleyOS.Console

open Machine Stdio

-- Formatted output with the terminal it goes to.
section Source

structure State where
  memory : Memory
  terminal : Tio.Terminal

-- What `while(*c != '\0')` of `tio_write_color` goes over, `none` when it is still
-- running after `fuel` rounds.
def readString (memory : Memory) : Nat → Nat → Option (List UInt8)
  | 0, _ => none
  | fuel + 1, c =>
      if load8 memory c = 0 then some []
      else (readString memory fuel (c + 1)).map (UInt8.ofNat (load8 memory c) :: ·)

-- `result` is the address of the array on the stack.
def kvprintf (fuel result format : Nat) (args : Stream' UInt32) (stack : Nat → UInt8)
    (s : State) : Option State :=
  (kvsprintf fuel result format args s.memory stack).bind fun output =>
    (readString output.memory fuel result).map fun string =>
      { memory := output.memory, terminal := Tio.tio_write string s.terminal }

end Source

section Requests

-- A call of `kprintf`: where it is and what it reads.
structure Print where
  result : Nat
  format : Nat
  args : Stream' UInt32
  stack : Nat → UInt8
  text : List UInt8
  pieces : List Piece
  strings : UInt32 → List UInt8

def Print.rendering (p : Print) : List UInt8 := Stdio.rendering p.strings p.pieces p.args

-- The array is inside the stack, and what is printed is a string outside of it
-- that fits into the array.
structure Print.Ready (memory : Memory) (area size : Nat) (p : Print) : Prop where
  parses : parse p.text = some p.pieces
  above : area ≤ p.result
  below : p.result + 1024 ≤ area + size
  short : p.rendering.length < 1024
  format : ReadString memory area size p.format p.text
  strings : Strings (fun arg => ReadString memory area size arg.toNat (p.strings arg)) p.pieces
    p.args

inductive Request where
  | print (p : Print)
  | shift_view (dir : Tio.Shift_Direction) (amt : UInt32)

def Request.run (fuel : Nat) : Request → State → Option State
  | .print p, s => kvprintf fuel p.result p.format p.args p.stack s
  | .shift_view dir amt, s => some { s with terminal := Tio.tio_shift_view dir amt s.terminal }

def runs (fuel : Nat) : List Request → State → Option State
  | [], s => some s
  | request :: rest, s => (request.run fuel s).bind (runs fuel rest)

-- What the reader sees of a request.
def Request.show : Request → Tio.Reference → Tio.Reference
  | .print p, r => r.print p.rendering .VGA_COLOR_WHITE
  | .shift_view _ _, r => r

def Request.output : Request → Tio.Output
  | .print p => .write (p.rendering.takeWhile (· ≠ 0))
  | .shift_view dir amt => .shift_view dir amt

end Requests

section Strings

theorem readString_of_holds (memory : Memory) (bytes : List UInt8) (a fuel : Nat)
    (h : HoldsBytes memory a (bytes ++ [0])) (hfuel : bytes.length < fuel) :
    readString memory fuel a = some (bytes.takeWhile (· ≠ 0)) := by
  induction bytes generalizing a fuel with
  | nil =>
      obtain ⟨fuel, rfl⟩ := Nat.exists_eq_add_one_of_ne_zero (Nat.ne_zero_of_lt hfuel)
      have hzero : load8 memory a = 0 := h 0 (by simp)
      rw [readString, if_pos hzero]
      rfl
  | cons byte rest ih =>
      obtain ⟨fuel, rfl⟩ := Nat.exists_eq_add_one_of_ne_zero (Nat.ne_zero_of_lt hfuel)
      have hbyte : load8 memory a = byte.toNat := h 0 (by simp)
      have hrest : HoldsBytes memory (a + 1) (rest ++ [0]) := by
        intro i hi
        have hnext := h (i + 1) (by simpa using hi)
        rw [Nat.add_assoc, Nat.add_comm 1 i]
        exact hnext
      rw [readString, hbyte, UInt8.ofNat_toNat, List.takeWhile_cons]
      by_cases hzero : byte = 0
      · subst byte
        rfl
      · have hnat : byte.toNat ≠ 0 := fun he => hzero (UInt8.toNat_inj.mp he)
        rw [if_neg hnat, ih (a + 1) fuel hrest (Nat.lt_of_succ_lt_succ hfuel)]
        simp [hzero]

-- The array is inside the stack.
theorem outside_of_area {area size result x : Nat} (habove : area ≤ result)
    (hbelow : result + 1024 ≤ area + size) (hsize : area + size ≤ 4294967296)
    (h : Outside area size x) {n : Nat} (hn : n ≤ 1024) : Outside result n x := by
  intro j hj
  have hne := h (result - area + j) (by omega)
  omega

theorem readString_of_area {memory : Memory} {area size result p n : Nat} {bytes : List UInt8}
    (h : ReadString memory area size p bytes) (habove : area ≤ result)
    (hbelow : result + 1024 ≤ area + size) (hsize : area + size ≤ 4294967296) (hn : n ≤ 1024) :
    ReadString memory result n p bytes :=
  ⟨h.holds, fun i hi => outside_of_area habove hbelow hsize (h.apart i hi) hn⟩

theorem strings_mono {P Q : UInt32 → Prop} (h : ∀ arg, P arg → Q arg) (pieces : List Piece)
    (args : Stream' UInt32) (hp : Stdio.Strings P pieces args) : Stdio.Strings Q pieces args := by
  induction pieces generalizing args with
  | nil => trivial
  | cons piece rest ih =>
      cases piece with
      | literal byte => exact ih args hp
      | directive directive => exact ⟨fun hs => h _ (hp.1 hs), ih args.tail hp.2⟩

end Strings

section Runs

-- Rounds that are enough for the loops of a request.
def Request.rounds : Request → Nat
  | .print p => p.text.length + 2048
  | .shift_view _ _ => 0

-- What a request needs of the memory.
def Request.Ready (memory : Memory) (area size : Nat) : Request → Prop
  | .print p => p.Ready memory area size
  | .shift_view _ _ => True

theorem readString_congr {memory memory' : Memory} {area size p : Nat} {bytes : List UInt8}
    (hsame : ∀ x, Outside area size x → load8 memory' x = load8 memory x)
    (h : ReadString memory area size p bytes) : ReadString memory' area size p bytes :=
  ⟨h.holds.congr (fun i hi => hsame _ (h.apart i hi)), h.apart⟩

-- What is printed is outside of the stack, and a call writes nowhere else.
theorem Request.Ready.congr {memory memory' : Memory} {area size : Nat} {request : Request}
    (hsame : ∀ x, Outside area size x → load8 memory' x = load8 memory x)
    (h : request.Ready memory area size) : request.Ready memory' area size := by
  cases request with
  | print p =>
      exact ⟨h.parses, h.above, h.below, h.short, readString_congr hsame h.format,
        strings_mono (fun _ => readString_congr hsame) p.pieces p.args h.strings⟩
  | shift_view dir amt => trivial

theorem kvprintf_prints (fuel area size : Nat) (p : Print) (s : State)
    (hsize : area + size ≤ 4294967296) (h : p.Ready s.memory area size)
    (hfuel : p.text.length + 2048 ≤ fuel) :
    ∃ memory, kvprintf fuel p.result p.format p.args p.stack s =
        some ⟨memory, Tio.tio_write (p.rendering.takeWhile (· ≠ 0)) s.terminal⟩ ∧
      ∀ x, Outside area size x → load8 memory x = load8 s.memory x := by
  have hbelow := h.below
  have hshort := h.short
  have hread : ∀ {a bytes}, ReadString s.memory area size a bytes →
      ReadString s.memory p.result 1024 a bytes := fun hstring =>
    readString_of_area hstring h.above h.below hsize (Nat.le_refl 1024)
  obtain ⟨output, hdone, hfilled⟩ := kvsprintf_filled s.memory p.stack p.result 1024 p.format fuel
    p.text p.pieces true p.args p.strings (parse_spells p.text p.pieces h.parses).scans (by omega)
    (hread h.format) (strings_mono (fun _ => hread) p.pieces p.args h.strings) h.short
    (Nat.lt_trans h.short (by decide))
    (by change p.text.length + p.rendering.length + 33 ≤ fuel; omega)
  refine ⟨output.memory, ?_, fun x hx => ?_⟩
  · rw [kvprintf, hdone, Option.bind_some,
      readString_of_holds output.memory p.rendering p.result fuel hfilled.holds (by omega)]
    rfl
  · exact hfilled.rendered.contents.frame x
      (outside_of_area h.above h.below hsize hx (Nat.le_refl 1024))

end Runs

section Shown

-- The steps the terminal takes for the requests.
def steps (requests : List Request) : List Tio.Step :=
  requests.flatMap (fun request => request.output.call.steps)

end Shown

end PalleyOS.Console
