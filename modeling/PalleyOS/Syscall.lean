import PalleyOS.Machine.Processor
import PalleyOS.Machine.Strings

namespace PalleyOS.Syscall

open Machine

section Routines

-- The addresses the linker gives, `after_int` being that of the instruction
-- behind the `int`.
structure Symbols where
  syscall_isr : UInt32
  next_sys_call : UInt32
  end_ : UInt32
  terminal_write : UInt32
  after_int : UInt32
  tio_write : UInt32

def syscallIsr (symbols : Symbols) : List Op :=
  [.push .ebp, .mov .ebp .esp, .cmpImm .eax 0, .jne symbols.next_sys_call, .pushMem .ebx,
    .call symbols.tio_write, .jmp symbols.end_]

def syscallIsrEnd : List Op := [.mov .esp .ebp, .pop .ebp, .iret]

def terminalWrite : List Op :=
  [.push .ebp, .mov .ebp .esp, .pushal, .cld, .load .ebx .ebp 8, .movImm .eax 0, .int 0x80]

def terminalWriteEnd : List Op := [.popal, .mov .esp .ebp, .pop .ebp, .ret]

-- The two routines in memory, and the gate that `syscalls_init` installs.
structure Image extends Surroundings, Symbols where
  isr_stop : UInt32
  write_stop : UInt32
  isr_loaded : Loaded toSurroundings syscall_isr (syscallIsr toSymbols) end_
  next_eq : next_sys_call = end_
  end_loaded : Loaded toSurroundings end_ syscallIsrEnd isr_stop
  write_loaded : Loaded toSurroundings terminal_write terminalWrite after_int
  after_loaded : Loaded toSurroundings after_int terminalWriteEnd write_stop
  gate_80 : gate 0x80 = syscall_isr

end Routines

section Frames

-- `push %ebp`, `mov %esp, %ebp` and the way back.
def framed (s : Cpu) : Cpu := { s.push s.ebp with ebp := (s.push s.ebp).esp }

def unframed (s : Cpu) : Cpu :=
  { s with esp := s.ebp + 4, ebp := UInt32.ofNat (load32 s.memory (s.ebp.toNat + 0)) }

-- The processor at the `int`, in the interrupt routine and at its call.
def requested (s : Cpu) : Cpu :=
  let saved := (framed s).pushal
  { saved with direction := false, ebx := saved.word (saved.ebp.toNat + 8), eax := 0 }

def requesting (s : Processor) : Processor :=
  { s with toCpu := requested s.toCpu, eflags := s.eflags &&& ~~~DIRECTION_FLAG }

def entered (image : Image) (s : Processor) : Processor :=
  ({ requesting s with eip := image.after_int }).enter image.syscall_isr

def asking (image : Image) (s : Processor) : Cpu :=
  let cpu := framed (entered image s).toCpu
  cpu.push (cpu.word cpu.ebx.toNat)

end Frames

-- The two routines from end to end.
section Run

variable (image : Image)

-- The words on the stack above the argument of `tio_write`.
def kept (s : Processor) : List UInt32 :=
  [(requested s.toCpu).ebp, image.after_int, s.cs, s.eflags &&& ~~~DIRECTION_FLAG, s.edi, s.esi,
    (framed s.toCpu).ebp, (framed s.toCpu).esp, s.ebx, s.edx, s.ecx, s.eax, s.ebp,
    s.stackWord 0]

-- The processor behind the `int`, and at the `ret` of `terminal_write`.
def resumed (s : Processor) (t : Cpu) : Processor :=
  { s with
    toCpu :=
      { (unframed t).drop 12 with
        direction := s.eflags &&& ~~~DIRECTION_FLAG &&& DIRECTION_FLAG != 0 }
    eip := image.after_int
    eflags := s.eflags &&& ~~~DIRECTION_FLAG
    calls := s.calls ++ [(image.tio_write, (asking image s).stackWord 0)] }

-- The processor behind the `ret`.
def returned (s : Processor) (t : Cpu) : Processor :=
  let r := resumed image s t
  { r with toCpu := (unframed r.popal).drop 4, eip := (unframed r.popal).stackWord 0 }

-- `push (%ebx)`: the word in memory at the pointer.
def passed (s : Processor) : UInt32 :=
  (framed (entered image s).toCpu).word (s.stackWord 4).toNat

-- A pointer whose word is out of the way of the frames.
def Clear (s : Processor) : Prop :=
  ∀ i < 4, Misses (s.esp.toNat + 4294967296 - 52) 52 ((s.stackWord 4).toNat + i)

end Run

section Greeting

-- One address for each instruction.
def placed (start : UInt32) : List Op → UInt32 → Option (Op × UInt32)
  | [], _ => none
  | op :: rest, address =>
      if address = start then some (op, start + 1) else placed (start + 1) rest address

def symbols : Symbols :=
  { syscall_isr := 0x200, next_sys_call := 0x207, end_ := 0x207, terminal_write := 0x100
    after_int := 0x107, tio_write := 0x300 }

def scratch (s : Cpu) : Cpu := { s with eax := 0, ecx := 0, edx := 0 }

theorem scratch_cdecl (s : Cpu) : Cdecl 1 15 s (scratch s) :=
  ⟨rfl, rfl, rfl, rfl, rfl, fun _ _ _ => rfl⟩

end Greeting

end PalleyOS.Syscall
