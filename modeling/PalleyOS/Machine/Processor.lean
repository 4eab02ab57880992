import PalleyOS.Machine.I386

namespace Machine

-- The i386 with its instruction pointer: jumps, calls, software interrupts and
-- their returns, all at one privilege level.
section Processor

inductive Gpr where
  | eax | ecx | edx | ebx | esp | ebp | esi | edi
  deriving DecidableEq, Repr

-- Operands are in the order destination, source.
inductive Op where
  | push (r : Gpr)
  | pop (r : Gpr)
  | mov (dst src : Gpr)
  | movImm (dst : Gpr) (value : UInt32)
  | load (dst base : Gpr) (offset : Nat)
  | pushMem (base : Gpr)
  | pushal
  | popal
  | cld
  | cmpImm (r : Gpr) (value : UInt32)
  | jne (target : UInt32)
  | jmp (target : UInt32)
  | call (target : UInt32)
  | int (vector : UInt8)
  | iret
  | ret
  deriving DecidableEq, Repr

-- `calls` records the functions called and the argument word each of them got.
structure Processor extends Cpu where
  eip : UInt32
  cs : UInt32
  eflags : UInt32
  calls : List (UInt32 × UInt32)

def ZERO_FLAG : UInt32 := 0x40
def INTERRUPT_FLAG : UInt32 := 0x200
def DIRECTION_FLAG : UInt32 := 0x400

-- What lies outside the code that runs: how memory decodes at an address (an
-- instruction and the address behind it), the gates, and the called functions,
-- each being the change it makes between its call and its return.
structure Surroundings where
  fetch : UInt32 → Option (Op × UInt32)
  gate : UInt8 → UInt32
  function : UInt32 → Cpu → Cpu

namespace Cpu

def reg (s : Cpu) : Gpr → UInt32
  | .eax => s.eax
  | .ecx => s.ecx
  | .edx => s.edx
  | .ebx => s.ebx
  | .esp => s.esp
  | .ebp => s.ebp
  | .esi => s.esi
  | .edi => s.edi

def setReg (s : Cpu) (value : UInt32) : Gpr → Cpu
  | .eax => { s with eax := value }
  | .ecx => { s with ecx := value }
  | .edx => { s with edx := value }
  | .ebx => { s with ebx := value }
  | .esp => { s with esp := value }
  | .ebp => { s with ebp := value }
  | .esi => { s with esi := value }
  | .edi => { s with edi := value }

def word (s : Cpu) (address : Nat) : UInt32 := UInt32.ofNat (load32 s.memory address)

def drop (s : Cpu) (bytes : UInt32) : Cpu := { s with esp := s.esp + bytes }

end Cpu

namespace Processor

def onCpu (f : Cpu → Cpu) (s : Processor) : Processor := { s with toCpu := f s.toCpu }

-- Only the zero flag of a comparison is ever looked at.
def compare (a b : UInt32) (s : Processor) : Processor :=
  { s with eflags := if a = b then s.eflags ||| ZERO_FLAG else s.eflags &&& ~~~ZERO_FLAG }

def zero (s : Processor) : Bool := s.eflags &&& ZERO_FLAG != 0

-- An interrupt gate masks further interrupts.
def enter (gate : UInt32) (s : Processor) : Processor :=
  let pushed := ((s.toCpu.push s.eflags).push s.cs).push s.eip
  { s with toCpu := pushed, eip := gate, eflags := s.eflags &&& ~~~INTERRUPT_FLAG }

def leave (s : Processor) : Processor :=
  let eflags := s.stackWord 8
  { s with
    toCpu := { s.toCpu.drop 12 with direction := eflags &&& DIRECTION_FLAG != 0 }
    eip := s.stackWord 0
    cs := s.stackWord 4
    eflags := eflags }

-- An instruction sees the pointer already behind it.
def exec (around : Surroundings) (s : Processor) : Op → Processor
  | .push r => s.onCpu fun cpu => cpu.push (cpu.reg r)
  | .pop r => s.onCpu fun cpu => (cpu.drop 4).setReg (cpu.stackWord 0) r
  | .mov dst src => s.onCpu fun cpu => cpu.setReg (cpu.reg src) dst
  | .movImm dst value => s.onCpu fun cpu => cpu.setReg value dst
  | .load dst base offset =>
      s.onCpu fun cpu => cpu.setReg (cpu.word ((cpu.reg base).toNat + offset)) dst
  | .pushMem base => s.onCpu fun cpu => cpu.push (cpu.word (cpu.reg base).toNat)
  | .pushal => s.onCpu Cpu.pushal
  | .popal => s.onCpu Cpu.popal
  | .cld =>
      { s.onCpu fun cpu => { cpu with direction := false } with
        eflags := s.eflags &&& ~~~DIRECTION_FLAG }
  | .cmpImm r value => s.compare (s.toCpu.reg r) value
  | .jne target => if s.zero then s else { s with eip := target }
  | .jmp target => { s with eip := target }
  | .call target =>
      { s.onCpu (around.function target) with calls := s.calls ++ [(target, s.stackWord 0)] }
  | .int vector => s.enter (around.gate vector)
  | .iret => s.leave
  | .ret => { s.onCpu (fun cpu => cpu.drop 4) with eip := s.stackWord 0 }

def step (around : Surroundings) (s : Processor) : Option Processor :=
  (around.fetch s.eip).map fun (op, next) => exec around { s with eip := next } op

def run (around : Surroundings) : Nat → Processor → Option Processor
  | 0, s => some s
  | steps + 1, s => (s.step around).bind (run around steps)

end Processor

end Processor

section Stack

-- Pushing `words` words moves the stack pointer down and changes nothing above
-- the new one and nothing below.
structure Pushed (words : Nat) (s t : Cpu) : Prop where
  esp : t.esp.toNat = (s.esp.toNat + 4294967296 - 4 * words) % 4294967296
  kept : ∀ x, Misses (s.esp.toNat + 4294967296 - 4 * words) (4 * words) x →
    load8 t.memory x = load8 s.memory x

theorem Pushed.trans {m n : Nat} {s t u : Cpu} (h : Pushed m s t) (h' : Pushed n t u)
    (hfew : m + n < 1000) : Pushed (m + n) s u := by
  have hsp := h.esp
  have hsp' := h'.esp
  have hlt := s.esp.toNat_lt
  have hlt' := t.esp.toNat_lt
  refine ⟨by omega, fun x hx => ?_⟩
  have hlower (i : Nat) : (t.esp.toNat + 4294967296 - 4 * n + i) % 4294967296 =
      (s.esp.toNat + 4294967296 - 4 * (m + n) + i) % 4294967296 := by omega
  have hupper (i : Nat) : s.esp.toNat + 4294967296 - 4 * (m + n) + (4 * n + i) =
      s.esp.toNat + 4294967296 - 4 * m + i := by omega
  refine (h'.kept x fun i hi => ?_).trans (h.kept x fun i hi => ?_)
  · rw [hlower i]
    exact hx i (by omega)
  · rw [← hupper i]
    exact hx (4 * n + i) (by omega)

end Stack

section Rules

variable {around : Surroundings}

-- The instructions of `code` follow each other from `start` to `stop`.
def Loaded (around : Surroundings) : UInt32 → List Op → UInt32 → Prop
  | start, [], stop => start = stop
  | start, op :: rest, stop =>
      ∃ next, around.fetch start = some (op, next) ∧ Loaded around next rest stop

def Reaches (around : Surroundings) (s t : Processor) : Prop :=
  ∃ steps, Processor.run around steps s = some t

theorem Processor.run_add (m n : Nat) (s : Processor) :
    run around (m + n) s = (run around m s).bind (run around n) := by
  induction m generalizing s with
  | zero => rw [Nat.zero_add, run, Option.bind_some]
  | succ m ih =>
      rw [Nat.succ_add, run, run, Option.bind_assoc]
      congr 1
      funext t
      exact ih t

theorem Reaches.refl (s : Processor) : Reaches around s s := ⟨0, rfl⟩

theorem Reaches.trans {s t u : Processor} (h : Reaches around s t) (h' : Reaches around t u) :
    Reaches around s u := by
  obtain ⟨m, hm⟩ := h
  obtain ⟨n, hn⟩ := h'
  exact ⟨m + n, by rw [Processor.run_add, hm, Option.bind_some, hn]⟩

theorem Loaded.split {start stop : UInt32} (first rest : List Op)
    (h : Loaded around start (first ++ rest) stop) :
    ∃ mid, Loaded around start first mid ∧ Loaded around mid rest stop := by
  induction first generalizing start with
  | nil => exact ⟨start, rfl, h⟩
  | cons op first ih =>
      obtain ⟨next, hfetch, htail⟩ := h
      obtain ⟨mid, hfirst, hrest⟩ := ih htail
      exact ⟨mid, ⟨next, hfetch, hfirst⟩, hrest⟩

-- One instruction of any kind.
theorem Reaches.step {s : Processor} {op : Op} {next : UInt32}
    (h : around.fetch s.eip = some (op, next)) :
    Reaches around s (Processor.exec around { s with eip := next } op) := by
  refine ⟨1, ?_⟩
  rw [Processor.run, Processor.step, h]
  rfl

def Op.straight : Op → Bool
  | .jne _ | .jmp _ | .call _ | .int _ | .iret | .ret => false
  | _ => true

theorem Processor.exec_straight (s : Processor) (op : Op) (h : op.straight = true) (eip : UInt32) :
    exec around { s with eip := eip } op = { exec around s op with eip := eip } := by
  cases op with
  | jne target => cases h
  | jmp target => cases h
  | call target => cases h
  | int vector => cases h
  | iret => cases h
  | ret => cases h
  | _ => simp only [exec, onCpu, compare]

-- Straight-line code runs to its end.
theorem Reaches.straight {start stop : UInt32} (code : List Op) (s : Processor)
    (hloaded : Loaded around start code stop) (hcode : ∀ op ∈ code, op.straight = true) :
    Reaches around { s with eip := start }
      { code.foldl (Processor.exec around) s with eip := stop } := by
  induction code generalizing start s with
  | nil =>
      obtain rfl : start = stop := hloaded
      exact Reaches.refl _
  | cons op rest ih =>
      obtain ⟨next, hfetch, hrest⟩ := hloaded
      have hop := hcode op (List.mem_cons_self ..)
      have hfirst := Reaches.step (s := { s with eip := start }) hfetch
      rw [Processor.exec_straight s op hop next] at hfirst
      exact hfirst.trans
        (ih (Processor.exec around s op) hrest fun other hother =>
          hcode other (List.mem_cons_of_mem _ hother))

end Rules

end Machine
