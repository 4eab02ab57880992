import PalleyOS.Machine.I386

namespace PalleyOS.Isr

open Machine

-- The entry stubs, each up to its iret.
def keyboardIsr : List Instr :=
  [.pushal, .cld, .call, .popal, .movAl 0x20, .outAl 0x20, .movAl 0xa0, .outAl 0x20]

def PITIRQHandler : List Instr :=
  [.push .eax, .push .ebx, .call, .pop .ebx, .pop .eax]

def pageFaultIsr : List Instr :=
  [.pushal, .cld, .call, .popal, .addEsp 4]

def overflowIsr : List Instr :=
  [.pushal, .cld, .call, .popal]

-- The call of ideIRQHandler is commented out in the source.
def ideIRQISR : List Instr :=
  [.pushal, .cld, .popal]

inductive Stub where
  | keyboardIsr | PITIRQHandler | pageFaultIsr | overflowIsr | ideIRQISR
  deriving DecidableEq, Repr

def Stub.code : Stub → List Instr
  | .keyboardIsr => Isr.keyboardIsr
  | .PITIRQHandler => Isr.PITIRQHandler
  | .pageFaultIsr => Isr.pageFaultIsr
  | .overflowIsr => Isr.overflowIsr
  | .ideIRQISR => Isr.ideIRQISR

-- The argument words in the declaration of the called handler. The parameter of
-- `pageFaultHandler` is not pushed by its stub.
def Stub.args : Stub → Nat
  | .pageFaultIsr => 1
  | _ => 0

-- What the processor pushes before it enters a stub. Only the page fault comes
-- with an error code.
structure ReturnFrame where
  eflags : UInt32
  cs : UInt32
  eip : UInt32
  error : UInt32

def Stub.enter (stub : Stub) (frame : ReturnFrame) (s : Cpu) : Cpu :=
  let framed := ((s.push frame.eflags).push frame.cs).push frame.eip
  match stub with
  | .pageFaultIsr => framed.push frame.error
  | _ => framed

-- The processor state in which a stub reaches its iret.
def Stub.run (stub : Stub) (handler : Cpu → Cpu) (frame : ReturnFrame) (s : Cpu) : Cpu :=
  Cpu.run handler stub.code (stub.enter frame s)

-- The processor state in which a stub calls its handler.
def Stub.atCall (stub : Stub) (frame : ReturnFrame) (s : Cpu) : Cpu :=
  Cpu.run id (stub.code.takeWhile (· ≠ .call)) (stub.enter frame s)

-- The registers of the interrupted code are back and the stack pointer is at the
-- three words that iret takes.
def Transparent (s exit : Cpu) : Prop :=
  exit.toRegisters = { s.toRegisters with esp := s.esp - 12 }

-- `keyboardIsr` acknowledges the interrupt through al after it has restored eax,
-- `PITIRQHandler` saves eax and ebx only, and the argument word of
-- `pageFaultHandler` is the saved edi.
def Stub.Spared (stub : Stub) (handler : Cpu → Cpu) (frame : ReturnFrame) (s : Cpu) : Prop :=
  let t := stub.atCall frame s
  match stub with
  | .keyboardIsr => al s.eax = 0xa0
  | .PITIRQHandler => (handler t).ecx = s.ecx ∧ (handler t).edx = s.edx
  | .pageFaultIsr => (handler t).stackWord 0 = s.edi
  | .overflowIsr => True
  | .ideIRQISR => True

theorem enter_registers (stub : Stub) (frame : ReturnFrame) (s : Cpu) :
    (stub.enter frame s).toRegisters =
      { s.toRegisters with esp := if stub = .pageFaultIsr then s.esp - 16 else s.esp - 12 } := by
  have h3 : s.esp - 4 - 4 - 4 = s.esp - 12 := by
    rw [word_sub_sub, word_sub_sub]
    rfl
  have h4 : s.esp - 12 - 4 = s.esp - 16 := word_sub_sub _ _ _
  cases stub <;> simp [Stub.enter, Cpu.push, h3, h4]

-- The stubs that save all registers, up to the popal.
theorem popal_registers_eq (stub : Stub) (frame : ReturnFrame) (s t : Cpu)
    (ht : Cdecl stub.args 8 { (stub.enter frame s).pushal with direction := false } t) :
    t.popal.toRegisters =
      { s.toRegisters with
        esp := if stub = .pageFaultIsr then s.esp - 16 else s.esp - 12
        edi := if stub.args = 0 then s.edi else t.stackWord 0 } := by
  have hentry := enter_registers stub frame s
  have hargs : stub.args ≤ 1 := by cases stub <;> simp [Stub.args]
  rw [Cpu.popal_of_cdecl (stub.enter frame s) t stub.args hargs ht, hentry]

-- `PITIRQHandler` restores the two registers it pushed; the others are as the
-- handler left them.
theorem run_PITIRQHandler (handler : Cpu → Cpu) (frame : ReturnFrame) (s : Cpu)
    (ht : Cdecl 0 2 (Stub.atCall .PITIRQHandler frame s)
      (handler (Stub.atCall .PITIRQHandler frame s))) :
    (Stub.run .PITIRQHandler handler frame s).toRegisters =
      { s.toRegisters with
        esp := s.esp - 12
        ecx := (handler (Stub.atCall .PITIRQHandler frame s)).ecx
        edx := (handler (Stub.atCall .PITIRQHandler frame s)).edx } := by
  have hentry := enter_registers .PITIRQHandler frame s
  have hpop := Cpu.pop_pop_of_cdecl (Stub.enter .PITIRQHandler frame s) _ ht
  rw [hentry] at hpop
  exact hpop

-- Each stub is transparent exactly when what it does not save is spared.
theorem transparent_iff_spared (stub : Stub) (handler : Cpu → Cpu) (frame : ReturnFrame) (s : Cpu)
    (h : Cdecl stub.args (savedWords stub.code) (stub.atCall frame s)
      (handler (stub.atCall frame s))) :
    Transparent s (stub.run handler frame s) ↔ stub.Spared handler frame s := by
  unfold Transparent
  cases stub with
  | keyboardIsr =>
      have hpop := popal_registers_eq .keyboardIsr frame s _ h
      have hrun : (Stub.run .keyboardIsr handler frame s).toRegisters =
          { (handler (Stub.atCall .keyboardIsr frame s)).popal.toRegisters with
            eax := withAl
              (withAl (handler (Stub.atCall .keyboardIsr frame s)).popal.eax 0x20) 0xa0 } := rfl
      rw [hrun, withAl_withAl, hpop]
      simp [Stub.args, Stub.Spared, withAl_eq_iff]
  | PITIRQHandler =>
      rw [run_PITIRQHandler handler frame s h]
      simp [Stub.Spared]
  | pageFaultIsr =>
      have hpop := popal_registers_eq .pageFaultIsr frame s _ h
      have hrun : (Stub.run .pageFaultIsr handler frame s).toRegisters =
          { (handler (Stub.atCall .pageFaultIsr frame s)).popal.toRegisters with
            esp := (handler (Stub.atCall .pageFaultIsr frame s)).popal.esp + 4 } := rfl
      have hesp : s.esp - 16 + 4 = s.esp - 12 := by
        rw [show (16 : UInt32) = 12 + 4 from rfl, ← word_sub_sub, UInt32.sub_add_cancel]
      rw [hrun, hpop]
      simp [Stub.args, Stub.Spared, hesp]
  | overflowIsr =>
      have hpop := popal_registers_eq .overflowIsr frame s _ h
      have hrun : (Stub.run .overflowIsr handler frame s).toRegisters =
          (handler (Stub.atCall .overflowIsr frame s)).popal.toRegisters := rfl
      rw [hrun, hpop]
      simp [Stub.args, Stub.Spared]
  | ideIRQISR =>
      -- nothing is called between the pushal and the popal
      have hpop := popal_registers_eq .ideIRQISR frame s _ (Cdecl.refl 0 8 _)
      have hrun : (Stub.run .ideIRQISR handler frame s).toRegisters =
          Cpu.toRegisters (Cpu.popal
            { (Stub.enter .ideIRQISR frame s).pushal with direction := false }) := rfl
      rw [hrun, hpop]
      simp [Stub.args, Stub.Spared]

-- A processor with small register values, and a handler that uses its scratch
-- registers.
def calm : Cpu :=
  { eax := 1, ecx := 2, edx := 3, ebx := 4, esp := 0x8000, ebp := 6, esi := 7, edi := 8
    direction := false, memory := fun _ => 0, outs := [] }

def scratch (s : Cpu) : Cpu := { s with eax := 0, ecx := 0, edx := 0 }

theorem scratch_cdecl (args frame : Nat) (s : Cpu) : Cdecl args frame s (scratch s) :=
  ⟨rfl, rfl, rfl, rfl, rfl, fun _ _ _ => rfl⟩

theorem transparent_iff_spared_calm :
    Transparent calm (Stub.run .pageFaultIsr scratch ⟨2, 8, 0, 0⟩ calm) ↔
      Stub.Spared .pageFaultIsr scratch ⟨2, 8, 0, 0⟩ calm :=
  transparent_iff_spared .pageFaultIsr scratch ⟨2, 8, 0, 0⟩ calm (scratch_cdecl _ _ _)

-- The keyboard interrupt always returns with the second acknowledgement in al.
theorem al_run_keyboardIsr (handler : Cpu → Cpu) (frame : ReturnFrame) (s : Cpu) :
    al (Stub.run .keyboardIsr handler frame s).eax = 0xa0 := al_withAl _ _

theorem keyboard_interrupt_clobbers_al :
    ¬ ∀ (stub : Stub) (handler : Cpu → Cpu) (frame : ReturnFrame) (s : Cpu),
      Cdecl stub.args (savedWords stub.code) (stub.atCall frame s)
        (handler (stub.atCall frame s)) → Transparent s (stub.run handler frame s) := by
  intro h
  have hexit := h .keyboardIsr scratch ⟨2, 8, 0, 0⟩ calm (scratch_cdecl _ _ _)
  have heax : (Stub.run .keyboardIsr scratch ⟨2, 8, 0, 0⟩ calm).eax = 1 :=
    congrArg Registers.eax hexit
  have hal := al_run_keyboardIsr scratch ⟨2, 8, 0, 0⟩ calm
  rw [heax] at hal
  simp [al] at hal

end PalleyOS.Isr
