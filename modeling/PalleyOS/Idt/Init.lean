import PalleyOS.Idt.Registrations
import PalleyOS.Timer

namespace PalleyOS

open Machine

def PIC1_COMMAND : UInt16 := 0x20
def PIC1_DATA : UInt16 := 0x21
def PIC2_COMMAND : UInt16 := 0xA0
def PIC2_DATA : UInt16 := 0xA1

def ICW1_ICW4 : UInt8 := 0x01
def ICW1_INIT : UInt8 := 0x10
def ICW4_8086 : UInt8 := 0x01

section Source

-- The addresses the linker gives, that of the table and those of the stubs.
structure Stubs where
  idt_entries : UInt32
  divByZeroIsr : UInt32
  debugIsr : UInt32
  breakpointIsr : UInt32
  overflowIsr : UInt32
  boundRangeIsr : UInt32
  invalidOpcodeIsr : UInt32
  deviceNAIsr : UInt32
  doubleFaultIsr : UInt32
  invalidTSSIsr : UInt32
  segNotPresIsr : UInt32
  stackSegIsr : UInt32
  generalProtFaultIsr : UInt32
  pageFaultIsr : UInt32
  fpeIsr : UInt32
  alignCheckIsr : UInt32
  machineCheckIsr : UInt32
  simdFpeIsr : UInt32
  virtIsr : UInt32
  PITIRQ : UInt32
  keyboardIsr : UInt32
  ideIRQISR : UInt32
  syscall_isr : UInt32

-- The stubs one behind the other.
def sampleStubs : Stubs :=
  { idt_entries := 0x2000
    divByZeroIsr := 0x3000
    debugIsr := 0x3010
    breakpointIsr := 0x3020
    overflowIsr := 0x3030
    boundRangeIsr := 0x3040
    invalidOpcodeIsr := 0x3050
    deviceNAIsr := 0x3060
    doubleFaultIsr := 0x3070
    invalidTSSIsr := 0x3080
    segNotPresIsr := 0x3090
    stackSegIsr := 0x30A0
    generalProtFaultIsr := 0x30B0
    pageFaultIsr := 0x30C0
    fpeIsr := 0x30D0
    alignCheckIsr := 0x30E0
    machineCheckIsr := 0x30F0
    simdFpeIsr := 0x3100
    virtIsr := 0x3110
    PITIRQ := 0x3120
    keyboardIsr := 0x3130
    ideIRQISR := 0x3140
    syscall_isr := 0x3150 }

-- The wait between two writes is a pair of jumps.
def remapPIC (offset1 offset2 : UInt32) (t : Code) : Code :=
  let t := outb PIC1_COMMAND (ICW1_INIT ||| ICW1_ICW4) t
  let t := outb PIC2_COMMAND (ICW1_INIT ||| ICW1_ICW4) t
  let t := outb PIC1_DATA offset1.toUInt8 t
  let t := outb PIC2_DATA offset2.toUInt8 t
  let t := outb PIC1_DATA 4 t
  let t := outb PIC2_DATA 2 t
  let t := outb PIC1_DATA ICW4_8086 t
  let t := outb PIC2_DATA ICW4_8086 t
  let t := outb PIC1_DATA 0xFC t
  outb PIC2_DATA 0xFF t

def storeIdt (f : Idt → Idt) (t : Code) : Code :=
  store (fun kernel => { kernel with idt := f kernel.idt }) t

def exceptionStubs (stubs : Stubs) : List (UInt8 × UInt32) :=
  [(0, stubs.divByZeroIsr), (1, stubs.debugIsr), (3, stubs.breakpointIsr), (4, stubs.overflowIsr),
    (5, stubs.boundRangeIsr), (6, stubs.invalidOpcodeIsr), (7, stubs.deviceNAIsr),
    (8, stubs.doubleFaultIsr), (10, stubs.invalidTSSIsr), (11, stubs.segNotPresIsr),
    (12, stubs.stackSegIsr), (13, stubs.generalProtFaultIsr), (14, stubs.pageFaultIsr),
    (16, stubs.fpeIsr), (17, stubs.alignCheckIsr), (18, stubs.machineCheckIsr),
    (19, stubs.simdFpeIsr), (20, stubs.virtIsr)]

def addExceptionsHandlersToIdt (stubs : Stubs) (t : Code) : Code :=
  (exceptionStubs stubs).foldl
    (fun t (num, func_ptr) => storeIdt (addIsrToIdt num func_ptr 0 TRAP_GATE_32) t) t

def zeroIdtEntry : IDTEntry :=
  { offset_low := 0, selector := 0, zero := 0, type_attr := 0, offset_high := 0 }

def idtInit (stubs : Stubs) (t : Code) : Code :=
  let t := remapPIC 0x20 0x28 t
  let t := storeIdt (fun idt => { idt with idt_entries := fun _ => zeroIdtEntry }) t
  let t := storeIdt (fun idt =>
    { idt with idt_info := { size := 8 * 256 - 1, idt_addr := stubs.idt_entries } }) t
  let t := addExceptionsHandlersToIdt stubs t
  let t := storeIdt (addIsrToIdt 0x20 stubs.PITIRQ 0 INTERRUPT_GATE_32) t
  let t := storeIdt (addIsrToIdt 0x21 stubs.keyboardIsr 0 INTERRUPT_GATE_32) t
  let t := storeIdt (addIsrToIdt (0x20 + 14) stubs.ideIRQISR 0 INTERRUPT_GATE_32) t
  let t := storeIdt (addIsrToIdt (0x20 + 15) stubs.ideIRQISR 0 INTERRUPT_GATE_32) t
  let t := storeIdt idtLoad t
  let t := outb PIC1_DATA 0x3C t
  outb PIC2_DATA 0xFF t

def syscalls_init (stubs : Stubs) (t : Code) : Code :=
  idt_add_isr 0x80 stubs.syscall_isr 3 INTERRUPT_GATE_32.toUInt8 t

-- The part of `kernelMain` that fills the table.
def kernelTables (stubs : Stubs) (t : Code) : Code :=
  syscalls_init stubs (Timer.initPITTimer (idtInit stubs t))

end Source

-- What the table holds after these calls and any later ones.
section Installed

-- The registrations of `kernelMain`. The timer's handler replaces the one that
-- `idtInit` registered.
def idtInitCalls (stubs : Stubs) : List RegistrationCall :=
  (exceptionStubs stubs).map (fun (num, func_ptr) =>
      .addIsrToIdt ⟨num, func_ptr, 0, .TRAP_GATE_32⟩) ++
    [.addIsrToIdt ⟨0x20, stubs.PITIRQ, 0, .INTERRUPT_GATE_32⟩,
      .addIsrToIdt ⟨0x21, stubs.keyboardIsr, 0, .INTERRUPT_GATE_32⟩,
      .addIsrToIdt ⟨0x20 + 14, stubs.ideIRQISR, 0, .INTERRUPT_GATE_32⟩,
      .addIsrToIdt ⟨0x20 + 15, stubs.ideIRQISR, 0, .INTERRUPT_GATE_32⟩]

def kernelCalls (stubs : Stubs) (PITIRQHandler : UInt32) : List RegistrationCall :=
  idtInitCalls stubs ++
    [.idt_add_isr ⟨0x20, PITIRQHandler, 0, .INTERRUPT_GATE_32⟩,
      .idt_add_isr ⟨0x80, stubs.syscall_isr, 3, .INTERRUPT_GATE_32⟩]

-- The table holds the last registration of each vector and nothing else.
def Installed (calls : List RegistrationCall) (kernel : Kernel) : Prop :=
  ∀ vector, kernel.idt.idt_entries vector =
    ((lastFor vector calls).map (·.entry)).getD zeroIdtEntry

theorem lastFor_append (vector : UInt8) (calls more : List RegistrationCall) :
    lastFor vector (calls ++ more) = (lastFor vector more).or (lastFor vector calls) := by
  induction calls with
  | nil => exact (Option.or_none).symm
  | cons call rest ih => rw [List.cons_append, lastFor, ih, lastFor, Option.or_assoc]

theorem Installed.runs {calls : List RegistrationCall} {t : Code} (h : Installed calls t.memory)
    (more : List RegistrationCall) :
    Installed (calls ++ more) (more.foldl (fun t call => call.run t) t).memory := by
  intro vector
  rw [runs_entries, h vector, lastFor_append]
  cases lastFor vector more <;> rfl

theorem installed_stable (calls : List RegistrationCall) :
    Thread.Stable isr (Installed calls) := by
  intro interrupt kernel h
  cases interrupt <;> exact h

theorem Installed.store {calls : List RegistrationCall} {t : Code} (h : Installed calls t.memory)
    (f : Kernel → Kernel) (hf : ∀ kernel, (f kernel).idt.idt_entries = kernel.idt.idt_entries) :
    Installed calls (store f t).memory :=
  (installed_stable calls).write f t h fun kernel hkernel vector =>
    (congrFun (hf kernel) vector).trans (hkernel vector)

theorem exceptions_eq_runs (stubs : Stubs) (t : Code) :
    addExceptionsHandlersToIdt stubs t =
      ((exceptionStubs stubs).map (fun (num, func_ptr) =>
        RegistrationCall.addIsrToIdt ⟨num, func_ptr, 0, .TRAP_GATE_32⟩)).foldl
          (fun t call => call.run t) t := by
  rw [List.foldl_map]
  rfl

theorem storeIdt_eq_run (num : UInt8) (func_ptr : UInt32) (t : Code) :
    storeIdt (addIsrToIdt num func_ptr 0 INTERRUPT_GATE_32) t =
      RegistrationCall.run (.addIsrToIdt ⟨num, func_ptr, 0, .INTERRUPT_GATE_32⟩) t := rfl

theorem Installed.storeIdt {calls : List RegistrationCall} {t : Code}
    (h : Installed calls t.memory) (f : Idt → Idt)
    (hf : ∀ idt, (f idt).idt_entries = idt.idt_entries) :
    Installed calls (storeIdt f t).memory := h.store _ (fun kernel => hf kernel.idt)

theorem Installed.outb {calls : List RegistrationCall} {t : Code} (h : Installed calls t.memory)
    (port : UInt16) (value : UInt8) : Installed calls (outb port value t).memory :=
  h.store _ (fun _ => rfl)

theorem installed_nil (t : Code) :
    Installed [] (storeIdt (fun idt => { idt with idt_entries := fun _ => zeroIdtEntry }) t).memory :=
  fun _ => rfl

theorem idtInit_installed (stubs : Stubs) (t : Code) :
    Installed (idtInitCalls stubs) (idtInit stubs t).memory := by
  have hinfo := (installed_nil (remapPIC 0x20 0x28 t)).storeIdt
    (fun idt => { idt with idt_info := { size := 8 * 256 - 1, idt_addr := stubs.idt_entries } })
    (fun _ => rfl)
  have hload := (hinfo.runs (idtInitCalls stubs)).storeIdt idtLoad (fun _ => rfl)
  have hmasks := (hload.outb PIC1_DATA 0x3C).outb PIC2_DATA 0xFF
  rw [List.nil_append, idtInitCalls, List.foldl_append, ← exceptions_eq_runs] at hmasks
  simp only [List.foldl_cons, List.foldl_nil, ← storeIdt_eq_run] at hmasks
  unfold idtInit
  dsimp only
  exact hmasks

-- The register points at the table.
def TableLoaded (stubs : Stubs) (kernel : Kernel) : Prop :=
  kernel.idt.idt_info = { size := 2047, idt_addr := stubs.idt_entries } ∧
    kernel.idt.idtr = kernel.idt.idt_info

theorem tableLoaded_stable (stubs : Stubs) : Thread.Stable isr (TableLoaded stubs) := by
  intro interrupt kernel h
  cases interrupt <;> exact h

theorem TableLoaded.store {stubs : Stubs} {t : Code} (h : TableLoaded stubs t.memory)
    (f : Kernel → Kernel) (hf : ∀ kernel, TableLoaded stubs kernel → TableLoaded stubs (f kernel)) :
    TableLoaded stubs (store f t).memory := (tableLoaded_stable stubs).write f t h hf

theorem TableLoaded.run {stubs : Stubs} {t : Code} (h : TableLoaded stubs t.memory)
    (call : RegistrationCall) : TableLoaded stubs (call.run t).memory := by
  cases call with
  | addIsrToIdt r => exact h.store _ (fun _ hkernel => hkernel)
  | idt_add_isr r =>
      have hstable := tableLoaded_stable stubs
      have hcli := hstable.cli t h
      have hentry : TableLoaded stubs (PalleyOS.store (fun kernel =>
          { kernel with
            idt := addIsrToIdt r.num r.func_ptr r.level.toUInt8.toUInt32
              r.gate_type.value.toUInt8.toUInt32 kernel.idt }) (cli t)).memory :=
        TableLoaded.store hcli _ (fun _ hkernel => hkernel)
      have hload := hentry.store (fun kernel => { kernel with idt := idtLoad kernel.idt })
        (fun _ hkernel => ⟨hkernel.1, rfl⟩)
      exact hstable.sti _ hload

theorem TableLoaded.runs {stubs : Stubs} {t : Code} (h : TableLoaded stubs t.memory)
    (calls : List RegistrationCall) :
    TableLoaded stubs (calls.foldl (fun t call => call.run t) t).memory := by
  induction calls generalizing t with
  | nil => exact h
  | cons call rest ih => exact ih (h.run call)

-- What neither ports nor the table have to do with survives `idtInit`.
theorem idtInit_keeps (stubs : Stubs) (I : Kernel → Prop) (hstable : Thread.Stable isr I)
    (hports : ∀ kernel ports, I kernel → I { kernel with ports := ports })
    (hidt : ∀ kernel idt, I kernel → I { kernel with idt := idt }) (t : Code) (h : I t.memory) :
    I (idtInit stubs t).memory := by
  have hout (port : UInt16) (value : UInt8) (t : Code) (h : I t.memory) :
      I (outb port value t).memory := hstable.write _ t h fun kernel => hports kernel _
  have hstore (f : Idt → Idt) (t : Code) (h : I t.memory) : I (storeIdt f t).memory :=
    hstable.write _ t h fun kernel => hidt kernel _
  have hremap : I (remapPIC 0x20 0x28 t).memory := by
    unfold remapPIC
    iterate 10 refine hout _ _ _ ?_
    exact h
  have hexceptions (t : Code) (h : I t.memory) :
      I (addExceptionsHandlersToIdt stubs t).memory := by
    unfold addExceptionsHandlersToIdt
    generalize exceptionStubs stubs = list
    induction list generalizing t with
    | nil => exact h
    | cons entry rest ih => exact ih _ (hstore _ t h)
  unfold idtInit
  refine hout _ _ _ (hout _ _ _ ?_)
  iterate 5 refine hstore _ _ ?_
  refine hexceptions _ ?_
  iterate 2 refine hstore _ _ ?_
  exact hremap

theorem idtInit_tableLoaded (stubs : Stubs) (t : Code) :
    TableLoaded stubs (idtInit stubs t).memory := by
  have hinfo : Thread.Stable isr (fun kernel : Kernel =>
      kernel.idt.idt_info = { size := 2047, idt_addr := stubs.idt_entries }) := by
    intro interrupt kernel h
    cases interrupt <;> exact h
  have hstore (num : UInt8) (func_ptr gate_type : UInt32) (t : Code)
      (h : t.memory.idt.idt_info = { size := 2047, idt_addr := stubs.idt_entries }) :
      (storeIdt (addIsrToIdt num func_ptr 0 gate_type) t).memory.idt.idt_info =
        { size := 2047, idt_addr := stubs.idt_entries } :=
    hinfo.write (J := fun kernel => kernel.idt.idt_info = _) _ t h fun _ hk => hk
  have hset (t : Code) :
      (storeIdt (fun idt => { idt with
        idt_info := { size := 8 * 256 - 1, idt_addr := stubs.idt_entries } }) t).memory.idt.idt_info =
        { size := 2047, idt_addr := stubs.idt_entries } := rfl
  have hexceptions (t : Code)
      (h : t.memory.idt.idt_info = { size := 2047, idt_addr := stubs.idt_entries }) :
      (addExceptionsHandlersToIdt stubs t).memory.idt.idt_info =
        { size := 2047, idt_addr := stubs.idt_entries } := by
    unfold addExceptionsHandlersToIdt
    generalize exceptionStubs stubs = list
    induction list generalizing t with
    | nil => exact h
    | cons entry rest ih => exact ih _ (hstore _ _ _ t h)
  have hload (t : Code)
      (h : t.memory.idt.idt_info = { size := 2047, idt_addr := stubs.idt_entries }) :
      TableLoaded stubs (storeIdt idtLoad t).memory := hinfo.write _ t h fun _ hk => ⟨hk, rfl⟩
  have hout (port : UInt16) (value : UInt8) (t : Code) (h : TableLoaded stubs t.memory) :
      TableLoaded stubs (outb port value t).memory := h.store _ fun _ hk => hk
  unfold idtInit
  refine hout _ _ _ (hout _ _ _ (hload _ ?_))
  iterate 4 refine hstore _ _ _ _ ?_
  exact hexceptions _ (hset _)

-- The first call of `initPITTimer` registers the handler, and what neither ports
-- nor the timer's memory have to do with is unchanged until then.
theorem initPITTimer_cases (t : Code) (h : t.memory.pit.pit_initialized = false) :
    ∃ u : Code,
      Timer.initPITTimer t = sti (Timer.storePit (fun pit => { pit with pit_initialized := true })
        (RegistrationCall.run
          (.idt_add_isr ⟨0x20, u.memory.PITIRQHandler, 0, .INTERRUPT_GATE_32⟩) u)) ∧
      ∀ I : Kernel → Prop, Thread.Stable isr I →
        (∀ kernel ports, I kernel → I { kernel with ports := ports }) →
        (∀ kernel pit, I kernel → I { kernel with pit := pit }) → I t.memory → I u.memory := by
  have hcli : (cli t).memory.pit.pit_initialized = false :=
    (Timer.initialized_stable false).cli t h
  obtain ⟨hvalue, -⟩ := Timer.load_initialized (cli t)
  rw [hcli] at hvalue
  refine ⟨Timer.storePit (fun pit => { pit with frequency := 1000 })
    (outb Timer.PIT_COMMAND_REG 0xe2 (outb Timer.PIT_CHANNEL_0_DATA 0x04
      (outb Timer.PIT_CHANNEL_0_DATA 0xa9 (outb Timer.PIT_COMMAND_REG 0x34
        (Timer.storePit Timer.clearCounters
          (load (fun kernel => kernel.pit.pit_initialized) (cli t)).2))))), ?_,
    fun I hstable hports hpit ht => ?_⟩
  · unfold Timer.initPITTimer
    dsimp only
    rw [hvalue, if_neg Bool.false_ne_true]
    rfl
  · have hout (port : UInt16) (value : UInt8) (t : Code) (h : I t.memory) :
        I (outb port value t).memory := hstable.write _ t h fun kernel => hports kernel _
    have hstore (f : Pit → Pit) (t : Code) (h : I t.memory) : I (Timer.storePit f t).memory :=
      hstable.write _ t h fun kernel => hpit kernel _
    refine hstore _ _ ?_
    iterate 4 refine hout _ _ _ ?_
    exact hstore _ _ (hstable.read _ _ (hstable.cli t ht))

-- After the start and any later registrations the table holds the last one of
-- each vector, and the processor's register points at it.
theorem kernelTables_installed (stubs : Stubs) (t : Code)
    (h : t.memory.pit.pit_initialized = false) (calls : List RegistrationCall) :
    Installed (kernelCalls stubs t.memory.PITIRQHandler ++ calls)
        (calls.foldl (fun t call => call.run t) (kernelTables stubs t)).memory ∧
      TableLoaded stubs (calls.foldl (fun t call => call.run t) (kernelTables stubs t)).memory := by
  have hstart : (idtInit stubs t).memory.pit.pit_initialized = false ∧
      (idtInit stubs t).memory.PITIRQHandler = t.memory.PITIRQHandler := by
    refine idtInit_keeps stubs (fun kernel => kernel.pit.pit_initialized = false ∧
      kernel.PITIRQHandler = t.memory.PITIRQHandler) ?_ (fun _ _ hk => hk) (fun _ _ hk => hk) t
      ⟨h, rfl⟩
    intro interrupt kernel hk
    cases interrupt <;> exact hk
  obtain ⟨u, heq, hkept⟩ := initPITTimer_cases (idtInit stubs t) hstart.1
  have hhandler : u.memory.PITIRQHandler = t.memory.PITIRQHandler := by
    refine hkept (fun kernel => kernel.PITIRQHandler = t.memory.PITIRQHandler) ?_
      (fun _ _ hk => hk) (fun _ _ hk => hk) hstart.2
    intro interrupt kernel hk
    cases interrupt <;> exact hk
  have hinstalled : Installed (idtInitCalls stubs) u.memory :=
    hkept _ (installed_stable _) (fun _ _ hk => hk) (fun _ _ hk => hk) (idtInit_installed stubs t)
  have hloaded : TableLoaded stubs u.memory :=
    hkept _ (tableLoaded_stable stubs) (fun _ _ hk => hk) (fun _ _ hk => hk)
      (idtInit_tableLoaded stubs t)
  rw [hhandler] at heq
  have hpit (I : Kernel → Prop) (hstable : Thread.Stable isr I)
      (hpit : ∀ kernel pit, I kernel → I { kernel with pit := pit }) (v : Code) (hv : I v.memory) :
      I (sti (Timer.storePit (fun pit => { pit with pit_initialized := true }) v)).memory :=
    hstable.sti _ (hstable.write _ v hv fun kernel => hpit kernel _)
  have htables : kernelTables stubs t = RegistrationCall.run
      (.idt_add_isr ⟨0x80, stubs.syscall_isr, 3, .INTERRUPT_GATE_32⟩)
        (Timer.initPITTimer (idtInit stubs t)) := rfl
  have hlast : kernelCalls stubs t.memory.PITIRQHandler =
      (idtInitCalls stubs ++ [.idt_add_isr
        ⟨0x20, t.memory.PITIRQHandler, 0, .INTERRUPT_GATE_32⟩]) ++
        [.idt_add_isr ⟨0x80, stubs.syscall_isr, 3, .INTERRUPT_GATE_32⟩] := by
    rw [kernelCalls, List.append_assoc]
    rfl
  refine ⟨?_, TableLoaded.runs ?_ calls⟩
  · rw [hlast]
    refine Installed.runs ?_ calls
    rw [htables, heq]
    refine Installed.runs (hpit _ (installed_stable _) (fun _ _ hk => hk) _ ?_)
      [.idt_add_isr ⟨0x80, stubs.syscall_isr, 3, .INTERRUPT_GATE_32⟩]
    exact hinstalled.runs [.idt_add_isr ⟨0x20, t.memory.PITIRQHandler, 0, .INTERRUPT_GATE_32⟩]
  · rw [htables, heq]
    exact (hpit _ (tableLoaded_stable stubs) (fun _ _ hk => hk) _ (hloaded.run _)).run _

end Installed

end PalleyOS
