import PalleyOS.Gdt.Lemmas

namespace PalleyOS.Gdt

open Machine

-- The kernel from its start on, with the calls that change the tables.
section Runs

structure Platform where
  code : Code
  segmentation : Segmentation

inductive TableCall where
  | register (call : RegistrationCall)
  | tssSetKernelStack (stack : UInt32)

def TableCall.run : TableCall → Platform → Platform
  | .register call, p => { p with code := call.run p.code }
  | .tssSetKernelStack stack, p =>
      { p with segmentation := Gdt.tssSetKernelStack stack p.segmentation }

def TableCall.registration? : TableCall → Option RegistrationCall
  | .register call => some call
  | .tssSetKernelStack _ => none

def registrations (calls : List TableCall) : List RegistrationCall :=
  calls.filterMap TableCall.registration?

-- The stack that ring 0 gets after these calls.
def kernelStack (stack : UInt32) (calls : List TableCall) : UInt32 :=
  calls.foldl (fun stack call =>
    match call with
    | .register _ => stack
    | .tssSetKernelStack stack => stack) stack

-- The part of `kernelMain` that sets the tables up. The two tables are in
-- different memory.
def start (symbols : Symbols) (stubs : Stubs) (p : Platform) : Option Platform :=
  (gdtInit symbols p.segmentation).map fun s =>
    { code := kernelTables stubs p.code, segmentation := s }

def Platform.tables (symbols : Symbols) (p : Platform) : Machine.Tables :=
  p.segmentation.tables symbols
    (fun vector => idtImage (p.code.memory.idt.idt_entries (UInt8.ofNat vector)))
    p.code.memory.idt.idtr.size.toNat

def Platform.interrupt (symbols : Symbols) (p : Platform) (level : Nat) (software : Bool)
    (vector : UInt8) : Delivery :=
  (p.tables symbols).deliver p.segmentation.task level software vector.toNat

theorem run_code (calls : List TableCall) (p : Platform) :
    (calls.foldl (fun p call => call.run p) p).code =
      (registrations calls).foldl (fun t call => call.run t) p.code := by
  induction calls generalizing p with
  | nil => rfl
  | cons call rest ih =>
      rw [List.foldl_cons, ih]
      cases call <;> rfl

theorem Flat.tssSetKernelStack {symbols : Symbols} {s : Segmentation} (h : Flat symbols s)
    (stack : UInt32) : Flat symbols (Gdt.tssSetKernelStack stack s) := by
  have htss : (Gdt.tssSetKernelStack stack s).tss_entry = writeTSSEntry 0x10 stack := by
    rw [Gdt.tssSetKernelStack, h.tss_entry]
    rfl
  exact ⟨h.null, h.ring0_code, h.ring0_data, h.ring3_code, h.ring3_data, h.task_state, h.gdtr,
    h.task, htss⟩

theorem run_flat (symbols : Symbols) (calls : List TableCall) (p : Platform)
    (h : Flat symbols p.segmentation) :
    Flat symbols (calls.foldl (fun p call => call.run p) p).segmentation ∧
    (calls.foldl (fun p call => call.run p) p).segmentation.tss_entry.esp0 =
      kernelStack p.segmentation.tss_entry.esp0 calls := by
  induction calls generalizing p with
  | nil => exact ⟨h, rfl⟩
  | cons call rest ih =>
      cases call with
      | register call => exact ih _ h
      | tssSetKernelStack stack => exact ih _ (h.tssSetKernelStack stack)

theorem started_interrupt (symbols : Symbols) (stubs : Stubs) (p : Platform)
    (hlevel : p.segmentation.level = 0) (hpit : p.code.memory.pit.pit_initialized = false)
    (calls : List TableCall) :
    ∃ started, start symbols stubs p = some started ∧
      Flat symbols (calls.foldl (fun p call => call.run p) started).segmentation ∧
      (calls.foldl (fun p call => call.run p) started).segmentation.tss_entry.esp0 =
        kernelStack symbols.kernel_stack_top calls ∧
      ∀ level software vector,
        (calls.foldl (fun p call => call.run p) started).interrupt symbols level software vector =
          match lastFor vector (kernelCalls stubs p.code.memory.PITIRQHandler ++
            registrations calls) with
          | none => .faults .generalProtection
          | some r => entrance r (kernelStack symbols.kernel_stack_top calls) level software := by
  obtain ⟨s, hinit, hflat, -, -, hstack⟩ := gdtInit_flat symbols p.segmentation hlevel
  have hstart : start symbols stubs p =
      some { code := kernelTables stubs p.code, segmentation := s } := by
    rw [start, hinit]
    rfl
  refine ⟨_, hstart, ?_⟩
  obtain ⟨hflat', hstack'⟩ :=
    run_flat symbols calls { code := kernelTables stubs p.code, segmentation := s } hflat
  obtain ⟨hinstalled, hinfo, hidtr⟩ :=
    kernelTables_installed stubs p.code hpit (registrations calls)
  have hcode := run_code calls { code := kernelTables stubs p.code, segmentation := s }
  generalize calls.foldl (fun p call => call.run p)
    { code := kernelTables stubs p.code, segmentation := s } = after at hflat' hstack' hcode
  dsimp only at hcode hstack'
  rw [← hcode] at hinstalled hinfo hidtr
  refine ⟨hflat', by rw [hstack', hstack], fun level software vector => ?_⟩
  have hsize : after.code.memory.idt.idtr.size.toNat = 2047 := by
    rw [hidtr, hinfo]
    rfl
  have hentry := hinstalled vector
  rw [Platform.interrupt, Platform.tables, hsize]
  cases hlast : lastFor vector (kernelCalls stubs p.code.memory.PITIRQHandler ++
      registrations calls) with
  | none =>
      rw [hlast] at hentry
      have hempty : VectorGate.decode (idtImage (after.code.memory.idt.idt_entries
          (UInt8.ofNat vector.toNat))) = VectorGate.decode (idtImage zeroIdtEntry) := by
        rw [UInt8.ofNat_toNat, hentry]
        rfl
      exact Tables.deliver_invalid hempty (.inr (by decide))
  | some r =>
      rw [hlast] at hentry
      have hvector : after.code.memory.idt.idt_entries (UInt8.ofNat vector.toNat) = r.entry := by
        rw [UInt8.ofNat_toNat, hentry]
        rfl
      rw [deliver_of_entry hflat' _ level _ vector.toNat_lt software r (congrArg idtImage hvector),
        hstack', hstack]

-- Every interrupt after the start, from whatever level, goes to the handler that
-- was registered last for its vector, on the stack that was set last.
theorem interrupt_enters_last_registration (symbols : Symbols) (stubs : Stubs) (p : Platform)
    (hlevel : p.segmentation.level = 0) (hpit : p.code.memory.pit.pit_initialized = false)
    (calls : List TableCall) :
    ∃ started, start symbols stubs p = some started ∧
      ∀ level software vector,
        (calls.foldl (fun p call => call.run p) started).interrupt symbols level software vector =
          match lastFor vector (kernelCalls stubs p.code.memory.PITIRQHandler ++
            registrations calls) with
          | none => .faults .generalProtection
          | some r => entrance r (kernelStack symbols.kernel_stack_top calls) level software := by
  obtain ⟨started, hstart, -, -, hinterrupt⟩ :=
    started_interrupt symbols stubs p hlevel hpit calls
  exact ⟨started, hstart, hinterrupt⟩

-- A platform before its start.
def switchedOn : Platform :=
  { code := { booted with
      memory := { booted.memory with
        pit := { booted.memory.pit with pit_initialized := false } } }
    segmentation :=
      { GDT := fun _ => zeroEntry
        gp := { limit := 0, base := 0 }
        tss_entry := zeroTSS
        elsewhere := fun _ => 0
        gdtr := { limit := 0, base := 0 }
        level := 0
        registers := ring0Registers
        task := { base := 0, limit := 0 } } }

def sampleSymbols : Symbols := { GDT := 0x5000, tss_entry := 0x5100, kernel_stack_top := 0x8000 }

theorem interrupt_enters_last_registration_switchedOn :
    ∃ started, start sampleSymbols sampleStubs switchedOn = some started ∧
      ∀ level software vector, started.interrupt sampleSymbols level software vector =
        match lastFor vector (kernelCalls sampleStubs 0) with
        | none => .faults .generalProtection
        | some r => entrance r 0x8000 level software := by
  obtain ⟨started, hstart, hinterrupt⟩ :=
    interrupt_enters_last_registration sampleSymbols sampleStubs switchedOn rfl rfl []
  refine ⟨started, hstart, fun level software vector => (hinterrupt level software vector).trans ?_⟩
  rw [show registrations [] = [] from rfl, List.append_nil]
  rfl

theorem lastFor_mem {vector : UInt8} {calls : List RegistrationCall} {r : Registration}
    (h : lastFor vector calls = some r) :
    r.num = vector ∧ ∃ call ∈ calls, call.registration = r := by
  induction calls with
  | nil => cases h
  | cons call rest ih =>
      rw [lastFor] at h
      cases hlast : lastFor vector rest with
      | some r' =>
          rw [hlast] at h
          obtain ⟨hnum, call', hmem, hr⟩ := ih (hlast.trans h)
          exact ⟨hnum, call', List.mem_cons_of_mem call hmem, hr⟩
      | none =>
          rw [hlast] at h
          by_cases hnum : call.registration.num = vector
          · rw [if_pos hnum] at h
            obtain rfl := Option.some.inj h
            exact ⟨hnum, call, List.mem_cons_self, rfl⟩
          · rw [if_neg hnum] at h
            cases h

theorem kernelCalls_level3 (stubs : Stubs) (PITIRQHandler : UInt32) :
    ∀ call ∈ kernelCalls stubs PITIRQHandler,
      call.registration.desc_level = 3 → call.registration.num = 0x80 := by
  simp [kernelCalls, idtInitCalls, exceptionStubs, RegistrationCall.registration]

-- As long as nobody else registers a gate for ring 3 or takes the vector away,
-- the system call is the only way a program has into the kernel.
theorem syscall_is_the_only_door (symbols : Symbols) (stubs : Stubs) (p : Platform)
    (hlevel : p.segmentation.level = 0) (hpit : p.code.memory.pit.pit_initialized = false)
    (calls : List TableCall)
    (hcalls : ∀ call ∈ registrations calls,
      call.registration.desc_level ≠ 3 ∧ call.registration.num ≠ 0x80) :
    ∃ started, start symbols stubs p = some started ∧
      ∀ vector, (calls.foldl (fun p call => call.run p) started).interrupt symbols 3 true vector =
        if vector = 0x80 then
          .enters 0x08 stubs.syscall_isr.toNat
            (some (0x10, (kernelStack symbols.kernel_stack_top calls).toNat)) true
        else .faults .generalProtection := by
  obtain ⟨started, hstart, -, -, hinterrupt⟩ :=
    started_interrupt symbols stubs p hlevel hpit calls
  refine ⟨started, hstart, fun vector => (hinterrupt 3 true vector).trans ?_⟩
  rw [lastFor_append]
  by_cases hvector : vector = 0x80
  · subst vector
    have hlater : lastFor 0x80 (registrations calls) = none := by
      cases hlast : lastFor 0x80 (registrations calls) with
      | none => rfl
      | some r =>
          obtain ⟨hnum, call, hmem, rfl⟩ := lastFor_mem hlast
          exact absurd hnum (hcalls call hmem).2
    rw [hlater]
    rfl
  · rw [if_neg hvector]
    have hlevel3 (r : Registration) (hr : r.desc_level ≠ 3) :
        entrance r (kernelStack symbols.kernel_stack_top calls) 3 true =
          .faults .generalProtection := by
      have hlt : (r.desc_level : Nat) < 3 := by
        have hne : (r.desc_level : Nat) ≠ 3 := fun he => hr (Fin.ext he)
        have hbound := r.desc_level.isLt
        omega
      exact if_pos (.inr ⟨rfl, hlt⟩)
    cases hlater : lastFor vector (registrations calls) with
    | some r =>
        obtain ⟨-, call, hmem, rfl⟩ := lastFor_mem hlater
        exact hlevel3 _ (hcalls call hmem).1
    | none =>
        cases hfirst : lastFor vector (kernelCalls stubs p.code.memory.PITIRQHandler) with
        | none => rfl
        | some r =>
            obtain ⟨hnum, call, hmem, rfl⟩ := lastFor_mem hfirst
            exact hlevel3 _ fun hthree =>
              hvector (hnum.symm.trans (kernelCalls_level3 stubs _ call hmem hthree))

-- A keyboard handler of its own and another stack.
theorem syscall_is_the_only_door_switchedOn :
    ∃ started, start sampleSymbols sampleStubs switchedOn = some started ∧
      ∀ vector,
        ([.register (.idt_add_isr ⟨0x21, 5, 0, .INTERRUPT_GATE_32⟩), .tssSetKernelStack 0x9000]
          |>.foldl (fun p (call : TableCall) => call.run p) started).interrupt sampleSymbols 3 true
            vector =
          if vector = 0x80 then
            .enters 0x08 sampleStubs.syscall_isr.toNat (some (0x10, 0x9000)) true
          else .faults .generalProtection :=
  syscall_is_the_only_door sampleSymbols sampleStubs switchedOn rfl rfl _
    (by simp [registrations, TableCall.registration?, RegistrationCall.registration])

-- What a program may do in ring 3, where the start ends.
theorem jump_to_ring3_eq {symbols : Symbols} {s : Segmentation} (h : Flat symbols s)
    (hlevel : s.level = 0) (function_ptr esp : UInt32) :
    jump_to_ring3 symbols function_ptr esp s =
      some ({ s with level := 3, registers := ring3Registers },
        { eip := function_ptr, esp := esp }) := by
  have hlimit : s.gdtr.limit.toNat = 47 := by rw [h.gdtr]; rfl
  have hdata : (s.segments symbols).descriptor 0x23 = some (flat false 3) :=
    Tables.descriptor_eq (by decide) (by decide) (by change 39 ≤ s.gdtr.limit.toNat; omega)
      h.ring3_data
  have hload : (s.segments symbols).loadData 0 0x23 = some 0x23 := by
    rw [Tables.loadData, hdata]
    rfl
  simp only [jump_to_ring3, loadDataRegisters, bind, sysexit, hlevel, hload, Option.map_some, Option.bind_some]
  rfl

-- A segment register that reaches all addresses at its level.
def Usable (tables : Machine.Tables) (level selector : Nat) (executable : Bool) : Prop :=
  ∃ d, tables.descriptor selector = some d ∧ selector % 4 = level ∧ d.privilege = level ∧
    d.base = 0 ∧ d.lastByte = 2 ^ 32 - 1 ∧ d.present = true ∧ d.wide = true ∧
    (if executable then d.isCode = true ∧ d.conforming = false else d.isWritableData = true)

theorem Flat.usable {symbols : Symbols} {s : Segmentation} (h : Flat symbols s) :
    Usable (s.segments symbols) 0 0x08 true ∧ Usable (s.segments symbols) 0 0x10 false ∧
    Usable (s.segments symbols) 3 0x1B true ∧ Usable (s.segments symbols) 3 0x23 false := by
  have hlimit : (s.segments symbols).gdt_limit = 47 := by
    change s.gdtr.limit.toNat = 47
    rw [h.gdtr]
    rfl
  have hcode0 : (s.segments symbols).descriptor 0x08 = some (flat true 0) :=
    Tables.descriptor_eq (by decide) (by decide) (by omega) h.ring0_code
  have hdata0 : (s.segments symbols).descriptor 0x10 = some (flat false 0) :=
    Tables.descriptor_eq (by decide) (by decide) (by omega) h.ring0_data
  have hcode3 : (s.segments symbols).descriptor 0x1B = some (flat true 3) :=
    Tables.descriptor_eq (by decide) (by decide) (by omega) h.ring3_code
  have hdata3 : (s.segments symbols).descriptor 0x23 = some (flat false 3) :=
    Tables.descriptor_eq (by decide) (by decide) (by omega) h.ring3_data
  exact ⟨⟨_, hcode0, by decide⟩, ⟨_, hdata0, by decide⟩, ⟨_, hcode3, by decide⟩,
    ⟨_, hdata3, by decide⟩⟩

theorem stacks_flat (symbols : Symbols) (tops : List UInt32) (s : Segmentation)
    (h : Flat symbols s) (hlevel : s.level = 0) :
    Flat symbols (tops.foldl (fun s stack => tssSetKernelStack stack s) s) ∧
    (tops.foldl (fun s stack => tssSetKernelStack stack s) s).level = 0 := by
  induction tops generalizing s with
  | nil => exact ⟨h, hlevel⟩
  | cons stack rest ih => exact ih _ (h.tssSetKernelStack stack) hlevel

-- Wherever the linker puts the tables and whatever stacks are set, the way into
-- ring 3 is through without a fault. The program gets its entry point, the
-- kernel's stack pointer and segments of its own level, as `sysexit` expects
-- them, and the processor knows where the task state is.
theorem start_reaches_ring3 (symbols : Symbols) (s : Segmentation) (hlevel : s.level = 0)
    (tops : List UInt32) (function_ptr esp : UInt32) :
    ∃ started user, gdtInit symbols s = some started ∧
      jump_to_ring3 symbols function_ptr esp
          (tops.foldl (fun s stack => tssSetKernelStack stack s) started) =
        some (user, { eip := function_ptr, esp := esp }) ∧
      user.level = 3 ∧ Usable (user.segments symbols) 3 user.registers.cs true ∧
      (∀ selector ∈ [user.registers.ds, user.registers.es, user.registers.fs, user.registers.gs,
        user.registers.ss], Usable (user.segments symbols) 3 selector false) ∧
      user.registers.ss = user.registers.cs + 8 ∧
      user.task = { base := symbols.tss_entry.toNat, limit := 104 } ∧
      user.gdtr = { limit := 47, base := symbols.GDT } := by
  obtain ⟨started, hinit, hflat, hlevel0, -, -⟩ := gdtInit_flat symbols s hlevel
  obtain ⟨hstacks, hlevel'⟩ := stacks_flat symbols tops started hflat hlevel0
  obtain ⟨-, -, hcode, hdata⟩ := hstacks.usable
  refine ⟨started, _, hinit, jump_to_ring3_eq hstacks hlevel' function_ptr esp, rfl, hcode, ?_, rfl,
    hstacks.task, hstacks.gdtr⟩
  intro selector hselector
  simp only [ring3Registers, List.mem_cons, List.not_mem_nil, or_false, or_self] at hselector
  rw [hselector]
  exact hdata

theorem start_reaches_ring3_switchedOn :
    ∃ started user, gdtInit sampleSymbols switchedOn.segmentation = some started ∧
      jump_to_ring3 sampleSymbols 0x1000 0x7000 (tssSetKernelStack 0x9000 started) =
        some (user, { eip := 0x1000, esp := 0x7000 }) ∧ user.level = 3 := by
  obtain ⟨started, user, hinit, hjump, hlevel, -⟩ :=
    start_reaches_ring3 sampleSymbols switchedOn.segmentation rfl [0x9000] 0x1000 0x7000
  exact ⟨started, user, hinit, hjump, hlevel⟩

end Runs

-- The task state's I/O map begins at the task state itself.
section Ports

-- The ports below 832 whose bits in the task state are set, apart from those that
-- share their bits with the kernel's stack pointer.
def closedPorts : List Nat := [68, 580, 608, 609, 611, 644, 676, 708, 740]

def userPort (stack : UInt32) (port : Nat) : Bool :=
  decide (port < 832) && decide (port ∉ closedPorts) &&
    !(decide (port / 32 = 1) && stack.toNat.testBit (port % 32))

theorem closedPorts_eq : ∀ port < 832, port / 32 ≠ 1 →
    (writeTSSEntry 0x10 0).words[port / 32]?.map (fun word => word.toNat.testBit (port % 32)) =
      some (decide (port ∈ closedPorts)) := by decide +kernel

theorem taskBit_eq (stack : UInt32) (port : Nat) (hport : port < 832) :
    ∃ word, (writeTSSEntry 0x10 stack).words[port / 32]? = some word ∧
      word.toNat.testBit (port % 32) = !userPort stack port := by
  have hset : (writeTSSEntry 0x10 stack).words = (writeTSSEntry 0x10 0).words.set 1 stack := rfl
  by_cases hstack : port / 32 = 1
  · have hopen : port ∉ closedPorts := by
      simp only [closedPorts, List.mem_cons, List.not_mem_nil, or_false]
      omega
    refine ⟨stack, by rw [hset, hstack]; rfl, ?_⟩
    simp [userPort, hport, hopen, hstack]
  · obtain ⟨word, hword, hbit⟩ := Option.map_eq_some_iff.mp (closedPorts_eq port hport hstack)
    refine ⟨word, by rw [hset, List.getElem?_set_ne (Ne.symm hstack), hword], ?_⟩
    simp [hbit, userPort, hport, hstack]

theorem Flat.ioAllowed {symbols : Symbols} {s : Segmentation} (h : Flat symbols s)
    (vectors : Nat → Nat) (limit port : Nat) :
    (s.tables symbols vectors limit).ioAllowed s.task port 1 =
      userPort s.tss_entry.esp0 port := by
  have hmap : load16 (s.tables symbols vectors limit).memory (symbols.tss_entry.toNat + 102) =
      0 := by
    have hlast : s.tss_entry.words[25]? = some 0 := by
      have hzero : (0 : UInt16).toUInt32 ||| (0 : UInt16).toUInt32 <<< 16 = 0 := by decide
      rw [h.tss_entry]
      exact congrArg some hzero
    have hword := load_task symbols s vectors limit 25 0 hlast
    rw [show symbols.tss_entry.toNat + 102 = symbols.tss_entry.toNat + 4 * 25 + 2 from rfl,
      ← load32_div_65536, hword]
    rfl
  rw [Tables.ioAllowed, h.task]
  dsimp only
  rw [hmap, Nat.zero_add]
  by_cases hport : port < 832
  · obtain ⟨word, hword, hbit⟩ := taskBit_eq s.tss_entry.esp0 port hport
    rw [← h.tss_entry] at hword
    have hload := load_task symbols s vectors limit (port / 32) word hword
    have hfield : (field (port % 32) 1 word.toNat == 0) = userPort s.tss_entry.esp0 port := by
      have hiff := field_one_eq_one_iff (port % 32) word.toNat
      have hlt := field_lt (port % 32) 1 word.toNat
      rw [hbit] at hiff
      cases hopen : userPort s.tss_entry.esp0 port with
      | true =>
          rw [hopen] at hiff
          have hne : field (port % 32) 1 word.toNat ≠ 1 := fun he => by simpa using hiff.mp he
          exact beq_iff_eq.mpr (by omega)
      | false =>
          rw [hopen] at hiff
          rw [hiff.mpr rfl]
          rfl
    rw [field_memory, hload, hfield, decide_eq_true (by omega), Bool.true_and]
  · rw [decide_eq_false (by omega), Bool.false_and, userPort, decide_eq_false hport]
    rfl

-- A program in ring 3 may use every port below 832 whose bit in the task state is
-- clear, and no port from there on.
theorem ring3_ports (symbols : Symbols) (stubs : Stubs) (p : Platform)
    (hlevel : p.segmentation.level = 0) (hpit : p.code.memory.pit.pit_initialized = false)
    (calls : List TableCall) :
    ∃ started, start symbols stubs p = some started ∧
      ∀ port : UInt16,
        ((calls.foldl (fun p call => call.run p) started).tables symbols).ioAllowed
            (calls.foldl (fun p call => call.run p) started).segmentation.task port.toNat 1 =
          userPort (kernelStack symbols.kernel_stack_top calls) port.toNat := by
  obtain ⟨started, hstart, hflat, hstack, -⟩ :=
    started_interrupt symbols stubs p hlevel hpit calls
  refine ⟨started, hstart, fun port => ?_⟩
  rw [Platform.tables, hflat.ioAllowed, hstack]

theorem ring3_ports_switchedOn :
    ∃ started, start sampleSymbols sampleStubs switchedOn = some started ∧
      ∀ port : UInt16,
        (started.tables sampleSymbols).ioAllowed started.segmentation.task port.toNat 1 =
          userPort 0x8000 port.toNat :=
  ring3_ports sampleSymbols sampleStubs switchedOn rfl rfl []

-- The timer, the keyboard controller, the second interrupt controller and the
-- disk, with every stack.
example (stack : UInt32) :
    ∀ port ∈ [0x40, 0x43, 0x60, 0x64, 0xA0, 0xA1, 0x1F0, 0x1F7], userPort stack port = true := by
  simp [userPort, closedPorts]

end Ports

end PalleyOS.Gdt
