import PalleyOS.Gdt
import PalleyOS.Idt.Init

namespace PalleyOS.Gdt

open Machine

section Descriptors

-- All addresses, for one privilege level.
def flat (executable : Bool) (privilege : Nat) : Descriptor :=
  { base := 0
    limit := 0xFFFFF
    accessed := false
    read_write := true
    conforming := false
    executable := executable
    ordinary := true
    privilege := privilege
    present := true
    wide := true
    pages := true }

def taskState (base : Nat) (busy : Bool) : Descriptor :=
  { base := base
    limit := 104
    accessed := true
    read_write := busy
    conforming := false
    executable := true
    ordinary := false
    privilege := 3
    present := true
    wide := false
    pages := false }

-- The processor takes apart what the packed record puts together.
theorem decode_image (entry : GDTEntry) :
    Descriptor.decode entry.image =
      { base := entry.base_low.toNat + 2 ^ 24 * entry.base_high.toNat
        limit := entry.limit_low.toNat + 2 ^ 16 * entry.limit_high.toNat
        accessed := entry.accessed.toNat = 1
        read_write := entry.read_write.toNat = 1
        conforming := entry.direction_conforming.toNat = 1
        executable := entry.executable.toNat = 1
        ordinary := entry.type.toNat = 1
        privilege := entry.privilege.toNat
        present := entry.present.toNat = 1
        wide := entry.sz.toNat = 1
        pages := entry.granularity.toNat = 1 } := by
  have hmod (width : Nat) (value : BitVec width) : value.toNat % 2 ^ width = value.toNat :=
    Nat.mod_eq_of_lt value.isLt
  simp (disch := decide) only [Descriptor.decode, GDTEntry.image, field_later, Nat.reduceSub,
    field_first, hmod]

theorem decode_generateTSS (base : UInt32) (busy : BitVec 1) :
    Descriptor.decode ({ generateTSS base with read_write := busy } : GDTEntry).image =
      taskState base.toNat (busy.toNat = 1) := by
  have hbase : base.toNat % 2 ^ 24 +
      2 ^ 24 * (((base &&& ((0xff : UInt32) <<< 24)) >>> 24).toNat % 2 ^ 8) = base.toNat := by
    have hlt := base.toNat_lt
    rw [UInt32.toNat_shiftRight, UInt32.toNat_and,
      show (24 : UInt32).toNat % 32 = 24 from rfl, Nat.shiftRight_and_distrib,
      show ((0xff : UInt32) <<< 24).toNat >>> 24 = 2 ^ 8 - 1 from rfl,
      Nat.and_two_pow_sub_one_eq_mod, Nat.mod_mod, Nat.shiftRight_eq_div_pow]
    omega
  rw [decode_image]
  simp only [generateTSS, BitVec.toNat_ofNat, hbase, taskState]
  rfl

theorem decode_flat :
    zeroEntry.image = 0 ∧
    Descriptor.decode generateRing0CodeSegment.image = flat true 0 ∧
    Descriptor.decode ({ generateRing0CodeSegment with executable := 0 } : GDTEntry).image =
      flat false 0 ∧
    Descriptor.decode generateRing3CodeSegment.image = flat true 3 ∧
    Descriptor.decode ({ generateRing3CodeSegment with executable := 0 } : GDTEntry).image =
      flat false 3 := by decide

end Descriptors

-- The tables as `gdtInit` leaves them.
section Tables

structure Flat (symbols : Symbols) (s : Segmentation) : Prop where
  null : (s.GDT 0).image = 0
  ring0_code : Descriptor.decode (s.GDT 1).image = flat true 0
  ring0_data : Descriptor.decode (s.GDT 2).image = flat false 0
  ring3_code : Descriptor.decode (s.GDT 3).image = flat true 3
  ring3_data : Descriptor.decode (s.GDT 4).image = flat false 3
  task_state : Descriptor.decode (s.GDT 5).image = taskState symbols.tss_entry.toNat true
  gdtr : s.gdtr = { limit := 47, base := symbols.GDT }
  task : s.task = { base := symbols.tss_entry.toNat, limit := 104 }
  tss_entry : s.tss_entry = writeTSSEntry 0x10 s.tss_entry.esp0

def ring0Registers : SegmentRegisters :=
  { cs := 0x08, ds := 0x10, es := 0x10, fs := 0x10, gs := 0x10, ss := 0x10 }

def ring3Registers : SegmentRegisters :=
  { cs := 0x1B, ds := 0x23, es := 0x23, fs := 0x23, gs := 0x23, ss := 0x23 }

theorem gdtFlush_eq (symbols : Symbols) (s : Segmentation) (hlevel : s.level = 0)
    (hlimit : s.gp.limit = 47) (hcode : Descriptor.decode (s.GDT 1).image = flat true 0)
    (hdata : Descriptor.decode (s.GDT 2).image = flat false 0) :
    gdtFlush symbols s = some { s with gdtr := s.gp, registers := ring0Registers } := by
  let tables := Segmentation.segments symbols { s with gdtr := s.gp }
  have hlast : tables.gdt_limit = 47 := congrArg UInt16.toNat hlimit
  have hcs : tables.descriptor 0x08 = some (flat true 0) :=
    Tables.descriptor_eq (by decide) (by decide) (by rw [hlast]; decide) hcode
  have hds : tables.descriptor 0x10 = some (flat false 0) :=
    Tables.descriptor_eq (by decide) (by decide) (by rw [hlast]; decide) hdata
  have hjump : tables.jump s.level 0x08 = some 0x08 := by
    rw [Tables.jump, hcs, hlevel]
    rfl
  have hload : tables.loadData s.level 0x10 = some 0x10 := by
    rw [Tables.loadData, hds, hlevel]
    rfl
  have hstack : tables.loadStack s.level 0x10 = some 0x10 := by
    rw [Tables.loadStack, hds, hlevel]
    rfl
  simp only [tables, Segmentation.segments, Segmentation.tables] at hjump hload hstack
  simp only [gdtFlush, loadDataRegisters, Segmentation.segments, Segmentation.tables, hjump, hload,
    hstack, bind, Option.bind_some, Option.map_some, pure]
  rfl

theorem tssFlush_eq (symbols : Symbols) (s : Segmentation) (hlimit : s.gdtr.limit = 47)
    (hgate : s.GDT 5 = generateTSS symbols.tss_entry) :
    tssFlush symbols s =
      some { gdtSetGate 5 { generateTSS symbols.tss_entry with read_write := 1 } s with
        task := { base := symbols.tss_entry.toNat, limit := 104 } } := by
  have hlast : (s.segments symbols).gdt_limit = 47 := congrArg UInt16.toNat hlimit
  have hdecode : Descriptor.decode (s.GDT 5).image = taskState symbols.tss_entry.toNat false := by
    rw [hgate]
    exact decode_generateTSS symbols.tss_entry 0
  have htr : (s.segments symbols).descriptor 0x2B =
      some (taskState symbols.tss_entry.toNat false) :=
    Tables.descriptor_eq (by decide) (by decide) (by rw [hlast]) hdecode
  have hload : (s.segments symbols).loadTask 0x2B =
      some { base := symbols.tss_entry.toNat, limit := 104 } := by
    rw [Tables.loadTask, htr]
    rfl
  simp only [tssFlush, hload, bind, Option.bind_some, pure, hgate]

-- Wherever the linker puts the tables, the start is through without a fault.
theorem gdtInit_flat (symbols : Symbols) (s : Segmentation) (hlevel : s.level = 0) :
    ∃ started, gdtInit symbols s = some started ∧ Flat symbols started ∧ started.level = 0 ∧
      started.registers = ring0Registers ∧
      started.tss_entry.esp0 = symbols.kernel_stack_top := by
  let filled : Segmentation :=
    { gdtSetGate 5 (generateTSS symbols.tss_entry)
        (gdtSetGate 4 { generateRing3CodeSegment with executable := 0 }
          (gdtSetGate 3 generateRing3CodeSegment
            (gdtSetGate 2 { generateRing0CodeSegment with executable := 0 }
              (gdtSetGate 1 generateRing0CodeSegment (gdtSetGate 0 zeroEntry s))))) with
      tss_entry := writeTSSEntry 0x10 symbols.kernel_stack_top
      gp := { limit := sizeofGDTEntry * 6 - 1, base := symbols.GDT } }
  obtain ⟨hnull, hcode0, hdata0, hcode3, hdata3⟩ := decode_flat
  have hflush := gdtFlush_eq symbols filled hlevel rfl hcode0 hdata0
  have htss := tssFlush_eq symbols
    { filled with gdtr := filled.gp, registers := ring0Registers } rfl rfl
  have hinit : gdtInit symbols s =
      (gdtFlush symbols filled).bind fun s => (tssFlush symbols s).bind fun s =>
        if s.gdtr.limit = 0 ∨ s.gdtr.base ≠ s.gp.base then none else some s := rfl
  rw [hinit, hflush, Option.bind_some, htss, Option.bind_some, if_neg (by simp [gdtSetGate, filled]; decide)]
  refine ⟨_, rfl, ⟨hnull, hcode0, hdata0, hcode3, hdata3, ?_, rfl, rfl, rfl⟩, hlevel, rfl, rfl⟩
  exact decode_generateTSS symbols.tss_entry 1

end Tables

section Stack

theorem load_task (symbols : Symbols) (s : Segmentation) (vectors : Nat → Nat) (limit i : Nat)
    (word : UInt32) (hword : s.tss_entry.words[i]? = some word) :
    load32 (s.tables symbols vectors limit).memory (symbols.tss_entry.toNat + 4 * i) = word.toNat :=
  Holds.load _ _ _ i word hword (placed_holds _ _ _ (by simp [TSSEntry.words]))

-- A more privileged level gets the stack of the task state.
theorem Flat.stackFor {symbols : Symbols} {s : Segmentation} (h : Flat symbols s)
    (vectors : Nat → Nat) (limit : Nat) :
    (s.tables symbols vectors limit).stackFor s.task 0 =
      some (0x10, s.tss_entry.esp0.toNat) := by
  have hesp : load32 (s.tables symbols vectors limit).memory (symbols.tss_entry.toNat + 4) =
      s.tss_entry.esp0.toNat := load_task symbols s vectors limit 1 _ rfl
  have hss : load16 (s.tables symbols vectors limit).memory (symbols.tss_entry.toNat + 8) =
      0x10 := by
    have hword := load_task symbols s vectors limit 2 s.tss_entry.ss0 rfl
    rw [h.tss_entry] at hword
    rw [← load32_mod_65536]
    exact congrArg (· % 65536) hword
  have hlimit : s.gdtr.limit.toNat = 47 := by rw [h.gdtr]; rfl
  have hdata : (s.tables symbols vectors limit).descriptor 0x10 = some (flat false 0) :=
    Tables.descriptor_eq (by decide) (by decide) (by change 23 ≤ s.gdtr.limit.toNat; omega)
      h.ring0_data
  rw [Tables.stackFor, h.task]
  dsimp only
  rw [if_neg (by decide), hss, hesp, Tables.loadStack, hdata]
  rfl

end Stack

-- Interrupts through the two tables together.
section Interrupts

-- The eight bytes of a packed interrupt entry.
def idtImage (entry : IDTEntry) : Nat :=
  pack [(16, entry.offset_low.toNat), (16, entry.selector.toNat), (8, entry.zero.toNat),
    (8, entry.type_attr.toNat), (16, entry.offset_high.toNat)]

theorem decode_idtImage (entry : IDTEntry) :
    VectorGate.decode (idtImage entry) =
      { offset := entry.decode.offset
        selector := entry.decode.selector
        present := entry.decode.present
        privilege := entry.decode.privilege
        ordinary := entry.decode.system
        gate_type := entry.decode.gate_type } := by
  have hlow := Nat.mod_eq_of_lt entry.offset_low.toNat_lt
  have hhigh := Nat.mod_eq_of_lt entry.offset_high.toNat_lt
  have hselector := Nat.mod_eq_of_lt entry.selector.toNat_lt
  have hattr : field 40 8 (idtImage entry) = entry.type_attr.toNat := by
    have hmod := Nat.mod_eq_of_lt entry.type_attr.toNat_lt
    simp (disch := decide) only [idtImage, field_later, Nat.reduceSub, field_first, hmod]
  have htype : field 40 4 (idtImage entry) = entry.type_attr.toNat % 16 := by
    rw [← hattr, field_field 40 8 0 4 _ (by decide) |>.symm]
    rw [field, Nat.pow_zero, Nat.div_one]
    rfl
  have hprivilege : field 45 2 (idtImage entry) = entry.type_attr.toNat / 32 % 4 := by
    rw [← hattr, ← field_field 40 8 5 2 _ (by decide)]
    rfl
  have hbit (b : Nat) (hb : b + 1 ≤ 8) :
      decide (field (40 + b) 1 (idtImage entry) = 1) = entry.type_attr.toNat.testBit b := by
    rw [← field_field 40 8 b 1 _ hb, hattr]
    exact Bool.eq_iff_iff.mpr (decide_eq_true_iff.trans (field_one_eq_one_iff b _))
  have hpresent := hbit 7 (by decide)
  have hsystem := hbit 4 (by decide)
  rw [VectorGate.decode, htype, hprivilege, hpresent, hsystem, IDTEntry.decode]
  simp (disch := decide) only [idtImage, field_later, Nat.reduceSub, field_first, hlow, hhigh,
    hselector]
  rw [Nat.mul_comm, Nat.add_comm]
  rfl

-- What a registration is for: its handler in ring 0, on the stack of the task
-- state unless the processor is in ring 0 already.
def entrance (r : Registration) (stack : UInt32) (level : Nat) (software : Bool) : Delivery :=
  if r.gate_type = .TASK_GATE ∨ software = true ∧ (r.desc_level : Nat) < level then
    .faults .generalProtection
  else
    .enters 0x08
      (if r.gate_type = .INTERRUPT_GATE_16 ∨ r.gate_type = .TRAP_GATE_16 then
        r.func_ptr.toNat % 2 ^ 16 else r.func_ptr.toNat)
      (if level = 0 then none else some (0x10, stack.toNat))
      (r.gate_type = .INTERRUPT_GATE_16 ∨ r.gate_type = .INTERRUPT_GATE_32)

theorem enterThrough_flat {symbols : Symbols} {s : Segmentation} (h : Flat symbols s)
    (vectors : Nat → Nat) (limit level : Nat) (gate : VectorGate) (hgate : gate.selector = 0x08) :
    (s.tables symbols vectors limit).enterThrough s.task level gate =
      .enters 0x08
        (if gate.gate_type = 6 ∨ gate.gate_type = 7 then gate.offset % 2 ^ 16 else gate.offset)
        (if level = 0 then none else some (0x10, s.tss_entry.esp0.toNat))
        (gate.gate_type = 6 ∨ gate.gate_type = 14) := by
  have hlimit : s.gdtr.limit.toNat = 47 := by rw [h.gdtr]; rfl
  have hcode : (s.tables symbols vectors limit).descriptor 0x08 = some (flat true 0) :=
    Tables.descriptor_eq (by decide) (by decide) (by change 15 ≤ s.gdtr.limit.toNat; omega)
      h.ring0_code
  rw [Tables.enterThrough, hgate, hcode]
  by_cases hlevel : level = 0
  · subst level
    rfl
  · have hne : ¬((flat true 0).conforming = true ∨ (flat true 0).privilege = level) := by
      rintro (hconforming | hprivilege)
      · cases hconforming
      · exact hlevel hprivilege.symm
    dsimp only
    rw [if_neg (by simp [flat, Descriptor.isCode]), if_neg (by simp [flat]), if_neg hne,
      show (flat true 0).privilege = 0 from rfl, h.stackFor]
    rw [if_neg hlevel]

theorem gateType_value (gate_type : GateType) (h : gate_type ≠ .TASK_GATE) :
    gate_type.value.toNat ∈ [6, 7, 14, 15] := by
  cases gate_type with
  | TASK_GATE => exact absurd rfl h
  | INTERRUPT_GATE_16 | TRAP_GATE_16 | INTERRUPT_GATE_32 | TRAP_GATE_32 => decide

theorem gateType_value_iff (gate_type : GateType) :
    (gate_type.value.toNat = 6 ↔ gate_type = .INTERRUPT_GATE_16) ∧
    (gate_type.value.toNat = 7 ↔ gate_type = .TRAP_GATE_16) ∧
    (gate_type.value.toNat = 14 ↔ gate_type = .INTERRUPT_GATE_32) := by
  cases gate_type <;> decide

theorem deliver_of_entry {symbols : Symbols} {s : Segmentation} (h : Flat symbols s)
    (vectors : Nat → Nat) (level vector : Nat) (hvector : vector < 256) (software : Bool)
    (r : Registration) (hentry : vectors vector = idtImage r.entry) :
    (s.tables symbols vectors 2047).deliver s.task level software vector =
      entrance r s.tss_entry.esp0 level software := by
  have hdecode := decode_idtImage r.entry
  rw [← hentry] at hdecode
  by_cases htask : r.gate_type = .TASK_GATE
  · -- The bit that the source sets for task gates makes the entry an invalid one.
    have hsystem := (attributes_decode r).system
    rw [htask] at hsystem
    rw [Tables.deliver_invalid hdecode (.inl hsystem), entrance, if_pos (.inl htask)]
  · rw [(entry_decode_iff r).mpr htask] at hdecode
    obtain ⟨hinterrupt16, htrap16, hinterrupt32⟩ := gateType_value_iff r.gate_type
    have hlast : vector * 8 + 7 ≤ 2047 := by omega
    rw [Tables.deliver_gate hlast hdecode rfl rfl (gateType_value r.gate_type htask),
      enterThrough_flat h vectors 2047 level _ rfl, entrance]
    by_cases hlevel : software = true ∧ (r.desc_level : Nat) < level
    · exact (if_pos hlevel).trans (if_pos (.inr hlevel)).symm
    · refine (if_neg hlevel).trans ?_
      rw [if_neg (not_or.mpr ⟨htask, hlevel⟩)]
      simp only [← hinterrupt16, ← htrap16, ← hinterrupt32]
      rfl

end Interrupts

end PalleyOS.Gdt
