import PalleyOS.Machine.Protection

namespace PalleyOS.Gdt

open Machine

section Entries

def GDT_4KB : BitVec 1 := 1

structure GDTEntry where
  limit_low : BitVec 16
  base_low : BitVec 24
  accessed : BitVec 1
  read_write : BitVec 1
  direction_conforming : BitVec 1
  executable : BitVec 1
  type : BitVec 1
  privilege : BitVec 2
  present : BitVec 1
  limit_high : BitVec 4
  available : BitVec 1
  long_mode : BitVec 1
  sz : BitVec 1
  granularity : BitVec 1
  base_high : BitVec 8
  deriving DecidableEq

structure GDTPtr where
  limit : UInt16
  base : UInt32
  deriving DecidableEq

structure TSSEntry where
  prev_tss : UInt32
  esp0 : UInt32
  ss0 : UInt32
  esp1 : UInt32
  ss1 : UInt32
  esp2 : UInt32
  ss2 : UInt32
  cr3 : UInt32
  eip : UInt32
  eflags : UInt32
  eax : UInt32
  ecx : UInt32
  edx : UInt32
  ebx : UInt32
  esp : UInt32
  ebp : UInt32
  esi : UInt32
  edi : UInt32
  es : UInt32
  cs : UInt32
  ss : UInt32
  ds : UInt32
  fs : UInt32
  gs : UInt32
  ldtr : UInt32
  trap : UInt16
  iomap_base : UInt16
  deriving DecidableEq

-- The eight bytes of a packed entry.
def GDTEntry.image (entry : GDTEntry) : Nat :=
  pack [(16, entry.limit_low.toNat), (24, entry.base_low.toNat), (1, entry.accessed.toNat),
    (1, entry.read_write.toNat), (1, entry.direction_conforming.toNat),
    (1, entry.executable.toNat), (1, entry.type.toNat), (2, entry.privilege.toNat),
    (1, entry.present.toNat), (4, entry.limit_high.toNat), (1, entry.available.toNat),
    (1, entry.long_mode.toNat), (1, entry.sz.toNat), (1, entry.granularity.toNat),
    (8, entry.base_high.toNat)]

-- The words of a packed task state, whose last two fields share one.
def TSSEntry.words (tss : TSSEntry) : List UInt32 :=
  [tss.prev_tss, tss.esp0, tss.ss0, tss.esp1, tss.ss1, tss.esp2, tss.ss2, tss.cr3, tss.eip,
    tss.eflags, tss.eax, tss.ecx, tss.edx, tss.ebx, tss.esp, tss.ebp, tss.esi, tss.edi, tss.es,
    tss.cs, tss.ss, tss.ds, tss.fs, tss.gs, tss.ldtr,
    tss.trap.toUInt32 ||| tss.iomap_base.toUInt32 <<< 16]

def sizeofTSSEntry : UInt32 := 104

def sizeofGDTEntry : UInt16 := 8

def zeroEntry : GDTEntry :=
  { limit_low := 0, base_low := 0, accessed := 0, read_write := 0, direction_conforming := 0
    executable := 0, type := 0, privilege := 0, present := 0, limit_high := 0, available := 0
    long_mode := 0, sz := 0, granularity := 0, base_high := 0 }

def zeroTSS : TSSEntry :=
  { prev_tss := 0, esp0 := 0, ss0 := 0, esp1 := 0, ss1 := 0, esp2 := 0, ss2 := 0, cr3 := 0
    eip := 0, eflags := 0, eax := 0, ecx := 0, edx := 0, ebx := 0, esp := 0, ebp := 0, esi := 0
    edi := 0, es := 0, cs := 0, ss := 0, ds := 0, fs := 0, gs := 0, ldtr := 0, trap := 0
    iomap_base := 0 }

def generateRing0CodeSegment : GDTEntry :=
  { zeroEntry with
    present := 1
    privilege := 0
    limit_low := 0xFFFF
    limit_high := 0xF
    base_low := 0
    base_high := 0
    granularity := GDT_4KB
    type := 1
    read_write := 1
    sz := 1
    executable := 1 }

def generateRing3CodeSegment : GDTEntry :=
  { zeroEntry with
    present := 1
    privilege := 3
    limit_low := 0xFFFF
    limit_high := 0xF
    base_low := 0
    base_high := 0
    granularity := GDT_4KB
    type := 1
    read_write := 1
    sz := 1
    executable := 1 }

-- `base` is the address of `tss_entry`.
def generateTSS (base : UInt32) : GDTEntry :=
  let limit := sizeofTSSEntry
  { zeroEntry with
    limit_low := BitVec.ofNat 16 limit.toNat
    base_low := BitVec.ofNat 24 base.toNat
    accessed := 1
    read_write := 0
    direction_conforming := 0
    executable := 1
    type := 0
    privilege := 3
    present := 1
    limit_high := BitVec.ofNat 4 ((limit &&& ((0xf : UInt32) <<< 16)) >>> 16).toNat
    available := 0
    granularity := 0
    base_high := BitVec.ofNat 8 ((base &&& ((0xff : UInt32) <<< 24)) >>> 24).toNat }

def writeTSSEntry (stack_segment : UInt16) (kernel_stack_ptr : UInt32) : TSSEntry :=
  { zeroTSS with
    ss0 := stack_segment.toUInt32
    esp0 := kernel_stack_ptr
    cs := 0x0b
    ss := 0x10
    ds := 0x10
    es := 0x10
    fs := 0x10
    gs := 0x10 }

end Entries

section Tables

-- The addresses the linker gives.
structure Symbols where
  GDT : UInt32
  tss_entry : UInt32
  kernel_stack_top : UInt32

structure SegmentRegisters where
  cs : Nat
  ds : Nat
  es : Nat
  fs : Nat
  gs : Nat
  ss : Nat
  deriving DecidableEq

-- The tables in memory, and the registers of the processor that belong to them.
-- `elsewhere` is the memory around the task state.
structure Segmentation where
  GDT : Nat → GDTEntry
  gp : GDTPtr
  tss_entry : TSSEntry
  elsewhere : Memory
  gdtr : GDTPtr
  level : Nat
  registers : SegmentRegisters
  task : Task

-- What the processor sees of the tables, with the interrupt table beside them.
def Segmentation.tables (symbols : Symbols) (s : Segmentation) (vectors : Nat → Nat)
    (vectors_limit : Nat) : Tables :=
  { memory := placed s.elsewhere symbols.tss_entry.toNat s.tss_entry.words
    gdt := fun i => (s.GDT i).image
    gdt_limit := s.gdtr.limit.toNat
    vectors := vectors
    vectors_limit := vectors_limit }

def gdtSetGate (num : Nat) (entry : GDTEntry) (s : Segmentation) : Segmentation :=
  { s with GDT := Function.update s.GDT num entry }

def tssSetKernelStack (stack : UInt32) (s : Segmentation) : Segmentation :=
  { s with tss_entry := { s.tss_entry with esp0 := stack } }

-- The loads of segment registers see no interrupt table. `none` is a fault.
def Segmentation.segments (symbols : Symbols) (s : Segmentation) : Tables :=
  s.tables symbols (fun _ => 0) 0

def loadDataRegisters (symbols : Symbols) (selector : Nat) (s : Segmentation) :
    Option Segmentation :=
  ((s.segments symbols).loadData s.level selector).map fun selector =>
    { s with
      registers := { s.registers with
        ds := selector
        es := selector
        fs := selector
        gs := selector } }

def gdtFlush (symbols : Symbols) (s : Segmentation) : Option Segmentation := do
  let s := { s with gdtr := s.gp }
  let cs ← (s.segments symbols).jump s.level 0x08
  let s := { s with registers := { s.registers with cs := cs } }
  let s ← loadDataRegisters symbols 0x10 s
  let ss ← (s.segments symbols).loadStack s.level 0x10
  return { s with registers := { s.registers with ss := ss } }

-- Loading the task register marks the entry as busy.
def tssFlush (symbols : Symbols) (s : Segmentation) : Option Segmentation := do
  let task ← (s.segments symbols).loadTask 0x2B
  return { gdtSetGate 5 { s.GDT 5 with read_write := 1 } s with task := task }

-- A register that differs from `gp` would be waited on forever.
def gdtInit (symbols : Symbols) (s : Segmentation) : Option Segmentation := do
  let s := gdtSetGate 0 zeroEntry s
  let s := gdtSetGate 1 generateRing0CodeSegment s
  let s := gdtSetGate 2 { generateRing0CodeSegment with executable := 0 } s
  let s := gdtSetGate 3 generateRing3CodeSegment s
  let s := gdtSetGate 4 { generateRing3CodeSegment with executable := 0 } s
  let s := gdtSetGate 5 (generateTSS symbols.tss_entry) s
  let s := { s with tss_entry := writeTSSEntry 0x10 symbols.kernel_stack_top }
  let s := { s with gp := { limit := sizeofGDTEntry * 6 - 1, base := symbols.GDT } }
  let s ← gdtFlush symbols s
  let s ← tssFlush symbols s
  if s.gdtr.limit = 0 ∨ s.gdtr.base ≠ s.gp.base then none else some s

-- The general-purpose registers that take part in the change to ring 3.
structure Ring3Entry where
  eip : UInt32
  esp : UInt32

-- `SYSENTER_CS` is the register that `wrmsr` sets. The instruction takes the code
-- segment two entries behind it, and the stack segment one behind that.
def sysexit (SYSENTER_CS edx ecx : UInt32) (s : Segmentation) :
    Option (Segmentation × Ring3Entry) :=
  if SYSENTER_CS.toNat % 65536 / 4 = 0 ∨ s.level ≠ 0 then none
  else
    let cs := (SYSENTER_CS.toNat % 65536 + 16) / 4 * 4 + 3
    some ({ s with level := 3, registers := { s.registers with cs := cs, ss := cs + 8 } },
      { eip := edx, esp := ecx })

-- `esp` is the stack pointer at the entry, where the return address is.
def jump_to_ring3 (symbols : Symbols) (function_ptr esp : UInt32) (s : Segmentation) :
    Option (Segmentation × Ring3Entry) := do
  let s ← loadDataRegisters symbols 0x23 s
  sysexit 0x100008 function_ptr esp s

end Tables

end PalleyOS.Gdt
