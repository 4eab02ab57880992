import Mathlib.Logic.Function.Basic

namespace PalleyOS

def TASK_GATE : UInt32 := 0x5
def INTERRUPT_GATE_16 : UInt32 := 0x6
def TRAP_GATE_16 : UInt32 := 0x7
def INTERRUPT_GATE_32 : UInt32 := 0xE
def TRAP_GATE_32 : UInt32 := 0xF

structure IDTEntry where
  offset_low : UInt16
  selector : UInt16
  zero : UInt8
  type_attr : UInt8
  offset_high : UInt16
  deriving DecidableEq

structure IDTInfo where
  size : UInt16
  idt_addr : UInt32
  deriving DecidableEq

-- `idtr` is the register that `lidt` sets.
structure Idt where
  idt_entries : UInt8 → IDTEntry
  idt_info : IDTInfo
  idtr : IDTInfo

def idtLoad (idt : Idt) : Idt := { idt with idtr := idt.idt_info }

-- An `int` of the source is its 32 bits.
def addIsrToIdt (num : UInt8) (func_ptr desc_level gate_type : UInt32) (idt : Idt) : Idt :=
  let type_attr : UInt8 := ((desc_level &&& 0x3) <<< 5 ||| (1 : UInt32) <<< 7).toUInt8
  let type_attr : UInt8 := type_attr ||| (gate_type &&& 0xf).toUInt8
  let type_attr : UInt8 :=
    if gate_type = INTERRUPT_GATE_16 ∨ gate_type = INTERRUPT_GATE_32 ∨
        gate_type = TRAP_GATE_16 ∨ gate_type = TRAP_GATE_32 then
      type_attr &&& ~~~((1 : UInt8) <<< 4)
    else type_attr ||| (1 : UInt8) <<< 4
  { idt with
    idt_entries := Function.update idt.idt_entries num
      { offset_low := (func_ptr &&& 0xffff).toUInt16
        selector := 0x08
        zero := 0
        type_attr := type_attr
        offset_high := ((func_ptr &&& 0xffff0000) >>> 16).toUInt16 } }

end PalleyOS
