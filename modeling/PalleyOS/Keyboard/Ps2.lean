import PalleyOS.Kernel

namespace PalleyOS.Keyboard

def PS2 : UInt16 := 0x60
def PS2_COMMAND : UInt16 := 0x64
def ACK : UInt8 := 0xFA
def RESEND : UInt8 := 0xFE
def SCAN_CODE : UInt8 := 0xF0
def ECHO : UInt8 := 0xEE

section Commands

-- The loop of `ps2SendSubCommand` from here on, `remaining` reads at most.
def awaitAck : Nat → Code → Option UInt8 × Code
  | 0, t => (none, t)
  | remaining + 1, t =>
      let (ret, t) := inb t
      if ret = ACK ∨ ret = ECHO then (some ret, t) else awaitAck remaining t

-- The interrupts stay off when nothing acknowledges the command.
def awaitAnswer (t : Code) : UInt8 × Code :=
  match awaitAck 10 t with
  | (none, t) => (1, t)
  | (some ret, t) => (ret, sti t)

def ps2SendSubCommand (command : UInt8) (subcommand : Int8) (t : Code) : UInt8 × Code :=
  let t := cli t
  let t := outb PS2 command t
  let t := if subcommand ≥ 0 then outb PS2 subcommand.toUInt8 t else t
  awaitAnswer t

def ps2SendDevCommand (command : UInt8) (t : Code) : UInt8 × Code :=
  ps2SendSubCommand command (-1) t

def ps2SetKeyset (set_num : UInt8) (t : Code) : Bool × Code :=
  let (ret, t) := ps2SendSubCommand 0xF0 set_num.toInt8 t
  (ret != RESEND, t)

-- The loop of `ps2GetKeyset` from here on, `ret` being its last byte.
def awaitKeyset : Nat → UInt8 → Code → UInt8 × Code
  | 0, ret, t => (ret, t)
  | remaining + 1, _, t =>
      let (ret, t) := inb t
      if ret ≠ RESEND then (ret, t) else awaitKeyset remaining ret t

def ps2GetKeyset (t : Code) : Int8 × Code :=
  let (ret, t) := ps2SendSubCommand SCAN_CODE 0 t
  if ret = ACK then
    let (scancode_set, t) := awaitKeyset 10 0 t
    (scancode_set.toInt8, t)
  else (-1, t)

-- The loop of `ps2SendCommand` from here on.
def awaitOutput : Nat → Code → Bool × Code
  | 0, t => (false, t)
  | remaining + 1, t =>
      let (status, t) := inb t
      if status &&& 1 ≠ 0 then (true, t) else awaitOutput remaining t

def ps2SendCommand (comm : UInt8) (returns : Bool) (t : Code) : UInt8 × Code :=
  let t := outb PS2_COMMAND comm t
  if returns = false then (0xff, t)
  else
    let (out_buff_status, t) := awaitOutput 10 t
    if out_buff_status then inb t else (0xff, t)

end Commands

section Initialisation

def ps2Init (t : Code) : Code :=
  let (_, t) := ps2SendCommand 0xAD false t
  let (_, t) := ps2SendCommand 0xA7 false t
  let (_, t) := inb t
  let (ccb, t) := ps2SendCommand 0x20 true t
  let t := outb 0x64 0x60 t
  let t := outb 0x60 (ccb &&& ~~~((1 : UInt8) <<< 6) ||| 3) t
  let (_, t) := ps2SendCommand 0xAA true t
  let (_, t) := ps2SendCommand 0xAB true t
  let (_, t) := ps2SendCommand 0xA9 true t
  let (_, t) := ps2SendCommand 0xAE false t
  let (_, t) := ps2SendCommand 0xA8 false t
  let (_, t) := ps2SendDevCommand 0xff t
  let t := outb 0x21 0xfc t
  outb 0xa1 0xff t

-- `ps2SendSubCommand` returns 1 when nothing acknowledges the command.
def kbInit (t : Code) : Code :=
  let t := cli t
  let t := ps2Init t
  let (echo, t) := ps2SendDevCommand ECHO t
  if echo ≠ 1 then
    let (_, t) := ps2SetKeyset 1 t
    let (_, t) := ps2GetKeyset t
    let t := store (fun kernel =>
      { kernel with keyboard := { kernel.keyboard with keyboard_initialized := true } }) t
    sti t
  else t

end Initialisation

end PalleyOS.Keyboard
