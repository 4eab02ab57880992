import PalleyOS.Idt
import PalleyOS.Machine.Interrupts

namespace PalleyOS

open Machine

-- What the devices answer to the port reads ahead and what was sent to them.
structure IoPorts where
  responses : Stream' UInt8
  sent : List (UInt16 × UInt8)

structure PITCounter where
  active : Bool
  count : UInt32
  deriving DecidableEq

def PIT_NUM_COUNTERS : Nat := 50

inductive PITEvent where
  | tick
  | added (counter_id : Nat)
  | deactivated (counter_id : Nat)
  | reset (counter_id : Nat)
  deriving DecidableEq

-- `history` only records what happened to the counters, the latest event first.
structure Pit where
  pit_initialized : Bool
  frequency : Int32
  pit_counters : Nat → PITCounter
  sleep_counter : Int32
  history : List PITEvent

structure KeyboardState where
  key_states : UInt8 → Bool
  scancode_queue : UInt8 → UInt8
  queue_widx : UInt8
  queue_ridx : UInt8
  keyboard_initialized : Bool

-- `PITIRQHandler` is the address the linker gives the handler.
structure Kernel where
  ports : IoPorts
  idt : Idt
  pit : Pit
  keyboard : KeyboardState
  PITIRQHandler : UInt32

-- The byte that the keyboard's handler reads from its port comes with the interrupt.
inductive Interrupt where
  | timer
  | keyboard (scan_code : UInt8)
  deriving DecidableEq

section Handlers

def IoPorts.out (port : UInt16) (value : UInt8) (ports : IoPorts) : IoPorts :=
  { ports with sent := ports.sent ++ [(port, value)] }

def sendEndOfInterrupt (ports : IoPorts) : IoPorts := (ports.out 0x20 0x20).out 0xa0 0x20

-- The loop of `PITIRQ`, each of whose rounds is about one counter alone.
def tickCounters (counters : Nat → PITCounter) (i : Nat) : PITCounter :=
  let counter := counters i
  if i < PIT_NUM_COUNTERS ∧ counter.active = true then { counter with count := counter.count + 1 }
  else counter

def tickPit (pit : Pit) : Pit :=
  { pit with
    pit_counters := tickCounters pit.pit_counters
    sleep_counter := if pit.sleep_counter > 0 then pit.sleep_counter - 1 else pit.sleep_counter
    history := .tick :: pit.history }

def PITIRQ (kernel : Kernel) : Kernel :=
  { kernel with pit := tickPit kernel.pit, ports := sendEndOfInterrupt kernel.ports }

def keyboardInterruptHandler (scan_code : UInt8) (kernel : Kernel) : Kernel :=
  { kernel with
    keyboard := { kernel.keyboard with
      scancode_queue := Function.update kernel.keyboard.scancode_queue
        kernel.keyboard.queue_widx scan_code
      queue_widx := kernel.keyboard.queue_widx + 1 }
    ports := sendEndOfInterrupt kernel.ports }

def isr : Interrupt → Kernel → Kernel
  | .timer => PITIRQ
  | .keyboard scan_code => keyboardInterruptHandler scan_code

end Handlers

section Instructions

abbrev Code := Thread Kernel Interrupt

variable {α : Type}

def load (f : Kernel → α) (t : Code) : α × Code := t.read isr f

def store (f : Kernel → Kernel) (t : Code) : Code := t.write isr f

def inb (t : Code) : UInt8 × Code :=
  t.access isr (fun kernel =>
    (kernel.ports.responses.head,
      { kernel with ports := { kernel.ports with responses := kernel.ports.responses.tail } }))

def outb (port : UInt16) (value : UInt8) (t : Code) : Code :=
  store (fun kernel => { kernel with ports := kernel.ports.out port value }) t

def cli (t : Code) : Code := Thread.cli isr t

def sti (t : Code) : Code := Thread.sti isr t

def idt_add_isr (offset : UInt8) (func_ptr : UInt32) (desc_level gate_type : UInt8) (t : Code) :
    Code :=
  let t := cli t
  let t := store (fun kernel =>
    { kernel with
      idt := addIsrToIdt offset func_ptr desc_level.toUInt32 gate_type.toUInt32 kernel.idt }) t
  let t := store (fun kernel => { kernel with idt := idtLoad kernel.idt }) t
  sti t

-- The timer is up, nothing has been called yet and a tick comes before each access.
def booted : Code :=
  { memory :=
      { ports := { responses := Stream'.const 0, sent := [] }
        idt :=
          { idt_entries := fun _ =>
              { offset_low := 0, selector := 0, zero := 0, type_attr := 0, offset_high := 0 }
            idt_info := { size := 2047, idt_addr := 0 }
            idtr := { size := 2047, idt_addr := 0 } }
        pit :=
          { pit_initialized := true
            frequency := 1000
            pit_counters := fun _ => { active := false, count := 0 }
            sleep_counter := 0
            history := [] }
        keyboard :=
          { key_states := fun _ => false
            scancode_queue := fun _ => 0
            queue_widx := 0
            queue_ridx := 0
            keyboard_initialized := true }
        PITIRQHandler := 0 }
    interrupts := true
    schedule := Stream'.const [.timer] }

end Instructions

end PalleyOS
