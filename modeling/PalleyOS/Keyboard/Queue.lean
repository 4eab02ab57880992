import Mathlib.Logic.Function.Basic

namespace PalleyOS.Keyboard

-- Where the consumer stands between two instructions that touch the queue.
-- An interrupt can come before each of them. `slot` is the index that
-- `queue_ridx++` returned.
inductive Consumer where
  | poll
  | cli
  | wait
  | take
  | read (slot : UInt8)
  | takeE0
  | readE0 (slot : UInt8)
  | sti
  deriving DecidableEq

-- The two loops that read keys. Only `kbGetChar` masks interrupts around
-- `kbNextMappedKey`.
inductive Caller where
  | kbGetLine
  | kbGetChar
  deriving DecidableEq

-- `delivered` and `consumed` only record the bytes that went in and came out.
structure ScancodeQueue where
  scancode_queue : Nat → UInt8
  queue_widx : UInt8
  queue_ridx : UInt8
  interrupts : Bool
  consumer : Consumer
  delivered : List UInt8
  consumed : List UInt8

def initial : ScancodeQueue :=
  { scancode_queue := fun _ => 0
    queue_widx := 0
    queue_ridx := 0
    interrupts := true
    consumer := .poll
    delivered := []
    consumed := [] }

def keyboardInterruptHandler (queue : ScancodeQueue) (scan_code : UInt8) : ScancodeQueue :=
  { queue with
    scancode_queue := Function.update queue.scancode_queue queue.queue_widx.toNat scan_code
    queue_widx := queue.queue_widx + 1
    delivered := queue.delivered ++ [scan_code] }

-- After `kbNextMappedKey` returns, `kbGetChar` still has to run `sti`.
def Caller.resume : Caller → Consumer
  | .kbGetLine => .poll
  | .kbGetChar => .sti

def kbHasNewInput (queue : ScancodeQueue) : Bool := queue.queue_ridx != queue.queue_widx

-- One step of the calling loop, of `kbNextMappedKey` or of `handleE0Key`. What
-- they compute from the bytes is not shared with the interrupt handler.
def consumerStep (caller : Caller) (queue : ScancodeQueue) : ScancodeQueue :=
  match queue.consumer with
  | .poll =>
      if kbHasNewInput queue then
        { queue with consumer := match caller with | .kbGetLine => .wait | .kbGetChar => .cli }
      else queue
  | .cli => { queue with interrupts := false, consumer := .wait }
  | .wait => if kbHasNewInput queue then { queue with consumer := .take } else queue
  | .take =>
      { queue with
        queue_ridx := queue.queue_ridx + 1
        consumer := .read queue.queue_ridx }
  | .read slot =>
      let curr_code := queue.scancode_queue slot.toNat
      { queue with
        consumed := queue.consumed ++ [curr_code]
        consumer := if curr_code = 0xE0 then .takeE0 else caller.resume }
  -- `handleE0Key` takes its byte without looking at `queue_widx`.
  | .takeE0 =>
      { queue with
        queue_ridx := queue.queue_ridx + 1
        consumer := .readE0 queue.queue_ridx }
  | .readE0 slot =>
      { queue with
        consumed := queue.consumed ++ [queue.scancode_queue slot.toNat]
        consumer := caller.resume }
  | .sti => { queue with interrupts := true, consumer := .poll }

inductive Event where
  | interrupt (scan_code : UInt8)
  | consumer

def step (caller : Caller) (queue : ScancodeQueue) : Event → Option ScancodeQueue
  | .interrupt scan_code =>
      if queue.interrupts then some (keyboardInterruptHandler queue scan_code) else none
  | .consumer => some (consumerStep caller queue)

end PalleyOS.Keyboard
