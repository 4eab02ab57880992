import PalleyOS.Kernel

namespace PalleyOS.Timer

open Machine

def PIT_CHANNEL_0_DATA : UInt16 := 0x40
def PIT_COMMAND_REG : UInt16 := 0x43

inductive PITError where
  | PITNoError
  | PITCountersFull
  | PITOutOfRange
  deriving DecidableEq

-- One member of the union of `PITResult` at most is written. `done` is a success
-- without one.
inductive PITResult where
  | count (count : UInt32)
  | counter_id (counter_id : UInt8)
  | error (error : PITError)
  | done
  deriving DecidableEq

section Memory

def storePit (f : Pit → Pit) (t : Code) : Code :=
  store (fun kernel => { kernel with pit := f kernel.pit }) t

def setActive (i : Nat) (active : Bool) (pit : Pit) : Pit :=
  { pit with
    pit_counters := Function.update pit.pit_counters i
      { pit.pit_counters i with active := active }
    history := (if active then .added i else .deactivated i) :: pit.history }

def clearCount (i : Nat) (pit : Pit) : Pit :=
  { pit with
    pit_counters := Function.update pit.pit_counters i { pit.pit_counters i with count := 0 } }

def clearCounters (pit : Pit) : Pit :=
  { pit with
    pit_counters := fun i =>
      if i < PIT_NUM_COUNTERS then { active := false, count := 0 } else pit.pit_counters i }

end Memory

section Source

def readPITCount (t : Code) : UInt16 × Code :=
  let t := cli t
  let t := outb PIT_COMMAND_REG 0 t
  let (low, t) := inb t
  let (high, t) := inb t
  (low.toUInt16 ||| high.toUInt16 <<< 8, sti t)

def setPITCount (count : UInt16) (t : Code) : Code :=
  let t := cli t
  let t := outb PIT_CHANNEL_0_DATA (count &&& 0xff).toUInt8 t
  let t := outb PIT_CHANNEL_0_DATA ((count &&& 0xff00) >>> 8).toUInt8 t
  sti t

-- The loop of `pitSleep`. The result is `none` when it is still running after
-- `fuel` rounds.
def sleepLoop : Nat → Code → Option Code
  | 0, _ => none
  | fuel + 1, t =>
      let t := cli t
      let (counter, t) := load (fun kernel => kernel.pit.sleep_counter) t
      if counter = 0 then some t else sleepLoop fuel (sti t)

def pitSleep (fuel : Nat) (num_millis : UInt32) (t : Code) : Option Code :=
  sleepLoop fuel (storePit (fun pit => { pit with sleep_counter := num_millis.toInt32 }) t)

def initPITTimer (t : Code) : Code :=
  let t := cli t
  let (initialized, t) := load (fun kernel => kernel.pit.pit_initialized) t
  if initialized then t
  else
    let t := storePit clearCounters t
    let t := outb PIT_COMMAND_REG 0x34 t
    let t := outb PIT_CHANNEL_0_DATA 0xa9 t
    let t := outb PIT_CHANNEL_0_DATA 0x04 t
    let t := outb PIT_COMMAND_REG 0xe2 t
    let t := storePit (fun pit => { pit with frequency := 1000 }) t
    let t := idt_add_isr 0x20 t.memory.PITIRQHandler 0 INTERRUPT_GATE_32.toUInt8 t
    let t := storePit (fun pit => { pit with pit_initialized := true }) t
    sti t

def ensureInitialized (t : Code) : Code :=
  let (initialized, t) := load (fun kernel => kernel.pit.pit_initialized) t
  if initialized = false then initPITTimer t else t

-- `for(i = i; ...; i++)` of `pitAddCounter`, `remaining` rounds.
def claimFrom : Nat → Nat → Code → PITResult × Code
  | 0, _, t => (.error .PITCountersFull, t)
  | remaining + 1, i, t =>
      let (active, t) := load (fun kernel => (kernel.pit.pit_counters i).active) t
      if active = false then (.counter_id (UInt8.ofNat i), storePit (setActive i true) t)
      else claimFrom remaining (i + 1) t

def pitAddCounter (t : Code) : PITResult × Code :=
  claimFrom PIT_NUM_COUNTERS 0 (ensureInitialized t)

def pitDeactivateCounter (counter_id : UInt8) (t : Code) : PITResult × Code :=
  let t := ensureInitialized t
  if counter_id.toNat > PIT_NUM_COUNTERS then (.error .PITOutOfRange, t)
  else
    let t := storePit (setActive counter_id.toNat false) t
    let t := storePit (clearCount counter_id.toNat) t
    (.done, t)

def pitGetCounterCount (counter_id : UInt8) (t : Code) : PITResult × Code :=
  let t := ensureInitialized t
  if counter_id.toNat > PIT_NUM_COUNTERS then (.error .PITOutOfRange, t)
  else
    let (count, t) := load (fun kernel => (kernel.pit.pit_counters counter_id.toNat).count) t
    (.count count, t)

def resetCount (i : Nat) (pit : Pit) : Pit :=
  { clearCount i pit with history := .reset i :: pit.history }

def pitResetCounter (counter_id : UInt8) (t : Code) : PITResult × Code :=
  let t := ensureInitialized t
  if counter_id.toNat > PIT_NUM_COUNTERS then (.error .PITOutOfRange, t)
  else (.done, storePit (resetCount counter_id.toNat) t)

end Source

-- No handler changes whether the timer is up.
section Initialized

theorem initialized_stable (initialized : Bool) :
    Thread.Stable isr (fun kernel => kernel.pit.pit_initialized = initialized) := by
  intro interrupt kernel h
  cases interrupt <;> exact h

theorem load_initialized (t : Code) :
    (load (fun kernel => kernel.pit.pit_initialized) t).1 = t.memory.pit.pit_initialized ∧
    (load (fun kernel => kernel.pit.pit_initialized) t).2.memory.pit.pit_initialized =
      t.memory.pit.pit_initialized := by
  have hsame := (initialized_stable t.memory.pit.pit_initialized).read
    (fun kernel => kernel.pit.pit_initialized) t rfl
  exact ⟨hsame, hsame⟩

end Initialized

end PalleyOS.Timer
