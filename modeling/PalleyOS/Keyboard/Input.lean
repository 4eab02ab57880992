import PalleyOS.Keyboard.Line
import PalleyOS.Keyboard.Ps2
import PalleyOS.Keyboard.Queue

namespace PalleyOS.Keyboard

def KEY_L_SHIFT : UInt8 := 0x80
def KEY_R_SHIFT : UInt8 := 0x8B
def KEY_CAPS : UInt8 := 0x60

def scancode_set1ToMapped : List UInt8 :=
  [255, 0, 33, 34, 35, 36, 37, 38, 39, 40, 41, 42, 43, 44, 45, 64,
    65, 66, 67, 68, 69, 70, 71, 72, 73, 74, 75, 76, 108, 160, 97, 98,
    99, 100, 101, 102, 103, 104, 105, 106, 107, 32, 128, 77, 129, 130, 131, 132,
    133, 134, 135, 136, 137, 138, 139, 51, 162, 163, 96, 1, 2, 3, 4, 5,
    6, 7, 8, 9, 10, 49, 14, 81, 82, 83, 52, 109, 110, 111, 140, 141,
    142, 107, 108, 255, 255, 255, 11, 12]

-- The bytes of the packed structure, padding included.
def special_keys_to_mapped : List UInt8 :=
  List.replicate 0x35 0 ++ [0x32, 0, 0, 0xa4] ++ List.replicate 0xe 0 ++
    [0x2f, 0x8c, 0x30, 0, 0xa8, 0, 0xaa, 0, 0x4f, 0xa9, 0x50, 0x2e, 0x4e] ++ List.replicate 36 0

-- The tables are read without a check, and a code past the end of one reads
-- whatever lies `behind` it.
variable (behind : List UInt8 → Nat → UInt8)

def tableRead (table : List UInt8) (code : UInt8) : UInt8 :=
  table.getD code.toNat (behind table code.toNat)

def set1ToMapped (scancode1 : UInt8) : UInt8 := tableRead behind scancode_set1ToMapped scancode1

def specialToMapped (scancode1 : UInt8) : UInt8 := tableRead behind special_keys_to_mapped scancode1

section Keys

def storeKeyboard (f : KeyboardState → KeyboardState) (t : Code) : Code :=
  store (fun kernel => { kernel with keyboard := f kernel.keyboard }) t

def setKey (mapped_code : UInt8) (being_pressed : Bool) (keyboard : KeyboardState) :
    KeyboardState :=
  { keyboard with key_states := Function.update keyboard.key_states mapped_code being_pressed }

-- `scancode_queue[queue_ridx++]`
def takeCode (t : Code) : UInt8 × Code :=
  let (slot, t) := load (fun kernel => kernel.keyboard.queue_ridx) t
  let t := storeKeyboard (fun keyboard => { keyboard with queue_ridx := slot + 1 }) t
  load (fun kernel => kernel.keyboard.scancode_queue slot) t

-- Whether `queue_ridx != queue_widx`.
def hasInput (t : Code) : Bool × Code :=
  let (ridx, t) := load (fun kernel => kernel.keyboard.queue_ridx) t
  let (widx, t) := load (fun kernel => kernel.keyboard.queue_widx) t
  (ridx != widx, t)

def keyState (key : UInt8) (t : Code) : Bool × Code :=
  load (fun kernel => kernel.keyboard.key_states key) t

def handleE0Key (t : Code) : MappedKey × Code :=
  let (curr_code, t) := takeCode t
  let being_pressed := (curr_code &&& (1 : UInt8) <<< 7) == 0
  let curr_code := if being_pressed then curr_code else curr_code ^^^ (1 : UInt8) <<< 7
  let mapped_code := specialToMapped behind curr_code
  ({ mapped_code := mapped_code
     scancode := curr_code
     e0_key := true
     printable := false
     down_stroke := being_pressed
     capitalized := false },
    storeKeyboard (setKey mapped_code being_pressed) t)

def handleUnknownKey (scancode mapped_code : UInt8) (being_pressed : Bool) (t : Code) :
    MappedKey × Code :=
  let t :=
    if mapped_code ≠ KEY_CAPS then storeKeyboard (setKey mapped_code being_pressed) t
    else if being_pressed then
      storeKeyboard (fun keyboard => setKey KEY_CAPS (!keyboard.key_states KEY_CAPS) keyboard) t
    else t
  ({ mapped_code := mapped_code
     scancode := scancode
     e0_key := false
     printable := false
     down_stroke := being_pressed
     capitalized := false }, t)

-- `while(queue_ridx == queue_widx);`, `none` when it still runs after `fuel` rounds.
def awaitInput : Nat → Code → Option Code
  | 0, _ => none
  | fuel + 1, t =>
      let (ready, t) := hasInput t
      if ready then some t else awaitInput fuel t

-- `key_states[KEY_L_SHIFT] || key_states[KEY_R_SHIFT] || key_states[KEY_CAPS]`
def shifted (t : Code) : Bool × Code :=
  let (left, t) := keyState KEY_L_SHIFT t
  if left then (true, t)
  else
    let (right, t) := keyState KEY_R_SHIFT t
    if right then (true, t) else keyState KEY_CAPS t

-- The rest of `kbNextMappedKey` once there is a byte to take.
def nextMappedKey (t : Code) : MappedKey × Code :=
  let (curr_code, t) := takeCode t
  let being_pressed := (curr_code &&& (1 : UInt8) <<< 7) == 0
  if curr_code = 0xE0 then handleE0Key behind t
  else
    let curr_code := if being_pressed then curr_code else curr_code ^^^ (1 : UInt8) <<< 7
    let mapped_code := set1ToMapped behind curr_code
    if tableRead behind scancode_set1 curr_code = 63 then
      handleUnknownKey curr_code mapped_code being_pressed t
    else
      let t := storeKeyboard (setKey mapped_code being_pressed) t
      let (capitalized, t) := if being_pressed then shifted t else (false, t)
      ({ mapped_code := mapped_code
         scancode := curr_code
         e0_key := false
         printable := true
         down_stroke := being_pressed
         capitalized := capitalized }, t)

def kbNextMappedKey (fuel : Nat) (t : Code) : Option (MappedKey × Code) :=
  (awaitInput fuel t).map (nextMappedKey behind)

-- The loop of `kbGetChar` with its last key.
def charLoop : Nat → MappedKey → Code → Option (MappedKey × Code)
  | 0, _, _ => none
  | fuel + 1, key, t =>
      if key.printable = false ∨ key.down_stroke = false then
        let (ready, t) := hasInput t
        if ready then
          match kbNextMappedKey behind fuel (cli t) with
          | none => none
          | some (key, t) => charLoop fuel key (sti t)
        else charLoop fuel key t
      else some (key, t)

def noKey : MappedKey :=
  { mapped_code := 0, scancode := 0, e0_key := false, printable := false, down_stroke := false
    capitalized := false }

def kbGetChar (fuel : Nat) (t : Code) : Option (UInt8 × Code) :=
  let (initialized, t) := load (fun kernel => kernel.keyboard.keyboard_initialized) t
  let t := if initialized = false then kbInit t else t
  (charLoop behind fuel noKey t).map (fun (key, t) =>
    (if key.capitalized then tableRead behind uppercase_scancode_set1 key.scancode
      else tableRead behind scancode_set1 key.scancode, t))

end Keys

-- The same queue as the state machine of the two parties has it.
section Queue

structure Queues (queue : ScancodeQueue) (keyboard : KeyboardState) : Prop where
  scancode_queue : ∀ slot : UInt8, queue.scancode_queue slot.toNat = keyboard.scancode_queue slot
  queue_widx : queue.queue_widx = keyboard.queue_widx
  queue_ridx : queue.queue_ridx = keyboard.queue_ridx

variable {queue : ScancodeQueue} {kernel : Kernel} {t : Code}

theorem Queues.interrupt (h : Queues queue kernel.keyboard) (scan_code : UInt8) :
    Queues (keyboardInterruptHandler queue scan_code)
      (PalleyOS.keyboardInterruptHandler scan_code kernel).keyboard where
  scancode_queue := by
    intro slot
    simp only [keyboardInterruptHandler, PalleyOS.keyboardInterruptHandler, Function.update_apply,
      UInt8.toNat_inj, h.queue_widx, h.scancode_queue]
  queue_widx := congrArg (· + 1) h.queue_widx
  queue_ridx := h.queue_ridx

def scanCode : Interrupt → Option UInt8
  | .timer => none
  | .keyboard scan_code => some scan_code

-- What the keyboard delivers before the next access.
def arriving (t : Code) : List UInt8 :=
  if t.interrupts then t.schedule.head.filterMap scanCode else []

theorem Queues.interrupted (h : Queues queue t.memory.keyboard) :
    Queues ((arriving t).foldl keyboardInterruptHandler queue)
      (t.interrupted isr).memory.keyboard := by
  rw [arriving, Machine.Thread.interrupted]
  split
  · show Queues _ (List.foldl _ t.memory _).keyboard
    generalize t.memory = kernel at h ⊢
    induction t.schedule.head generalizing queue kernel with
    | nil => exact h
    | cons interrupt rest ih =>
        cases interrupt with
        | timer => exact ih _ h
        | keyboard scan_code => exact ih _ (h.interrupt scan_code)
  · exact h

-- What is delivered leaves the consumer where it is.
theorem delivered_consumer (queue : ScancodeQueue) (codes : List UInt8) :
    let next := codes.foldl keyboardInterruptHandler queue
    next.queue_ridx = queue.queue_ridx ∧ next.consumer = queue.consumer ∧
      next.consumed = queue.consumed := by
  induction codes generalizing queue with
  | nil => exact ⟨rfl, rfl, rfl⟩
  | cons scan_code rest ih => exact ih _

theorem consumerStep_take (caller : Caller) (h : queue.consumer = .take) :
    consumerStep caller queue =
      { queue with queue_ridx := queue.queue_ridx + 1, consumer := .read queue.queue_ridx } := by
  simp only [consumerStep, h]

theorem Queues.consumerStep_read {keyboard : KeyboardState} (caller : Caller) {slot : UInt8}
    (h : Queues queue keyboard) (hreads : queue.consumer = .read slot) :
    Queues (consumerStep caller queue) keyboard ∧
      (consumerStep caller queue).consumed = queue.consumed ++ [keyboard.scancode_queue slot] := by
  simp only [consumerStep, hreads, ← h.scancode_queue slot, and_true]
  exact ⟨h.scancode_queue, h.queue_widx, h.queue_ridx⟩

-- `scancode_queue[queue_ridx++]` is two steps of the consumer, with the bytes that the
-- keyboard delivers before each of them.
theorem takeCode_consumerStep (caller : Caller) (h : Queues queue t.memory.keyboard)
    (htakes : queue.consumer = .take) :
    ∃ (before between : List UInt8) (taken loaded : ScancodeQueue),
      taken = consumerStep caller (before.foldl keyboardInterruptHandler queue) ∧
      loaded = consumerStep caller (between.foldl keyboardInterruptHandler taken) ∧
      Queues loaded (takeCode t).2.memory.keyboard ∧
      loaded.consumed = queue.consumed ++ [(takeCode t).1] := by
  let slot := (load (fun kernel => kernel.keyboard.queue_ridx) t).1
  let slotted := (load (fun kernel => kernel.keyboard.queue_ridx) t).2
  let stored := storeKeyboard (fun keyboard => { keyboard with queue_ridx := slot + 1 }) slotted
  obtain ⟨hridx, hconsumer, hconsumed⟩ :=
    delivered_consumer queue (arriving t ++ arriving slotted)
  have hslot : queue.queue_ridx = slot :=
    (delivered_consumer queue (arriving t)).1.symm.trans h.interrupted.queue_ridx
  have hstoring : Queues ((arriving t ++ arriving slotted).foldl keyboardInterruptHandler queue)
      (slotted.interrupted isr).memory.keyboard := by
    have hslotted : Queues ((arriving t).foldl keyboardInterruptHandler queue)
        slotted.memory.keyboard := h.interrupted
    rw [List.foldl_append]
    exact hslotted.interrupted
  refine ⟨arriving t ++ arriving slotted, arriving stored, _, _, rfl, rfl, ?_⟩
  rw [consumerStep_take caller (hconsumer.trans htakes), hridx, hslot, ← hconsumed]
  generalize (arriving t ++ arriving slotted).foldl keyboardInterruptHandler queue = before
    at hstoring
  have hstored : Queues { before with queue_ridx := slot + 1, consumer := .read slot }
      stored.memory.keyboard :=
    ⟨hstoring.scancode_queue, hstoring.queue_widx, rfl⟩
  obtain ⟨-, hread, hkept⟩ := delivered_consumer
    { before with queue_ridx := slot + 1, consumer := .read slot } (arriving stored)
  have hloaded := hstored.interrupted.consumerStep_read caller hread
  rw [hkept] at hloaded
  exact hloaded

end Queue

end PalleyOS.Keyboard
