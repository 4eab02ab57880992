import PalleyOS.Machine.Fields
import PalleyOS.Machine.I386

namespace Machine

section Words

-- Memory with a run of words at an address.
def placed (memory : Memory) (address : Nat) : List UInt32 → Memory
  | [] => memory
  | word :: rest => store32 (placed memory (address + 4) rest) address word.toNat

theorem placed_holds (memory : Memory) (address : Nat) (words : List UInt32)
    (hlen : 4 * words.length ≤ 4294967296) :
    Holds (placed memory address words) address words := by
  induction words generalizing address with
  | nil => trivial
  | cons word rest ih =>
      rw [List.length_cons] at hlen
      refine ⟨?_, Holds.congr (placed memory (address + 4) rest) _ _ rest (fun i hi => ?_)
        (ih (address + 4) (by omega))⟩
      · rw [placed, load32_store32_self]
        exact Nat.mod_eq_of_lt word.toNat_lt
      · exact load8_store32_of_misses _ _ _ _ (fun j hj => by omega)

theorem Holds.load (memory : Memory) (address : Nat) (words : List UInt32) (i : Nat)
    (word : UInt32) (hword : words[i]? = some word) (h : Holds memory address words) :
    load32 memory (address + 4 * i) = word.toNat := by
  induction words generalizing address i with
  | nil => cases hword
  | cons first rest ih =>
      cases i with
      | zero =>
          obtain rfl := Option.some.inj hword
          exact h.1
      | succ i =>
          rw [← ih (address + 4) i hword h.2]
          exact load32_mod _ _ _ (by omega)

theorem load32_mod_65536 (m : Memory) (a : Nat) : load32 m a % 65536 = load16 m a := by
  have hlow := load8_lt m a
  have hhigh := load8_lt m (a + 1)
  unfold load32 load16
  omega

theorem load32_div_65536 (m : Memory) (a : Nat) : load32 m a / 65536 = load16 m (a + 2) := by
  have hlow := load8_lt m a
  have hhigh := load8_lt m (a + 1)
  unfold load32 load16
  omega

-- Memory bit by bit, out of the words.
theorem field_load16 (m : Memory) (a b : Nat) (hb : b < 8) :
    field b 1 (load16 m a) = field b 1 (load8 m a) := by
  have hlow : field 0 8 (load16 m a) = load8 m a := by
    have hlt := load8_lt m a
    unfold field load16
    omega
  rw [← hlow, field_field 0 8 b 1 _ (by omega), Nat.zero_add]

theorem load8_eq_field (m : Memory) (a i : Nat) (hi : i < 4) :
    load8 m (a + i) = field (8 * i) 8 (load32 m a) := by
  have h0 := load8_lt m a
  have h1 := load8_lt m (a + 1)
  have h2 := load8_lt m (a + 2)
  have h3 := load8_lt m (a + 3)
  have hword : load32 m a = load8 m a + 256 * load8 m (a + 1) +
      65536 * (load8 m (a + 2) + 256 * load8 m (a + 3)) := rfl
  unfold field
  obtain rfl | rfl | rfl | rfl : i = 0 ∨ i = 1 ∨ i = 2 ∨ i = 3 := by omega
  · rw [Nat.add_zero]
    omega
  all_goals omega

theorem field_memory (m : Memory) (a n : Nat) :
    field (n % 8) 1 (load16 m (a + n / 8)) = field (n % 32) 1 (load32 m (a + 4 * (n / 32))) := by
  have hplace : a + n / 8 = a + 4 * (n / 32) + n / 8 % 4 := by omega
  have hbit : 8 * (n / 8 % 4) + n % 8 = n % 32 := by omega
  rw [field_load16 _ _ _ (Nat.mod_lt n (by decide)), hplace,
    load8_eq_field _ _ _ (Nat.mod_lt _ (by decide)), field_field _ _ _ _ _ (by omega), hbit]

end Words

-- The entries of the IA-32's descriptor tables, as the processor takes their
-- eight bytes apart.
section Descriptors

-- `ordinary` tells code and data from the system's own descriptors.
structure Descriptor where
  base : Nat
  limit : Nat
  accessed : Bool
  read_write : Bool
  conforming : Bool
  executable : Bool
  ordinary : Bool
  privilege : Nat
  present : Bool
  wide : Bool
  pages : Bool
  deriving DecidableEq

def Descriptor.decode (n : Nat) : Descriptor :=
  { base := field 16 24 n + 2 ^ 24 * field 56 8 n
    limit := field 0 16 n + 2 ^ 16 * field 48 4 n
    accessed := field 40 1 n = 1
    read_write := field 41 1 n = 1
    conforming := field 42 1 n = 1
    executable := field 43 1 n = 1
    ordinary := field 44 1 n = 1
    privilege := field 45 2 n
    present := field 47 1 n = 1
    wide := field 54 1 n = 1
    pages := field 55 1 n = 1 }

namespace Descriptor

def lastByte (d : Descriptor) : Nat := if d.pages then d.limit * 4096 + 4095 else d.limit

def isCode (d : Descriptor) : Bool := d.ordinary && d.executable

def isWritableData (d : Descriptor) : Bool := d.ordinary && !d.executable && d.read_write

-- A 32-bit task state that is not busy.
def isTask (d : Descriptor) : Bool :=
  !d.ordinary && d.executable && !d.conforming && !d.read_write && d.accessed

end Descriptor

-- An entry of the interrupt table.
structure VectorGate where
  offset : Nat
  selector : Nat
  present : Bool
  privilege : Nat
  ordinary : Bool
  gate_type : Nat
  deriving DecidableEq

def VectorGate.decode (n : Nat) : VectorGate :=
  { offset := field 0 16 n + 2 ^ 16 * field 48 16 n
    selector := field 16 16 n
    present := field 47 1 n = 1
    privilege := field 45 2 n
    ordinary := field 44 1 n = 1
    gate_type := field 40 4 n }

end Descriptors

-- Segment registers, privilege levels and the ways from one to another. There is
-- no local descriptor table.
section Protection

structure Tables where
  memory : Memory
  gdt : Nat → Nat
  gdt_limit : Nat
  vectors : Nat → Nat
  vectors_limit : Nat

-- The task register.
structure Task where
  base : Nat
  limit : Nat

inductive Fault where
  | generalProtection
  | notPresent
  | invalidTask
  deriving DecidableEq

namespace Tables

def descriptor (tables : Tables) (selector : Nat) : Option Descriptor :=
  if selector / 4 = 0 ∨ selector / 4 % 2 = 1 ∨ tables.gdt_limit < selector / 8 * 8 + 7 then none
  else some (Descriptor.decode (tables.gdt (selector / 8)))

-- The code segment after a far jump at `level`.
def jump (tables : Tables) (level selector : Nat) : Option Nat :=
  (tables.descriptor selector).bind fun d =>
    if d.isCode && d.present && (if d.conforming then decide (d.privilege ≤ level)
        else decide (selector % 4 ≤ level) && decide (d.privilege = level)) then
      some (selector / 4 * 4 + level)
    else none

-- A data segment register takes readable segments that are not more privileged
-- than the code and the selector, and null selectors.
def loadData (tables : Tables) (level selector : Nat) : Option Nat :=
  if selector / 4 = 0 then some selector
  else
    (tables.descriptor selector).bind fun d =>
      if d.ordinary && d.present && (!d.executable || d.read_write) &&
          (d.executable && d.conforming ||
            decide (selector % 4 ≤ d.privilege) && decide (level ≤ d.privilege)) then
        some selector
      else none

def loadStack (tables : Tables) (level selector : Nat) : Option Nat :=
  (tables.descriptor selector).bind fun d =>
    if d.isWritableData && d.present && decide (selector % 4 = level) &&
        decide (d.privilege = level) then
      some selector
    else none

def loadTask (tables : Tables) (selector : Nat) : Option Task :=
  (tables.descriptor selector).bind fun d =>
    if d.isTask && d.present then some { base := d.base, limit := d.lastByte } else none

end Tables

-- What follows an interrupt. `stack` is the stack that takes the place of the
-- interrupted code's, which the processor saves on it.
inductive Delivery where
  | enters (cs eip : Nat) (stack : Option (Nat × Nat)) (masked : Bool)
  | switches (selector : Nat)
  | faults (fault : Fault)
  deriving DecidableEq

namespace Tables

-- The stack of a more privileged level, out of the task state.
def stackFor (tables : Tables) (task : Task) (level : Nat) : Option (Nat × Nat) :=
  let place := 8 * level + 4
  if task.limit < place + 7 then none
  else
    (tables.loadStack level (load16 tables.memory (task.base + (place + 4)))).map fun ss =>
      (ss, load32 tables.memory (task.base + place))

def enterThrough (tables : Tables) (task : Task) (level : Nat) (gate : VectorGate) : Delivery :=
  match tables.descriptor gate.selector with
  | none => .faults .generalProtection
  | some code =>
      if code.isCode = false ∨ level < code.privilege then .faults .generalProtection
      else if code.present = false then .faults .notPresent
      else
        let eip := if gate.gate_type = 6 ∨ gate.gate_type = 7 then gate.offset % 2 ^ 16
          else gate.offset
        let masked := gate.gate_type = 6 ∨ gate.gate_type = 14
        if code.conforming ∨ code.privilege = level then
          .enters (gate.selector / 4 * 4 + level) eip none masked
        else
          match tables.stackFor task code.privilege with
          | none => .faults .invalidTask
          | some stack =>
              .enters (gate.selector / 4 * 4 + code.privilege) eip (some stack) masked

-- `software` is an `int` instruction, which the gate itself may forbid.
def deliver (tables : Tables) (task : Task) (level : Nat) (software : Bool) (vector : Nat) :
    Delivery :=
  let gate := VectorGate.decode (tables.vectors vector)
  if tables.vectors_limit < vector * 8 + 7 then .faults .generalProtection
  else if gate.ordinary ∨ gate.gate_type ∉ [5, 6, 7, 14, 15] then .faults .generalProtection
  else if software ∧ gate.privilege < level then .faults .generalProtection
  else if gate.present = false then .faults .notPresent
  else if gate.gate_type = 5 then .switches gate.selector
  else tables.enterThrough task level gate

-- Below the I/O privilege level, an access to `size` ports from `port` on looks
-- at their bits in the task's map, of which the processor always reads two bytes.
def ioAllowed (tables : Tables) (task : Task) (port size : Nat) : Bool :=
  let place := load16 tables.memory (task.base + 102) + port / 8
  decide (103 ≤ task.limit ∧ place + 1 ≤ task.limit) &&
    field (port % 8) size (load16 tables.memory (task.base + place)) == 0

end Tables

namespace Tables

variable {tables : Tables} {selector : Nat} {d : Descriptor}

theorem descriptor_eq (hnull : selector / 4 ≠ 0) (htable : selector / 4 % 2 = 0)
    (hlimit : selector / 8 * 8 + 7 ≤ tables.gdt_limit)
    (hd : Descriptor.decode (tables.gdt (selector / 8)) = d) :
    tables.descriptor selector = some d := by
  rw [descriptor, if_neg (by omega), hd]

-- A gate that is one of the four to code.
theorem deliver_gate {task : Task} {level vector : Nat} {software : Bool} {gate : VectorGate}
    (hlimit : vector * 8 + 7 ≤ tables.vectors_limit)
    (hgate : VectorGate.decode (tables.vectors vector) = gate) (hordinary : gate.ordinary = false)
    (hpresent : gate.present = true) (htype : gate.gate_type ∈ [6, 7, 14, 15]) :
    tables.deliver task level software vector =
      if software = true ∧ gate.privilege < level then .faults .generalProtection
      else tables.enterThrough task level gate := by
  have hvalid : gate.gate_type ∈ [5, 6, 7, 14, 15] := List.mem_cons_of_mem 5 htype
  have hcode : gate.gate_type ≠ 5 := by
    rintro he
    rw [he] at htype
    exact absurd htype (by decide)
  rw [deliver, hgate, if_neg (Nat.not_lt.mpr hlimit), hordinary, if_neg (by simp [hvalid]),
    hpresent]
  refine if_congr Iff.rfl rfl ?_
  rw [if_neg (by decide), if_neg hcode]

-- Neither an ordinary segment nor an unknown type is a gate.
theorem deliver_invalid {task : Task} {level vector : Nat} {software : Bool} {gate : VectorGate}
    (hgate : VectorGate.decode (tables.vectors vector) = gate)
    (hinvalid : gate.ordinary = true ∨ gate.gate_type ∉ [5, 6, 7, 14, 15]) :
    tables.deliver task level software vector = .faults .generalProtection := by
  rw [deliver, hgate, if_pos hinvalid, ite_self]

end Tables

end Protection

end Machine
