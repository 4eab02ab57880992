import PalleyOS.Kernel

namespace PalleyOS

open Machine

-- What the processor finds in the table after handlers have been registered.
section Gates

inductive GateType where
  | TASK_GATE
  | INTERRUPT_GATE_16
  | TRAP_GATE_16
  | INTERRUPT_GATE_32
  | TRAP_GATE_32
  deriving DecidableEq

def GateType.value : GateType → UInt32
  | .TASK_GATE => PalleyOS.TASK_GATE
  | .INTERRUPT_GATE_16 => PalleyOS.INTERRUPT_GATE_16
  | .TRAP_GATE_16 => PalleyOS.TRAP_GATE_16
  | .INTERRUPT_GATE_32 => PalleyOS.INTERRUPT_GATE_32
  | .TRAP_GATE_32 => PalleyOS.TRAP_GATE_32

-- The fields of an entry in the processor's sense. `system` is bit 4 of the
-- attributes, which is clear in every gate.
structure Gate where
  offset : Nat
  selector : Nat
  present : Bool
  privilege : Nat
  system : Bool
  gate_type : Nat
  deriving DecidableEq

def IDTEntry.decode (entry : IDTEntry) : Gate :=
  { offset := entry.offset_high.toNat * 65536 + entry.offset_low.toNat
    selector := entry.selector.toNat
    present := entry.type_attr.toNat.testBit 7
    privilege := entry.type_attr.toNat / 32 % 4
    system := entry.type_attr.toNat.testBit 4
    gate_type := entry.type_attr.toNat % 16 }

structure Registration where
  num : UInt8
  func_ptr : UInt32
  desc_level : Fin 4
  gate_type : GateType
  deriving DecidableEq

def emptyIdt : Idt :=
  { idt_entries := fun _ =>
      { offset_low := 0, selector := 0, zero := 0, type_attr := 0, offset_high := 0 }
    idt_info := { size := 0, idt_addr := 0 }
    idtr := { size := 0, idt_addr := 0 } }

namespace Registration

def level (r : Registration) : UInt32 := UInt32.ofNat r.desc_level

def gate (r : Registration) : Gate :=
  { offset := r.func_ptr.toNat
    selector := 0x08
    present := true
    privilege := r.desc_level
    system := false
    gate_type := r.gate_type.value.toNat }

def entry (r : Registration) : IDTEntry :=
  (addIsrToIdt r.num r.func_ptr r.level r.gate_type.value emptyIdt).idt_entries r.num

end Registration

-- The entry does not depend on what was there before.
theorem addIsrToIdt_entry (num : UInt8) (func_ptr desc_level gate_type : UInt32) (idt idt' : Idt) :
    (addIsrToIdt num func_ptr desc_level gate_type idt).idt_entries num =
      (addIsrToIdt num func_ptr desc_level gate_type idt').idt_entries num := by
  simp only [addIsrToIdt, Function.update_self]

theorem addIsrToIdt_entries (r : Registration) (idt : Idt) :
    (addIsrToIdt r.num r.func_ptr r.level r.gate_type.value idt).idt_entries =
      Function.update idt.idt_entries r.num r.entry := by
  funext vector
  by_cases hnum : vector = r.num
  · rw [hnum, Function.update_self]
    exact addIsrToIdt_entry _ _ _ _ idt emptyIdt
  · rw [Function.update_of_ne hnum]
    exact Function.update_of_ne hnum _ _

-- The two halves of the handler's address.
theorem halves_of_address (func_ptr : UInt32) :
    ((func_ptr &&& 0xffff0000) >>> 16).toUInt16.toNat * 65536 +
      (func_ptr &&& 0xffff).toUInt16.toNat = func_ptr.toNat := by
  have hlow : (func_ptr &&& 0xffff).toUInt16.toNat = func_ptr.toNat % 65536 := by
    rw [UInt32.toNat_toUInt16, UInt32.toNat_and, show (0xffff : UInt32).toNat = 2 ^ 16 - 1 from rfl,
      Nat.and_two_pow_sub_one_eq_mod, Nat.mod_mod]
  have hhigh : ((func_ptr &&& 0xffff0000) >>> 16).toUInt16.toNat = func_ptr.toNat / 65536 := by
    have hbound := func_ptr.toNat_lt
    rw [UInt32.toNat_toUInt16, UInt32.toNat_shiftRight, UInt32.toNat_and,
      show (16 : UInt32).toNat % 32 = 16 from rfl, Nat.shiftRight_and_distrib,
      show (0xffff0000 : UInt32).toNat >>> 16 = 2 ^ 16 - 1 from rfl,
      Nat.and_two_pow_sub_one_eq_mod, Nat.mod_mod, Nat.shiftRight_eq_div_pow]
    omega
  rw [hlow, hhigh]
  omega

-- The attributes of each level and type. Only a task gate keeps bit 4.
structure Decodes (attributes : Nat) (desc_level : Fin 4) (gate_type : GateType) : Prop where
  present : attributes.testBit 7 = true
  privilege : attributes / 32 % 4 = desc_level
  system : attributes.testBit 4 = decide (gate_type = .TASK_GATE)
  low : attributes % 16 = gate_type.value.toNat

theorem attributes_of_level (desc_level : Fin 4) (gate_type : GateType) :
    Decodes (Registration.entry ⟨0, 0, desc_level, gate_type⟩).type_attr.toNat desc_level
      gate_type := by
  refine ⟨?_, ?_, ?_, ?_⟩ <;> revert desc_level <;> cases gate_type <;> decide

theorem attributes_decode (r : Registration) :
    Decodes r.entry.type_attr.toNat r.desc_level r.gate_type := by
  obtain ⟨num, func_ptr, desc_level, gate_type⟩ := r
  have hattr : (Registration.entry ⟨num, func_ptr, desc_level, gate_type⟩).type_attr =
      (Registration.entry ⟨0, 0, desc_level, gate_type⟩).type_attr := by
    simp only [Registration.entry, addIsrToIdt, Function.update_self, Registration.level]
  rw [hattr]
  exact attributes_of_level desc_level gate_type

theorem entry_decode_iff (r : Registration) :
    r.entry.decode = r.gate ↔ r.gate_type ≠ .TASK_GATE := by
  have hattributes := attributes_decode r
  have hoffset : r.entry.offset_high.toNat * 65536 + r.entry.offset_low.toNat =
      r.func_ptr.toNat := by
    simp only [Registration.entry, addIsrToIdt, Function.update_self]
    exact halves_of_address r.func_ptr
  have hselector : r.entry.selector.toNat = 0x08 := by
    simp only [Registration.entry, addIsrToIdt, Function.update_self]
    rfl
  rw [IDTEntry.decode, Registration.gate, Gate.mk.injEq, hoffset, hselector, hattributes.present,
    hattributes.privilege, hattributes.system, hattributes.low]
  simp

end Gates

section Runs

-- The two ways to register a handler.
inductive RegistrationCall where
  | addIsrToIdt (r : Registration)
  | idt_add_isr (r : Registration)
  deriving DecidableEq

def RegistrationCall.registration : RegistrationCall → Registration
  | .addIsrToIdt r => r
  | .idt_add_isr r => r

def RegistrationCall.run : RegistrationCall → Code → Code
  | .addIsrToIdt r, t =>
      store (fun kernel =>
        { kernel with
          idt := PalleyOS.addIsrToIdt r.num r.func_ptr r.level r.gate_type.value kernel.idt }) t
  | .idt_add_isr r, t =>
      PalleyOS.idt_add_isr r.num r.func_ptr r.level.toUInt8 r.gate_type.value.toUInt8 t

def lastFor (vector : UInt8) : List RegistrationCall → Option Registration
  | [] => none
  | call :: rest =>
      (lastFor vector rest).or
        (if call.registration.num = vector then some call.registration else none)

-- Every vector has the gate of its last registration, or what it had before.
def Faithful (t : Code) (calls : List RegistrationCall) (after : Code) : Prop :=
  ∀ vector,
    match lastFor vector calls with
    | none => after.memory.idt.idt_entries vector = t.memory.idt.idt_entries vector
    | some r => (after.memory.idt.idt_entries vector).decode = r.gate

theorem entries_stable (entries : UInt8 → IDTEntry) :
    Thread.Stable isr (fun kernel : Kernel => kernel.idt.idt_entries = entries) := by
  intro interrupt kernel h
  cases interrupt with
  | timer => exact h
  | keyboard scan_code => exact h

theorem registration_words (r : Registration) :
    r.level.toUInt8.toUInt32 = r.level ∧
    r.gate_type.value.toUInt8.toUInt32 = r.gate_type.value := by
  have hlevels : ∀ level : Fin 4,
      (UInt32.ofNat level).toUInt8.toUInt32 = UInt32.ofNat level := by decide
  exact ⟨hlevels r.desc_level, by cases r.gate_type <;> rfl⟩

theorem run_entries (call : RegistrationCall) (t : Code) :
    (call.run t).memory.idt.idt_entries =
      Function.update t.memory.idt.idt_entries call.registration.num call.registration.entry := by
  have hstable := entries_stable t.memory.idt.idt_entries
  cases call with
  | addIsrToIdt r =>
      refine hstable.write _ t rfl (J := fun kernel => kernel.idt.idt_entries = _)
        (fun kernel hkernel => ?_)
      rw [addIsrToIdt_entries, hkernel]
      rfl
  | idt_add_isr r =>
      obtain ⟨hlevel, htype⟩ := registration_words r
      have hafter := entries_stable (Function.update t.memory.idt.idt_entries r.num r.entry)
      refine hafter.sti _ (hafter.write (J := fun kernel => kernel.idt.idt_entries = _) _ _ ?_
        (fun kernel hkernel => ?_))
      · refine hstable.write (J := fun kernel => kernel.idt.idt_entries = _) _ _
          (hstable.cli t rfl) (fun kernel hkernel => ?_)
        rw [hlevel, htype, addIsrToIdt_entries, hkernel]
      · exact hkernel

theorem runs_entries (calls : List RegistrationCall) (t : Code) (vector : UInt8) :
    (calls.foldl (fun t call => call.run t) t).memory.idt.idt_entries vector =
      ((lastFor vector calls).map (·.entry)).getD (t.memory.idt.idt_entries vector) := by
  induction calls generalizing t with
  | nil => rfl
  | cons call rest ih =>
      rw [List.foldl_cons, ih, run_entries, lastFor]
      cases hlast : lastFor vector rest with
      | some r => rfl
      | none =>
          by_cases hnum : call.registration.num = vector
          · rw [if_pos hnum, ← hnum, Function.update_self]
            rfl
          · rw [if_neg hnum, Function.update_of_ne (Ne.symm hnum)]
            rfl

-- However interrupts come in between, the table is faithful unless the last
-- registration of a vector is a task gate.
theorem registrations_faithful_iff (t : Code) (calls : List RegistrationCall) :
    Faithful t calls (calls.foldl (fun t call => call.run t) t) ↔
      ∀ vector r, lastFor vector calls = some r → r.gate_type ≠ .TASK_GATE := by
  refine forall_congr' fun vector => ?_
  have hentry := runs_entries calls t vector
  cases hlast : lastFor vector calls with
  | none =>
      rw [hlast] at hentry
      exact ⟨fun _ _ => nofun, fun _ => hentry⟩
  | some r =>
      rw [hlast] at hentry
      simp only [hentry]
      refine (entry_decode_iff r).trans ⟨fun h other hother => ?_, fun h => h r rfl⟩
      rw [← Option.some.inj hother]
      exact h

-- A task gate at vector 8.
theorem task_gate_unfaithful :
    ¬∀ (t : Code) (calls : List RegistrationCall),
      Faithful t calls (calls.foldl (fun t call => call.run t) t) := by
  intro h
  have hiff := (registrations_faithful_iff booted [.addIsrToIdt ⟨8, 0, 0, .TASK_GATE⟩]).mp
    (h booted _)
  exact hiff 8 _ rfl rfl

end Runs

end PalleyOS
