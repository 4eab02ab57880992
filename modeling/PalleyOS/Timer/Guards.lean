import PalleyOS.Timer.Counters
import Mathlib.Logic.Function.Iterate

namespace PalleyOS.Timer

open Machine

-- The calls once more, with every index given to `pit_counters`.
section Recorded

structure Recorded where
  code : Code
  indices : List Nat

variable {α : Type}

def loadCounter (i : Nat) (f : PITCounter → α) (r : Recorded) : α × Recorded :=
  let (value, t) := load (fun kernel => f (kernel.pit.pit_counters i)) r.code
  (value, { code := t, indices := r.indices ++ [i] })

def storeCounter (i : Nat) (f : Pit → Pit) (r : Recorded) : Recorded :=
  { code := storePit f r.code, indices := r.indices ++ [i] }

namespace Recorded

-- `kmemset` goes over the whole array.
def ensureInitialized (r : Recorded) : Recorded :=
  let (initialized, t) := load (fun kernel => kernel.pit.pit_initialized) r.code
  if initialized = false then
    { code := initPITTimer t, indices := r.indices ++ List.range PIT_NUM_COUNTERS }
  else { r with code := t }

def claimFrom : Nat → Nat → Recorded → PITResult × Recorded
  | 0, _, r => (.error .PITCountersFull, r)
  | remaining + 1, i, r =>
      let (active, r) := loadCounter i (·.active) r
      if active = false then (.counter_id (UInt8.ofNat i), storeCounter i (setActive i true) r)
      else claimFrom remaining (i + 1) r

def pitAddCounter (r : Recorded) : PITResult × Recorded :=
  claimFrom PIT_NUM_COUNTERS 0 r.ensureInitialized

def pitDeactivateCounter (counter_id : UInt8) (r : Recorded) : PITResult × Recorded :=
  let r := r.ensureInitialized
  if counter_id.toNat > PIT_NUM_COUNTERS then (.error .PITOutOfRange, r)
  else
    let r := storeCounter counter_id.toNat (setActive counter_id.toNat false) r
    let r := storeCounter counter_id.toNat (clearCount counter_id.toNat) r
    (.done, r)

def pitGetCounterCount (counter_id : UInt8) (r : Recorded) : PITResult × Recorded :=
  let r := r.ensureInitialized
  if counter_id.toNat > PIT_NUM_COUNTERS then (.error .PITOutOfRange, r)
  else
    let (count, r) := loadCounter counter_id.toNat (·.count) r
    (.count count, r)

def pitResetCounter (counter_id : UInt8) (r : Recorded) : PITResult × Recorded :=
  let r := r.ensureInitialized
  if counter_id.toNat > PIT_NUM_COUNTERS then (.error .PITOutOfRange, r)
  else (.done, storeCounter counter_id.toNat (resetCount counter_id.toNat) r)

end Recorded

def CounterCall.record : CounterCall → Recorded → PITResult × Recorded
  | .pitAddCounter => Recorded.pitAddCounter
  | .pitDeactivateCounter counter_id => Recorded.pitDeactivateCounter counter_id
  | .pitResetCounter counter_id => Recorded.pitResetCounter counter_id
  | .pitGetCounterCount counter_id => Recorded.pitGetCounterCount counter_id

def CounterCall.counter_id : CounterCall → Option Nat
  | .pitAddCounter => none
  | .pitDeactivateCounter counter_id => some counter_id.toNat
  | .pitResetCounter counter_id => some counter_id.toNat
  | .pitGetCounterCount counter_id => some counter_id.toNat

-- Without the indices it is the model itself.
theorem ensureInitialized_code (r : Recorded) :
    r.ensureInitialized.code = ensureInitialized r.code := by
  simp only [Recorded.ensureInitialized, ensureInitialized]
  split <;> rfl

theorem claimFrom_round (remaining i : Nat) (r : Recorded) :
    Recorded.claimFrom (remaining + 1) i r =
      let (active, t) := load (fun kernel => (kernel.pit.pit_counters i).active) r.code
      let r : Recorded := { code := t, indices := r.indices ++ [i] }
      if active = false then (.counter_id (UInt8.ofNat i), storeCounter i (setActive i true) r)
      else Recorded.claimFrom remaining (i + 1) r := rfl

theorem claimFrom_code (remaining i : Nat) (r : Recorded) :
    (Recorded.claimFrom remaining i r).1 = (claimFrom remaining i r.code).1 ∧
    (Recorded.claimFrom remaining i r).2.code = (claimFrom remaining i r.code).2 := by
  induction remaining generalizing i r with
  | zero => exact ⟨rfl, rfl⟩
  | succ remaining ih =>
      simp only [claimFrom_round, claimFrom]
      split
      · exact ⟨rfl, rfl⟩
      · exact ih (i + 1) _

theorem record_code (call : CounterCall) (r : Recorded) :
    (call.record r).1 = (call.run r.code).1 ∧ (call.record r).2.code = (call.run r.code).2 := by
  have hensure := ensureInitialized_code r
  cases call with
  | pitAddCounter =>
      have hclaim := claimFrom_code PIT_NUM_COUNTERS 0 r.ensureInitialized
      rw [hensure] at hclaim
      exact hclaim
  | pitDeactivateCounter id =>
      simp only [CounterCall.record, CounterCall.run, Recorded.pitDeactivateCounter,
        pitDeactivateCounter]
      split
      · exact ⟨rfl, hensure⟩
      · simp only [storeCounter, hensure, and_self]
  | pitResetCounter id =>
      simp only [CounterCall.record, CounterCall.run, Recorded.pitResetCounter, pitResetCounter]
      split
      · exact ⟨rfl, hensure⟩
      · simp only [storeCounter, hensure, and_self]
  | pitGetCounterCount id =>
      simp only [CounterCall.record, CounterCall.run, Recorded.pitGetCounterCount,
        pitGetCounterCount]
      split
      · exact ⟨rfl, hensure⟩
      · simp only [loadCounter, hensure, and_self]

-- The indices of one call.
def CounterCall.indices (call : CounterCall) (t : Code) : List Nat :=
  (call.record { code := t, indices := [] }).2.indices

end Recorded

section Indices

def Inside (indices : List Nat) : Prop := ∀ i ∈ indices, i < PIT_NUM_COUNTERS

theorem Inside.snoc {indices : List Nat} (h : Inside indices) {i : Nat}
    (hi : i < PIT_NUM_COUNTERS) : Inside (indices ++ [i]) := by
  intro j hj
  rcases List.mem_append.mp hj with hj | hj
  · exact h j hj
  · rw [List.mem_singleton.mp hj]
    exact hi

theorem ensureInitialized_inside (r : Recorded) (h : Inside r.indices) :
    Inside r.ensureInitialized.indices := by
  simp only [Recorded.ensureInitialized]
  split
  · intro j hj
    rcases List.mem_append.mp hj with hj | hj
    · exact h j hj
    · exact List.mem_range.mp hj
  · exact h

theorem claimFrom_inside (remaining i : Nat) (r : Recorded) (h : Inside r.indices)
    (hlimit : i + remaining = PIT_NUM_COUNTERS) :
    Inside (Recorded.claimFrom remaining i r).2.indices := by
  induction remaining generalizing i r with
  | zero => exact h
  | succ remaining ih =>
      have hi : i < PIT_NUM_COUNTERS := by omega
      have hread := h.snoc hi
      simp only [claimFrom_round]
      split
      · exact hread.snoc hi
      · exact ih (i + 1) _ hread (by omega)

theorem indices_inside (call : CounterCall) (t : Code)
    (hlimit : call.counter_id ≠ some PIT_NUM_COUNTERS) : Inside (call.indices t) := by
  have hempty : Inside [] := fun i hi => absurd hi List.not_mem_nil
  have hensure := ensureInitialized_inside { code := t, indices := [] } hempty
  cases call with
  | pitAddCounter => exact claimFrom_inside PIT_NUM_COUNTERS 0 _ hensure (Nat.zero_add _)
  | pitDeactivateCounter id =>
      simp only [CounterCall.counter_id, ne_eq, Option.some.injEq] at hlimit
      simp only [CounterCall.indices, CounterCall.record, Recorded.pitDeactivateCounter]
      split
      · exact hensure
      · have hid : id.toNat < PIT_NUM_COUNTERS := by omega
        exact (hensure.snoc hid).snoc hid
  | pitResetCounter id =>
      simp only [CounterCall.counter_id, ne_eq, Option.some.injEq] at hlimit
      simp only [CounterCall.indices, CounterCall.record, Recorded.pitResetCounter]
      split
      · exact hensure
      · exact hensure.snoc (by omega)
  | pitGetCounterCount id =>
      simp only [CounterCall.counter_id, ne_eq, Option.some.injEq] at hlimit
      simp only [CounterCall.indices, CounterCall.record, Recorded.pitGetCounterCount]
      split
      · exact hensure
      · exact hensure.snoc (by omega)

end Indices

section Idle

-- Nothing but ticks happened to the counters and the sleep counter, and they are the
-- ticks that came in.
def OnlyTicked (start pit : Pit) : Prop :=
  ∃ ticks : Nat,
    pit.history = List.replicate ticks .tick ++ start.history ∧
    (∀ i < PIT_NUM_COUNTERS, pit.pit_counters i = (tickPit^[ticks] start).pit_counters i) ∧
    pit.sleep_counter = (tickPit^[ticks] start).sleep_counter

-- The timer is up, or its counters have never been used.
def Started (pit : Pit) : Prop :=
  pit.pit_initialized = true ∨
    ∀ i < PIT_NUM_COUNTERS, pit.pit_counters i = { active := false, count := 0 }

structure Idle (start pit : Pit) : Prop where
  ticked : OnlyTicked start pit
  started : Started pit

theorem Started.tick {pit : Pit} (h : Started pit) : Started (tickPit pit) := by
  refine h.imp id (fun hzero i hi => ?_)
  rw [tickPit_counter pit i hi, hzero i hi, if_neg Bool.false_ne_true]

theorem OnlyTicked.tick {start pit : Pit} (h : OnlyTicked start pit) :
    OnlyTicked start (tickPit pit) := by
  obtain ⟨ticks, hhistory, hcounters, hsleep⟩ := h
  refine ⟨ticks + 1, ?_, fun i hi => ?_, ?_⟩
  · rw [List.replicate_succ, List.cons_append, ← hhistory]
    rfl
  · rw [Function.iterate_succ_apply', tickPit_counter _ i hi, tickPit_counter _ i hi,
      hcounters i hi]
  · rw [Function.iterate_succ_apply', tickPit, tickPit, hsleep]

theorem idle_stable (start : Pit) :
    Thread.Stable isr (fun kernel => Idle start kernel.pit) := by
  intro interrupt kernel h
  cases interrupt with
  | timer => exact ⟨h.ticked.tick, h.started.tick⟩
  | keyboard scan_code => exact h

theorem Idle.refl {pit : Pit} (h : Started pit) : Idle pit pit :=
  ⟨⟨0, rfl, fun _ _ => rfl, rfl⟩, h⟩

-- Counters that have never been used are not changed by clearing them.
theorem Idle.cleared {start pit : Pit} (h : Idle start pit)
    (hfresh : pit.pit_initialized = false) : Idle start (clearCounters pit) := by
  have hzero := h.started.resolve_left (by rw [hfresh]; exact Bool.false_ne_true)
  have hsame (i : Nat) (hi : i < PIT_NUM_COUNTERS) :
      (clearCounters pit).pit_counters i = pit.pit_counters i := by
    simp only [clearCounters, if_pos hi, hzero i hi]
  obtain ⟨ticks, hhistory, hcounters, hsleep⟩ := h.ticked
  refine ⟨⟨ticks, hhistory, fun i hi => (hsame i hi).trans (hcounters i hi), hsleep⟩,
    .inr fun i hi => ?_⟩
  exact (hsame i hi).trans (hzero i hi)

variable {start : Pit} {t : Code}

-- A property of the timer that the handlers keep, across code that leaves it alone.
section Elsewhere

variable {P : Pit → Prop} (hstable : Thread.Stable isr (fun kernel => P kernel.pit))
include hstable

theorem store_elsewhere (f : Kernel → Kernel) (hf : ∀ kernel, (f kernel).pit = kernel.pit)
    (h : P t.memory.pit) : P (store f t).memory.pit := by
  refine hstable.write (J := fun kernel => P kernel.pit) f t h (fun kernel hkernel => ?_)
  rw [hf kernel]
  exact hkernel

theorem outb_elsewhere (port : UInt16) (value : UInt8) (h : P t.memory.pit) :
    P (outb port value t).memory.pit := store_elsewhere hstable _ (fun _ => rfl) h

theorem idt_add_isr_elsewhere (offset : UInt8) (func_ptr : UInt32) (desc_level gate_type : UInt8)
    (h : P t.memory.pit) :
    P (idt_add_isr offset func_ptr desc_level gate_type t).memory.pit :=
  hstable.sti _ (store_elsewhere hstable _ (fun _ => rfl)
    (store_elsewhere hstable _ (fun _ => rfl) (hstable.cli t h)))

end Elsewhere

theorem storePit_step {P Q : Pit → Prop}
    (hstable : Thread.Stable isr (fun kernel => P kernel.pit)) (f : Pit → Pit)
    (hf : ∀ pit, P pit → Q (f pit)) (h : P t.memory.pit) : Q (storePit f t).memory.pit :=
  hstable.write (J := fun kernel => Q kernel.pit) _ t h (fun kernel => hf kernel.pit)

def Down (start pit : Pit) : Prop := Idle start pit ∧ pit.pit_initialized = false

def Up (start pit : Pit) : Prop := Idle start pit ∧ pit.pit_initialized = true

theorem initPITTimer_idle (h : Down start t.memory.pit) :
    Up start (initPITTimer t).memory.pit := by
  have hdown : Thread.Stable isr (fun kernel => Down start kernel.pit) :=
    fun interrupt kernel hkernel => ⟨idle_stable start interrupt kernel hkernel.1,
      initialized_stable false interrupt kernel hkernel.2⟩
  have hup : Thread.Stable isr (fun kernel => Up start kernel.pit) :=
    fun interrupt kernel hkernel => ⟨idle_stable start interrupt kernel hkernel.1,
      initialized_stable true interrupt kernel hkernel.2⟩
  have hread := hdown.read (fun kernel => kernel.pit.pit_initialized) _ (hdown.cli t h)
  have hvalue : (load (fun kernel => kernel.pit.pit_initialized) (cli t)).1 = false := hread.2
  unfold initPITTimer
  simp only [hvalue, Bool.false_eq_true, if_false]
  refine hup.sti _ (storePit_step (Q := Up start) hdown _ (fun pit hpit => ?_) ?_)
  · exact ⟨⟨hpit.1.ticked, .inl rfl⟩, rfl⟩
  · apply idt_add_isr_elsewhere hdown
    refine storePit_step (Q := Down start) hdown _ (fun pit hpit => ?_) ?_
    · exact ⟨⟨hpit.1.ticked, hpit.1.started⟩, hpit.2⟩
    · apply outb_elsewhere hdown
      apply outb_elsewhere hdown
      apply outb_elsewhere hdown
      apply outb_elsewhere hdown
      refine storePit_step (Q := Down start) hdown _ (fun pit hpit => ?_) hread
      exact ⟨hpit.1.cleared hpit.2, hpit.2⟩

theorem ensureInitialized_idle (h : Idle start t.memory.pit) :
    Up start (ensureInitialized t).memory.pit := by
  obtain ⟨hvalue, hafter⟩ := load_initialized t
  have hread := (idle_stable start).read (fun kernel => kernel.pit.pit_initialized) t h
  unfold ensureInitialized
  simp only [hvalue]
  cases hinit : t.memory.pit.pit_initialized with
  | true => exact ⟨hread, hafter.trans hinit⟩
  | false => exact initPITTimer_idle ⟨hread, hafter.trans hinit⟩

end Idle

section Runs

theorem storePit_initialized (f : Pit → Pit)
    (hf : ∀ pit, (f pit).pit_initialized = pit.pit_initialized) {t : Code}
    (h : t.memory.pit.pit_initialized = true) :
    (storePit f t).memory.pit.pit_initialized = true :=
  storePit_step (Q := fun pit => pit.pit_initialized = true) (initialized_stable true) f
    (fun pit hpit => (hf pit).trans hpit) h

theorem claimFrom_initialized (remaining i : Nat) {t : Code}
    (h : t.memory.pit.pit_initialized = true) :
    (claimFrom remaining i t).2.memory.pit.pit_initialized = true := by
  have hstable := initialized_stable true
  induction remaining generalizing i t with
  | zero => exact h
  | succ remaining ih =>
      have hread := hstable.read (fun kernel => (kernel.pit.pit_counters i).active) t h
      rw [claimFrom]
      simp only
      split
      · exact storePit_initialized _ (fun _ => rfl) hread
      · exact ih (i + 1) hread

-- No call leaves the array, and one whose identifier is not an index fails and
-- changes nothing.
def Guarded (t : Code) (call : CounterCall) (next : Code) : Prop :=
  Inside (call.indices t) ∧
    (¬call.InRange → (call.run t).1 = .error .PITOutOfRange ∧
      OnlyTicked t.memory.pit next.memory.pit)

theorem run_started (call : CounterCall) (t : Code) (h : Started t.memory.pit) :
    Started (call.run t).2.memory.pit := by
  obtain ⟨-, hup⟩ := ensureInitialized_idle (Idle.refl h)
  cases call with
  | pitAddCounter => exact .inl (claimFrom_initialized PIT_NUM_COUNTERS 0 hup)
  | pitDeactivateCounter id =>
      simp only [CounterCall.run, pitDeactivateCounter]
      split
      · exact .inl hup
      · refine .inl (storePit_initialized _ (fun _ => rfl) ?_)
        exact storePit_initialized _ (fun _ => rfl) hup
  | pitResetCounter id =>
      simp only [CounterCall.run, pitResetCounter]
      split
      · exact .inl hup
      · exact .inl (storePit_initialized _ (fun _ => rfl) hup)
  | pitGetCounterCount id =>
      simp only [CounterCall.run, pitGetCounterCount]
      split
      · exact .inl hup
      · refine .inl ((initialized_stable true).read
          (fun kernel => (kernel.pit.pit_counters id.toNat).count) _ hup)

theorem inRange_of_none {call : CounterCall} (h : call.counter_id = none) : call.InRange := by
  cases call with
  | pitAddCounter => trivial
  | _ => cases h

theorem inRange_iff {call : CounterCall} {id : Nat} (h : call.counter_id = some id) :
    call.InRange ↔ id < PIT_NUM_COUNTERS := by
  cases call with
  | pitAddCounter => cases h
  | _ => rw [← Option.some.inj h]; rfl

-- The guard of the three calls that take an identifier.
theorem run_rejected {call : CounterCall} {id : Nat} (t : Code) (h : call.counter_id = some id)
    (hover : id > PIT_NUM_COUNTERS) :
    call.run t = (.error .PITOutOfRange, ensureInitialized t) := by
  cases call with
  | pitAddCounter => cases h
  | _ =>
      rw [← Option.some.inj h] at hover
      exact if_pos hover

theorem run_accepted {call : CounterCall} {id : Nat} (t : Code) (h : call.counter_id = some id)
    (hpass : ¬id > PIT_NUM_COUNTERS) : (call.run t).1 ≠ .error .PITOutOfRange := by
  cases call with
  | pitAddCounter => cases h
  | pitDeactivateCounter counter_id =>
      rw [← Option.some.inj h] at hpass
      simp only [CounterCall.run, pitDeactivateCounter, if_neg hpass]
      exact nofun
  | pitResetCounter counter_id =>
      rw [← Option.some.inj h] at hpass
      simp only [CounterCall.run, pitResetCounter, if_neg hpass]
      exact nofun
  | pitGetCounterCount counter_id =>
      rw [← Option.some.inj h] at hpass
      simp only [CounterCall.run, pitGetCounterCount, if_neg hpass]
      exact nofun

theorem guarded_call_iff (call : CounterCall) (t : Code) (h : Started t.memory.pit) :
    Guarded t call (call.run t).2 ↔ call.counter_id ≠ some PIT_NUM_COUNTERS := by
  constructor
  · intro hguarded hsize
    have hout : ¬call.InRange := (inRange_iff hsize).not.mpr (Nat.lt_irrefl _)
    exact run_accepted t hsize (Nat.lt_irrefl _) (hguarded.2 hout).1
  · intro hlimit
    refine ⟨indices_inside call t hlimit, fun hout => ?_⟩
    cases hid : call.counter_id with
    | none => exact absurd (inRange_of_none hid) hout
    | some id =>
        rw [hid, ne_eq, Option.some.injEq] at hlimit
        rw [inRange_iff hid] at hout
        rw [run_rejected t hid (by omega)]
        exact ⟨rfl, (ensureInitialized_idle (Idle.refl h)).1.ticked⟩

-- Whatever interrupts come in between any two accesses, a run is guarded exactly
-- when no call has the size of the array for its identifier.
theorem guarded_iff (t : Code) (run : List CounterCall) (hstart : Started t.memory.pit) :
    Along Guarded t (traceOf (fun call t => (call.run t).2) t run) ↔
      ∀ call ∈ run, call.counter_id ≠ some PIT_NUM_COUNTERS := by
  induction run generalizing t with
  | nil => exact iff_of_true trivial (fun call hcall => absurd hcall List.not_mem_nil)
  | cons call rest ih =>
      rw [traceOf, along_cons, List.forall_mem_cons, guarded_call_iff call t hstart,
        ih _ (run_started call t hstart)]

theorem guarded_iff_booted :
    Along Guarded booted (traceOf (fun call t => (call.run t).2) booted
      [.pitAddCounter, .pitResetCounter 51, .pitDeactivateCounter 0]) ↔
      ∀ call ∈ [CounterCall.pitAddCounter, .pitResetCounter 51, .pitDeactivateCounter 0],
        call.counter_id ≠ some PIT_NUM_COUNTERS :=
  guarded_iff booted _ (.inl rfl)

-- Deactivating counter 50 succeeds.
theorem counter_50_unguarded :
    ¬∀ (t : Code) (run : List CounterCall), Started t.memory.pit →
      Along Guarded t (traceOf (fun call t => (call.run t).2) t run) := by
  intro h
  have hguarded := (h booted [.pitDeactivateCounter 50] (.inl rfl)).1
  exact (guarded_call_iff (.pitDeactivateCounter 50) booted (.inl rfl)).mp hguarded rfl

end Runs

end PalleyOS.Timer
