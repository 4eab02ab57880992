import PalleyOS.InterruptFlag
import PalleyOS.Machine.Pit8254

namespace PalleyOS.Timer

open Machine RateGenerator

-- The timer's functions with the chip behind its two ports.
section Accesses

def chipEvent : UInt16 × UInt8 → Option Event
  | (port, value) =>
      if port = PIT_COMMAND_REG then some (.command value)
      else if port = PIT_CHANNEL_0_DATA then some (.write value)
      else none

-- What the chip has been sent.
def chipWrites (t : Code) : List Event := t.memory.ports.sent.filterMap chipEvent

variable {α : Type} (t : Code)

-- The handlers write to the interrupt controllers only.
theorem chipWrites_stable (events : List Event) :
    Thread.Stable isr (fun kernel => kernel.ports.sent.filterMap chipEvent = events) := by
  intro interrupt kernel h
  have hacknowledged : (sendEndOfInterrupt kernel.ports).sent.filterMap chipEvent = events := by
    rw [← h]
    simp [sendEndOfInterrupt, IoPorts.out, chipEvent, PIT_COMMAND_REG, PIT_CHANNEL_0_DATA]
  cases interrupt <;> exact hacknowledged

@[simp] theorem interrupted_chipWrites : chipWrites (t.interrupted isr) = chipWrites t :=
  (chipWrites_stable (chipWrites t)).interrupted t rfl

@[simp] theorem cli_chipWrites : chipWrites (cli t) = chipWrites t := interrupted_chipWrites t

@[simp] theorem sti_chipWrites : chipWrites (sti t) = chipWrites t := interrupted_chipWrites t

@[simp] theorem load_chipWrites (f : Kernel → α) : chipWrites (load f t).2 = chipWrites t :=
  interrupted_chipWrites t

@[simp] theorem inb_chipWrites : chipWrites (inb t).2 = chipWrites t := interrupted_chipWrites t

@[simp] theorem storePit_chipWrites (f : Pit → Pit) : chipWrites (storePit f t) = chipWrites t :=
  interrupted_chipWrites t

@[simp] theorem outb_chipWrites (port : UInt16) (value : UInt8) :
    chipWrites (outb port value t) = chipWrites t ++ (chipEvent (port, value)).toList := by
  rw [← interrupted_chipWrites t]
  change List.filterMap chipEvent ((t.interrupted isr).memory.ports.sent ++ [(port, value)]) = _
  rw [List.filterMap_append]
  cases h : chipEvent (port, value) <;> simp [chipWrites, h]

@[simp] theorem idt_add_isr_chipWrites (offset : UInt8) (func_ptr : UInt32)
    (desc_level gate_type : UInt8) :
    chipWrites (idt_add_isr offset func_ptr desc_level gate_type t) = chipWrites t := by
  have hstore : ∀ (f : Kernel → Kernel) (s : Code), (∀ kernel, (f kernel).ports = kernel.ports) →
      chipWrites (store f s) = chipWrites s := by
    intro f s hf
    rw [← interrupted_chipWrites s]
    exact congrArg (fun ports : IoPorts => ports.sent.filterMap chipEvent) (hf _)
  unfold idt_add_isr
  simp only [sti_chipWrites]
  exact ((hstore _ _ fun _ => rfl).trans (hstore _ _ fun _ => rfl)).trans (cli_chipWrites t)

end Accesses

section Init

-- A rate of 1193 clocks, and the status is latched at the end.
def initWrites : List Event := [.command 0x34, .write 0xa9, .write 0x04, .command 0xe2]

theorem initPITTimer_chipWrites (t : Code) (hdown : t.memory.pit.pit_initialized = false) :
    chipWrites (initPITTimer t) = chipWrites t ++ initWrites := by
  have hcli : (cli t).memory.pit.pit_initialized = false := (initialized_stable false).cli t hdown
  obtain ⟨hvalue, -⟩ := load_initialized (cli t)
  unfold initPITTimer
  rw [hcli] at hvalue
  simp [hvalue, initWrites, chipEvent, PIT_COMMAND_REG, PIT_CHANNEL_0_DATA]

-- The chip after `initPITTimer`: a status is latched that nobody reads.
structure Programmed (age start : Nat) (chip : RateGenerator) : Prop where
  generates : chip.Generates 1193 age start
  low : chip.low = none
  status : ∃ status, chip.latchedStatus = some status ∧ status.toNat % 64 = 52
  latchedCount : chip.latchedCount = none
  high : chip.high = false

-- Whatever the chip did before and however many clocks come in between.
theorem run_initWrites (trace : List Event) (chip : RateGenerator)
    (h : accesses trace = initWrites) :
    ∃ ready age start, run trace chip = some (ready, []) ∧
      Programmed age start ready := by
  obtain ⟨old, later, hlater, hrun⟩ := run_of_accesses h chip
  obtain ⟨m, last, rfl, hlast⟩ := of_accesses_cons hlater
  obtain ⟨n, rfl⟩ := of_accesses_nil hlast
  have hset : (old.programmed 1193).Generates 1193 0 old.rises := programmed_generates 1193 old
  have hlatched := hset.clocks (by decide) m
  have hlater := hlatched.clocks (by decide) n
  refine ⟨{ (old.programmed 1193) with
      toCounter := ((old.programmed 1193).toCounter.clocks m).clocks n
      latchedStatus := some ((old.programmed 1193).toCounter.clocks m).status },
    0 + m + n, old.rises, ?_, hlater, rfl, ⟨_, rfl, Counter.status_mod _⟩, rfl, rfl⟩
  have hreload : reloadOf 0xa9 0x04 = 1193 := rfl
  rw [hrun, run_clocks, run, hreload]
  have hfinish := run_clocks n [] { (old.programmed 1193) with
    toCounter := (old.programmed 1193).toCounter.clocks m
    latchedStatus := some ((old.programmed 1193).toCounter.clocks m).status }
  rw [List.append_nil] at hfinish
  exact hfinish

-- The interrupts of line 0 come every 1193 clocks, whatever else is read from the
-- chip in between.
theorem initPITTimer_rate (t : Code) (trace : List Event) (chip : RateGenerator)
    (hdown : t.memory.pit.pit_initialized = false)
    (htrace : chipWrites (initPITTimer t) = chipWrites t ++ accesses trace) :
    ∃ ready age start, run trace chip = some (ready, []) ∧
      ∀ later : List Event, (∀ event ∈ later, event.keeps = true) →
        ∃ final answers, run later ready = some (final, answers) ∧
          final.rises = start + (age + later.count .clock - 1) / 1193 := by
  rw [initPITTimer_chipWrites t hdown] at htrace
  obtain ⟨ready, age, start, hrun, hready⟩ :=
    run_initWrites trace chip (List.append_cancel_left htrace).symm
  refine ⟨ready, age, start, hrun, fun later hlater => ?_⟩
  obtain ⟨final, answers, hdone, hcounter⟩ := run_keeps later ready hlater
  have hage := hready.generates.clocks (by decide) (later.count .clock)
  rw [← hcounter] at hage
  exact ⟨final, answers, hdone, hage.rises_eq⟩

-- A kernel whose timer is not up, and a chip that counts something else.
def unprepared : Code :=
  { booted with
    memory := { booted.memory with pit := { booted.memory.pit with pit_initialized := false } } }

def otherRate : RateGenerator :=
  { reload := some 65536
    count := 700
    running := true
    null := false
    rises := 3
    low := none
    latchedStatus := none
    latchedCount := none
    high := false }

def initTrace : List Event :=
  [.clock, .command 0x34, .write 0xa9, .clock, .write 0x04, .clock, .clock, .command 0xe2]

theorem initPITTimer_rate_unprepared :
    ∃ ready age start, run initTrace otherRate = some (ready, []) ∧
      ∀ later : List Event, (∀ event ∈ later, event.keeps = true) →
        ∃ final answers, run later ready = some (final, answers) ∧
          final.rises = start + (age + later.count .clock - 1) / 1193 :=
  initPITTimer_rate unprepared initTrace otherRate rfl (initPITTimer_chipWrites unprepared rfl)

end Init

-- The two functions that read and set the count, with clocks between their accesses.
section Counts

inductive ChipCall where
  | readPITCount
  | setPITCount (count : UInt16)

-- The counts that a call returns.
def ChipCall.run : ChipCall → Code → List UInt16 × Code
  | .readPITCount, t =>
      let (count, t) := Timer.readPITCount t
      ([count], t)
  | .setPITCount count, t => ([], Timer.setPITCount count t)

def runCalls : List ChipCall → Code → List UInt16 × Code
  | [], t => ([], t)
  | call :: rest, t =>
      let (counts, t) := call.run t
      let (more, t) := runCalls rest t
      (counts ++ more, t)

-- A call and the clocks before its first, its second and its third access.
structure TimedCall where
  call : ChipCall
  first : Nat
  second : Nat
  third : Nat

def lowByte (count : UInt16) : UInt8 := (count &&& 0xff).toUInt8

def highByte (count : UInt16) : UInt8 := ((count &&& 0xff00) >>> 8).toUInt8

def TimedCall.events (timed : TimedCall) : List Event :=
  match timed.call with
  | .readPITCount =>
      clocks timed.first ++ .command 0 :: (clocks timed.second ++ .read ::
        (clocks timed.third ++ [.read]))
  | .setPITCount count =>
      clocks timed.first ++ .write (lowByte count) :: (clocks timed.second ++
        [.write (highByte count)])

-- What the call is for: to look at the counter at one moment, or to give it another
-- count at one.
def TimedCall.count (timed : TimedCall) (c : Counter) : List UInt16 × Counter :=
  match timed.call with
  | .readPITCount =>
      let c := c.clocks timed.first
      ([UInt16.ofNat c.count], c.clocks (timed.second + timed.third))
  | .setPITCount count =>
      ([], (c.clocks (timed.first + timed.second)).write
        (if count = 0 then 65536 else count.toNat))

def countRun : List TimedCall → Counter → List UInt16 × Counter
  | [], c => ([], c)
  | timed :: rest, c =>
      let (counts, c) := timed.count c
      let (more, c) := countRun rest c
      (counts ++ more, c)

def Event.isWrite : Event → Bool
  | .clock => false
  | .command _ => true
  | .write _ => true
  | .read => false

theorem word_of_bytes (count : UInt16) :
    count.toUInt8.toUInt16 ||| (count >>> 8).toUInt8.toUInt16 <<< 8 = count := by
  have hcount := count.toNat_lt
  have hlow : count.toUInt8.toUInt16.toNat = count.toNat % 256 := by simp
  have hhigh : ((count >>> 8).toUInt8.toUInt16 <<< 8).toNat = count.toNat / 256 * 256 := by
    simp [Nat.shiftRight_eq_div_pow, Nat.shiftLeft_eq]
    omega
  apply UInt16.toNat_inj.mp
  rw [UInt16.toNat_or, hlow, hhigh, Nat.or_comm, ← Nat.shiftLeft_eq _ 8,
    ← Nat.shiftLeft_add_eq_or_of_lt (Nat.mod_lt _ (by decide)), Nat.shiftLeft_eq]
  omega

theorem lowByte_toNat (count : UInt16) : (lowByte count).toNat = count.toNat % 256 := by
  have hmask : count.toNat &&& 255 = count.toNat % 256 := Nat.and_two_pow_sub_one_eq_mod _ 8
  have hbyte : (lowByte count).toNat = (count.toNat &&& 255) % 256 := rfl
  rw [hbyte]
  omega

theorem highByte_toNat (count : UInt16) : (highByte count).toNat = count.toNat / 256 := by
  have hcount := count.toNat_lt
  have hmask : count.toNat >>> 8 &&& 255 = count.toNat >>> 8 % 256 :=
    Nat.and_two_pow_sub_one_eq_mod _ 8
  have hshift : (count.toNat &&& 65280) >>> 8 = count.toNat >>> 8 &&& 255 :=
    Nat.shiftRight_and_distrib
  have hbyte : (highByte count).toNat = (count.toNat &&& 65280) >>> 8 % 256 := rfl
  rw [hbyte, hshift, hmask, Nat.shiftRight_eq_div_pow]
  omega

theorem reloadOf_bytes (count : UInt16) :
    reloadOf (lowByte count) (highByte count) = if count = 0 then 65536 else count.toNat := by
  have hwhole : (lowByte count).toNat + 256 * (highByte count).toNat = count.toNat := by
    rw [lowByte_toNat, highByte_toNat, Nat.mod_add_div]
  have hzero : count.toNat = (0 : UInt16).toNat ↔ count = 0 := UInt16.toNat_inj
  rw [UInt16.toNat_zero] at hzero
  unfold reloadOf
  rw [hwhole]
  simp only [hzero]

theorem readPITCount_spec (t : Code) (low high : UInt8) (rest : Stream' UInt8)
    (h : responses t = [low, high] ++ₛ rest) :
    (readPITCount t).1 = low.toUInt16 ||| high.toUInt16 <<< 8 ∧
    responses (readPITCount t).2 = rest ∧
    chipWrites (readPITCount t).2 = chipWrites t ++ [.command 0] := by
  have hfirst : responses (outb PIT_COMMAND_REG 0 (cli t)) = [low, high] ++ₛ rest := by
    rw [outb_responses, cli_responses, h]
  have hlow : (inb (outb PIT_COMMAND_REG 0 (cli t))).1 = low := by
    rw [inb_value, hfirst]
    rfl
  have hhigh : (inb (inb (outb PIT_COMMAND_REG 0 (cli t))).2).1 = high := by
    rw [inb_value, inb_responses, hfirst]
    rfl
  refine ⟨?_, ?_, ?_⟩
  · unfold readPITCount
    simp only [hlow, hhigh]
  · unfold readPITCount
    simp only [sti_responses, inb_responses, hfirst]
    rfl
  · unfold readPITCount
    simp [chipEvent]

theorem setPITCount_spec (count : UInt16) (t : Code) :
    responses (setPITCount count t) = responses t ∧
    chipWrites (setPITCount count t) =
      chipWrites t ++ [.write (lowByte count), .write (highByte count)] := by
  unfold setPITCount
  simp [chipEvent, PIT_COMMAND_REG, PIT_CHANNEL_0_DATA, lowByte, highByte]

-- The chip goes through a call as the counter alone does through what the call is
-- for.
theorem run_call (timed : TimedCall) (chip : RateGenerator) (h : chip.AtRest) :
    ∃ answers, (∀ rest, run (timed.events ++ rest) chip =
        (run rest (chip.withCounter (timed.count chip.toCounter).2)).map
          fun (final, more) => (final, answers ++ more)) ∧
      ∀ (t : Code) (rest : Stream' UInt8), responses t = answers ++ₛ rest →
        (timed.call.run t).1 = (timed.count chip.toCounter).1 ∧
        responses (timed.call.run t).2 = rest ∧
        chipWrites (timed.call.run t).2 = chipWrites t ++ timed.events.filter Event.isWrite := by
  obtain ⟨call, first, second, third⟩ := timed
  have hwrites : ∀ n rest, (clocks n ++ rest).filter Event.isWrite =
      rest.filter Event.isWrite := by
    intro n rest
    rw [List.filter_append, clocks, List.filter_replicate]
    rfl
  cases call with
  | readPITCount =>
      refine ⟨[(UInt16.ofNat (chip.toCounter.clocks first).count).toUInt8,
        (UInt16.ofNat (chip.toCounter.clocks first).count >>> 8).toUInt8], fun rest => ?_,
        fun t rest hresponses => ?_⟩
      · simp only [TimedCall.events, List.append_assoc, List.cons_append, List.nil_append]
        rw [run_clocks, run_read_count second third rest _ (h.withCounter _)]
        rfl
      · obtain ⟨hvalue, hleft, hsent⟩ := readPITCount_spec t _ _ rest hresponses
        refine ⟨?_, hleft, ?_⟩
        · simp only [ChipCall.run, hvalue, word_of_bytes]
          rfl
        · simp only [ChipCall.run, hsent, TimedCall.events, hwrites]
          rw [List.filter_cons, hwrites, List.filter_cons, hwrites]
          rfl
  | setPITCount count =>
      refine ⟨[], fun rest => ?_, fun t rest hresponses => ?_⟩
      · simp only [TimedCall.events, List.append_assoc, List.cons_append, List.nil_append]
        rw [run_clocks, run_write_count second _ _ rest _ (h.withCounter _), reloadOf_bytes]
        simp only [TimedCall.count, Counter.clocks_add]
        exact (congrFun Option.map_id _).symm
      · obtain ⟨hleft, hsent⟩ := setPITCount_spec count t
        refine ⟨rfl, hleft.trans hresponses, ?_⟩
        simp only [ChipCall.run, hsent, TimedCall.events, hwrites]
        rw [List.filter_cons, hwrites]
        rfl

-- However many clocks come between the accesses: each call reads or sets the count at
-- one moment, and the counter goes on as if it were the only thing in the chip.
theorem calls_refine_counter (calls : List TimedCall) (chip : RateGenerator) (h : chip.AtRest) :
    ∃ answers, run (calls.flatMap TimedCall.events) chip =
        some (chip.withCounter (countRun calls chip.toCounter).2, answers) ∧
      ∀ (t : Code) (rest : Stream' UInt8), responses t = answers ++ₛ rest →
        (runCalls (calls.map TimedCall.call) t).1 = (countRun calls chip.toCounter).1 ∧
        chipWrites (runCalls (calls.map TimedCall.call) t).2 =
          chipWrites t ++ (calls.flatMap TimedCall.events).filter Event.isWrite := by
  induction calls generalizing chip with
  | nil =>
      refine ⟨[], rfl, fun t rest _ => ⟨rfl, ?_⟩⟩
      simp [runCalls]
  | cons timed later ih =>
      obtain ⟨answers, hrun, hcode⟩ := run_call timed chip h
      obtain ⟨more, hlater, hcodes⟩ := ih (chip.withCounter (timed.count chip.toCounter).2)
        (h.withCounter _)
      refine ⟨answers ++ more, ?_, fun t rest hresponses => ?_⟩
      · rw [List.flatMap_cons, hrun, hlater]
        rfl
      · rw [Stream'.append_append_stream] at hresponses
        obtain ⟨hvalues, hleft, hwrites⟩ := hcode t (more ++ₛ rest) hresponses
        obtain ⟨hvalues', hwrites'⟩ := hcodes (timed.call.run t).2 rest hleft
        constructor
        · simp only [List.map_cons, runCalls, hvalues, hvalues']
          rfl
        · simp only [List.map_cons, runCalls, List.flatMap_cons, List.filter_append]
          rw [hwrites', hwrites, List.append_assoc]

theorem calls_refine_counter_otherRate :
    ∃ answers, run (([⟨.readPITCount, 1, 700, 2⟩, ⟨.setPITCount 0, 0, 1, 0⟩,
        ⟨.readPITCount, 3, 0, 0⟩] : List TimedCall).flatMap TimedCall.events) otherRate =
        some (otherRate.withCounter (countRun [⟨.readPITCount, 1, 700, 2⟩,
          ⟨.setPITCount 0, 0, 1, 0⟩, ⟨.readPITCount, 3, 0, 0⟩] otherRate.toCounter).2, answers) ∧
      ∀ (t : Code) (rest : Stream' UInt8), responses t = answers ++ₛ rest →
        (runCalls [.readPITCount, .setPITCount 0, .readPITCount] t).1 =
          (countRun [⟨.readPITCount, 1, 700, 2⟩, ⟨.setPITCount 0, 0, 1, 0⟩,
            ⟨.readPITCount, 3, 0, 0⟩] otherRate.toCounter).1 ∧
        chipWrites (runCalls [.readPITCount, .setPITCount 0, .readPITCount] t).2 =
          chipWrites t ++ (([⟨.readPITCount, 1, 700, 2⟩, ⟨.setPITCount 0, 0, 1, 0⟩,
            ⟨.readPITCount, 3, 0, 0⟩] : List TimedCall).flatMap TimedCall.events).filter
              Event.isWrite :=
  calls_refine_counter _ otherRate ⟨rfl, rfl, rfl, rfl⟩

-- What `readPITCount` does to the chip, with clocks before each access.
def readout (first second third : Nat) : List Event :=
  TimedCall.events ⟨.readPITCount, first, second, third⟩

-- A latched status takes the place of the low byte.
theorem run_readout_status (first second third : Nat) (rest : List Event) (c : Counter)
    (status : UInt8) :
    run (readout first second third ++ rest) ⟨c, none, some status, none, false⟩ =
      (run rest ⟨c.clocks (first + second + third), none, none,
        some (UInt16.ofNat (c.clocks first).count), true⟩).map
          fun (final, answers) =>
            (final, status :: (UInt16.ofNat (c.clocks first).count).toUInt8 :: answers) := by
  have hlatch : command 0 ⟨c.clocks first, none, some status, none, false⟩ =
      some ⟨c.clocks first, none, some status, some (UInt16.ofNat (c.clocks first).count), false⟩ :=
    rfl
  simp only [readout, TimedCall.events, List.append_assoc, List.cons_append, List.nil_append]
  rw [run_clocks, run, withCounter, hlatch, Option.bind_some, run_clocks, run]
  simp only [RateGenerator.read, withCounter]
  rw [run_clocks, run]
  simp only [RateGenerator.read, withCounter, Option.getD_some, Bool.false_eq_true, if_false, Option.map_map,
    Function.comp_def, ← Counter.clocks_add]

-- The high byte of a count that is still latched takes the place of the low byte.
theorem run_readout_high (first second third : Nat) (c : Counter) (latched : UInt16) :
    run (readout first second third) ⟨c, none, none, some latched, true⟩ =
      some (⟨c.clocks (first + second + third), none, none, none, true⟩,
        [(latched >>> 8).toUInt8,
          (UInt16.ofNat (c.clocks (first + second + third)).count).toUInt8]) := by
  have hlatch : command 0 ⟨c.clocks first, none, none, some latched, true⟩ =
      some ⟨c.clocks first, none, none, some latched, true⟩ := rfl
  simp only [readout, TimedCall.events]
  rw [run_clocks, run, withCounter, hlatch, Option.bind_some, run_clocks, run]
  simp only [RateGenerator.read, withCounter, Option.getD_some, if_true]
  rw [run_clocks, run]
  simp only [RateGenerator.read, withCounter, Option.getD_none, Bool.false_eq_true, if_false, run,
    Option.map_some, ← Counter.clocks_add]

theorem joined_toNat (low high : UInt8) :
    (low.toUInt16 ||| high.toUInt16 <<< 8).toNat = low.toNat + 256 * high.toNat := by
  have hhigh : (high.toUInt16 <<< 8).toNat = high.toNat * 256 := by
    have hlt := high.toNat_lt
    simp [Nat.shiftLeft_eq]
    omega
  rw [UInt16.toNat_or, hhigh, UInt8.toNat_toUInt16, Nat.or_comm, ← Nat.shiftLeft_eq _ 8,
    ← Nat.shiftLeft_add_eq_or_of_lt low.toNat_lt, Nat.shiftLeft_eq]
  omega

-- After `initPITTimer` the first count read has the latched status for its low byte, and
-- the second one is put together of two counts.
theorem counts_after_init (t : Code) (trace : List Event) (chip : RateGenerator)
    (hdown : t.memory.pit.pit_initialized = false)
    (htrace : chipWrites (initPITTimer t) = chipWrites t ++ accesses trace)
    (m₁ m₂ m₃ n₁ n₂ n₃ : Nat) :
    ∃ ready status final answers, run trace chip = some (ready, []) ∧
      ready.latchedStatus = some status ∧ status.toNat % 64 = 52 ∧
      run (readout m₁ m₂ m₃ ++ readout n₁ n₂ n₃) ready = some (final, answers) ∧
      ∀ (s : Code) (rest : Stream' UInt8), responses s = answers ++ₛ rest →
        ∃ count count', (runCalls [.readPITCount, .readPITCount] s).1 = [count, count'] ∧
          let latched := (ready.toCounter.clocks m₁).count % 65536
          let current := (ready.toCounter.clocks (m₁ + m₂ + m₃ + n₁ + n₂ + n₃)).count % 65536
          count.toNat % 256 = status.toNat ∧ count.toNat / 256 = latched % 256 ∧
            count'.toNat % 256 = latched / 256 ∧ count'.toNat / 256 = current % 256 := by
  rw [initPITTimer_chipWrites t hdown] at htrace
  obtain ⟨⟨c, low, latchedStatus, latchedCount, high⟩, age, start, hrun, hready⟩ :=
    run_initWrites trace chip (List.append_cancel_left htrace).symm
  obtain ⟨-, rfl, ⟨status, rfl, hstatus⟩, rfl, rfl⟩ := hready
  have hsum : m₁ + m₂ + m₃ + (n₁ + n₂ + n₃) = m₁ + m₂ + m₃ + n₁ + n₂ + n₃ := by omega
  have hreads := run_readout_status m₁ m₂ m₃ (readout n₁ n₂ n₃) c status
  rw [run_readout_high, ← Counter.clocks_add, hsum] at hreads
  refine ⟨_, status, _, _, hrun, rfl, hstatus, hreads, fun s rest hresponses => ?_⟩
  obtain ⟨hfirst, hleft, -⟩ := readPITCount_spec s _ _ _ hresponses
  obtain ⟨hsecond, -, -⟩ := readPITCount_spec (readPITCount s).2 _ _ rest hleft
  refine ⟨(readPITCount s).1, (readPITCount (readPITCount s).2).1, rfl, ?_⟩
  have hlow (count : Nat) : (UInt16.ofNat count).toUInt8.toNat = count % 65536 % 256 := by simp
  have hhigh (count : Nat) :
      (UInt16.ofNat count >>> 8).toUInt8.toNat = count % 65536 / 256 := by
    have hlt : count % 65536 < 65536 := Nat.mod_lt _ (by decide)
    simp [Nat.shiftRight_eq_div_pow]
    omega
  have hlt := status.toNat_lt
  rw [hfirst, hsecond, joined_toNat, joined_toNat, hlow, hlow, hhigh]
  dsimp only
  refine ⟨?_, ?_, ?_, ?_⟩ <;> omega

theorem counts_after_init_unprepared :
    ∃ ready status final answers, run initTrace otherRate = some (ready, []) ∧
      ready.latchedStatus = some status ∧ status.toNat % 64 = 52 ∧
      run (readout 5 1 0 ++ readout 100 0 1) ready = some (final, answers) ∧
      ∀ (s : Code) (rest : Stream' UInt8), responses s = answers ++ₛ rest →
        ∃ count count', (runCalls [.readPITCount, .readPITCount] s).1 = [count, count'] ∧
          let latched := (ready.toCounter.clocks 5).count % 65536
          let current := (ready.toCounter.clocks (5 + 1 + 0 + 100 + 0 + 1)).count % 65536
          count.toNat % 256 = status.toNat ∧ count.toNat / 256 = latched % 256 ∧
            count'.toNat % 256 = latched / 256 ∧ count'.toNat / 256 = current % 256 :=
  counts_after_init unprepared initTrace otherRate rfl (initPITTimer_chipWrites unprepared rfl)
    5 1 0 100 0 1

end Counts

end PalleyOS.Timer
