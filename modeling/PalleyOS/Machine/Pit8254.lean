import Mathlib.Data.Nat.ModEq
import Mathlib.Data.List.Basic

namespace Machine

-- Counter 0 of an 8254 interval timer, programmed to generate a rate: mode 2, binary,
-- the low byte of a count before its high byte.
section Pit8254

-- `reload` is `none` from the control word to the first count, which the next clock
-- moves into `count` to start the counter. `null` says that the last count written
-- is not in use yet. `rises` only counts how often the output has risen.
structure Counter where
  reload : Option Nat
  count : Nat
  running : Bool
  null : Bool
  rises : Nat
  deriving DecidableEq

namespace Counter

-- From 1 on the counter starts again and its output rises.
def clock (c : Counter) : Counter :=
  match c.reload with
  | none => c
  | some reload =>
      if c.running = false then { c with count := reload, running := true, null := false }
      else if c.count ≤ 1 then { c with count := reload, null := false, rises := c.rises + 1 }
      else { c with count := c.count - 1 }

def clocks : Nat → Counter → Counter
  | 0, c => c
  | n + 1, c => clocks n c.clock

def control (c : Counter) : Counter :=
  { c with reload := none, running := false, null := true }

def write (reload : Nat) (c : Counter) : Counter :=
  { c with reload := some reload, null := true }

-- The output is low for the last clock of a period.
def out (c : Counter) : Bool := !(c.running && c.count == 1)

def status (c : Counter) : UInt8 := UInt8.ofNat (128 * c.out.toNat + 64 * c.null.toNat + 52)

end Counter

-- What the processor has of the counter: the low byte of a count to be completed, the
-- latched status and count, and whether the high byte of a count is read next.
structure RateGenerator extends Counter where
  low : Option UInt8
  latchedStatus : Option UInt8
  latchedCount : Option UInt16
  high : Bool
  deriving DecidableEq

-- The count of a reload value, of which 0 is the largest.
def reloadOf (low high : UInt8) : Nat :=
  if low.toNat + 256 * high.toNat = 0 then 65536 else low.toNat + 256 * high.toNat

namespace RateGenerator

def withCounter (c : Counter) (chip : RateGenerator) : RateGenerator :=
  { chip with toCounter := c }

def clock (chip : RateGenerator) : RateGenerator := chip.withCounter chip.toCounter.clock

def latch (chip : RateGenerator) : RateGenerator :=
  { chip with
    latchedCount := some (chip.latchedCount.getD (UInt16.ofNat chip.count)) }

def latchStatus (chip : RateGenerator) : RateGenerator :=
  { chip with latchedStatus := some (chip.latchedStatus.getD chip.status) }

-- The command port. The result is `none` when counter 0 is programmed for
-- something else.
def command (value : UInt8) (chip : RateGenerator) : Option RateGenerator :=
  if value.toNat / 64 = 3 then
    if value.toNat.testBit 1 then
      let chip := if value.toNat.testBit 5 then chip else chip.latch
      some (if value.toNat.testBit 4 then chip else chip.latchStatus)
    else some chip
  else if value.toNat / 64 = 0 then
    if value.toNat / 16 = 0 then some chip.latch
    else if value.toNat / 16 = 3 ∧ value.toNat / 2 % 4 = 2 ∧ value.toNat % 2 = 0 then
      some
        { toCounter := chip.toCounter.control
          low := none
          latchedStatus := none
          latchedCount := none
          high := false }
    else none
  else some chip

def write (value : UInt8) (chip : RateGenerator) : RateGenerator :=
  match chip.low with
  | none => { chip with low := some value }
  | some low => { chip with toCounter := chip.toCounter.write (reloadOf low value), low := none }

-- A latched status is read before a latched count, and that before the counter.
def read (chip : RateGenerator) : UInt8 × RateGenerator :=
  match chip.latchedStatus with
  | some status => (status, { chip with latchedStatus := none })
  | none =>
      let count := chip.latchedCount.getD (UInt16.ofNat chip.count)
      if chip.high then
        ((count >>> 8).toUInt8, { chip with latchedCount := none, high := false })
      else (count.toUInt8, { chip with high := true })

-- What happens to the counter: a clock, or the processor at one of its ports.
inductive Event where
  | clock
  | command (value : UInt8)
  | write (value : UInt8)
  | read
  deriving DecidableEq

-- The run and what its reads give, `none` when the counter becomes another one.
def run : List Event → RateGenerator → Option (RateGenerator × List UInt8)
  | [], chip => some (chip, [])
  | .clock :: rest, chip => run rest chip.clock
  | .command value :: rest, chip => (chip.command value).bind (run rest)
  | .write value :: rest, chip => run rest (chip.write value)
  | .read :: rest, chip =>
      (run rest chip.read.2).map fun (final, answers) => (final, chip.read.1 :: answers)

def clocks (n : Nat) : List Event := List.replicate n .clock

def accesses (trace : List Event) : List Event := trace.filter (· ≠ .clock)

-- Neither a count nor a control word for counter 0.
def Event.keeps : Event → Bool
  | .clock => true
  | .command value => value.toNat / 64 ≠ 0 || value.toNat / 16 = 0
  | .write _ => false
  | .read => true

end RateGenerator

namespace Counter

-- A counter that reloads the same count again and again, `elapsed` clocks after it
-- was started.
structure Periodic (period elapsed start : Nat) (c : Counter) : Prop where
  reload : c.reload = some period
  running : c.running = true
  count : c.count = period - elapsed % period
  rises : c.rises = start + elapsed / period

theorem Periodic.clock {period elapsed start : Nat} {c : Counter} (hperiod : 0 < period)
    (h : Periodic period elapsed start c) : Periodic period (elapsed + 1) start c.clock := by
  have hlt := Nat.mod_lt elapsed hperiod
  have hsplit := Nat.div_add_mod elapsed period
  have hcount := h.count
  have hrises := h.rises
  by_cases hlast : elapsed % period + 1 = period
  · have hturn : elapsed + 1 = period * (elapsed / period + 1) := by
      rw [Nat.mul_add, Nat.mul_one]
      omega
    have hmod : (elapsed + 1) % period = 0 := by rw [hturn, Nat.mul_mod_right]
    have hdiv : (elapsed + 1) / period = elapsed / period + 1 := by
      rw [hturn, Nat.mul_div_cancel_left _ hperiod]
    have hclock : c.clock = { c with count := period, null := false, rises := c.rises + 1 } := by
      simp only [Counter.clock, h.reload, h.running, Bool.true_eq_false, if_false]
      rw [if_pos (by omega)]
    rw [hclock]
    exact ⟨h.reload, h.running, by rw [hmod]; rfl, by rw [hdiv, hrises]; rfl⟩
  · have hnext : elapsed + 1 = period * (elapsed / period) + (elapsed % period + 1) := by omega
    have hinside : elapsed % period + 1 < period := by omega
    have hmod : (elapsed + 1) % period = elapsed % period + 1 := by
      rw [hnext, Nat.mul_add_mod, Nat.mod_eq_of_lt hinside]
    have hdiv : (elapsed + 1) / period = elapsed / period := by
      rw [hnext, Nat.mul_add_div hperiod, Nat.div_eq_of_lt hinside, Nat.add_zero]
    have hclock : c.clock = { c with count := c.count - 1 } := by
      simp only [Counter.clock, h.reload, h.running, Bool.true_eq_false, if_false]
      rw [if_neg (by omega)]
    rw [hclock]
    refine ⟨h.reload, h.running, ?_, ?_⟩
    · change c.count - 1 = _
      omega
    · change c.rises = _
      rw [hdiv, hrises]

-- `age` clocks after its first count, of which the first one started it.
def Generates (period age start : Nat) (c : Counter) : Prop :=
  match age with
  | 0 => c.reload = some period ∧ c.running = false ∧ c.rises = start
  | elapsed + 1 => Periodic period elapsed start c

theorem Generates.clocks {period age start : Nat} {c : Counter} (hperiod : 0 < period)
    (h : Generates period age start c) (n : Nat) :
    Generates period (age + n) start (c.clocks n) := by
  induction n generalizing age c with
  | zero => exact h
  | succ n ih =>
      rw [← Nat.add_assoc, Nat.add_right_comm]
      refine ih ?_
      cases age with
      | zero =>
          obtain ⟨hreload, hstopped, hrises⟩ := h
          have hfirst : c.clock = { c with count := period, running := true, null := false } := by
            simp only [Counter.clock, hreload, hstopped, if_true]
          change Periodic period 0 start c.clock
          rw [hfirst]
          exact ⟨hreload, rfl, by simp, by simpa using hrises⟩
      | succ elapsed => exact Periodic.clock hperiod h

theorem Generates.rises_eq {period age start : Nat} {c : Counter}
    (h : Generates period age start c) : c.rises = start + (age - 1) / period := by
  cases age with
  | zero => simpa using h.2.2
  | succ elapsed => exact h.rises

theorem clocks_of_unset {c : Counter} (h : c.reload = none) (n : Nat) : c.clocks n = c := by
  induction n with
  | zero => rfl
  | succ n ih =>
      have hclock : c.clock = c := by simp only [Counter.clock, h]
      rw [Counter.clocks, hclock, ih]

theorem status_mod (c : Counter) : c.status.toNat % 64 = 52 := by
  have hout := c.out.toNat_le
  have hnull := c.null.toNat_le
  unfold status
  rw [UInt8.toNat_ofNat']
  omega

theorem clocks_add (m n : Nat) (c : Counter) : c.clocks (m + n) = (c.clocks m).clocks n := by
  induction m generalizing c with
  | zero => rw [Nat.zero_add, clocks]
  | succ m ih =>
      rw [Nat.add_right_comm]
      exact ih c.clock

end Counter

namespace RateGenerator

-- Nothing is half written, half read or latched.
structure AtRest (chip : RateGenerator) : Prop where
  low : chip.low = none
  latchedStatus : chip.latchedStatus = none
  latchedCount : chip.latchedCount = none
  high : chip.high = false

theorem AtRest.withCounter {chip : RateGenerator} (h : chip.AtRest) (c : Counter) :
    (chip.withCounter c).AtRest := ⟨h.low, h.latchedStatus, h.latchedCount, h.high⟩

theorem run_clocks (n : Nat) (rest : List Event) (chip : RateGenerator) :
    run (clocks n ++ rest) chip =
      run rest (chip.withCounter (chip.toCounter.clocks n)) := by
  induction n generalizing chip with
  | zero => rfl
  | succ n ih => exact ih chip.clock

theorem of_accesses_cons {trace rest : List Event} {event : Event}
    (h : accesses trace = event :: rest) :
    ∃ n later, trace = clocks n ++ event :: later ∧ accesses later = rest := by
  obtain ⟨before, later, htrace, hbefore, -, hrest⟩ := List.filter_eq_cons_iff.mp h
  have hclocks : before = clocks before.length :=
    List.eq_replicate_of_mem fun event hmem => by simpa using hbefore event hmem
  exact ⟨before.length, later, by rw [← hclocks, htrace], hrest⟩

theorem of_accesses_nil {trace : List Event} (h : accesses trace = []) :
    ∃ n, trace = clocks n :=
  ⟨trace.length, List.eq_replicate_of_mem fun event hmem => by
    simpa using List.filter_eq_nil_iff.mp h event hmem⟩

theorem command_keeps {value : UInt8} (h : (Event.command value).keeps = true)
    (chip : RateGenerator) :
    ∃ next, chip.command value = some next ∧ next.toCounter = chip.toCounter := by
  simp only [Event.keeps, Bool.or_eq_true, decide_eq_true_eq] at h
  unfold command
  split
  · split
    · refine ⟨_, rfl, ?_⟩
      split <;> split <;> rfl
    · exact ⟨chip, rfl, rfl⟩
  · split
    · next hcounter =>
        rw [if_pos (h.resolve_left (not_not.mpr hcounter))]
        exact ⟨chip.latch, rfl, rfl⟩
    · exact ⟨chip, rfl, rfl⟩

theorem read_counter (chip : RateGenerator) : chip.read.2.toCounter = chip.toCounter := by
  unfold read
  split
  · rfl
  · simp only
    split <;> rfl

-- Only the clock moves a counter that is not written to.
theorem run_keeps (trace : List Event) (chip : RateGenerator)
    (h : ∀ event ∈ trace, event.keeps = true) :
    ∃ final answers, run trace chip = some (final, answers) ∧
      final.toCounter = chip.toCounter.clocks (trace.count .clock) := by
  induction trace generalizing chip with
  | nil => exact ⟨chip, [], rfl, rfl⟩
  | cons event rest ih =>
      rw [List.forall_mem_cons] at h
      cases event with
      | clock =>
          obtain ⟨final, answers, hrun, hcounter⟩ := ih chip.clock h.2
          refine ⟨final, answers, hrun, ?_⟩
          rw [List.count_cons_self]
          exact hcounter
      | command value =>
          obtain ⟨next, hcommand, hsame⟩ := command_keeps h.1 chip
          obtain ⟨final, answers, hrun, hcounter⟩ := ih next h.2
          refine ⟨final, answers, ?_, ?_⟩
          · rw [run, hcommand, Option.bind_some, hrun]
          · rw [List.count_cons_of_ne (by simp), hcounter, hsame]
      | write value => cases h.1
      | read =>
          obtain ⟨final, answers, hrun, hcounter⟩ := ih chip.read.2 h.2
          refine ⟨final, chip.read.1 :: answers, ?_, ?_⟩
          · rw [run, hrun]
            rfl
          · rw [List.count_cons_of_ne (by simp), hcounter, read_counter]

-- A count that is latched and then read is the one at the latch, and nothing is left
-- behind.
theorem run_read_count (m n : Nat) (rest : List Event) (chip : RateGenerator)
    (h : chip.AtRest) :
    run (.command 0 :: (clocks m ++ .read :: (clocks n ++ .read :: rest))) chip =
      (run rest (chip.withCounter (chip.toCounter.clocks (m + n)))).map
        fun (final, answers) =>
          (final, (UInt16.ofNat chip.count).toUInt8 ::
            (UInt16.ofNat chip.count >>> 8).toUInt8 :: answers) := by
  have hlatch : chip.command 0 =
      some { chip with latchedCount := some (UInt16.ofNat chip.count) } := by
    have hcommand : chip.command 0 = some chip.latch := rfl
    rw [hcommand, latch, h.latchedCount]
    rfl
  rw [run, hlatch, Option.bind_some, run_clocks, run]
  simp only [read, withCounter, h.latchedStatus, h.high, Option.getD_some, Bool.false_eq_true,
    if_false]
  rw [run_clocks, run]
  simp only [read, withCounter, Option.getD_some, if_true, Option.map_map, Function.comp_def,
    ← Counter.clocks_add]
  obtain ⟨c, low, latchedStatus, latchedCount, high⟩ := chip
  obtain ⟨rfl, rfl, rfl, rfl⟩ := h
  rfl

theorem run_write_count (m : Nat) (low high : UInt8) (rest : List Event) (chip : RateGenerator)
    (h : chip.AtRest) :
    run (.write low :: (clocks m ++ .write high :: rest)) chip =
      run rest
        (chip.withCounter ((chip.toCounter.clocks m).write (reloadOf low high))) := by
  have hlow : chip.write low = { chip with low := some low } := by
    simp only [write, h.low]
  rw [run, hlow, run_clocks, run]
  obtain ⟨c, half, latchedStatus, latchedCount, top⟩ := chip
  obtain ⟨rfl, rfl, rfl, rfl⟩ := h
  rfl

-- The counter as the control word and a first count leave it.
def programmed (reload : Nat) (chip : RateGenerator) : RateGenerator :=
  { toCounter := chip.toCounter.control.write reload
    low := none
    latchedStatus := none
    latchedCount := none
    high := false }

theorem run_program (m n : Nat) (low high : UInt8) (rest : List Event) (chip : RateGenerator) :
    run (.command 0x34 :: (clocks m ++ .write low :: (clocks n ++ .write high :: rest))) chip =
      run rest (chip.programmed (reloadOf low high)) := by
  have hcontrol (k : Nat) : chip.toCounter.control.clocks k = chip.toCounter.control :=
    Counter.clocks_of_unset rfl k
  have hcommand : chip.command 0x34 = some ⟨chip.toCounter.control, none, none, none, false⟩ := rfl
  rw [run, hcommand, Option.bind_some, run_clocks,
    run_write_count n low high rest _ ⟨rfl, rfl, rfl, rfl⟩]
  simp only [withCounter, hcontrol]
  rfl

-- The same however many clocks come before and in between.
theorem run_of_accesses {trace rest : List Event} {low high : UInt8}
    (h : accesses trace = .command 0x34 :: .write low :: .write high :: rest)
    (chip : RateGenerator) :
    ∃ (old : RateGenerator) (later : List Event), accesses later = rest ∧
      run trace chip = run later (old.programmed (reloadOf low high)) := by
  obtain ⟨n₀, trace₁, rfl, h₁⟩ := of_accesses_cons h
  obtain ⟨n₁, trace₂, rfl, h₂⟩ := of_accesses_cons h₁
  obtain ⟨n₂, later, rfl, hlater⟩ := of_accesses_cons h₂
  refine ⟨chip.withCounter (chip.toCounter.clocks n₀), later, hlater, ?_⟩
  rw [run_clocks, run_program]

theorem programmed_generates (reload : Nat) (chip : RateGenerator) :
    (chip.programmed reload).Generates reload 0 chip.rises := ⟨rfl, rfl, rfl⟩

end RateGenerator

end Pit8254

end Machine
