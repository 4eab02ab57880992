import PalleyOS.Machine.Runs
import PalleyOS.Timer
import Mathlib.Algebra.Group.Nat.Defs

namespace PalleyOS.Timer

open Machine

-- What the counters are for, told from the history alone.
section History

def owned (i : Nat) : List PITEvent → Bool
  | [] => false
  | .added j :: earlier => if j = i then true else owned i earlier
  | .deactivated j :: earlier => if j = i then false else owned i earlier
  | .tick :: earlier => owned i earlier
  | .reset _ :: earlier => owned i earlier

def ticksSince (i : Nat) : List PITEvent → Nat
  | [] => 0
  | .tick :: earlier => ticksSince i earlier + 1
  | .added j :: earlier => if j = i then 0 else ticksSince i earlier
  | .reset j :: earlier => if j = i then 0 else ticksSince i earlier
  | .deactivated _ :: earlier => ticksSince i earlier

-- What the calls did, without the ticks between.
def calls (history : List PITEvent) : List PITEvent := history.filter (· ≠ .tick)

theorem owned_calls (i : Nat) (history : List PITEvent) :
    owned i (calls history) = owned i history := by
  induction history with
  | nil => rfl
  | cons event earlier ih => cases event <;> simp_all [calls, owned]

end History

section Counted

-- A counter agrees with its history. One that no call holds is at zero, save the
-- one a call is still clearing.
structure Counted (dirty : Option Nat) (pit : Pit) (i : Nat) : Prop where
  active : (pit.pit_counters i).active = owned i pit.history
  counting : owned i pit.history = true →
    (pit.pit_counters i).count = UInt32.ofNat (ticksSince i pit.history)
  idle : owned i pit.history = false → dirty ≠ some i → (pit.pit_counters i).count = 0

theorem tickPit_history (pit : Pit) : (tickPit pit).history = .tick :: pit.history := rfl

theorem tickPit_counter (pit : Pit) (i : Nat) (hi : i < PIT_NUM_COUNTERS) :
    (tickPit pit).pit_counters i =
      if (pit.pit_counters i).active = true then
        { pit.pit_counters i with count := (pit.pit_counters i).count + 1 }
      else pit.pit_counters i := by
  simp only [tickPit, tickCounters, hi, true_and]

theorem Counted.tick {dirty : Option Nat} {pit : Pit} {i : Nat} (h : Counted dirty pit i)
    (hi : i < PIT_NUM_COUNTERS) : Counted dirty (tickPit pit) i := by
  have hcounter := tickPit_counter pit i hi
  have howned : owned i (tickPit pit).history = owned i pit.history := by
    rw [tickPit_history, owned]
  have hticks : ticksSince i (tickPit pit).history = ticksSince i pit.history + 1 := by
    rw [tickPit_history, ticksSince]
  cases hactive : (pit.pit_counters i).active with
  | true =>
      have hheld : owned i pit.history = true := h.active ▸ hactive
      rw [hactive, if_pos rfl] at hcounter
      refine ⟨?_, fun _ => ?_, fun hfree => ?_⟩
      · rw [hcounter, howned]
        exact h.active
      · rw [hcounter, hticks, UInt32.ofNat_add, ← h.counting hheld]
        rfl
      · rw [howned, hheld] at hfree
        cases hfree
  | false =>
      rw [hactive, if_neg Bool.false_ne_true] at hcounter
      refine ⟨?_, fun hheld => ?_, fun hfree hclean => ?_⟩
      · rw [hcounter, howned]
        exact h.active
      · rw [howned, ← h.active, hactive] at hheld
        cases hheld
      · rw [hcounter]
        exact h.idle (howned ▸ hfree) hclean

-- A counter that a change of others leaves alone.
theorem Counted.of_same {dirty dirty' : Option Nat} {pit pit' : Pit} {i : Nat}
    (h : Counted dirty pit i) (hcounter : pit'.pit_counters i = pit.pit_counters i)
    (howned : owned i pit'.history = owned i pit.history)
    (hticks : ticksSince i pit'.history = ticksSince i pit.history)
    (hdirty : dirty' ≠ some i → dirty ≠ some i) : Counted dirty' pit' i := by
  refine ⟨?_, fun hheld => ?_, fun hfree hclean => ?_⟩
  · rw [hcounter, howned]
    exact h.active
  · rw [hcounter, hticks]
    exact h.counting (howned ▸ hheld)
  · rw [hcounter]
    exact h.idle (howned ▸ hfree) (hdirty hclean)

theorem Counted.added {pit : Pit} {i : Nat} (h : Counted none pit i) (k : Nat)
    (hfree : owned k pit.history = false) : Counted none (setActive k true pit) i := by
  by_cases hk : i = k
  · subst k
    have hcounter : (setActive i true pit).pit_counters i =
        { pit.pit_counters i with active := true } := Function.update_self ..
    have howned : owned i (setActive i true pit).history = true := if_pos rfl
    have hticks : ticksSince i (setActive i true pit).history = 0 := if_pos rfl
    refine ⟨?_, fun _ => ?_, fun hfree' => ?_⟩
    · rw [hcounter, howned]
    · rw [hcounter, hticks]
      exact h.idle hfree nofun
    · rw [howned] at hfree'
      cases hfree'
  · exact h.of_same (Function.update_of_ne hk _ _) (if_neg (Ne.symm hk)) (if_neg (Ne.symm hk)) id

theorem Counted.deactivated {pit : Pit} {i : Nat} (h : Counted none pit i) (k : Nat) :
    Counted (some k) (setActive k false pit) i := by
  by_cases hk : i = k
  · subst k
    have hcounter : (setActive i false pit).pit_counters i =
        { pit.pit_counters i with active := false } := Function.update_self ..
    have howned : owned i (setActive i false pit).history = false := if_pos rfl
    refine ⟨?_, fun hheld => ?_, fun _ hclean => absurd rfl hclean⟩
    · rw [hcounter, howned]
    · rw [howned] at hheld
      cases hheld
  · exact h.of_same (Function.update_of_ne hk _ _) (if_neg (Ne.symm hk)) rfl
      (fun _ => nofun)

theorem Counted.cleared {pit : Pit} {i k : Nat} (h : Counted (some k) pit i)
    (hfree : owned k pit.history = false) : Counted none (clearCount k pit) i := by
  by_cases hk : i = k
  · subst k
    have hcounter : (clearCount i pit).pit_counters i =
        { pit.pit_counters i with count := 0 } := Function.update_self ..
    refine ⟨?_, fun hheld => ?_, fun _ _ => ?_⟩
    · rw [hcounter]
      exact h.active
    · exact absurd (hfree.symm.trans hheld) Bool.false_ne_true
    · rw [hcounter]
  · exact h.of_same (Function.update_of_ne hk _ _) rfl rfl
      (fun _ he => hk (Option.some.inj he).symm)

theorem Counted.reset {pit : Pit} {i : Nat} (h : Counted none pit i) (k : Nat) :
    Counted none (resetCount k pit) i := by
  by_cases hk : i = k
  · subst k
    have hcounter : (resetCount i pit).pit_counters i =
        { pit.pit_counters i with count := 0 } := Function.update_self ..
    have hticks : ticksSince i (resetCount i pit).history = 0 := if_pos rfl
    refine ⟨?_, fun _ => ?_, fun _ _ => ?_⟩
    · rw [hcounter]
      exact h.active
    · rw [hcounter, hticks]
      rfl
    · rw [hcounter]
  · exact h.of_same (Function.update_of_ne hk _ _) rfl (if_neg (Ne.symm hk)) id

end Counted

section Calls

-- The timer is up, `done` is what the calls so far did and the counters below the
-- limit agree with the history.
structure Tracked (done : List PITEvent) (dirty : Option Nat) (kernel : Kernel) : Prop where
  initialized : kernel.pit.pit_initialized = true
  done_eq : calls kernel.pit.history = done
  counted : ∀ i < PIT_NUM_COUNTERS, Counted dirty kernel.pit i

variable {done : List PITEvent} {dirty : Option Nat} {t : Code}

theorem tracked_stable (done : List PITEvent) (dirty : Option Nat) :
    Thread.Stable isr (Tracked done dirty) := by
  intro interrupt kernel h
  cases interrupt with
  | timer =>
      have hpit : (isr .timer kernel).pit = tickPit kernel.pit := rfl
      refine ⟨h.initialized, ?_, fun i hi => ?_⟩
      · rw [hpit, tickPit_history]
        exact h.done_eq
      · rw [hpit]
        exact (h.counted i hi).tick hi
  | keyboard scan_code => exact ⟨h.initialized, h.done_eq, h.counted⟩

theorem Tracked.owned_eq {kernel : Kernel} (h : Tracked done dirty kernel) (i : Nat) :
    owned i kernel.pit.history = owned i done := by
  rw [← h.done_eq, owned_calls]

theorem ensureInitialized_tracked (h : Tracked done dirty t.memory) :
    Tracked done dirty (ensureInitialized t).memory := by
  have hread := (tracked_stable done dirty).read (fun kernel => kernel.pit.pit_initialized) t h
  have hup : (load (fun kernel => kernel.pit.pit_initialized) t).1 = true := hread.initialized
  unfold ensureInitialized
  simp only [hup, Bool.true_eq_false, if_false]
  exact hread

-- The counters before `i` are taken.
theorem claimFrom_spec (remaining i : Nat) (h : Tracked done none t.memory)
    (hlimit : i + remaining = PIT_NUM_COUNTERS) (hbefore : ∀ k < i, owned k done = true) :
    ((claimFrom remaining i t).1 = .error .PITCountersFull ∧
      (∀ k < PIT_NUM_COUNTERS, owned k done = true) ∧
      Tracked done none (claimFrom remaining i t).2.memory) ∨
    ∃ id : UInt8, (claimFrom remaining i t).1 = .counter_id id ∧
      id.toNat < PIT_NUM_COUNTERS ∧ owned id.toNat done = false ∧
      Tracked (.added id.toNat :: done) none (claimFrom remaining i t).2.memory := by
  induction remaining generalizing i t with
  | zero =>
      refine .inl ⟨rfl, fun k hk => hbefore k ?_, h⟩
      rw [← hlimit] at hk
      exact hk
  | succ remaining ih =>
      have hi : i < PIT_NUM_COUNTERS := by omega
      have hread := (tracked_stable done none).read
        (fun kernel => (kernel.pit.pit_counters i).active) t h
      have hactive : (load (fun kernel => (kernel.pit.pit_counters i).active) t).1 =
          owned i done := (hread.counted i hi).active.trans (hread.owned_eq i)
      rw [claimFrom]
      simp only [hactive]
      cases howned : owned i done with
      | false =>
          have hid : (UInt8.ofNat i).toNat = i := by
            rw [UInt8.toNat_ofNat']
            unfold PIT_NUM_COUNTERS at hi
            omega
          refine .inr ⟨UInt8.ofNat i, rfl, ?_, ?_, ?_⟩
          · rw [hid]
            exact hi
          · rw [hid]
            exact howned
          · rw [hid]
            refine (tracked_stable done none).write _ _ hread (fun kernel hkernel => ?_)
            refine ⟨hkernel.initialized, congrArg (_ :: ·) hkernel.done_eq, fun k hk => ?_⟩
            exact (hkernel.counted k hk).added i ((hkernel.owned_eq i).trans howned)
      | true =>
          simp only [Bool.true_eq_false, if_false]
          refine ih (i + 1) hread (by omega) (fun k hk => ?_)
          by_cases hlast : k = i
          · rw [hlast]
            exact howned
          · exact hbefore k (by omega)

theorem pitAddCounter_spec (h : Tracked done none t.memory) :
    ((pitAddCounter t).1 = .error .PITCountersFull ∧
      (∀ k < PIT_NUM_COUNTERS, owned k done = true) ∧
      Tracked done none (pitAddCounter t).2.memory) ∨
    ∃ id : UInt8, (pitAddCounter t).1 = .counter_id id ∧
      id.toNat < PIT_NUM_COUNTERS ∧ owned id.toNat done = false ∧
      Tracked (.added id.toNat :: done) none (pitAddCounter t).2.memory :=
  claimFrom_spec PIT_NUM_COUNTERS 0 (ensureInitialized_tracked h) (Nat.zero_add _)
    (fun k hk => absurd hk (Nat.not_lt_zero k))

variable (id : UInt8)

theorem pitDeactivateCounter_spec (h : Tracked done none t.memory)
    (hid : id.toNat < PIT_NUM_COUNTERS) :
    Tracked (.deactivated id.toNat :: done) none (pitDeactivateCounter id t).2.memory := by
  have hrange : ¬id.toNat > PIT_NUM_COUNTERS := by omega
  unfold pitDeactivateCounter
  simp only [if_neg hrange]
  -- Between the two stores the counter is free and its count not yet cleared.
  refine (tracked_stable (.deactivated id.toNat :: done) (some id.toNat)).write _ _
    ((tracked_stable done none).write _ _ (ensureInitialized_tracked h) (fun kernel hkernel => ?_))
    (fun kernel hkernel => ?_)
  · exact ⟨hkernel.initialized, congrArg (_ :: ·) hkernel.done_eq,
      fun k hk => (hkernel.counted k hk).deactivated id.toNat⟩
  · refine ⟨hkernel.initialized, hkernel.done_eq, fun k hk => (hkernel.counted k hk).cleared ?_⟩
    rw [hkernel.owned_eq]
    exact if_pos rfl

theorem pitResetCounter_spec (h : Tracked done none t.memory)
    (hid : id.toNat < PIT_NUM_COUNTERS) :
    Tracked (.reset id.toNat :: done) none (pitResetCounter id t).2.memory := by
  have hrange : ¬id.toNat > PIT_NUM_COUNTERS := by omega
  unfold pitResetCounter
  simp only [if_neg hrange]
  refine (tracked_stable done none).write _ _ (ensureInitialized_tracked h)
    (fun kernel hkernel => ?_)
  exact ⟨hkernel.initialized, congrArg (_ :: ·) hkernel.done_eq,
    fun k hk => (hkernel.counted k hk).reset id.toNat⟩

theorem pitGetCounterCount_spec (h : Tracked done none t.memory)
    (hid : id.toNat < PIT_NUM_COUNTERS) :
    Tracked done none (pitGetCounterCount id t).2.memory ∧
    (pitGetCounterCount id t).1 =
      .count ((pitGetCounterCount id t).2.memory.pit.pit_counters id.toNat).count := by
  have hrange : ¬id.toNat > PIT_NUM_COUNTERS := by omega
  unfold pitGetCounterCount
  simp only [if_neg hrange]
  exact ⟨(tracked_stable done none).read _ _ (ensureInitialized_tracked h), rfl⟩

end Calls

section Runs

inductive CounterCall where
  | pitAddCounter
  | pitDeactivateCounter (counter_id : UInt8)
  | pitResetCounter (counter_id : UInt8)
  | pitGetCounterCount (counter_id : UInt8)
  deriving DecidableEq

def CounterCall.run : CounterCall → Code → PITResult × Code
  | .pitAddCounter => Timer.pitAddCounter
  | .pitDeactivateCounter counter_id => Timer.pitDeactivateCounter counter_id
  | .pitResetCounter counter_id => Timer.pitResetCounter counter_id
  | .pitGetCounterCount counter_id => Timer.pitGetCounterCount counter_id

def CounterCall.InRange : CounterCall → Prop
  | .pitAddCounter => True
  | .pitDeactivateCounter counter_id => counter_id.toNat < PIT_NUM_COUNTERS
  | .pitResetCounter counter_id => counter_id.toNat < PIT_NUM_COUNTERS
  | .pitGetCounterCount counter_id => counter_id.toNat < PIT_NUM_COUNTERS

-- What a call records and returns, in terms of what was recorded before it.
def Exact (t : Code) (call : CounterCall) (next : Code) : Prop :=
  let before := t.memory.pit.history
  let after := next.memory.pit.history
  match call with
  | .pitAddCounter =>
      ((call.run t).1 = .error .PITCountersFull ↔
        ∀ i < PIT_NUM_COUNTERS, owned i before = true) ∧
      ((call.run t).1 = .error .PITCountersFull ∧ calls after = calls before ∨
        ∃ id : UInt8, (call.run t).1 = .counter_id id ∧ id.toNat < PIT_NUM_COUNTERS ∧
          owned id.toNat before = false ∧ calls after = .added id.toNat :: calls before)
  | .pitDeactivateCounter id => calls after = .deactivated id.toNat :: calls before
  | .pitResetCounter id => calls after = .reset id.toNat :: calls before
  | .pitGetCounterCount id =>
      calls after = calls before ∧
      (owned id.toNat before = true → ∃ count : UInt32, (call.run t).1 = .count count ∧
        count.toNat = ticksSince id.toNat after % 2 ^ 32)

-- The timer after `initPITTimer`, before any call and tick.
structure Initialised (pit : Pit) : Prop where
  initialized : pit.pit_initialized = true
  zero : ∀ i < PIT_NUM_COUNTERS, pit.pit_counters i = { active := false, count := 0 }
  history : pit.history = []

theorem Initialised.tracked {kernel : Kernel} (h : Initialised kernel.pit) :
    Tracked [] none kernel := by
  refine ⟨h.initialized, by rw [h.history]; rfl, fun i hi => ⟨?_, fun hheld => ?_, fun _ _ => ?_⟩⟩
  · rw [h.zero i hi, h.history, owned]
  · rw [h.history] at hheld
    cases hheld
  · rw [h.zero i hi]

theorem call_exact (t : Code) (call : CounterCall) (hin : call.InRange)
    (h : Tracked (calls t.memory.pit.history) none t.memory) :
    Exact t call (call.run t).2 ∧
    Tracked (calls (call.run t).2.memory.pit.history) none (call.run t).2.memory := by
  have hagain : ∀ {done : List PITEvent} {t : Code}, Tracked done none t.memory →
      Tracked (calls t.memory.pit.history) none t.memory := fun h => h.done_eq.symm ▸ h
  cases call with
  | pitAddCounter =>
      obtain ⟨hresult, hfull, hnext⟩ | ⟨id, hresult, hid, hfree, hnext⟩ := pitAddCounter_spec h
      · refine ⟨⟨⟨fun _ i hi => ?_, fun _ => hresult⟩, .inl ⟨hresult, hnext.done_eq⟩⟩, hagain hnext⟩
        rw [← owned_calls]
        exact hfull i hi
      · rw [owned_calls] at hfree
        refine ⟨⟨⟨fun herror => ?_, fun hfull => ?_⟩, .inr ⟨id, hresult, hid, hfree, hnext.done_eq⟩⟩,
          hagain hnext⟩
        · exact PITResult.noConfusion (hresult.symm.trans herror)
        · exact absurd ((hfull id.toNat hid).symm.trans hfree) Bool.true_eq_false.mp
  | pitDeactivateCounter id =>
      have hnext := pitDeactivateCounter_spec id h hin
      exact ⟨hnext.done_eq, hagain hnext⟩
  | pitResetCounter id =>
      have hnext := pitResetCounter_spec id h hin
      exact ⟨hnext.done_eq, hagain hnext⟩
  | pitGetCounterCount id =>
      obtain ⟨hnext, hresult⟩ := pitGetCounterCount_spec id h hin
      refine ⟨⟨hnext.done_eq, fun hheld => ⟨_, hresult, ?_⟩⟩, hagain hnext⟩
      have hstill := hnext.owned_eq id.toNat
      rw [owned_calls, hheld] at hstill
      rw [(hnext.counted id.toNat hin).counting hstill, UInt32.toNat_ofNat']
      rfl

-- Whatever interrupts come in between any two accesses of the calls.
theorem counters_exact (t : Code) (run : List CounterCall) (hstart : Initialised t.memory.pit)
    (hids : ∀ call ∈ run, call.InRange) :
    Along Exact t (traceOf (fun call t => (call.run t).2) t run) := by
  have hzero : Tracked (calls t.memory.pit.history) none t.memory := by
    rw [hstart.history]
    exact hstart.tracked
  clear hstart
  induction run generalizing t with
  | nil => trivial
  | cons call rest ih =>
      obtain ⟨hexact, hnext⟩ := call_exact t call (hids call (List.mem_cons_self ..)) hzero
      exact ⟨hexact, ih _ (fun call hcall => hids call (List.mem_cons_of_mem _ hcall)) hnext⟩

theorem counters_exact_booted :
    Along Exact booted (traceOf (fun call t => (call.run t).2) booted
      [.pitAddCounter, .pitGetCounterCount 0, .pitDeactivateCounter 0, .pitAddCounter]) :=
  counters_exact booted _ ⟨rfl, fun _ _ => rfl, rfl⟩ (by simp [CounterCall.InRange, PIT_NUM_COUNTERS])

end Runs

end PalleyOS.Timer
