import PalleyOS.Timer
import Mathlib.Data.Stream.Init
import Mathlib.Algebra.Group.Nat.Defs
import Mathlib.Algebra.Group.Int.Defs

namespace PalleyOS.Timer

open Machine

-- The timer's interrupts among those that come in.
section Ticks

def ticks (burst : List Interrupt) : Nat := burst.count .timer

def ticksBefore (schedule : Stream' (List Interrupt)) : Nat → Nat
  | 0 => 0
  | bursts + 1 => ticks schedule.head + ticksBefore schedule.tail bursts

-- What is left of a counter that ticks take down to zero.
def countdown (n : Int) (k : Nat) : Int := if n ≤ 0 then n else max 0 (n - k)

theorem countdown_add (n : Int) (j k : Nat) :
    countdown (countdown n j) k = countdown n (j + k) := by
  unfold countdown
  by_cases hn : n ≤ 0
  · rw [if_pos hn, if_pos hn, if_pos hn]
  · rw [if_neg hn, if_neg hn]
    split <;> omega

theorem countdown_eq_zero_iff (n : Int) (k : Nat) : countdown n k = 0 ↔ 0 ≤ n ∧ n ≤ k := by
  unfold countdown
  split <;> omega

theorem tickPit_sleep (pit : Pit) :
    (tickPit pit).sleep_counter.toInt = countdown pit.sleep_counter.toInt 1 := by
  have hlow := pit.sleep_counter.le_toInt
  have hhigh := pit.sleep_counter.toInt_lt
  rw [tickPit, countdown]
  dsimp only
  by_cases hpos : pit.sleep_counter > 0
  · have hint : 0 < pit.sleep_counter.toInt := Int32.lt_iff_toInt_lt.mp hpos
    have hone : (1 : Int32).toInt = 1 := rfl
    rw [if_pos hpos, if_neg (by omega), Int32.toInt_sub, hone,
      Int.bmod_eq_of_le (by omega) (by omega)]
    omega
  · have hint : ¬0 < pit.sleep_counter.toInt := fun h => hpos (Int32.lt_iff_toInt_lt.mpr h)
    rw [if_neg hpos, if_pos (by omega)]

theorem burst_sleep (burst : List Interrupt) (kernel : Kernel) :
    (burst.foldl (fun kernel interrupt => isr interrupt kernel) kernel).pit.sleep_counter.toInt =
      countdown kernel.pit.sleep_counter.toInt (ticks burst) := by
  induction burst generalizing kernel with
  | nil =>
      change _ = countdown _ 0
      unfold countdown
      split
      · rfl
      · rw [List.foldl_nil]
        omega
  | cons interrupt rest ih =>
      rw [List.foldl_cons, ih]
      cases interrupt with
      | timer =>
          have hticks : ticks (.timer :: rest) = 1 + ticks rest := by
            rw [ticks, List.count_cons_self, Nat.add_comm]
            rfl
          rw [hticks, ← countdown_add, ← tickPit_sleep]
          rfl
      | keyboard scan_code =>
          have hticks : ticks (.keyboard scan_code :: rest) = ticks rest :=
            List.count_cons_of_ne (by simp)
          rw [hticks]
          rfl

end Ticks

section Rounds

def toSleep (t : Code) : Int := t.memory.pit.sleep_counter.toInt

-- The interrupts of one burst, before an access.
def afterBurst (t : Code) (interrupts : Bool) : Code :=
  { memory := t.schedule.head.foldl (fun kernel interrupt => isr interrupt kernel) t.memory
    interrupts := interrupts
    schedule := t.schedule.tail }

theorem afterBurst_toSleep (t : Code) (interrupts : Bool) :
    toSleep (afterBurst t interrupts) = countdown (toSleep t) (ticks t.schedule.head) :=
  burst_sleep t.schedule.head t.memory

-- A round lets in the interrupts of one burst, at its `cli`.
theorem sleepLoop_succ (fuel : Nat) (t : Code) (h : t.interrupts = true) :
    sleepLoop (fuel + 1) t =
      if toSleep (afterBurst t false) = 0 then some (afterBurst t false)
      else sleepLoop fuel (afterBurst t true) := by
  have hcli : cli t = afterBurst t false := by
    rw [cli, Thread.cli, Thread.interrupted, h]
    rfl
  have hsti : sti (afterBurst t false) = afterBurst t true := rfl
  have hload : load (fun kernel => kernel.pit.sleep_counter) (afterBurst t false) =
      ((afterBurst t false).memory.pit.sleep_counter, afterBurst t false) := rfl
  have hzero : (afterBurst t false).memory.pit.sleep_counter = 0 ↔
      toSleep (afterBurst t false) = 0 := Int32.toInt_inj.symm
  rw [sleepLoop, hcli]
  dsimp only
  rw [hload, hsti]
  exact if_congr hzero rfl rfl

-- The loop ends in the first round by which the counter is down.
theorem sleepLoop_exact (fuel : Nat) (t : Code) (h : t.interrupts = true) :
    match sleepLoop fuel t with
    | some t' => ∃ round < fuel,
        countdown (toSleep t) (ticksBefore t.schedule (round + 1)) = 0 ∧
        (∀ earlier < round, countdown (toSleep t) (ticksBefore t.schedule (earlier + 1)) ≠ 0) ∧
        t'.schedule = t.schedule.drop (round + 1)
    | none => ∀ round < fuel,
        countdown (toSleep t) (ticksBefore t.schedule (round + 1)) ≠ 0 := by
  induction fuel generalizing t with
  | zero => exact fun round hround => absurd hround (Nat.not_lt_zero round)
  | succ fuel ih =>
      have hfirst : countdown (toSleep t) (ticksBefore t.schedule 1) =
          toSleep (afterBurst t false) := (afterBurst_toSleep t false).symm
      have hlater (round : Nat) : countdown (toSleep t) (ticksBefore t.schedule (round + 1 + 1)) =
          countdown (toSleep (afterBurst t true))
            (ticksBefore (afterBurst t true).schedule (round + 1)) := by
        rw [afterBurst_toSleep, countdown_add]
        rfl
      rw [sleepLoop_succ fuel t h]
      by_cases hzero : toSleep (afterBurst t false) = 0
      · rw [if_pos hzero]
        exact ⟨0, Nat.succ_pos fuel, hfirst.trans hzero,
          fun earlier hearlier => absurd hearlier (Nat.not_lt_zero earlier), rfl⟩
      · rw [if_neg hzero]
        have hrest := ih (afterBurst t true) rfl
        have hnot : countdown (toSleep t) (ticksBefore t.schedule 1) ≠ 0 :=
          fun he => hzero (hfirst.symm.trans he)
        split at hrest
        · obtain ⟨round, hround, hend, hbefore, hschedule⟩ := hrest
          refine ⟨round + 1, Nat.succ_lt_succ hround, (hlater round).trans hend,
            fun earlier hearlier => ?_, hschedule⟩
          cases earlier with
          | zero => exact hnot
          | succ earlier =>
              rw [hlater]
              exact hbefore earlier (Nat.lt_of_succ_lt_succ hearlier)
        · intro round hround
          cases round with
          | zero => exact hnot
          | succ round =>
              rw [hlater]
              exact hrest round (Nat.lt_of_succ_lt_succ hround)

-- With interrupts disabled the first round lets none in.
def bursts (t : Code) (round : Nat) : Nat := if t.interrupts then round + 1 else round

theorem sleepLoop_bursts (fuel : Nat) (t : Code) :
    match sleepLoop fuel t with
    | some t' => ∃ round < fuel,
        countdown (toSleep t) (ticksBefore t.schedule (bursts t round)) = 0 ∧
        (∀ earlier < round, countdown (toSleep t) (ticksBefore t.schedule (bursts t earlier)) ≠ 0) ∧
        t'.schedule = t.schedule.drop (bursts t round)
    | none => ∀ round < fuel,
        countdown (toSleep t) (ticksBefore t.schedule (bursts t round)) ≠ 0 := by
  cases h : t.interrupts with
  | true =>
      simp only [bursts, h, if_true]
      exact sleepLoop_exact fuel t h
  | false =>
      simp only [bursts, h, Bool.false_eq_true, if_false]
      cases fuel with
      | zero => exact fun round hround => absurd hround (Nat.not_lt_zero round)
      | succ fuel =>
          have hnow : countdown (toSleep t) 0 = toSleep t := by
            unfold countdown
            split <;> omega
          have hquiet : t.interrupted isr = t := by
            rw [Thread.interrupted, h]
            rfl
          have hloop : sleepLoop (fuel + 1) t =
              if toSleep t = 0 then some { t with interrupts := false }
              else sleepLoop fuel { t with interrupts := true } := by
            have hcli : cli t = { t with interrupts := false } := by
              rw [cli, Thread.cli, hquiet]
            rw [sleepLoop, hcli]
            exact if_congr Int32.toInt_inj.symm rfl rfl
          rw [hloop]
          by_cases hzero : toSleep t = 0
          · rw [if_pos hzero]
            exact ⟨0, Nat.succ_pos fuel, hnow.trans hzero,
              fun earlier hearlier => absurd hearlier (Nat.not_lt_zero earlier), rfl⟩
          · rw [if_neg hzero]
            have hrest := sleepLoop_exact fuel { t with interrupts := true } rfl
            have hnot : countdown (toSleep t) (ticksBefore t.schedule 0) ≠ 0 :=
              fun he => hzero (hnow.symm.trans he)
            split at hrest
            · obtain ⟨round, hround, hend, hbefore, hschedule⟩ := hrest
              refine ⟨round + 1, Nat.succ_lt_succ hround, hend, fun earlier hearlier => ?_,
                hschedule⟩
              cases earlier with
              | zero => exact hnot
              | succ earlier => exact hbefore earlier (Nat.lt_of_succ_lt_succ hearlier)
            · intro round hround
              cases round with
              | zero => exact hnot
              | succ round => exact hrest round (Nat.lt_of_succ_lt_succ hround)

end Rounds

section Sleep

theorem toInt32_toInt (n : UInt32) :
    n.toInt32.toInt = if n.toNat < 2 ^ 31 then (n.toNat : Int) else n.toNat - 2 ^ 32 := by
  have hlt := n.toNat_lt
  change n.toBitVec.toInt = _
  rw [BitVec.toInt_eq_toNat_cond]
  change (if 2 * n.toNat < 2 ^ 32 then (n.toNat : Int) else n.toNat - 2 ^ 32) = _
  exact if_congr (by omega) rfl rfl

theorem counted_down_iff (num_millis : UInt32) (k : Nat) :
    countdown num_millis.toInt32.toInt k = 0 ↔
      num_millis.toNat < 2 ^ 31 ∧ num_millis.toNat ≤ k := by
  have hlt := num_millis.toNat_lt
  rw [countdown_eq_zero_iff, toInt32_toInt]
  split <;> omega

-- The code once the counter is set.
def counting (num_millis : UInt32) (t : Code) : Code :=
  storePit (fun pit => { pit with sleep_counter := num_millis.toInt32 }) t

-- The sleep ends in the first round by which as many ticks have come as it asks
-- for milliseconds, and in no other. From 2^31 on the counter is negative and
-- the sleep never ends.
theorem pitSleep_exact (fuel : Nat) (num_millis : UInt32) (t : Code) :
    let s := counting num_millis t
    match pitSleep fuel num_millis t with
    | some t' => num_millis.toNat < 2 ^ 31 ∧ ∃ round < fuel,
        num_millis.toNat ≤ ticksBefore s.schedule (bursts s round) ∧
        (∀ earlier < round, ticksBefore s.schedule (bursts s earlier) < num_millis.toNat) ∧
        t'.schedule = s.schedule.drop (bursts s round)
    | none => 2 ^ 31 ≤ num_millis.toNat ∨ ∀ round < fuel,
        ticksBefore s.schedule (bursts s round) < num_millis.toNat := by
  intro s
  have hcounter : toSleep s = num_millis.toInt32.toInt := rfl
  have hloop := sleepLoop_bursts fuel s
  rw [hcounter] at hloop
  change match sleepLoop fuel s with | some t' => _ | none => _
  split at hloop
  · obtain ⟨round, hround, hend, hbefore, hafter⟩ := hloop
    obtain ⟨hsmall, hticks⟩ := (counted_down_iff num_millis _).mp hend
    refine ⟨hsmall, round, hround, hticks, fun earlier hearlier => ?_, hafter⟩
    have hnot := hbefore earlier hearlier
    rw [Ne, counted_down_iff] at hnot
    omega
  · by_cases hsmall : num_millis.toNat < 2 ^ 31
    · refine .inr (fun round hround => ?_)
      have hnot := hloop round hround
      rw [Ne, counted_down_iff] at hnot
      omega
    · exact .inl (Nat.not_lt.mp hsmall)

-- A tick comes before each access, so the sleep takes three rounds.
example : (pitSleep 2 3 booted).isSome = false ∧ (pitSleep 3 3 booted).isSome = true := by decide

end Sleep

end PalleyOS.Timer
