import PalleyOS.Timer.Programming
import PalleyOS.Timer.Rate

namespace PalleyOS.Timer

open Machine

-- What `init_PIT` makes of a frequency: the rate of the chip and what the variables
-- say about it. The chip counts 3579545 / 3 clocks a second.
section Frequency

-- The third of a quotient, rounded up, is less than one off.
theorem third_near (clock n : Nat) (hpos : 0 < n) :
    3 * third (clock / n) * n ≤ clock + 2 * n ∧ clock < 3 * third (clock / n) * n + n := by
  have hsplit := Nat.div_add_mod clock n
  have hrem := Nat.mod_lt clock hpos
  unfold third
  generalize clock / n = q at hsplit
  have hfloor : 3 * ((q + 2) / 3) ≤ q + 2 := Nat.mul_div_le _ _
  have hceil : q ≤ 3 * ((q + 2) / 3) := by omega
  have habove := Nat.mul_le_mul_right n hfloor
  have hbelow := Nat.mul_le_mul_right n hceil
  rw [Nat.add_mul] at habove
  rw [Nat.mul_comm q] at hbelow habove
  omega

-- The fixed-point time of a period is less than four units off, of which there are
-- 2^32 in a millisecond.
theorem product_near (reload : Nat) (hle : reload ≤ 65536) :
    3000 * 2 ^ 32 * reload < (product reload / 2 ^ 10 + 1) * 3579545 ∧
      product reload / 2 ^ 10 * 3579545 < 3000 * 2 ^ 32 * reload + 4 * 3579545 := by
  unfold product
  omega

theorem reloadOf_countBytes (reload : Nat) (hpos : 0 < reload) (hle : reload ≤ 65536) :
    reloadOf (UInt8.ofNat reload) (UInt8.ofNat (reload / 256)) = reload := by
  unfold reloadOf
  rw [UInt8.toNat_ofNat', UInt8.toNat_ofNat']
  split <;> omega

theorem two_le_reloadFor (requested : Nat) (h : requested ≤ 894886) : 2 ≤ reloadFor requested := by
  unfold reloadFor third
  split
  · decide
  · rw [if_neg (by omega)]
    have hquotient : 3579545 / 894886 ≤ 3579545 / requested :=
      Nat.div_le_div_left h (by omega)
    omega

-- What a period of `clocks` clocks is worth as one of the frequency asked for, and how
-- far off the variables are.
structure Measured (symbols : Symbols) (requested clocks : Nat) (m : Memory) : Prop where
  allowed : 2 ≤ clocks ∧ clocks ≤ 65536
  slowest : requested ≤ 18 → clocks = 65536
  near : 19 ≤ requested →
    3 * clocks * requested ≤ 3579545 + 2 * requested ∧
      3579545 < 3 * clocks * requested + requested
  IRQ0_frequency :
    3 * load32 m symbols.IRQ0_frequency.toNat * clocks ≤ 3579545 + 2 * clocks ∧
      3579545 < 3 * load32 m symbols.IRQ0_frequency.toNat * clocks + clocks
  IRQ0_time :
    let time := load32 m symbols.IRQ0_ms.toNat * 2 ^ 32 +
      load32 m symbols.IRQ0_fraction_ms.toNat
    3000 * 2 ^ 32 * clocks < (time + 1) * 3579545 ∧
      time * 3579545 < 3000 * 2 ^ 32 * clocks + 4 * 3579545

theorem Programs.measured {symbols : Symbols} {requested : Nat} {s t : Assembly.State}
    (h : Programs symbols requested s t) (hallowed : requested ≤ 894886) :
    Measured symbols requested (reloadFor requested) t.memory := by
  refine ⟨⟨two_le_reloadFor requested hallowed, reloadFor_le requested⟩, ?_, ?_, ?_, ?_⟩
  · intro hslow
    rw [reloadFor, if_pos hslow]
  · intro hlow
    rw [reloadFor, if_neg (by omega), if_neg (by omega)]
    exact third_near 3579545 requested (by omega)
  · rw [h.IRQ0_frequency]
    exact third_near 3579545 (reloadFor requested) (reloadFor_pos requested)
  · rw [h.IRQ0_time]
    exact product_near (reloadFor requested) (reloadFor_le requested)

-- The bytes of `init_PIT` at the chip, with clocks in between.
theorem run_countBytes (reload : Nat) (hpos : 0 < reload) (hle : reload ≤ 65536)
    (trace : List RateGenerator.Event) (chip : RateGenerator)
    (h : RateGenerator.accesses trace = (countBytes reload).filterMap chipEvent) :
    ∃ ready age start, RateGenerator.run trace chip = some (ready, []) ∧
      ready.Generates reload age start := by
  have hevents : (countBytes reload).filterMap chipEvent =
      [.command 0x34, .write (UInt8.ofNat reload), .write (UInt8.ofNat (reload / 256))] := rfl
  rw [hevents] at h
  obtain ⟨old, later, hlater, hrun⟩ := RateGenerator.run_of_accesses h chip
  obtain ⟨n, rfl⟩ := RateGenerator.of_accesses_nil hlater
  have hfinish := RateGenerator.run_clocks n [] (old.programmed reload)
  rw [List.append_nil] at hfinish
  rw [reloadOf_countBytes reload hpos hle, hfinish] at hrun
  exact ⟨_, 0 + n, old.rises, hrun,
    (RateGenerator.programmed_generates reload old).clocks hpos n⟩

-- For every frequency the function returns with everything in place but eax; one that
-- the chip has a count for gives a period as near to it as can be, kept up for ever, and
-- variables that know it.
theorem init_PIT_rate {processor : Assembly.Implementation} {symbols : Symbols} (s : Assembly.State)
    (requested : UInt32) (harg : s.word (s.esp + 4) = requested)
    (hsep : symbols.Separate s.esp) (hwritable : processor.writable.getLsbD 9 = true) :
    ∃ t, (∃ bound, ∀ fuel ≥ bound,
        Assembly.run processor (init_PIT symbols) fuel .init_PIT s = some t) ∧
      Programs symbols requested.toNat s t ∧
      (requested.toNat ≤ 894886 → ∃ clocks, Measured symbols requested.toNat clocks t.memory ∧
        ∀ (trace : List RateGenerator.Event) (chip : RateGenerator),
          t.outs.filterMap chipEvent =
            s.outs.filterMap chipEvent ++ RateGenerator.accesses trace →
          ∃ ready age start, RateGenerator.run trace chip = some (ready, []) ∧
            ∀ later : List RateGenerator.Event, (∀ event ∈ later, event.keeps = true) →
              ∃ final answers, RateGenerator.run later ready = some (final, answers) ∧
                final.rises = start + (age + later.count .clock - 1) / clocks) := by
  obtain ⟨t, hprograms, hruns⟩ := init_PIT_programs s requested harg hsep hwritable
  refine ⟨t, hruns, hprograms, fun hallowed => ⟨reloadFor requested.toNat,
    hprograms.measured hallowed, fun trace chip htrace => ?_⟩⟩
  have hpos := reloadFor_pos requested.toNat
  rw [hprograms.outs, List.filterMap_append] at htrace
  obtain ⟨ready, age, start, hrun, hready⟩ := run_countBytes (reloadFor requested.toNat) hpos
    (reloadFor_le _) trace chip (List.append_cancel_left htrace).symm
  refine ⟨ready, age, start, hrun, fun later hlater => ?_⟩
  obtain ⟨final, answers, hdone, hcounter⟩ := RateGenerator.run_keeps later ready hlater
  have hage := hready.clocks hpos (later.count .clock)
  rw [← hcounter] at hage
  exact ⟨final, answers, hdone, hage.rises_eq⟩

theorem init_PIT_rate_sample :
    ∃ t, (∃ bound, ∀ fuel ≥ bound,
        Assembly.run plainProcessor (init_PIT sampleSymbols) fuel .init_PIT sampleCall = some t) ∧
      Programs sampleSymbols 1000 sampleCall t ∧
      (1000 ≤ 894886 → ∃ clocks, Measured sampleSymbols 1000 clocks t.memory ∧
        ∀ (trace : List RateGenerator.Event) (chip : RateGenerator),
          t.outs.filterMap chipEvent =
            sampleCall.outs.filterMap chipEvent ++ RateGenerator.accesses trace →
          ∃ ready age start, RateGenerator.run trace chip = some (ready, []) ∧
            ∀ later : List RateGenerator.Event, (∀ event ∈ later, event.keeps = true) →
              ∃ final answers, RateGenerator.run later ready = some (final, answers) ∧
                final.rises = start + (age + later.count .clock - 1) / clocks) :=
  init_PIT_rate sampleCall 1000 (by decide) sample_separate (by decide)

end Frequency

end PalleyOS.Timer
