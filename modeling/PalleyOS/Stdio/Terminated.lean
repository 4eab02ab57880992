import PalleyOS.Stdio.Printing

namespace PalleyOS.Stdio

open Machine

variable {initial : Memory} {result size : Nat} {out : List UInt8}

-- `out` stands in the result with a terminator, all of it written, and so is every
-- byte that is read from the result up to the first zero.
structure TerminatedString (result : Nat) (out : List UInt8) (s : Output) : Prop where
  holds : HoldsBytes s.memory result (out ++ [0])
  stored : ∀ i ≤ out.length, result + i ∈ s.written
  reads : ∀ n, (∀ i < n, load8 s.memory (result + i) ≠ 0) →
    (result + n) % 4294967296 ∈ s.written

theorem Filled.terminatedString_iff {nul : Bool} {s : Output}
    (h : Filled initial result size out nul s) (hfits : result + out.length < 4294967296) :
    TerminatedString result out s ↔ nul = true := by
  have hcells := nul.toNat_le
  constructor
  · intro hstring
    obtain ⟨i, hi, hlast⟩ := (h.written _).mp (hstring.stored out.length (Nat.le_refl _))
    cases nul with
    | true => rfl
    | false =>
        rw [Bool.toNat_false] at hi
        omega
  · rintro rfl
    have hstored (i : Nat) (hi : i ≤ out.length) : result + i ∈ s.written :=
      (h.written _).mpr ⟨i, Nat.lt_succ_of_le hi, rfl⟩
    refine ⟨h.holds, hstored, fun n hread => ?_⟩
    have hbefore : n ≤ out.length := by
      by_contra hbehind
      exact hread out.length (Nat.not_le.mp hbehind) (h.terminated rfl)
    rw [Nat.mod_eq_of_lt (by omega)]
    exact hstored n hbefore

-- The terminator is missing exactly where a directive is unknown, unless a `%d` of
-- `INT_MIN` came right before it and left its own.
theorem kvsprintf_terminated_iff (memory : Memory) (stack : Nat → UInt8) (result format : Nat)
    (text : List UInt8) (args : Stream' UInt32) (strings : UInt32 → List UInt8)
    (hfits : result + (rendering strings (scan text).1 args).length + 1 ≤ 4294967296)
    (hformat : ReadString memory result
      ((rendering strings (scan text).1 args).length + 1) format text)
    (hstrings : Strings (fun arg => ReadString memory result
      ((rendering strings (scan text).1 args).length + 1) arg.toNat (strings arg))
      (scan text).1 args) :
    ∃ bound, ∀ fuel ≥ bound, ∃ output,
      kvsprintf fuel result format args memory stack = some output ∧
      (TerminatedString result (rendering strings (scan text).1 args) output ↔
        (scan text).2 = true ∨ minimumLast strings (scan text).1 args = true) := by
  refine ⟨text.length + (rendering strings (scan text).1 args).length + 33, fun fuel hfuel => ?_⟩
  have hnul := ((scan text).2 || minimumLast strings (scan text).1 args).toNat_le
  obtain ⟨output, hdone, hfilled⟩ := kvsprintf_filled memory stack result _ format fuel text _ _ args
    strings (scan_scans text) hfits hformat hstrings (Nat.add_le_add_left hnul _) (by omega) hfuel
  refine ⟨output, hdone, ?_⟩
  rw [hfilled.terminatedString_iff (by omega), Bool.or_eq_true]

-- The format "%%" at 16.
def percentMemory : Memory := fun a => if a = 16 ∨ a = 17 then 37 else 0

theorem percentMemory_format : ReadString percentMemory 64 1 16 [37, 37] := by
  refine ⟨⟨?_, rfl, by simp⟩, fun i hi j hj => ?_⟩
  · unfold HoldsBytes
    decide
  · simp only [List.length_cons, List.length_nil] at hi
    omega

theorem kvsprintf_terminated_iff_percent :
    ∃ bound, ∀ fuel ≥ bound, ∃ output,
      kvsprintf fuel 64 16 sampleArgs percentMemory (fun _ => 0) = some output ∧
      (TerminatedString 64 (rendering (fun _ => []) (scan [37, 37]).1 sampleArgs) output ↔
        (scan [37, 37]).2 = true ∨ minimumLast (fun _ => []) (scan [37, 37]).1 sampleArgs = true) :=
  kvsprintf_terminated_iff percentMemory (fun _ => 0) 64 16 [37, 37] sampleArgs (fun _ => [])
    (by decide) percentMemory_format trivial

theorem percent_not_terminated :
    ¬∀ (memory : Memory) (stack : Nat → UInt8) (result format : Nat) (text : List UInt8)
      (args : Stream' UInt32) (strings : UInt32 → List UInt8),
      result + (rendering strings (scan text).1 args).length + 1 ≤ 4294967296 →
      ReadString memory result ((rendering strings (scan text).1 args).length + 1) format text →
      Strings (fun arg => ReadString memory result
        ((rendering strings (scan text).1 args).length + 1) arg.toNat (strings arg))
        (scan text).1 args →
      ∀ fuel output, kvsprintf fuel result format args memory stack = some output →
        TerminatedString result (rendering strings (scan text).1 args) output := by
  intro h
  obtain ⟨output, hdone, hfilled⟩ := kvsprintf_filled percentMemory (fun _ => 0) 64 1 16 35 [37, 37]
    [] false sampleArgs (fun _ => []) (scan_scans [37, 37]) (by decide) percentMemory_format trivial
    (by decide) (by decide) (by decide)
  have hstring := h percentMemory (fun _ => 0) 64 16 [37, 37] sampleArgs (fun _ => []) (by decide)
    percentMemory_format trivial 35 output hdone
  have hnul := (hfilled.terminatedString_iff (by decide)).mp hstring
  exact absurd hnul (by decide)

end PalleyOS.Stdio
