import PalleyOS.Paging.Lemmas
import PalleyOS.Machine.Search
import Mathlib.Algebra.GroupWithZero.Nat

namespace PalleyOS.Paging

-- The frames that the scan takes from a region, by their numbers. A region that
-- begins in the last 4 MiB has its first boundary at 2^32, which wraps to frame 0.
section Offers

variable (region : Physical_Memory_Region)

def regionEnd : Nat := region.address.toNat + region.size.toNat

def firstFrame : Nat := (region.address.toNat / FRAME_SIZE + 1) % 1024

def offeredCount : Nat :=
  if regionEnd region = 4294967296 then 0
  else (regionEnd region / FRAME_SIZE - firstFrame region) % 256

def Offers (pfn : Nat) : Prop :=
  firstFrame region ≤ pfn ∧ pfn < firstFrame region + offeredCount region

-- The 4 MiB from `pfn * 4 MiB` on lie in the region.
def Inside (pfn : Nat) : Prop :=
  region.address.toNat ≤ pfn * FRAME_SIZE ∧ (pfn + 1) * FRAME_SIZE ≤ regionEnd region

def StartsInLastFrame : Prop :=
  4294967296 - FRAME_SIZE ≤ region.address.toNat ∧ regionEnd region < 4294967296

instance (pfn : Nat) : Decidable (Offers region pfn) := inferInstanceAs (Decidable (_ ∧ _))

instance (pfn : Nat) : Decidable (Inside region pfn) := inferInstanceAs (Decidable (_ ∧ _))

instance : Decidable (StartsInLastFrame region) := inferInstanceAs (Decidable (_ ∧ _))

theorem and_frame_mask (address : Nat) (haddress : address < 2 ^ 32) :
    address &&& (2 ^ 32 - 1 - (FRAME_SIZE - 1)) = address / FRAME_SIZE * FRAME_SIZE := by
  have hmask : 2 ^ 32 - 1 - (FRAME_SIZE - 1) = (2 ^ 10 - 1) <<< 22 := rfl
  have hframe : address / FRAME_SIZE * FRAME_SIZE = (address / 2 ^ 22) <<< 22 := by
    rw [Nat.shiftLeft_eq]
    rfl
  rw [hmask, hframe]
  apply Nat.eq_of_testBit_eq
  intro i
  rw [Nat.testBit_and, Nat.testBit_shiftLeft, Nat.testBit_shiftLeft, Nat.testBit_two_pow_sub_one,
    Nat.testBit_div_two_pow]
  by_cases hi : 22 ≤ i
  · rw [show i - 22 + 22 = i by omega]
    by_cases hhigh : i < 32
    · simp [hi, show i - 22 < 10 by omega]
    · have hzero : address.testBit i = false :=
        Nat.testBit_lt_two_pow (haddress.trans_le (Nat.pow_le_pow_right (by decide) (by omega)))
      simp [hzero]
  · simp [hi]

theorem frame_start_eq :
    ((region.address.toNat &&& (2 ^ 32 - 1 - (FRAME_SIZE - 1))) + FRAME_SIZE) % 2 ^ 32 =
      firstFrame region * FRAME_SIZE := by
  rw [and_frame_mask _ region.address.toNat_lt]
  unfold firstFrame FRAME_SIZE
  omega

variable {region}

-- What the scan takes for the room after the first boundary.
theorem remaining_size_eq (hfit : regionEnd region ≤ 4294967296)
    (hroom : firstFrame region * FRAME_SIZE ≤ regionEnd region % 4294967296) :
    (region.size.toNat + 2 ^ 32 -
      (firstFrame region * FRAME_SIZE + 2 ^ 32 - region.address.toNat) % 2 ^ 32) % 2 ^ 32 =
      regionEnd region % 4294967296 - firstFrame region * FRAME_SIZE := by
  have haddress := region.address.toNat_lt
  have hboundary : firstFrame region * FRAME_SIZE = 0 ∧ 0 < region.address.toNat ∨
      region.address.toNat ≤ firstFrame region * FRAME_SIZE := by
    unfold firstFrame FRAME_SIZE
    omega
  unfold regionEnd at *
  generalize firstFrame region * FRAME_SIZE = start at *
  rcases hboundary with ⟨rfl, hpos⟩ | hlow
  · omega
  · omega

-- The loop of the scan over the frames that are offered.
theorem scanRegion_eq (memory : Memory) (hfit : regionEnd region ≤ 4294967296) :
    scanRegion memory region = (List.range (offeredCount region)).findSome? fun frame =>
      if is_frame_used memory ((firstFrame region + frame) % 1024) then none
      else some ((firstFrame region + frame) % 1024) := by
  have hnumber (frame : Nat) : get_physical_frame_number
      ((firstFrame region * FRAME_SIZE + frame * FRAME_SIZE) % 2 ^ 32) =
        (firstFrame region + frame) % 1024 := by
    rw [get_physical_frame_number, Nat.shiftRight_eq_div_pow, ← Nat.add_mul]
    unfold FRAME_SIZE
    omega
  have haddress := region.address.toNat_lt
  unfold scanRegion
  simp only [frame_start_eq, hnumber]
  by_cases hskip : (region.address.toNat + region.size.toNat) % 2 ^ 32 <
      firstFrame region * FRAME_SIZE
  · have hnone : offeredCount region = 0 := by
      unfold offeredCount firstFrame regionEnd FRAME_SIZE at *
      split <;> omega
    rw [if_pos hskip, hnone]
    rfl
  · have hcount : (regionEnd region % 4294967296 - firstFrame region * FRAME_SIZE) /
        FRAME_SIZE % 256 = offeredCount region := by
      rw [Nat.mul_comm, Nat.sub_mul_div, offeredCount]
      by_cases htop : regionEnd region = 4294967296
      · rw [if_pos htop, htop, Nat.mod_self, Nat.zero_div, Nat.zero_sub]
      · rw [if_neg htop, Nat.mod_eq_of_lt (Nat.lt_of_le_of_ne hfit htop)]
    rw [if_neg hskip, remaining_size_eq hfit (not_lt.mp hskip), hcount]

theorem Offers.le_div (hfit : regionEnd region ≤ 4294967296) {pfn : Nat} (h : Offers region pfn) :
    regionEnd region < 4294967296 ∧ pfn < regionEnd region / FRAME_SIZE := by
  obtain ⟨hlow, hhigh⟩ := h
  unfold offeredCount at hhigh
  by_cases htop : regionEnd region = 4294967296
  · rw [if_pos htop] at hhigh
    omega
  · rw [if_neg htop] at hhigh
    have hcount := Nat.mod_le (regionEnd region / FRAME_SIZE - firstFrame region) 256
    exact ⟨by omega, by omega⟩

theorem Offers.lt (hfit : regionEnd region ≤ 4294967296) {pfn : Nat} (h : Offers region pfn) :
    pfn < 1024 := by
  obtain ⟨hend, hlt⟩ := h.le_div hfit
  unfold FRAME_SIZE at hlt
  omega

theorem scanRegion_eq_none_iff (memory : Memory) (hfit : regionEnd region ≤ 4294967296) :
    scanRegion memory region = none ↔
      ∀ pfn, Offers region pfn → is_frame_used memory pfn = true := by
  rw [scanRegion_eq memory hfit, List.findSome?_eq_none_iff]
  constructor
  · intro hall pfn hoffers
    have hlt := hoffers.lt hfit
    obtain ⟨hlow, hhigh⟩ := hoffers
    have hframe := hall (pfn - firstFrame region) (List.mem_range.mpr (by omega))
    rw [show firstFrame region + (pfn - firstFrame region) = pfn by omega,
      Nat.mod_eq_of_lt hlt] at hframe
    simpa using hframe
  · intro hall frame hmem
    have hframe : Offers region (firstFrame region + frame) :=
      ⟨Nat.le_add_right _ _, Nat.add_lt_add_left (List.mem_range.mp hmem) _⟩
    rw [Nat.mod_eq_of_lt (hframe.lt hfit), if_pos (hall _ hframe)]

theorem scanRegion_eq_some (memory : Memory) (hfit : regionEnd region ≤ 4294967296) {pfn : Nat}
    (h : scanRegion memory region = some pfn) : Offers region pfn := by
  rw [scanRegion_eq memory hfit] at h
  obtain ⟨frame, hframe, hfound, -⟩ := Machine.findSome?_range_eq_some _ _ _ h
  have hoffers : Offers region (firstFrame region + frame) :=
    ⟨Nat.le_add_right _ _, Nat.add_lt_add_left hframe _⟩
  rw [Nat.mod_eq_of_lt (hoffers.lt hfit)] at hfound
  by_cases hused : is_frame_used memory (firstFrame region + frame) = true
  · rw [if_pos hused] at hfound
    cases hfound
  · rw [if_neg hused] at hfound
    cases hfound
    exact hoffers

theorem Offers.inside (hfit : regionEnd region ≤ 4294967296)
    (hstart : ¬ StartsInLastFrame region) {pfn : Nat} (h : Offers region pfn) :
    Inside region pfn := by
  obtain ⟨hend, hlt⟩ := h.le_div hfit
  have hfirst := h.1
  have haddress := region.address.toNat_lt
  unfold StartsInLastFrame firstFrame FRAME_SIZE at *
  refine ⟨?_, ?_⟩
  · unfold FRAME_SIZE
    omega
  · unfold FRAME_SIZE
    omega

-- The first boundary after the region is taken for address 0, and 255 frames
-- from there on for the region's.
theorem StartsInLastFrame.offers_iff (hstart : StartsInLastFrame region) (pfn : Nat) :
    Offers region pfn ↔ pfn < 255 := by
  have haddress := region.address.toNat_lt
  obtain ⟨hlow, hend⟩ := hstart
  have hfirst : firstFrame region = 0 := by
    unfold firstFrame FRAME_SIZE at *
    omega
  have hcount : offeredCount region = 255 := by
    have hdiv : regionEnd region / FRAME_SIZE = 1023 := by
      unfold regionEnd FRAME_SIZE at *
      omega
    rw [offeredCount, if_neg (by omega), hfirst, hdiv]
  rw [Offers, hfirst, hcount]
  omega

end Offers

section Regions

-- The loop over the regions with its exit: `some none` is the halt after the
-- message, `none` a loop that is still running.
def regionLoop (memory : Memory) : Nat → Nat → Option (Option Nat)
  | 0, _ => none
  | rounds + 1, region_index =>
      if region_index < memory.physical_memory_region_count.toNat then
        (scanRegion memory (memory.physical_memory_regions region_index)).elim
          (regionLoop memory rounds ((region_index + 1) % 256)) (fun pfn => some (some pfn))
      else some none

def RunsOut (memory : Memory) : Prop := ∃ rounds, regionLoop memory rounds 0 = some none

-- The regions that the counter of one byte reaches.
def reached (memory : Memory) : Nat := min memory.physical_memory_region_count.toNat 256

theorem scanRegions_eq_some_iff (memory : Memory) (rounds region_index pfn : Nat)
    (hrounds : region_index + rounds ≤ 256) :
    scanRegions memory rounds region_index = some pfn ↔
      ∃ i, region_index ≤ i ∧ i < region_index + rounds ∧
        i < memory.physical_memory_region_count.toNat ∧
        scanRegion memory (memory.physical_memory_regions i) = some pfn ∧
        ∀ j, region_index ≤ j → j < i →
          scanRegion memory (memory.physical_memory_regions j) = none := by
  induction rounds generalizing region_index with
  | zero =>
      simp only [scanRegions, reduceCtorEq, false_iff, not_exists]
      omega
  | succ rounds ih =>
      have hnext : scanRegions memory rounds ((region_index + 1) % 256) =
          scanRegions memory rounds (region_index + 1) := by
        cases rounds with
        | zero => rfl
        | succ rounds => rw [Nat.mod_eq_of_lt (by omega)]
      rw [scanRegions]
      by_cases hcount : region_index < memory.physical_memory_region_count.toNat
      · rw [if_pos hcount, Option.or_eq_some_iff, hnext, ih (region_index + 1) (by omega)]
        constructor
        · rintro (hfound | ⟨hnone, i, hlow, hhigh, hi, hfound, hbefore⟩)
          · exact ⟨region_index, le_refl _, by omega, hcount, hfound, fun j _ _ => by omega⟩
          · refine ⟨i, by omega, by omega, hi, hfound, fun j hj hji => ?_⟩
            by_cases hfirst : j = region_index
            · rw [hfirst]
              exact hnone
            · exact hbefore j (by omega) hji
        · rintro ⟨i, hlow, hhigh, hi, hfound, hbefore⟩
          by_cases hfirst : i = region_index
          · rw [hfirst] at hfound
            exact .inl hfound
          · exact .inr ⟨hbefore _ (le_refl _) (by omega), i, by omega, by omega, hi, hfound,
              fun j hj hji => hbefore j (by omega) hji⟩
      · rw [if_neg hcount]
        simp only [reduceCtorEq, false_iff, not_exists]
        omega

theorem scanned_iff (memory : Memory) (pfn : Nat) :
    scanRegions memory 256 0 = some pfn ↔
      ∃ i < reached memory, scanRegion memory (memory.physical_memory_regions i) = some pfn ∧
        ∀ j < i, scanRegion memory (memory.physical_memory_regions j) = none := by
  rw [scanRegions_eq_some_iff memory 256 0 pfn (by omega)]
  unfold reached
  constructor
  · rintro ⟨i, -, hrounds, hcount, hfound, hbefore⟩
    exact ⟨i, by omega, hfound, fun j hj => hbefore j (Nat.zero_le _) hj⟩
  · rintro ⟨i, hi, hfound, hbefore⟩
    exact ⟨i, Nat.zero_le _, by omega, by omega, hfound, fun j _ hj => hbefore j hj⟩

-- The counter wraps before it reaches a count of 256 or more, so the exit is
-- the end of a pass over all regions.
theorem regionLoop_runs_out (memory : Memory) (rounds region_index : Nat)
    (hindex : region_index ≤ 255) (h : regionLoop memory rounds region_index = some none) :
    memory.physical_memory_region_count.toNat < 256 ∧
      ∀ i, region_index ≤ i → i < memory.physical_memory_region_count.toNat →
        scanRegion memory (memory.physical_memory_regions i) = none := by
  induction rounds generalizing region_index with
  | zero => cases h
  | succ rounds ih =>
      rw [regionLoop] at h
      by_cases hcount : region_index < memory.physical_memory_region_count.toNat
      · rw [if_pos hcount] at h
        cases hscan : scanRegion memory (memory.physical_memory_regions region_index) with
        | some pfn => simp [hscan] at h
        | none =>
            rw [hscan, Option.elim_none] at h
            obtain ⟨hfew, hrest⟩ := ih _ (by omega) h
            refine ⟨hfew, fun i hlow hi => ?_⟩
            by_cases hfirst : i = region_index
            · rw [hfirst, hscan]
            · exact hrest i (by omega) hi
      · exact ⟨by omega, fun i hlow hi => by omega⟩

theorem regionLoop_all_none (memory : Memory)
    (hfew : memory.physical_memory_region_count.toNat < 256)
    (hnone : ∀ i < memory.physical_memory_region_count.toNat,
      scanRegion memory (memory.physical_memory_regions i) = none)
    (left region_index : Nat)
    (hleft : region_index + left = memory.physical_memory_region_count.toNat) :
    regionLoop memory (left + 1) region_index = some none := by
  induction left generalizing region_index with
  | zero => rw [regionLoop, if_neg (by omega)]
  | succ left ih =>
      rw [regionLoop, if_pos (by omega), hnone region_index (by omega), Option.elim_none,
        Nat.mod_eq_of_lt (by omega)]
      exact ih (region_index + 1) (by omega)

theorem not_scanned_iff (memory : Memory) :
    scanRegions memory 256 0 = none ↔
      ∀ i < reached memory, scanRegion memory (memory.physical_memory_regions i) = none := by
  constructor
  · intro hnone i
    induction i using Nat.strong_induction_on with
    | _ i ih =>
        intro hi
        cases hfound : scanRegion memory (memory.physical_memory_regions i) with
        | none => rfl
        | some pfn =>
            have hscan := (scanned_iff memory pfn).mpr ⟨i, hi, hfound, fun j hj => ih j hj (hj.trans hi)⟩
            rw [hnone] at hscan
            cases hscan
  · intro hnone
    rw [Option.eq_none_iff_forall_ne_some]
    intro pfn hscan
    obtain ⟨i, hi, hfound, -⟩ := (scanned_iff memory pfn).mp hscan
    rw [hnone i hi] at hfound
    cases hfound

theorem runsOut_iff (memory : Memory) :
    RunsOut memory ↔ memory.physical_memory_region_count.toNat < 256 ∧
      scanRegions memory 256 0 = none := by
  rw [not_scanned_iff]
  unfold reached
  constructor
  · rintro ⟨rounds, hout⟩
    obtain ⟨hfew, hnone⟩ := regionLoop_runs_out memory rounds 0 (by omega) hout
    exact ⟨hfew, fun i hi => hnone i (Nat.zero_le _) (by omega)⟩
  · rintro ⟨hfew, hnone⟩
    exact ⟨_, regionLoop_all_none memory hfew (fun i hi => hnone i (by omega)) _ 0 (Nat.zero_add _)⟩

end Regions

section Faults

-- A bitmap with one clear frame.
def allBut (pfn : Nat) (word : Nat) : Nat :=
  if word = pfn / 32 then (2 ^ 32 - 1) ^^^ (1 <<< (pfn % 32)) else 2 ^ 32 - 1

def withMap (memory : Memory) (page_frame_map : Nat → Nat) : Memory :=
  { memory with page_frame_map := page_frame_map }

theorem is_frame_used_allBut (memory : Memory) (pfn other : Nat) :
    is_frame_used (withMap memory (allBut pfn)) other = true ↔ other ≠ pfn := by
  have hbit : (allBut pfn (other / 32)).testBit (other % 32) = true ↔ other ≠ pfn := by
    unfold allBut
    by_cases hword : other / 32 = pfn / 32
    · have hbit : pfn % 32 = other % 32 ↔ other = pfn := by omega
      rw [if_pos hword, Nat.testBit_xor, Nat.testBit_two_pow_sub_one, Nat.one_shiftLeft,
        Nat.testBit_two_pow]
      simp [hbit, Nat.mod_lt]
    · have hne : other ≠ pfn := fun h => hword (by rw [h])
      rw [if_neg hword, Nat.testBit_two_pow_sub_one]
      simp [hne, Nat.mod_lt]
  rw [is_frame_used_eq]
  exact hbit

variable {memory : Memory}

def InTable (memory : Memory) (pfn : Nat) : Prop :=
  ∃ i < memory.physical_memory_region_count.toNat, Inside (memory.physical_memory_regions i) pfn

def RegionsFit (memory : Memory) : Prop :=
  ∀ i < memory.physical_memory_region_count.toNat,
    regionEnd (memory.physical_memory_regions i) ≤ 4294967296

theorem lt_count_of_lt_reached {i : Nat} (hi : i < reached memory) :
    i < memory.physical_memory_region_count.toNat := hi.trans_le (Nat.min_le_left _ _)

-- The frame that the entry of the faulting page names after the fault.
def installedFrame (next : Memory) (fault_address : UInt32) : Nat :=
  frameNumber (next.page_directory (getVirtualFrameNumber fault_address))

theorem installs_iff (memory : Memory) (fault_address : UInt32) (pfn : Nat) :
    (∃ next, handle_page_fault memory fault_address = some next ∧
      installedFrame next fault_address = pfn) ↔ scanRegions memory 256 0 = some pfn := by
  rw [handle_page_fault_eq]
  constructor
  · rintro ⟨next, hnext, rfl⟩
    obtain ⟨found, hscan, rfl⟩ := Option.map_eq_some_iff.mp hnext
    obtain ⟨hlt, -⟩ := scanRegions_clear memory 256 0 found hscan
    simp only [installedFrame, Function.update_self, frameNumber_userEntry found hlt, hscan]
  · intro hscan
    obtain ⟨hlt, -⟩ := scanRegions_clear memory 256 0 pfn hscan
    refine ⟨_, Option.map_eq_some_iff.mpr ⟨pfn, hscan, rfl⟩, ?_⟩
    simp only [installedFrame, Function.update_self, frameNumber_userEntry pfn hlt]

-- A fault is not handled where the loop ends at the halt, or has 256 regions or
-- more and does not end.
theorem not_scanned_iff_used (hfit : RegionsFit memory) (page_frame_map : Nat → Nat) :
    scanRegions (withMap memory page_frame_map) 256 0 = none ↔
      ∀ i < reached memory, ∀ pfn, Offers (memory.physical_memory_regions i) pfn →
        is_frame_used (withMap memory page_frame_map) pfn = true := by
  rw [not_scanned_iff]
  refine forall₂_congr fun i hi => ?_
  exact scanRegion_eq_none_iff _ (hfit i (lt_count_of_lt_reached hi))

-- The one clear frame is found if any region that is reached offers it.
theorem only_clear_scanned (hfit : RegionsFit memory) {i pfn : Nat} (hi : i < reached memory)
    (hoffers : Offers (memory.physical_memory_regions i) pfn) :
    scanRegions (withMap memory (allBut pfn)) 256 0 = some pfn := by
  cases hscan : scanRegions (withMap memory (allBut pfn)) 256 0 with
  | none =>
      have hused := (not_scanned_iff_used hfit _).mp hscan i hi pfn hoffers
      exact absurd rfl ((is_frame_used_allBut memory pfn pfn).mp hused)
  | some other =>
      obtain ⟨-, hclear⟩ := scanRegions_clear _ _ _ _ hscan
      by_contra hne
      rw [(is_frame_used_allBut memory pfn other).mpr (fun h => hne (by rw [h]))] at hclear
      cases hclear

end Faults

section Theorems

variable (memory : Memory)

-- The frame comes from a region whose first boundary did not wrap, or from one
-- of the low frames that a wrapped boundary offers.
theorem installed_frames_in_table_iff (hfit : RegionsFit memory) :
    (∀ page_frame_map fault_address next,
      handle_page_fault (withMap memory page_frame_map) fault_address = some next →
      InTable memory (installedFrame next fault_address)) ↔
    ∀ i < reached memory, StartsInLastFrame (memory.physical_memory_regions i) →
      ∀ pfn < 255, InTable memory pfn := by
  constructor
  · intro hsafe i hi hstart pfn hpfn
    obtain ⟨next, hnext, rfl⟩ := (installs_iff _ 0 pfn).mpr
      (only_clear_scanned hfit hi ((hstart.offers_iff pfn).mpr hpfn))
    exact hsafe _ _ _ hnext
  · intro hlow page_frame_map fault_address next hnext
    obtain ⟨i, hi, hfound, -⟩ := (scanned_iff _ _).mp
      ((installs_iff _ fault_address _).mp ⟨next, hnext, rfl⟩)
    have hcount := lt_count_of_lt_reached hi
    have hoffers := scanRegion_eq_some _ (hfit i hcount) hfound
    by_cases hstart : StartsInLastFrame (memory.physical_memory_regions i)
    · exact hlow i hi hstart _ ((hstart.offers_iff _).mp hoffers)
    · exact ⟨i, hcount, hoffers.inside (hfit i hcount) hstart⟩

-- One region of the last 4 MiB.
def topMemory : Memory :=
  { page_directory := fun _ => 0
    page_frame_map := fun _ => 0
    physical_memory_regions := fun _ => ⟨0xFFD00000, 0x100000⟩
    physical_memory_region_count := 1 }

theorem topMemory_fits : RegionsFit topMemory := fun _ _ =>
  show regionEnd ⟨0xFFD00000, 0x100000⟩ ≤ 4294967296 by decide

theorem topMemory_starts : StartsInLastFrame (topMemory.physical_memory_regions 0) := by decide

theorem installed_frames_in_table_iff_top :
    (∀ page_frame_map fault_address next,
      handle_page_fault (withMap topMemory page_frame_map) fault_address = some next →
      InTable topMemory (installedFrame next fault_address)) ↔
    ∀ i < reached topMemory, StartsInLastFrame (topMemory.physical_memory_regions i) →
      ∀ pfn < 255, InTable topMemory pfn :=
  installed_frames_in_table_iff topMemory topMemory_fits

theorem low_frame_installed_for_top_region :
    ¬ ∀ memory, RegionsFit memory → ∀ fault_address next,
      handle_page_fault memory fault_address = some next →
      InTable memory (installedFrame next fault_address) := by
  intro hclaim
  obtain ⟨next, hnext, hframe⟩ := (installs_iff _ 0xF000000 0).mpr
    (only_clear_scanned topMemory_fits (i := 0) (by decide)
      ((topMemory_starts.offers_iff 0).mpr (by omega)))
  obtain ⟨i, -, hlow, -⟩ := hclaim (withMap topMemory (allBut 0)) topMemory_fits _ _ hnext
  rw [hframe] at hlow
  have hnot : ¬ (0xFFD00000 : UInt32).toNat ≤ 0 * FRAME_SIZE := by decide
  exact hnot hlow

theorem halts_only_without_frames_iff
    (hbelow : ∀ i < memory.physical_memory_region_count.toNat,
      regionEnd (memory.physical_memory_regions i) < 4294967296) :
    (∀ page_frame_map, RunsOut (withMap memory page_frame_map) → ∀ pfn, InTable memory pfn →
      is_frame_used (withMap memory page_frame_map) pfn = true) ↔
    256 ≤ memory.physical_memory_region_count.toNat ∨
      ∀ pfn, InTable memory pfn →
        ∃ i < memory.physical_memory_region_count.toNat,
          Offers (memory.physical_memory_regions i) pfn := by
  have hfit : RegionsFit memory := fun i hi => (hbelow i hi).le
  constructor
  · intro hcomplete
    by_contra hbad
    obtain ⟨hfew, hskipped⟩ := not_or.mp hbad
    apply hskipped
    intro pfn htable
    by_contra hnever
    have hout : RunsOut (withMap memory (allBut pfn)) := by
      refine (runsOut_iff _).mpr ⟨Nat.lt_of_not_le hfew, (not_scanned_iff_used hfit _).mpr ?_⟩
      intro i hi other hoffers
      refine (is_frame_used_allBut memory pfn other).mpr ?_
      rintro rfl
      exact hnever ⟨i, lt_count_of_lt_reached hi, hoffers⟩
    exact absurd rfl ((is_frame_used_allBut memory pfn pfn).mp (hcomplete _ hout pfn htable))
  · rintro hoffered page_frame_map hout pfn htable
    obtain ⟨hfew, hscan⟩ := (runsOut_iff _).mp hout
    rcases hoffered with hmany | hoffered
    · exact absurd hmany (Nat.not_le_of_lt hfew)
    · obtain ⟨i, hi, hoffers⟩ := hoffered pfn htable
      exact (not_scanned_iff_used hfit _).mp hscan i (lt_min hi (hi.trans hfew)) pfn hoffers

-- One region of one frame, on a frame boundary.
def alignedMemory : Memory :=
  { page_directory := fun _ => 0
    page_frame_map := fun _ => 0
    physical_memory_regions := fun _ => ⟨0x400000, 0x400000⟩
    physical_memory_region_count := 1 }

theorem alignedMemory_below : ∀ i < alignedMemory.physical_memory_region_count.toNat,
    regionEnd (alignedMemory.physical_memory_regions i) < 4294967296 := fun _ _ =>
  show regionEnd ⟨0x400000, 0x400000⟩ < 4294967296 by decide

theorem halts_only_without_frames_iff_aligned :
    (∀ page_frame_map, RunsOut (withMap alignedMemory page_frame_map) →
      ∀ pfn, InTable alignedMemory pfn →
        is_frame_used (withMap alignedMemory page_frame_map) pfn = true) ↔
    256 ≤ alignedMemory.physical_memory_region_count.toNat ∨
      ∀ pfn, InTable alignedMemory pfn →
        ∃ i < alignedMemory.physical_memory_region_count.toNat,
          Offers (alignedMemory.physical_memory_regions i) pfn :=
  halts_only_without_frames_iff alignedMemory alignedMemory_below

theorem aligned_frame_overlooked :
    ¬ ∀ memory, (∀ i < memory.physical_memory_region_count.toNat,
        regionEnd (memory.physical_memory_regions i) < 4294967296) →
      RunsOut memory → ∀ pfn, InTable memory pfn → is_frame_used memory pfn = true := by
  intro hclaim
  have hnone : scanRegion alignedMemory ⟨0x400000, 0x400000⟩ = none := by decide
  have hout : RunsOut alignedMemory :=
    (runsOut_iff _).mpr ⟨by decide, (not_scanned_iff _).mpr fun _ _ => hnone⟩
  have hused := hclaim alignedMemory alignedMemory_below hout 1 ⟨0, by decide, by decide⟩
  exact absurd hused (by decide)

end Theorems

end PalleyOS.Paging
