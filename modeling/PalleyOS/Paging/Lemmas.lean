import PalleyOS.Paging
import PalleyOS.Machine.Bitmap

namespace PalleyOS.Paging

-- What the processor reads out of a directory entry.
def present (entry : Nat) : Bool := entry.testBit 0
def writable (entry : Nat) : Bool := entry.testBit 1
def large (entry : Nat) : Bool := entry.testBit 7
def frameNumber (entry : Nat) : Nat := entry / 2 ^ 22 % 2 ^ 10

section Bits

theorem is_frame_used_eq (memory : Memory) (pfn : Nat) :
    is_frame_used memory pfn = Machine.bitAt 32 memory.page_frame_map pfn := by
  unfold is_frame_used Machine.bitAt
  rw [Bool.eq_iff_iff, decide_eq_true_iff]
  exact Machine.and_one_shiftLeft_ne_zero _ _

theorem setFrameUsed_map (memory : Memory) (pfn : Nat) :
    (setFrameUsed memory pfn).page_frame_map =
      Machine.setBitAt 32 memory.page_frame_map pfn := rfl

@[simp] theorem setFrameUsed_directory (memory : Memory) (pfn : Nat) :
    (setFrameUsed memory pfn).page_directory = memory.page_directory := rfl

theorem is_frame_used_setFrameUsed (memory : Memory) (pfn other : Nat) :
    is_frame_used (setFrameUsed memory pfn) other =
      (decide (other = pfn) || is_frame_used memory other) := by
  simp only [is_frame_used_eq, setFrameUsed_map, Machine.bitAt_setBitAt]

end Bits

section Entry

-- The entry of a user-visible, writable 4 MiB page.
def userEntry (pfn : Nat) : Nat := (pfn <<< 22) % 2 ^ 32 ||| 128 ||| 2 ||| 4 ||| 1

theorem constructPageDirEntry_user (pfn : Nat) (hpfn : pfn < 1024) :
    constructPageDirEntry pfn .PAGE_SIZE_4_MIB .PAGE_READ_WRITE .PAGE_USER_AND_SUPERVISOR =
      some (userEntry pfn) := by
  have hsmall : ¬0x40000 ≤ pfn := by omega
  simp only [constructPageDirEntry, hsmall, if_false, Nat.zero_or]
  rfl

theorem userEntry_testBit (pfn i : Nat) :
    (userEntry pfn).testBit i =
      ((decide (i < 32) && (decide (22 ≤ i) && pfn.testBit (i - 22))) || (135 : Nat).testBit i) := by
  have hflags : (135 : Nat) = 128 ||| 2 ||| 4 ||| 1 := rfl
  rw [hflags]
  simp only [userEntry, Nat.testBit_or, Nat.testBit_mod_two_pow, Nat.testBit_shiftLeft,
    Bool.or_assoc]

@[simp] theorem present_userEntry (pfn : Nat) : present (userEntry pfn) = true := by
  unfold present
  rw [userEntry_testBit, show (135 : Nat).testBit 0 = true by decide, Bool.or_true]

@[simp] theorem writable_userEntry (pfn : Nat) : writable (userEntry pfn) = true := by
  unfold writable
  rw [userEntry_testBit, show (135 : Nat).testBit 1 = true by decide, Bool.or_true]

@[simp] theorem large_userEntry (pfn : Nat) : large (userEntry pfn) = true := by
  unfold large
  rw [userEntry_testBit, show (135 : Nat).testBit 7 = true by decide, Bool.or_true]

theorem frameNumber_userEntry (pfn : Nat) (hpfn : pfn < 1024) :
    frameNumber (userEntry pfn) = pfn := by
  apply Nat.eq_of_testBit_eq
  intro i
  unfold frameNumber
  rw [Nat.testBit_mod_two_pow, Nat.testBit_div_two_pow, userEntry_testBit]
  by_cases hi : i < 10
  · have hflags : (135 : Nat).testBit (i + 22) = false :=
      Nat.testBit_lt_two_pow (lt_of_lt_of_le (by decide : 135 < 2 ^ 22)
        (Nat.pow_le_pow_right (by decide) (by omega)))
    simp [hi, hflags, show i + 22 < 32 by omega]
  · have hhigh : pfn.testBit i = false :=
      Nat.testBit_lt_two_pow (lt_of_lt_of_le (show pfn < 2 ^ 10 by omega)
        (Nat.pow_le_pow_right (by decide) (by omega)))
    simp [hi, hhigh]

end Entry

section Scan

-- Every frame the scan offers is clear in the map and numbered by the top ten
-- bits of a 32-bit address.
theorem scanRegion_clear (memory : Memory) (region : Physical_Memory_Region) (pfn : Nat)
    (h : scanRegion memory region = some pfn) :
    pfn < 1024 ∧ is_frame_used memory pfn = false := by
  simp only [scanRegion] at h
  split at h
  · cases h
  · obtain ⟨frame, _, hf⟩ := List.exists_of_findSome?_eq_some h
    split at hf
    · cases hf
    · rename_i hclear
      obtain rfl := Option.some.inj hf
      refine ⟨?_, by simpa using hclear⟩
      unfold get_physical_frame_number
      rw [Nat.shiftRight_eq_div_pow]
      omega

theorem scanRegions_clear (memory : Memory) (rounds region_index pfn : Nat)
    (h : scanRegions memory rounds region_index = some pfn) :
    pfn < 1024 ∧ is_frame_used memory pfn = false := by
  induction rounds generalizing region_index with
  | zero => simp [scanRegions] at h
  | succ rounds ih =>
      rw [scanRegions] at h
      split at h
      · rcases Option.or_eq_some_iff.mp h with hfound | ⟨_, hrest⟩
        · exact scanRegion_clear memory _ _ hfound
        · exact ih _ hrest
      · simp at h

theorem handle_page_fault_eq (memory : Memory) (fault_address : UInt32) :
    handle_page_fault memory fault_address =
      (scanRegions memory 256 0).map fun pfn => { setFrameUsed memory pfn with
        page_directory := Function.update memory.page_directory
          (getVirtualFrameNumber fault_address) (userEntry pfn) } := by
  unfold handle_page_fault
  cases hscan : scanRegions memory 256 0 with
  | none => rfl
  | some pfn =>
      obtain ⟨hlt, -⟩ := scanRegions_clear memory 256 0 pfn hscan
      simp only [constructPageDirEntry_user pfn hlt, Option.map_some]
      rfl

theorem handle_page_fault_cases (memory next : Memory) (fault_address : UInt32)
    (h : handle_page_fault memory fault_address = some next) :
    ∃ pfn, pfn < 1024 ∧ is_frame_used memory pfn = false ∧
      next = { setFrameUsed memory pfn with
        page_directory := Function.update memory.page_directory
          (getVirtualFrameNumber fault_address) (userEntry pfn) } := by
  rw [handle_page_fault_eq] at h
  obtain ⟨pfn, hscan, rfl⟩ := Option.map_eq_some_iff.mp h
  obtain ⟨hlt, hclear⟩ := scanRegions_clear memory 256 0 pfn hscan
  exact ⟨pfn, hlt, hclear, rfl⟩

theorem getVirtualFrameNumber_lt (fault_address : UInt32) :
    getVirtualFrameNumber fault_address < 1024 := by
  have h := fault_address.toNat_lt
  unfold getVirtualFrameNumber
  rw [Nat.shiftRight_eq_div_pow]
  omega

end Scan

end PalleyOS.Paging
