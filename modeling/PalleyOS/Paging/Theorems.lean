import PalleyOS.Paging.Lemmas
import PalleyOS.Machine.Runs

namespace PalleyOS.Paging

-- No two present entries name the same frame, and every frame named by a
-- present entry is marked used.
structure FramesOwned (memory : Memory) : Prop where
  distinct : ∀ i < 1024, ∀ j < 1024, i ≠ j →
    present (memory.page_directory i) → present (memory.page_directory j) →
    frameNumber (memory.page_directory i) ≠ frameNumber (memory.page_directory j)
  used : ∀ i < 1024, present (memory.page_directory i) →
    is_frame_used memory (frameNumber (memory.page_directory i)) = true

-- What one handled fault does: exactly the entry of the faulting page and
-- exactly one bit of the frame map change, and the entry maps that frame.
structure MapsOneFrame (memory : Memory) (fault_address : UInt32) (next : Memory)
    (pfn : Nat) : Prop where
  clear : is_frame_used memory pfn = false
  marked : is_frame_used next pfn = true
  one_bit : ∀ word b, (next.page_frame_map word).testBit b ≠
    (memory.page_frame_map word).testBit b ↔ word = pfn / 32 ∧ b = pfn % 32
  one_entry : ∀ i, next.page_directory i ≠ memory.page_directory i ↔
    i = fault_address.toNat / 2 ^ 22
  entry_present : present (next.page_directory (fault_address.toNat / 2 ^ 22)) = true
  entry_writable : writable (next.page_directory (fault_address.toNat / 2 ^ 22)) = true
  entry_large : large (next.page_directory (fault_address.toNat / 2 ^ 22)) = true
  entry_frame : frameNumber (next.page_directory (fault_address.toNat / 2 ^ 22)) = pfn

def Fault (memory : Memory) (fault_address : UInt32) (next : Memory) : Prop :=
  handle_page_fault memory fault_address = some next

theorem setupPaging_eq (memory started : Memory) (h : setupPaging memory = some started) :
    started.page_directory = Function.update
      (fun i => if i < 1024 then 0 else memory.page_directory i) 0 (userEntry 0) ∧
    is_frame_used started 0 = true := by
  unfold setupPaging at h
  simp only [constructPageDirEntry_user 0 (by decide), Option.some.injEq] at h
  subst h
  exact ⟨rfl, by simp [is_frame_used]⟩

theorem setupPaging_owned (memory started : Memory) (h : setupPaging memory = some started) :
    FramesOwned started := by
  obtain ⟨hdir, hused⟩ := setupPaging_eq memory started h
  have hzero (i : Nat) (hi : i < 1024) (hne : i ≠ 0) : started.page_directory i = 0 := by
    rw [hdir, Function.update_of_ne hne, if_pos hi]
  have habsent (i : Nat) (hi : i < 1024) (hne : i ≠ 0) :
      ¬present (started.page_directory i) = true := by
    rw [hzero i hi hne]
    decide
  constructor
  · intro i hi j hj hij hpi hpj
    by_cases hi0 : i = 0
    · exact absurd hpj (habsent j hj (by omega))
    · exact absurd hpi (habsent i hi hi0)
  · intro i hi hpi
    by_cases hi0 : i = 0
    · subst i
      rw [hdir, Function.update_self, frameNumber_userEntry 0 (by decide)]
      exact hused
    · exact absurd hpi (habsent i hi hi0)

-- The frame handed out was clear, so no present entry can name it.
theorem fault_keeps_owned (memory next : Memory) (fault_address : UInt32)
    (hown : FramesOwned memory) (hfault : Fault memory fault_address next) :
    FramesOwned next := by
  obtain ⟨pfn, hlt, hclear, rfl⟩ := handle_page_fault_cases memory next fault_address hfault
  have hfresh (i : Nat) (hi : i < 1024) (hp : present (memory.page_directory i)) :
      frameNumber (memory.page_directory i) ≠ pfn := by
    intro he
    have hu := hown.used i hi hp
    rw [he, hclear] at hu
    cases hu
  constructor
  · intro i hi j hj hij
    by_cases hiv : i = getVirtualFrameNumber fault_address
    · have hjv : j ≠ getVirtualFrameNumber fault_address := by omega
      simp only [hiv, Function.update_self, Function.update_of_ne hjv,
        frameNumber_userEntry pfn hlt]
      intro _ hpj
      exact (hfresh j hj hpj).symm
    · by_cases hjv : j = getVirtualFrameNumber fault_address
      · simp only [hjv, Function.update_self, Function.update_of_ne hiv,
          frameNumber_userEntry pfn hlt]
        intro hpi _
        exact hfresh i hi hpi
      · simp only [Function.update_of_ne hiv, Function.update_of_ne hjv]
        exact hown.distinct i hi j hj hij
  · intro i hi
    change present (Function.update memory.page_directory _ _ i) = true →
      is_frame_used (setFrameUsed memory pfn) _ = true
    rw [is_frame_used_setFrameUsed]
    by_cases hiv : i = getVirtualFrameNumber fault_address
    · simp [hiv, frameNumber_userEntry pfn hlt]
    · simp only [Function.update_of_ne hiv, Bool.or_eq_true]
      exact fun hp => Or.inr (hown.used i hi hp)

theorem fault_maps_one_frame (memory next : Memory) (fault_address : UInt32)
    (hown : FramesOwned memory) (hfault : Fault memory fault_address next) :
    ∃ pfn, MapsOneFrame memory fault_address next pfn := by
  obtain ⟨pfn, hlt, hclear, rfl⟩ := handle_page_fault_cases memory next fault_address hfault
  have hvpn : fault_address.toNat / 2 ^ 22 = getVirtualFrameNumber fault_address := by
    unfold getVirtualFrameNumber
    rw [Nat.shiftRight_eq_div_pow]
  have hentry : userEntry pfn ≠ memory.page_directory (getVirtualFrameNumber fault_address) := by
    intro he
    have hu := hown.used _ (getVirtualFrameNumber_lt fault_address)
      (by rw [← he]; exact present_userEntry pfn)
    rw [← he, frameNumber_userEntry pfn hlt, hclear] at hu
    cases hu
  refine ⟨pfn, hclear, ?_, ?_, ?_, ?_, ?_, ?_, ?_⟩
  · change is_frame_used (setFrameUsed memory pfn) pfn = true
    simp [is_frame_used_setFrameUsed]
  · intro word b
    change (Machine.setBitAt 32 memory.page_frame_map pfn word).testBit b ≠ _ ↔ _
    have hbit : (memory.page_frame_map (pfn / 32)).testBit (pfn % 32) = false := by
      simpa only [is_frame_used_eq, Machine.bitAt] using hclear
    rw [Machine.setBitAt_word]
    by_cases hw : word = pfn / 32 ∧ b = pfn % 32
    · simp [hw.1, hw.2, hbit]
    · simp [hw]
  · intro i
    rw [hvpn]
    by_cases hi : i = getVirtualFrameNumber fault_address
    · subst i
      simp only [Function.update_self, iff_true]
      exact hentry
    · simp [hi]
  all_goals rw [hvpn]; simp only [Function.update_self]
  · exact present_userEntry pfn
  · exact writable_userEntry pfn
  · exact large_userEntry pfn
  · exact frameNumber_userEntry pfn hlt

-- From `setupPaging` on, whatever the region table holds and whatever
-- addresses fault, each handled fault maps one frame that no page owned.
theorem frames_owned_by_one_page (memory started : Memory) (trace : List (UInt32 × Memory))
    (hsetup : setupPaging memory = some started)
    (hrun : Machine.Along Fault started trace) :
    FramesOwned started ∧
    Machine.Along (fun before fault_address after =>
      (∃ pfn, MapsOneFrame before fault_address after pfn) ∧ FramesOwned after) started trace := by
  have hstart := setupPaging_owned memory started hsetup
  refine ⟨hstart, ?_⟩
  have htrue : Machine.Along (fun _ _ _ => True) started trace :=
    hrun.mono (fun _ _ _ _ => trivial)
  apply (Machine.Along.invariant FramesOwned ?_ hstart hrun htrue).mono
  · rintro before fault_address after ⟨hown, hfault, -, hnext⟩
    exact ⟨fault_maps_one_frame before after fault_address hown hfault, hnext⟩
  · intro before fault_address after hown hfault _
    exact fault_keeps_owned before after fault_address hown hfault

-- 16 MiB of memory from 1 MiB on hold three whole frames.
def smallMemory : Memory :=
  { page_directory := fun _ => 0
    page_frame_map := fun _ => 0
    physical_memory_regions := fun _ => ⟨0x100000, 0x1000000⟩
    physical_memory_region_count := 1 }

theorem frames_owned_by_one_page_heap_fault :
    ∃ started after, setupPaging smallMemory = some started ∧
      Fault started 0xf000000 after ∧ FramesOwned after := by
  have hsome : ((setupPaging smallMemory).bind
      fun memory => handle_page_fault memory 0xf000000).isSome = true := by decide
  obtain ⟨after, hafter⟩ := Option.isSome_iff_exists.mp hsome
  obtain ⟨started, hsetup, hfault⟩ := Option.bind_eq_some_iff.mp hafter
  exact ⟨started, after, hsetup, hfault, (frames_owned_by_one_page smallMemory started
    [(0xf000000, after)] hsetup ⟨hfault, trivial⟩).2.1.2⟩

end PalleyOS.Paging
