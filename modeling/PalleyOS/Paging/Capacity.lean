import PalleyOS.Paging.Walk
import PalleyOS.Paging.Frames

namespace PalleyOS.Paging

-- What the loader stores on a map laid end to end: a region for each RAM
-- descriptor it has passed, at the next index, up to the first one behind the table.
section Stored

def ramCount (map : List PhysicalMemoryRegionDescriptor) : Nat := (map.filter (·.ram)).length

theorem ramCount_take_le (rounds : Nat) (map : List PhysicalMemoryRegionDescriptor) :
    ramCount (map.take rounds) ≤ ramCount map :=
  ((List.take_sublist rounds map).filter _).length_le

theorem ramCount_cons (d : PhysicalMemoryRegionDescriptor)
    (map : List PhysicalMemoryRegionDescriptor) :
    ramCount (d :: map) = (if d.region_type = 1 then 1 else 0) + ramCount map := by
  unfold ramCount
  by_cases hram : d.region_type = 1
  · rw [List.filter_cons_of_pos (by simp [PhysicalMemoryRegionDescriptor.ram, hram]), if_pos hram,
      List.length_cons, Nat.add_comm]
  · rw [List.filter_cons_of_neg (by simp [PhysicalMemoryRegionDescriptor.ram, hram]), if_neg hram,
      Nat.zero_add]

theorem Laid.length_le (image : Machine.Memory) (region : Nat)
    (map : List PhysicalMemoryRegionDescriptor) (hlaid : Laid image region map) :
    24 * map.length ≤ totalSize map := by
  induction map generalizing region with
  | nil => exact Nat.zero_le _
  | cons d rest ih =>
      obtain ⟨-, hsize, hrest⟩ := hlaid
      have hlength := ih _ hrest
      simp only [totalSize, List.map_cons, List.sum_cons, List.length_cons] at hlength ⊢
      omega

-- The table is filled without gaps from index 0 on, with `passed` regions so far.
structure Recorded.Dense (r : Recorded) (passed : Nat) : Prop where
  stored : r.stored = List.range (min passed (MAX_PHYSICAL_MEMORY_REGIONS + 1))
  count : r.memory.physical_memory_region_count.toNat = min passed MAX_PHYSICAL_MEMORY_REGIONS

theorem Recorded.Dense.visit {r : Recorded} {passed : Nat} (hdense : r.Dense passed)
    (hpassed : passed ≤ MAX_PHYSICAL_MEMORY_REGIONS) (region : Nat)
    (d : PhysicalMemoryRegionDescriptor) :
    (r.visit region d).Dense (passed + if d.region_type = 1 then 1 else 0) ∧
    ((visitRegion d r.memory).isSome = true ↔
      passed + (if d.region_type = 1 then 1 else 0) ≤ MAX_PHYSICAL_MEMORY_REGIONS) := by
  obtain ⟨hstored, hcount⟩ := hdense
  have htable : MAX_PHYSICAL_MEMORY_REGIONS = 16 := rfl
  rw [Nat.min_eq_left hpassed] at hcount
  rw [Nat.min_eq_left (by omega)] at hstored
  by_cases hram : d.region_type = 1
  · have hvisited : (r.visit region d).stored = List.range (passed + 1) := by
      rw [Recorded.visit, if_pos hram, hstored, hcount, List.range_succ]
    rw [if_pos hram]
    by_cases hroom : passed < MAX_PHYSICAL_MEMORY_REGIONS
    · obtain ⟨recorded, hrecord, -, hnext⟩ := recordRegion_regions d r.memory (by omega)
      have hvisit : visitRegion d r.memory = some recorded := (if_pos hram).trans hrecord
      refine ⟨⟨?_, ?_⟩, fun _ => hroom, fun _ => by rw [hvisit]; rfl⟩
      · rw [hvisited, Nat.min_eq_left (by omega)]
      · rw [Recorded.visit, hvisit, Option.getD_some, hnext, hcount, Nat.min_eq_left hroom]
    · have hvisit : visitRegion d r.memory = none :=
        (if_pos hram).trans (if_neg (by rw [hcount]; exact hroom))
      refine ⟨⟨?_, ?_⟩, fun hsome => ?_, fun hmore => absurd hmore hroom⟩
      · rw [hvisited, Nat.min_eq_left (by omega)]
      · rw [Recorded.visit, hvisit, Option.getD_none, hcount]
        omega
      · rw [hvisit] at hsome
        cases hsome
  · have hvisit : visitRegion d r.memory = some r.memory := if_neg hram
    rw [if_neg hram, Nat.add_zero]
    refine ⟨⟨?_, ?_⟩, fun _ => hpassed, fun _ => by rw [hvisit]; rfl⟩
    · rw [Recorded.visit, if_neg hram, hstored, Nat.min_eq_left (by omega)]
    · rw [Recorded.visit, hvisit, Option.getD_some, hcount, Nat.min_eq_left hpassed]

theorem walkFrom_laid (image : Machine.Memory) (mmap_length rounds region traversed_size : Nat)
    (r : Recorded) (map : List PhysicalMemoryRegionDescriptor) (hlaid : Laid image region map)
    (htotal : traversed_size + totalSize map = mmap_length) (hlength : mmap_length < 4294967296)
    (passed : Nat) (hdense : r.Dense passed) (hpassed : passed ≤ MAX_PHYSICAL_MEMORY_REGIONS) :
    (walkFrom image mmap_length rounds region traversed_size r).1.Dense
      (passed + ramCount (map.take rounds)) := by
  induction rounds generalizing region traversed_size r map passed with
  | zero => exact hdense
  | succ rounds ih =>
      cases map with
      | nil =>
          simp only [totalSize, List.map_nil, List.sum_nil, Nat.add_zero] at htotal
          rw [walkFrom, if_neg (by omega)]
          exact hdense
      | cons d rest =>
          obtain ⟨hd, hsize, hrest⟩ := hlaid
          simp only [totalSize, List.map_cons, List.sum_cons] at htotal
          have hmore : traversed_size < mmap_length := by omega
          have hnext : (traversed_size + (d.size + 4)) % 4294967296 =
              traversed_size + (d.size + 4) := Nat.mod_eq_of_lt (by omega)
          obtain ⟨hvisited, hroom⟩ := hdense.visit hpassed region d
          rw [walkFrom, if_pos hmore, List.take_succ_cons, ramCount_cons, ← Nat.add_assoc]
          simp only [hd, hnext]
          generalize passed + (if d.region_type = 1 then 1 else 0) = passed' at hvisited hroom ⊢
          by_cases hsome : (visitRegion d r.memory).isSome = true
          · rw [if_pos hsome]
            exact ih ((region + d.size + 4) % 4294967296) (traversed_size + (d.size + 4))
              (r.visit region d) rest (hrest.mod image _ _ rest (by omega))
              (by unfold totalSize; omega) passed' hvisited (hroom.mp hsome)
          · -- One too many, so that any further ones make no difference.
            have hmany : MAX_PHYSICAL_MEMORY_REGIONS < passed' :=
              Nat.not_le.mp fun hle => hsome (hroom.mpr hle)
            rw [if_neg hsome]
            refine ⟨hvisited.stored.trans ?_, hvisited.count.trans ?_⟩
            · rw [Nat.min_eq_right hmany, Nat.min_eq_right (by omega)]
            · rw [Nat.min_eq_right (by omega), Nat.min_eq_right (by omega)]

end Stored

-- The loop of the page fault handler over the regions, once more with what it reads.
section RegionsRead

def regionsRead (memory : Memory) : Nat → Nat → List Nat
  | 0, _ => []
  | rounds + 1, region_index =>
      if region_index < memory.physical_memory_region_count.toNat then
        region_index :: (scanRegion memory (memory.physical_memory_regions region_index)).elim
          (regionsRead memory rounds ((region_index + 1) % 256)) (fun _ => [])
      else []

theorem regionsRead_lt (memory : Memory) (rounds region_index : Nat) :
    ∀ i ∈ regionsRead memory rounds region_index,
      i < memory.physical_memory_region_count.toNat := by
  induction rounds generalizing region_index with
  | zero => exact fun i hi => absurd hi List.not_mem_nil
  | succ rounds ih =>
      rw [regionsRead]
      by_cases hcount : region_index < memory.physical_memory_region_count.toNat
      · rw [if_pos hcount]
        intro i hi
        rcases List.mem_cons.mp hi with rfl | hrest
        · exact hcount
        · cases hscan : scanRegion memory (memory.physical_memory_regions region_index) with
          | some pfn =>
              rw [hscan] at hrest
              exact absurd hrest List.not_mem_nil
          | none =>
              rw [hscan] at hrest
              exact ih _ i hrest
      · rw [if_neg hcount]
        exact fun i hi => absurd hi List.not_mem_nil

-- The loop depends on no other entry of the table.
theorem regionLoop_reads (memory memory' : Memory)
    (hcount : memory'.physical_memory_region_count = memory.physical_memory_region_count)
    (hmap : memory'.page_frame_map = memory.page_frame_map) (rounds region_index : Nat)
    (hsame : ∀ i ∈ regionsRead memory rounds region_index,
      memory'.physical_memory_regions i = memory.physical_memory_regions i) :
    regionLoop memory' rounds region_index = regionLoop memory rounds region_index := by
  have hused : is_frame_used memory' = is_frame_used memory := by
    funext pfn
    rw [is_frame_used, is_frame_used, hmap]
  have hscan (region : Physical_Memory_Region) :
      scanRegion memory' region = scanRegion memory region := by
    unfold scanRegion
    rw [hused]
  induction rounds generalizing region_index with
  | zero => rfl
  | succ rounds ih =>
      rw [regionsRead] at hsame
      rw [regionLoop, regionLoop, hcount]
      by_cases hmore : region_index < memory.physical_memory_region_count.toNat
      · rw [if_pos hmore] at hsame ⊢
        obtain ⟨hfirst, hrest⟩ := List.forall_mem_cons.mp hsame
        rw [if_pos hmore, hfirst, hscan]
        cases hfound : scanRegion memory (memory.physical_memory_regions region_index) with
        | some pfn => rw [Option.elim_some, Option.elim_some]
        | none =>
            rw [hfound, Option.elim_none] at hrest
            rw [Option.elim_none, Option.elim_none]
            exact ih _ hrest
      · rw [if_neg hmore, if_neg hmore]

-- Below 256 regions the counter of one byte does not wrap.
theorem regionLoop_ends (memory : Memory) (left region_index : Nat)
    (hfew : memory.physical_memory_region_count.toNat < 256)
    (hleft : region_index + left = memory.physical_memory_region_count.toNat) :
    regionLoop memory (left + 1) region_index ≠ none := by
  induction left generalizing region_index with
  | zero =>
      rw [regionLoop, if_neg (by omega)]
      simp
  | succ left ih =>
      rw [regionLoop, if_pos (by omega)]
      cases scanRegion memory (memory.physical_memory_regions region_index) with
      | some pfn => simp
      | none =>
          rw [Option.elim_none, Nat.mod_eq_of_lt (by omega)]
          exact ih (region_index + 1) (by omega)

end RegionsRead

section Capacity

-- Page faults and `setupPaging` change the directory and the frame map only.
structure SameRegions (memory memory' : Memory) : Prop where
  regions : memory'.physical_memory_regions = memory.physical_memory_regions
  count : memory'.physical_memory_region_count = memory.physical_memory_region_count

structure WithinCapacity (image : Machine.Memory) (multiboot_info : MultibootInfo)
    (memory : Memory) : Prop where
  stores : ∀ rounds, ∀ i ∈ (walk rounds image multiboot_info memory).1.stored,
    i < MAX_PHYSICAL_MEMORY_REGIONS
  counts : ∀ rounds,
    (walk rounds image multiboot_info memory).1.memory.physical_memory_region_count.toNat ≤
      MAX_PHYSICAL_MEMORY_REGIONS
  faults : ∀ rounds loaded,
    loadPhysicalMemoryRegionDescriptors rounds image multiboot_info memory = some loaded →
    ∀ later, SameRegions loaded later →
      (∃ turns, regionLoop later turns 0 ≠ none) ∧
      ∀ turns, ∀ i ∈ regionsRead later turns 0,
        i ∈ (walk rounds image multiboot_info memory).1.stored

variable {image : Machine.Memory} {multiboot_info : MultibootInfo} {memory : Memory}
  {map : List PhysicalMemoryRegionDescriptor}

theorem walk_laid (hlaid : Laid image multiboot_info.mmap_addr.toNat map)
    (htotal : totalSize map = multiboot_info.mmap_length.toNat) (rounds : Nat) :
    (walk rounds image multiboot_info memory).1.Dense (ramCount (map.take rounds)) := by
  have hdense := walkFrom_laid image multiboot_info.mmap_length.toNat rounds
    multiboot_info.mmap_addr.toNat 0
    { memory := { memory with physical_memory_region_count := 0 }, stored := [], read := [] } map
    hlaid (by rw [Nat.zero_add]; exact htotal) multiboot_info.mmap_length.toNat_lt 0 ⟨rfl, rfl⟩
    (Nat.zero_le _)
  rw [Nat.zero_add] at hdense
  exact hdense

theorem load_laid (hprovided : multiboot_info.flags.toNat &&& 1 <<< 6 ≠ 0) {rounds : Nat}
    {loaded : Memory}
    (hload : loadPhysicalMemoryRegionDescriptors rounds image multiboot_info memory = some loaded) :
    loaded = (walk rounds image multiboot_info memory).1.memory := by
  rw [walk_loads rounds image multiboot_info memory hprovided] at hload
  split at hload
  · exact (Option.some.inj hload).symm
  · cases hload

-- The table holds the regions of every map of up to 16 RAM descriptors and of no other.
theorem within_capacity_iff (image : Machine.Memory) (multiboot_info : MultibootInfo)
    (memory : Memory) (map : List PhysicalMemoryRegionDescriptor)
    (hprovided : multiboot_info.flags.toNat &&& 1 <<< 6 ≠ 0)
    (hlaid : Laid image multiboot_info.mmap_addr.toNat map)
    (htotal : totalSize map = multiboot_info.mmap_length.toNat) :
    WithinCapacity image multiboot_info memory ↔
      (map.filter (·.ram)).length ≤ MAX_PHYSICAL_MEMORY_REGIONS := by
  constructor
  · intro h
    by_contra hfew
    have hmany : MAX_PHYSICAL_MEMORY_REGIONS + 1 ≤ ramCount map := Nat.not_le.mp hfew
    have hstores := h.stores map.length MAX_PHYSICAL_MEMORY_REGIONS
    rw [(walk_laid hlaid htotal map.length).stored, List.take_length, List.mem_range,
      Nat.min_eq_right hmany] at hstores
    exact Nat.lt_irrefl _ (hstores (Nat.lt_succ_self _))
  · intro hfew
    have hcounts (rounds : Nat) :
        (walk rounds image multiboot_info memory).1.memory.physical_memory_region_count.toNat ≤
          MAX_PHYSICAL_MEMORY_REGIONS := by
      rw [(walk_laid hlaid htotal rounds).count]
      exact Nat.min_le_right _ _
    have hstored (rounds : Nat) : (walk rounds image multiboot_info memory).1.stored =
        List.range (walk rounds image multiboot_info
          memory).1.memory.physical_memory_region_count.toNat := by
      have hpassed := (ramCount_take_le rounds map).trans hfew
      rw [(walk_laid hlaid htotal rounds).stored, (walk_laid hlaid htotal rounds).count,
        Nat.min_eq_left hpassed, Nat.min_eq_left (hpassed.trans (Nat.le_succ _))]
    refine ⟨fun rounds i hi => ?_, hcounts, fun rounds loaded hload later hsame => ?_⟩
    · rw [hstored rounds] at hi
      exact (List.mem_range.mp hi).trans_le (hcounts rounds)
    · have hcount : later.physical_memory_region_count.toNat =
          (walk rounds image multiboot_info memory).1.memory.physical_memory_region_count.toNat := by
        rw [hsame.count, load_laid hprovided hload]
      have hbound := hcounts rounds
      unfold MAX_PHYSICAL_MEMORY_REGIONS at hbound
      refine ⟨⟨_, regionLoop_ends later _ 0 (by omega) (Nat.zero_add _)⟩, fun turns i hi => ?_⟩
      rw [hstored rounds, List.mem_range, ← hcount]
      exact regionsRead_lt later turns 0 i hi

theorem within_capacity_iff_mixed :
    WithinCapacity mixedImage mixedInfo emptyMemory ↔
      (mixedMap.filter (·.ram)).length ≤ MAX_PHYSICAL_MEMORY_REGIONS :=
  within_capacity_iff mixedImage mixedInfo emptyMemory mixedMap (by decide)
    mixedInfo_wellFormed.laid (by decide)

-- A map of 17 RAM descriptors.
def crowdedImage : Machine.Memory := fun a =>
  if a % 24 = 0 then 20 else if a % 24 = 20 then 1 else 0

def crowdedInfo : MultibootInfo := { flags := 64, mmap_length := 408, mmap_addr := 0 }

def ramDescriptor : PhysicalMemoryRegionDescriptor :=
  { size := 20, base_addr_low := 0, base_addr_high := 0, length_low := 0, length_high := 0
    region_type := 1 }

theorem crowdedImage_laid (left used : Nat) (hused : used + left ≤ 17) :
    Laid crowdedImage (24 * used) (List.replicate left ramDescriptor) := by
  induction left generalizing used with
  | zero => trivial
  | succ left ih =>
      refine ⟨?_, Nat.le_refl _, ih (used + 1) (by omega)⟩
      have hlt : used < 17 := by omega
      clear ih hused
      revert used
      decide

theorem seventeenth_region_stored :
    ¬∀ (image : Machine.Memory) (multiboot_info : MultibootInfo) (memory : Memory)
      (map : List PhysicalMemoryRegionDescriptor),
      multiboot_info.flags.toNat &&& 1 <<< 6 ≠ 0 →
      Laid image multiboot_info.mmap_addr.toNat map →
      totalSize map = multiboot_info.mmap_length.toNat →
      WithinCapacity image multiboot_info memory := by
  intro h
  have hlaid : Laid crowdedImage crowdedInfo.mmap_addr.toNat (List.replicate 17 ramDescriptor) :=
    crowdedImage_laid 17 0 (by decide)
  have hstored : 16 ∈ (walk 17 crowdedImage crowdedInfo emptyMemory).1.stored := by
    rw [(walk_laid hlaid (by decide) 17).stored]
    decide
  have hbelow := (h crowdedImage crowdedInfo emptyMemory _ (by decide) hlaid (by decide)).stores 17
    16 hstored
  exact absurd hbelow (by decide)

end Capacity

end PalleyOS.Paging
