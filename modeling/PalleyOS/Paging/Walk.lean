import PalleyOS.Paging.Regions

namespace PalleyOS.Paging

open Machine (load32 sub32)

-- The loader once more, with the indices of the table it stores to and the fields
-- it reads, each as the address of its descriptor and its place in there.
section Recorded

structure Recorded where
  memory : Memory
  stored : List Nat
  read : List (Nat × Nat)

-- `size`, `base_addr_low`, `length_low` and `region_type`. The other two are never read.
def fieldsRead : List Nat := [0, 4, 12, 20]

-- What is behind the table is left out of the memory, but not out of the records.
def Recorded.visit (region : Nat) (descriptor : PhysicalMemoryRegionDescriptor) (r : Recorded) :
    Recorded :=
  { memory := (visitRegion descriptor r.memory).getD r.memory
    stored :=
      if descriptor.region_type = 1 then
        r.stored ++ [r.memory.physical_memory_region_count.toNat]
      else r.stored
    read := r.read ++ fieldsRead.map (fun field => (region, field)) }

-- The flag tells whether the walk is over after `rounds` descriptors. A store behind the
-- table is the last thing that the records show.
def walkFrom (image : Machine.Memory) (mmap_length : Nat) :
    Nat → Nat → Nat → Recorded → Recorded × Bool
  | 0, _, _, r => (r, false)
  | rounds + 1, region, traversed_size, r =>
      if traversed_size < mmap_length then
        let descriptor := descriptorAt image region
        if (visitRegion descriptor r.memory).isSome then
          walkFrom image mmap_length rounds ((region + descriptor.size + 4) % 4294967296)
            ((traversed_size + (descriptor.size + 4)) % 4294967296) (r.visit region descriptor)
        else (r.visit region descriptor, false)
      else (r, true)

def walk (rounds : Nat) (image : Machine.Memory) (multiboot_info : MultibootInfo)
    (memory : Memory) : Recorded × Bool :=
  walkFrom image multiboot_info.mmap_length.toNat rounds multiboot_info.mmap_addr.toNat 0
    { memory := { memory with physical_memory_region_count := 0 }, stored := [], read := [] }

theorem visit_memory {r : Recorded} {region : Nat} {descriptor : PhysicalMemoryRegionDescriptor}
    {visited : Memory} (hvisit : visitRegion descriptor r.memory = some visited) :
    (r.visit region descriptor).memory = visited := by
  rw [Recorded.visit, hvisit]
  rfl

-- Without the records it is the model itself.
theorem walkFrom_loads (image : Machine.Memory) (mmap_length rounds region traversed_size : Nat)
    (r : Recorded) :
    loadFrom image mmap_length rounds region traversed_size r.memory =
      if (walkFrom image mmap_length rounds region traversed_size r).2 = true then
        some (walkFrom image mmap_length rounds region traversed_size r).1.memory
      else none := by
  induction rounds generalizing region traversed_size r with
  | zero => rfl
  | succ rounds ih =>
      rw [loadFrom, walkFrom]
      by_cases hmore : traversed_size < mmap_length
      · simp only [if_pos hmore]
        cases hvisit : visitRegion (descriptorAt image region) r.memory with
        | none => rfl
        | some memory =>
            rw [Option.isSome_some, if_pos rfl, ← ih, visit_memory hvisit]
            rfl
      · simp only [if_neg hmore, if_true]

theorem walk_loads (rounds : Nat) (image : Machine.Memory) (multiboot_info : MultibootInfo)
    (memory : Memory) (hprovided : multiboot_info.flags.toNat &&& 1 <<< 6 ≠ 0) :
    loadPhysicalMemoryRegionDescriptors rounds image multiboot_info memory =
      if (walk rounds image multiboot_info memory).2 = true then
        some (walk rounds image multiboot_info memory).1.memory
      else none := by
  rw [loadPhysicalMemoryRegionDescriptors, if_neg hprovided]
  exact walkFrom_loads image _ rounds _ 0
    { memory := { memory with physical_memory_region_count := 0 }, stored := [], read := [] }

-- Nothing is taken out of the records.
theorem walkFrom_read (image : Machine.Memory) (mmap_length rounds region traversed_size : Nat)
    (r : Recorded) :
    ∀ field ∈ r.read, field ∈ (walkFrom image mmap_length rounds region traversed_size r).1.read := by
  intro field hfield
  induction rounds generalizing region traversed_size r with
  | zero => exact hfield
  | succ rounds ih =>
      have hvisited : field ∈ (r.visit region (descriptorAt image region)).read :=
        List.mem_append_left _ hfield
      rw [walkFrom]
      dsimp only
      split
      · split
        · exact ih _ _ _ hvisited
        · exact hvisited
      · exact hfield

-- The descriptors of type 1 among the first `rounds` that the walk comes to.
def ramPassed (image : Machine.Memory) (mmap_length : Nat) : Nat → Nat → Nat → Nat
  | 0, _, _ => 0
  | rounds + 1, region, traversed_size =>
      if traversed_size < mmap_length then
        let descriptor := descriptorAt image region
        (if descriptor.region_type = 1 then 1 else 0) +
          ramPassed image mmap_length rounds ((region + descriptor.size + 4) % 4294967296)
            ((traversed_size + (descriptor.size + 4)) % 4294967296)
      else 0

-- The table has room for all that the walk passes, however far it goes.
def FewRam (image : Machine.Memory) (multiboot_info : MultibootInfo) : Prop :=
  ∀ rounds, ramPassed image multiboot_info.mmap_length.toNat rounds
    multiboot_info.mmap_addr.toNat 0 ≤ MAX_PHYSICAL_MEMORY_REGIONS

theorem visitRegion_room (descriptor : PhysicalMemoryRegionDescriptor) (memory : Memory)
    (hroom : memory.physical_memory_region_count.toNat +
      (if descriptor.region_type = 1 then 1 else 0) ≤ MAX_PHYSICAL_MEMORY_REGIONS) :
    ∃ visited, visitRegion descriptor memory = some visited ∧
      visited.physical_memory_region_count.toNat = memory.physical_memory_region_count.toNat +
        if descriptor.region_type = 1 then 1 else 0 := by
  by_cases hram : descriptor.region_type = 1
  · rw [if_pos hram] at hroom ⊢
    obtain ⟨recorded, hrecord, -, hcount⟩ := recordRegion_regions descriptor memory hroom
    exact ⟨recorded, (if_pos hram).trans hrecord, hcount⟩
  · rw [if_neg hram]
    exact ⟨memory, if_neg hram, rfl⟩

-- The table has room for what the walk passes from a descriptor on.
def HasRoom (image : Machine.Memory) (mmap_length region traversed_size : Nat) (memory : Memory) :
    Prop :=
  ∀ rounds, memory.physical_memory_region_count.toNat +
    ramPassed image mmap_length rounds region traversed_size ≤ MAX_PHYSICAL_MEMORY_REGIONS

variable {image : Machine.Memory} {mmap_length region traversed_size : Nat}

theorem HasRoom.round {memory : Memory}
    (h : HasRoom image mmap_length region traversed_size memory)
    (hmore : traversed_size < mmap_length) :
    ∃ visited, visitRegion (descriptorAt image region) memory = some visited ∧
      HasRoom image mmap_length ((region + (descriptorAt image region).size + 4) % 4294967296)
        ((traversed_size + ((descriptorAt image region).size + 4)) % 4294967296) visited := by
  have hpassed (rounds : Nat) := h (rounds + 1)
  simp only [ramPassed, if_pos hmore] at hpassed
  obtain ⟨visited, hvisit, hcount⟩ := visitRegion_room (descriptorAt image region) memory
    (hpassed 0)
  refine ⟨visited, hvisit, fun rounds => ?_⟩
  rw [hcount, Nat.add_assoc]
  exact hpassed rounds

theorem walkFrom_round {r : Recorded} {visited : Memory} (hmore : traversed_size < mmap_length)
    (hvisit : visitRegion (descriptorAt image region) r.memory = some visited) (rounds : Nat) :
    walkFrom image mmap_length (rounds + 1) region traversed_size r =
      walkFrom image mmap_length rounds
        ((region + (descriptorAt image region).size + 4) % 4294967296)
        ((traversed_size + ((descriptorAt image region).size + 4)) % 4294967296)
        (r.visit region (descriptorAt image region)) := by
  rw [walkFrom, if_pos hmore]
  simp only [hvisit, Option.isSome_some, if_true]

end Recorded

section Chain

-- The size fields lead from `offset` through whole descriptors out of the map.
inductive LeadsOut (image : Machine.Memory) (multiboot_info : MultibootInfo) : Nat → Prop where
  | out (offset : Nat) :
      multiboot_info.mmap_length.toNat ≤ offset → LeadsOut image multiboot_info offset
  | next (offset : Nat) :
      offset + 24 ≤ multiboot_info.mmap_length.toNat →
      LeadsOut image multiboot_info
        ((offset + load32 image (multiboot_info.mmap_addr.toNat + offset) + 4) % 4294967296) →
      LeadsOut image multiboot_info offset

-- The field lies in the map as a whole.
def InMap (multiboot_info : MultibootInfo) (field : Nat × Nat) : Prop :=
  sub32 field.1 multiboot_info.mmap_addr.toNat + field.2 + 4 ≤ multiboot_info.mmap_length.toNat

structure EndsInside (image : Machine.Memory) (multiboot_info : MultibootInfo) (memory : Memory) :
    Prop where
  ends : ∃ rounds loaded,
    loadFrom image multiboot_info.mmap_length.toNat rounds multiboot_info.mmap_addr.toNat 0
      { memory with physical_memory_region_count := 0 } = some loaded
  inside : ∀ rounds, ∀ field ∈ (walk rounds image multiboot_info memory).1.read,
    InMap multiboot_info field

variable {image : Machine.Memory} {multiboot_info : MultibootInfo}

-- `region` is the address of the descriptor at `offset`.
structure At (multiboot_info : MultibootInfo) (offset region : Nat) : Prop where
  bound : offset < 4294967296
  address : region % 4294967296 = (multiboot_info.mmap_addr.toNat + offset) % 4294967296

theorem At.distance {offset region : Nat} (h : At multiboot_info offset region) :
    sub32 region multiboot_info.mmap_addr.toNat = offset := by
  have hbound := h.bound
  have haddress := h.address
  have haddr := multiboot_info.mmap_addr.toNat_lt
  unfold sub32
  omega

theorem At.size {offset region : Nat} (h : At multiboot_info offset region) :
    (descriptorAt image region).size =
      load32 image (multiboot_info.mmap_addr.toNat + offset) :=
  Machine.load32_mod image _ _ h.address

theorem At.next {offset region : Nat} (h : At multiboot_info offset region) (size : Nat) :
    At multiboot_info ((offset + (size + 4)) % 4294967296) ((region + size + 4) % 4294967296) := by
  have haddress := h.address
  exact ⟨Nat.mod_lt _ (by omega), by omega⟩

-- A whole descriptor is one whose last field is in the map.
theorem At.whole_iff {offset region : Nat} (h : At multiboot_info offset region) :
    (∀ field ∈ fieldsRead, InMap multiboot_info (region, field)) ↔
      offset + 24 ≤ multiboot_info.mmap_length.toNat := by
  have hdistance := h.distance
  simp only [fieldsRead, InMap, List.forall_mem_cons, hdistance]
  constructor
  · rintro ⟨-, -, -, hlast, -⟩
    exact hlast
  · intro hlast
    exact ⟨by omega, by omega, by omega, by omega, fun field hfield => absurd hfield List.not_mem_nil⟩

theorem leadsOut_of_walk (rounds offset region : Nat) (r : Recorded)
    (hat : At multiboot_info offset region)
    (hends : (walkFrom image multiboot_info.mmap_length.toNat rounds region offset r).2 = true)
    (hinside : ∀ field ∈
      (walkFrom image multiboot_info.mmap_length.toNat rounds region offset r).1.read,
      InMap multiboot_info field) : LeadsOut image multiboot_info offset := by
  induction rounds generalizing offset region r with
  | zero => cases hends
  | succ rounds ih =>
      rw [walkFrom] at hends hinside
      by_cases hmore : offset < multiboot_info.mmap_length.toNat
      · simp only [if_pos hmore] at hends hinside
        by_cases hroom : (visitRegion (descriptorAt image region) r.memory).isSome = true
        · rw [if_pos hroom] at hends hinside
          have hwhole := hat.whole_iff.mp fun field hfield => hinside (region, field) <|
            walkFrom_read image _ rounds _ _ _ (region, field)
              (List.mem_append_right _ (List.mem_map.mpr ⟨field, hfield, rfl⟩))
          have hrest := ih _ _ _ (hat.next _) hends hinside
          rw [hat.size, ← Nat.add_assoc] at hrest
          exact .next offset hwhole hrest
        · rw [if_neg hroom] at hends
          cases hends
      · exact .out offset (Nat.not_lt.mp hmore)

theorem walk_of_leadsOut {offset : Nat} (h : LeadsOut image multiboot_info offset) (region : Nat)
    (r : Recorded) (hat : At multiboot_info offset region)
    (hread : ∀ field ∈ r.read, InMap multiboot_info field)
    (hroom : HasRoom image multiboot_info.mmap_length.toNat region offset r.memory) :
    (∃ rounds, (walkFrom image multiboot_info.mmap_length.toNat rounds region offset r).2 = true) ∧
    ∀ rounds, ∀ field ∈
      (walkFrom image multiboot_info.mmap_length.toNat rounds region offset r).1.read,
      InMap multiboot_info field := by
  induction h generalizing region r with
  | out offset hout =>
      refine ⟨⟨1, by rw [walkFrom, if_neg (Nat.not_lt.mpr hout)]⟩, fun rounds => ?_⟩
      cases rounds with
      | zero => exact hread
      | succ rounds =>
          rw [walkFrom, if_neg (Nat.not_lt.mpr hout)]
          exact hread
  | next offset hwhole _ ih =>
      have hmore : offset < multiboot_info.mmap_length.toNat := by omega
      have hnext : offset + load32 image (multiboot_info.mmap_addr.toNat + offset) + 4 =
          offset + ((descriptorAt image region).size + 4) := by
        rw [hat.size, Nat.add_assoc]
      rw [hnext] at ih
      have hvisited : ∀ field ∈ (r.visit region (descriptorAt image region)).read,
          InMap multiboot_info field := by
        intro field hfield
        rcases List.mem_append.mp hfield with hold | hnew
        · exact hread field hold
        · obtain ⟨place, hplace, rfl⟩ := List.mem_map.mp hnew
          exact hat.whole_iff.mpr hwhole place hplace
      obtain ⟨visited, hvisit, hlater⟩ := hroom.round hmore
      rw [← visit_memory hvisit] at hlater
      obtain ⟨⟨rounds, hends⟩, hinside⟩ := ih _ _ (hat.next _) hvisited hlater
      refine ⟨⟨rounds + 1, by rw [walkFrom_round hmore hvisit]; exact hends⟩, fun rounds => ?_⟩
      cases rounds with
      | zero => exact hread
      | succ rounds =>
          rw [walkFrom_round hmore hvisit]
          exact hinside rounds

theorem EndsInside.leadsOut {memory : Memory} (h : EndsInside image multiboot_info memory) :
    LeadsOut image multiboot_info 0 := by
  have hat : At multiboot_info 0 multiboot_info.mmap_addr.toNat := ⟨by omega, rfl⟩
  obtain ⟨rounds, loaded, hload⟩ := h.ends
  have herased := walkFrom_loads image multiboot_info.mmap_length.toNat rounds
    multiboot_info.mmap_addr.toNat 0
    { memory := { memory with physical_memory_region_count := 0 }, stored := [], read := [] }
  simp only at herased
  rw [hload] at herased
  refine leadsOut_of_walk rounds 0 _ _ hat ?_ (h.inside rounds)
  by_contra hrunning
  rw [if_neg hrunning] at herased
  cases herased

theorem LeadsOut.endsInside (h : LeadsOut image multiboot_info 0)
    (hfew : FewRam image multiboot_info) (memory : Memory) :
    EndsInside image multiboot_info memory := by
  have hat : At multiboot_info 0 multiboot_info.mmap_addr.toNat := ⟨by omega, rfl⟩
  obtain ⟨⟨rounds, hends⟩, hinside⟩ := walk_of_leadsOut h multiboot_info.mmap_addr.toNat
    { memory := { memory with physical_memory_region_count := 0 }, stored := [], read := [] } hat
    (fun field hfield => absurd hfield List.not_mem_nil)
    (fun rounds => (Nat.zero_add _).trans_le (hfew rounds))
  have herased := walkFrom_loads image multiboot_info.mmap_length.toNat rounds
    multiboot_info.mmap_addr.toNat 0
    { memory := { memory with physical_memory_region_count := 0 }, stored := [], read := [] }
  rw [if_pos hends] at herased
  exact ⟨⟨rounds, _, herased⟩, hinside⟩

end Chain

section WellFormed

-- A map whose descriptors lie end to end leads out of itself.
theorem Laid.leadsOut {image : Machine.Memory} {multiboot_info : MultibootInfo}
    (map : List PhysicalMemoryRegionDescriptor) (offset : Nat)
    (hlaid : Laid image (multiboot_info.mmap_addr.toNat + offset) map)
    (htotal : offset + totalSize map = multiboot_info.mmap_length.toNat) :
    LeadsOut image multiboot_info offset := by
  have hlength := multiboot_info.mmap_length.toNat_lt
  induction map generalizing offset with
  | nil => exact .out offset (Nat.le_of_eq htotal.symm)
  | cons d rest ih =>
      obtain ⟨hd, hsize, hrest⟩ := hlaid
      simp only [totalSize, List.map_cons, List.sum_cons] at htotal
      have hload : load32 image (multiboot_info.mmap_addr.toNat + offset) = d.size :=
        congrArg PhysicalMemoryRegionDescriptor.size hd
      refine .next offset (by omega) ?_
      rw [hload, Nat.mod_eq_of_lt (by omega)]
      refine ih (offset + d.size + 4) ?_ (by unfold totalSize; omega)
      rw [show multiboot_info.mmap_addr.toNat + (offset + d.size + 4) =
        multiboot_info.mmap_addr.toNat + offset + d.size + 4 by omega]
      exact hrest

theorem ramPassed_laid (image : Machine.Memory) (mmap_length rounds region traversed_size : Nat)
    (map : List PhysicalMemoryRegionDescriptor) (hlaid : Laid image region map)
    (htotal : traversed_size + totalSize map = mmap_length) (hlength : mmap_length < 4294967296) :
    ramPassed image mmap_length rounds region traversed_size ≤ (map.filter (·.ram)).length := by
  induction rounds generalizing region traversed_size map with
  | zero => exact Nat.zero_le _
  | succ rounds ih =>
      cases map with
      | nil =>
          simp only [totalSize, List.map_nil, List.sum_nil, Nat.add_zero] at htotal
          rw [ramPassed, if_neg (by omega)]
          exact Nat.zero_le _
      | cons d rest =>
          obtain ⟨hd, hsize, hrest⟩ := hlaid
          simp only [totalSize, List.map_cons, List.sum_cons] at htotal
          have hmore : traversed_size < mmap_length := by omega
          have hnext : (traversed_size + (d.size + 4)) % 4294967296 =
              traversed_size + (d.size + 4) := Nat.mod_eq_of_lt (by omega)
          have hpassed := ih ((region + d.size + 4) % 4294967296) (traversed_size + (d.size + 4))
            rest (hrest.mod image _ _ rest (by omega)) (by unfold totalSize; omega)
          rw [ramPassed, if_pos hmore]
          simp only [hd, hnext]
          by_cases hram : d.region_type = 1
          · rw [if_pos hram, List.filter_cons_of_pos
              (by simp [PhysicalMemoryRegionDescriptor.ram, hram]), List.length_cons]
            omega
          · rw [if_neg hram, List.filter_cons_of_neg
              (by simp [PhysicalMemoryRegionDescriptor.ram, hram])]
            omega

-- For any buffer whose RAM the table has room for: the walk ends and reads inside the
-- map exactly when the size fields lead out of it, as they do in every map laid end to
-- end.
theorem walk_ends_inside_iff (image : Machine.Memory) (multiboot_info : MultibootInfo)
    (memory : Memory) :
    (FewRam image multiboot_info →
      (EndsInside image multiboot_info memory ↔ LeadsOut image multiboot_info 0)) ∧
    ∀ map, Laid image multiboot_info.mmap_addr.toNat map →
      totalSize map = multiboot_info.mmap_length.toNat →
      (map.filter (·.ram)).length ≤ MAX_PHYSICAL_MEMORY_REGIONS →
      EndsInside image multiboot_info memory := by
  refine ⟨fun hfew => ⟨fun h => h.leadsOut, fun h => h.endsInside hfew memory⟩,
    fun map hlaid htotal hcount => ?_⟩
  have hleads := hlaid.leadsOut map 0 (by rw [Nat.zero_add]; exact htotal)
  refine hleads.endsInside (fun rounds => ?_) memory
  exact Nat.le_trans (ramPassed_laid image multiboot_info.mmap_length.toNat rounds
    multiboot_info.mmap_addr.toNat 0 map hlaid (by rw [Nat.zero_add]; exact htotal)
    multiboot_info.mmap_length.toNat_lt) hcount

theorem walk_ends_inside_iff_mixed :
    (EndsInside mixedImage mixedInfo emptyMemory ↔ LeadsOut mixedImage mixedInfo 0) ∧
      EndsInside mixedImage mixedInfo emptyMemory := by
  have hram : (mixedMap.filter (·.ram)).length ≤ MAX_PHYSICAL_MEMORY_REGIONS := by decide
  have hfew : FewRam mixedImage mixedInfo := fun rounds =>
    Nat.le_trans (ramPassed_laid mixedImage mixedInfo.mmap_length.toNat rounds
      mixedInfo.mmap_addr.toNat 0 mixedMap mixedInfo_wellFormed.laid (by decide) (by decide)) hram
  obtain ⟨hiff, hends⟩ := walk_ends_inside_iff mixedImage mixedInfo emptyMemory
  exact ⟨hiff hfew, hends mixedMap mixedInfo_wellFormed.laid (by decide) hram⟩

-- A descriptor whose size field is -4: the walk stays where it is.
def stuckImage : Machine.Memory := fun a => if a = 0 then 252 else 255

theorem walk_stuck :
    ¬∀ (image : Machine.Memory) (multiboot_info : MultibootInfo) (memory : Memory),
      EndsInside image multiboot_info memory := by
  intro h
  have hleads := (h stuckImage highInfo emptyMemory).leadsOut
  have hstays : ∀ offset, LeadsOut stuckImage highInfo offset → offset ≠ 0 := by
    intro offset hoffset
    induction hoffset with
    | out offset hout =>
        intro hzero
        rw [hzero] at hout
        exact absurd hout (by decide)
    | next offset _ _ ih =>
        intro hzero
        rw [hzero] at ih
        exact ih (by decide)
  exact hstays 0 hleads rfl

end WellFormed

end PalleyOS.Paging
