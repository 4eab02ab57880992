import PalleyOS.Paging
import PalleyOS.Machine.Memory
import Mathlib.Algebra.BigOperators.Group.List.Basic
import Mathlib.Algebra.GroupWithZero.Nat

namespace PalleyOS.Paging

open Machine (load32)

-- The loader of the memory map: `loadPhysicalMemoryRegionDescriptors` reads the
-- bootloader's descriptors from memory into the region table.
section Loader

structure MultibootInfo where
  flags : UInt32
  mmap_length : UInt32
  mmap_addr : UInt32

structure PhysicalMemoryRegionDescriptor where
  size : Nat
  base_addr_low : Nat
  base_addr_high : Nat
  length_low : Nat
  length_high : Nat
  region_type : Nat
  deriving DecidableEq, Repr

-- The packed structure at an address.
def descriptorAt (image : Machine.Memory) (region : Nat) : PhysicalMemoryRegionDescriptor :=
  { size := load32 image region
    base_addr_low := load32 image (region + 4)
    base_addr_high := load32 image (region + 8)
    length_low := load32 image (region + 12)
    length_high := load32 image (region + 16)
    region_type := load32 image (region + 20) }

def MAX_PHYSICAL_MEMORY_REGIONS : Nat := 16

-- The source does not look at the size of the table. `none` is a store behind it, which
-- overwrites whatever the linker has put there.
def recordRegion (descriptor : PhysicalMemoryRegionDescriptor) (memory : Memory) : Option Memory :=
  if memory.physical_memory_region_count.toNat < MAX_PHYSICAL_MEMORY_REGIONS then
    some
      { memory with
        physical_memory_regions := Function.update memory.physical_memory_regions
          memory.physical_memory_region_count.toNat
          ⟨UInt32.ofNat descriptor.base_addr_low, UInt32.ofNat descriptor.length_low⟩
        physical_memory_region_count := memory.physical_memory_region_count + 1 }
  else none

def visitRegion (descriptor : PhysicalMemoryRegionDescriptor) (memory : Memory) : Option Memory :=
  if descriptor.region_type = 1 then recordRegion descriptor memory else some memory

-- `none` is a walk that is not over after `rounds` descriptors, or a store behind the table.
def loadFrom (image : Machine.Memory) (mmap_length : Nat) :
    Nat → Nat → Nat → Memory → Option Memory
  | 0, _, _, _ => none
  | rounds + 1, region, traversed_size, memory =>
      if traversed_size < mmap_length then
        let descriptor := descriptorAt image region
        let traversed_size := (traversed_size + (descriptor.size + 4)) % 4294967296
        (visitRegion descriptor memory).bind fun memory =>
          let region := (region + descriptor.size + 4) % 4294967296
          loadFrom image mmap_length rounds region traversed_size memory
      else some memory

-- `none` is also the halt without a memory map.
def loadPhysicalMemoryRegionDescriptors (rounds : Nat) (image : Machine.Memory)
    (multiboot_info : MultibootInfo) (memory : Memory) : Option Memory :=
  if multiboot_info.flags.toNat &&& 1 <<< 6 = 0 then none
  else
    loadFrom image multiboot_info.mmap_length.toNat rounds multiboot_info.mmap_addr.toNat 0
      { memory with physical_memory_region_count := 0 }

end Loader

-- What the bootloader said: 64-bit ranges of bytes, those of type 1 being RAM.
section Meaning

namespace PhysicalMemoryRegionDescriptor

def ram (d : PhysicalMemoryRegionDescriptor) : Bool := d.region_type = 1

def base (d : PhysicalMemoryRegionDescriptor) : Nat := d.base_addr_high * 2 ^ 32 + d.base_addr_low

def length (d : PhysicalMemoryRegionDescriptor) : Nat := d.length_high * 2 ^ 32 + d.length_low

def Covers (d : PhysicalMemoryRegionDescriptor) (a : Nat) : Prop :=
  d.base ≤ a ∧ a < d.base + d.length

-- The range of the low words alone.
def LowCovers (d : PhysicalMemoryRegionDescriptor) (a : Nat) : Prop :=
  d.base_addr_low ≤ a ∧ a < d.base_addr_low + d.length_low

end PhysicalMemoryRegionDescriptor

-- The descriptors lie end to end from `region` on, each with all its fields.
def Laid (image : Machine.Memory) : Nat → List PhysicalMemoryRegionDescriptor → Prop
  | _, [] => True
  | region, d :: rest =>
      descriptorAt image region = d ∧ 20 ≤ d.size ∧ Laid image (region + d.size + 4) rest

def totalSize (map : List PhysicalMemoryRegionDescriptor) : Nat := (map.map (·.size + 4)).sum

structure WellFormed (image : Machine.Memory) (multiboot_info : MultibootInfo)
    (map : List PhysicalMemoryRegionDescriptor) : Prop where
  provided : multiboot_info.flags.toNat &&& 1 <<< 6 ≠ 0
  laid : Laid image multiboot_info.mmap_addr.toNat map
  total : totalSize map = multiboot_info.mmap_length.toNat
  few : (map.filter (·.ram)).length ≤ 16

def RamCovers (map : List PhysicalMemoryRegionDescriptor) (a : Nat) : Prop :=
  ∃ d ∈ map, d.ram = true ∧ d.Covers a

def TableCovers (memory : Memory) (a : Nat) : Prop :=
  ∃ i < memory.physical_memory_region_count.toNat,
    (memory.physical_memory_regions i).address.toNat ≤ a ∧
    a < (memory.physical_memory_regions i).address.toNat +
      (memory.physical_memory_regions i).size.toNat

structure MeansMap (map : List PhysicalMemoryRegionDescriptor) (memory : Memory) : Prop where
  sound : ∀ a, TableCovers memory a → a < 2 ^ 32 ∧ RamCovers map a
  complete : ∀ a < 2 ^ 32, ∀ d ∈ map, d.ram = true → d.base + d.length ≤ 2 ^ 32 → d.Covers a →
    TableCovers memory a

-- No RAM is cut off by the 32-bit table: no low range passes 4 GiB, a low range
-- from above 4 GiB is reported as RAM anyway, and so is all of 4 GiB where a
-- descriptor has exactly that length.
structure LowWordsSuffice (map : List PhysicalMemoryRegionDescriptor) : Prop where
  ends : ∀ d ∈ map, d.ram = true → d.base_addr_low + d.length_low ≤ 2 ^ 32
  above : ∀ d ∈ map, d.ram = true → d.base_addr_high ≠ 0 → ∀ a, d.LowCovers a → RamCovers map a
  whole : ∀ d ∈ map, d.ram = true → d.base = 0 → d.length = 2 ^ 32 →
    ∀ a < 2 ^ 32, ∃ d' ∈ map, d'.ram = true ∧ d'.LowCovers a

end Meaning

section Walk

theorem Laid.mod (image : Machine.Memory) (region region' : Nat)
    (map : List PhysicalMemoryRegionDescriptor) (h : region % 4294967296 = region' % 4294967296)
    (hlaid : Laid image region map) : Laid image region' map := by
  induction map generalizing region region' with
  | nil => trivial
  | cons d rest ih =>
      obtain ⟨hd, hsize, hrest⟩ := hlaid
      refine ⟨?_, hsize, ih _ _ (by omega) hrest⟩
      rw [← hd]
      unfold descriptorAt
      rw [Machine.load32_mod image region' region (by omega),
        Machine.load32_mod image (region' + 4) (region + 4) (by omega),
        Machine.load32_mod image (region' + 8) (region + 8) (by omega),
        Machine.load32_mod image (region' + 12) (region + 12) (by omega),
        Machine.load32_mod image (region' + 16) (region + 16) (by omega),
        Machine.load32_mod image (region' + 20) (region + 20) (by omega)]

def Memory.regions (memory : Memory) : List Physical_Memory_Region :=
  (List.range memory.physical_memory_region_count.toNat).map memory.physical_memory_regions

def PhysicalMemoryRegionDescriptor.entry (d : PhysicalMemoryRegionDescriptor) :
    Physical_Memory_Region :=
  ⟨UInt32.ofNat d.base_addr_low, UInt32.ofNat d.length_low⟩

theorem recordRegion_regions (d : PhysicalMemoryRegionDescriptor) (memory : Memory)
    (hroom : memory.physical_memory_region_count.toNat < 16) :
    ∃ recorded, recordRegion d memory = some recorded ∧
      recorded.regions = memory.regions ++ [d.entry] ∧
      recorded.physical_memory_region_count.toNat =
        memory.physical_memory_region_count.toNat + 1 := by
  have hcount : (memory.physical_memory_region_count + 1).toNat =
      memory.physical_memory_region_count.toNat + 1 := by
    rw [UInt32.toNat_add, UInt32.toNat_one]
    omega
  refine ⟨_, if_pos hroom, ?_, hcount⟩
  simp only [Memory.regions, hcount, List.range_succ, List.map_append, List.map_cons,
    List.map_nil, Function.update_self]
  congr 1
  refine List.map_congr_left fun i hi => ?_
  have hlt := List.mem_range.mp hi
  exact Function.update_of_ne (by omega) _ _

-- The walk ends with the map and has recorded its RAM in order.
theorem loadFrom_laid (image : Machine.Memory) (mmap_length rounds region traversed_size : Nat)
    (memory : Memory) (map : List PhysicalMemoryRegionDescriptor)
    (hlaid : Laid image region map) (htotal : traversed_size + totalSize map = mmap_length)
    (hlength : mmap_length < 4294967296) (hrounds : map.length < rounds)
    (hroom : memory.physical_memory_region_count.toNat + (map.filter (·.ram)).length ≤ 16) :
    ∃ loaded, loadFrom image mmap_length rounds region traversed_size memory = some loaded ∧
      loaded.regions = memory.regions ++ (map.filter (·.ram)).map (·.entry) := by
  induction map generalizing rounds region traversed_size memory with
  | nil =>
      obtain ⟨rounds, rfl⟩ := Nat.exists_eq_add_of_lt hrounds
      simp only [totalSize, List.map_nil, List.sum_nil, Nat.add_zero] at htotal
      refine ⟨memory, ?_, by simp⟩
      rw [List.length_nil, Nat.zero_add, loadFrom, if_neg (by omega)]
  | cons d rest ih =>
      obtain ⟨hd, hsize, hrest⟩ := hlaid
      cases rounds with
      | zero => exact absurd hrounds (Nat.not_lt_zero _)
      | succ rounds =>
          simp only [totalSize, List.map_cons, List.sum_cons] at htotal
          simp only [List.length_cons] at hrounds
          have hmore : traversed_size < mmap_length := by omega
          have hnext : (traversed_size + (d.size + 4)) % 4294967296 =
              traversed_size + (d.size + 4) := Nat.mod_eq_of_lt (by omega)
          have hrest' : Laid image ((region + d.size + 4) % 4294967296) rest :=
            hrest.mod image _ _ rest (by omega)
          rw [loadFrom, if_pos hmore]
          simp only [hd, hnext]
          by_cases hram : d.region_type = 1
          · have hkeep : (d :: rest).filter (·.ram) = d :: rest.filter (·.ram) :=
              List.filter_cons_of_pos (by simp [PhysicalMemoryRegionDescriptor.ram, hram])
            rw [hkeep, List.length_cons] at hroom
            obtain ⟨recorded, hrecord, hregions, hcount⟩ :=
              recordRegion_regions d memory (by omega)
            obtain ⟨loaded, hload, hloaded⟩ := ih rounds ((region + d.size + 4) % 4294967296)
              (traversed_size + (d.size + 4)) recorded hrest'
              (by unfold totalSize; omega) (by omega) (by omega)
            rw [visitRegion, if_pos hram, hrecord]
            refine ⟨loaded, hload, ?_⟩
            rw [hloaded, hregions, hkeep]
            simp
          · have hskip : (d :: rest).filter (·.ram) = rest.filter (·.ram) :=
              List.filter_cons_of_neg (by simp [PhysicalMemoryRegionDescriptor.ram, hram])
            rw [hskip] at hroom ⊢
            rw [visitRegion, if_neg hram]
            exact ih rounds ((region + d.size + 4) % 4294967296) (traversed_size + (d.size + 4))
              memory hrest' (by unfold totalSize; omega) (by omega) hroom

end Walk

section Coverage

def Words32 (d : PhysicalMemoryRegionDescriptor) : Prop :=
  d.base_addr_low < 2 ^ 32 ∧ d.length_low < 2 ^ 32

theorem Laid.words32 (image : Machine.Memory) (region : Nat)
    (map : List PhysicalMemoryRegionDescriptor) (hlaid : Laid image region map) :
    ∀ d ∈ map, Words32 d := by
  induction map generalizing region with
  | nil => exact fun d hd => absurd hd List.not_mem_nil
  | cons d rest ih =>
      obtain ⟨hd, -, hrest⟩ := hlaid
      intro d' hd'
      rcases List.mem_cons.mp hd' with rfl | hin
      · rw [← hd]
        exact ⟨Machine.load32_lt _ _, Machine.load32_lt _ _⟩
      · exact ih _ hrest d' hin

theorem tableCovers_iff (memory : Memory) (a : Nat) :
    TableCovers memory a ↔ ∃ r ∈ memory.regions,
      r.address.toNat ≤ a ∧ a < r.address.toNat + r.size.toNat := by
  unfold TableCovers Memory.regions
  constructor
  · rintro ⟨i, hi, hcovers⟩
    exact ⟨_, List.mem_map.mpr ⟨i, List.mem_range.mpr hi, rfl⟩, hcovers⟩
  · rintro ⟨r, hr, hcovers⟩
    obtain ⟨i, hi, rfl⟩ := List.mem_map.mp hr
    exact ⟨i, List.mem_range.mp hi, hcovers⟩

-- The table holds the ranges of the low words.
theorem loaded_covers_iff (map : List PhysicalMemoryRegionDescriptor) (loaded : Memory)
    (hwords : ∀ d ∈ map, Words32 d)
    (hregions : loaded.regions = (map.filter (·.ram)).map (·.entry)) (a : Nat) :
    TableCovers loaded a ↔ ∃ d ∈ map, d.ram = true ∧ d.LowCovers a := by
  have hentry (d : PhysicalMemoryRegionDescriptor) (hd : d ∈ map) :
      d.entry.address.toNat = d.base_addr_low ∧ d.entry.size.toNat = d.length_low := by
    obtain ⟨hbase, hlength⟩ := hwords d hd
    exact ⟨UInt32.toNat_ofNat_of_lt' hbase, UInt32.toNat_ofNat_of_lt' hlength⟩
  rw [tableCovers_iff, hregions]
  constructor
  · rintro ⟨r, hr, hcovers⟩
    obtain ⟨d, hd, rfl⟩ := List.mem_map.mp hr
    obtain ⟨hin, hram⟩ := List.mem_filter.mp hd
    rw [(hentry d hin).1, (hentry d hin).2] at hcovers
    exact ⟨d, hin, hram, hcovers⟩
  · rintro ⟨d, hin, hram, hcovers⟩
    refine ⟨d.entry, List.mem_map.mpr ⟨d, List.mem_filter.mpr ⟨hin, hram⟩, rfl⟩, ?_⟩
    rw [(hentry d hin).1, (hentry d hin).2]
    exact hcovers

-- A nonempty range that ends within 4 GiB is its low words, unless it is all of
-- 4 GiB.
theorem within_words (d : PhysicalMemoryRegionDescriptor) (a : Nat)
    (hend : d.base + d.length ≤ 2 ^ 32) (ha : d.Covers a) :
    d.LowCovers a ∨ d.base = 0 ∧ d.length = 2 ^ 32 := by
  unfold PhysicalMemoryRegionDescriptor.Covers at ha
  unfold PhysicalMemoryRegionDescriptor.LowCovers
  unfold PhysicalMemoryRegionDescriptor.base PhysicalMemoryRegionDescriptor.length at *
  omega

theorem meansMap_iff (map : List PhysicalMemoryRegionDescriptor) (loaded : Memory)
    (hwords : ∀ d ∈ map, Words32 d)
    (htable : ∀ a, TableCovers loaded a ↔ ∃ d ∈ map, d.ram = true ∧ d.LowCovers a) :
    MeansMap map loaded ↔ LowWordsSuffice map := by
  constructor
  · intro h
    refine ⟨fun d hd hram => ?_, fun d hd hram _ a ha => ?_, fun d hd hram hbase hlength a ha => ?_⟩
    · obtain ⟨hlow, -⟩ := hwords d hd
      by_cases hempty : d.length_low = 0
      · omega
      · have hlast : d.LowCovers (d.base_addr_low + d.length_low - 1) := by
          unfold PhysicalMemoryRegionDescriptor.LowCovers
          omega
        obtain ⟨hbelow, -⟩ := h.sound _ ((htable _).mpr ⟨d, hd, hram, hlast⟩)
        omega
    · exact (h.sound a ((htable a).mpr ⟨d, hd, hram, ha⟩)).2
    · refine (htable a).mp (h.complete a ha d hd hram (by omega) ⟨by omega, by omega⟩)
  · intro h
    refine ⟨fun a ha => ?_, fun a ha d hd hram hend hcovers => ?_⟩
    · obtain ⟨d, hd, hram, hlow⟩ := (htable a).mp ha
      have hends := h.ends d hd hram
      refine ⟨by unfold PhysicalMemoryRegionDescriptor.LowCovers at hlow; omega, ?_⟩
      by_cases hhigh : d.base_addr_high = 0
      · refine ⟨d, hd, hram, ?_⟩
        unfold PhysicalMemoryRegionDescriptor.LowCovers at hlow
        unfold PhysicalMemoryRegionDescriptor.Covers PhysicalMemoryRegionDescriptor.base
          PhysicalMemoryRegionDescriptor.length
        omega
      · exact h.above d hd hram hhigh a hlow
    · rw [htable]
      rcases within_words d a hend hcovers with hlow | ⟨hbase, hlength⟩
      · exact ⟨d, hd, hram, hlow⟩
      · exact h.whole d hd hram hbase hlength a ha

theorem loaded_table (image : Machine.Memory) (multiboot_info : MultibootInfo)
    (memory : Memory) (map : List PhysicalMemoryRegionDescriptor) (rounds : Nat)
    (h : WellFormed image multiboot_info map) (hrounds : map.length < rounds) :
    ∃ loaded,
      loadPhysicalMemoryRegionDescriptors rounds image multiboot_info memory = some loaded ∧
      ∀ a, TableCovers loaded a ↔ ∃ d ∈ map, d.ram = true ∧ d.LowCovers a := by
  have hlength := multiboot_info.mmap_length.toNat_lt
  have hzero : ({ memory with physical_memory_region_count := 0 } : Memory).regions = [] := rfl
  obtain ⟨loaded, hload, hregions⟩ := loadFrom_laid image multiboot_info.mmap_length.toNat rounds
    multiboot_info.mmap_addr.toNat 0 { memory with physical_memory_region_count := 0 } map h.laid
    (by rw [Nat.zero_add]; exact h.total) hlength hrounds (by simpa using h.few)
  rw [hzero, List.nil_append] at hregions
  refine ⟨loaded, ?_, loaded_covers_iff map loaded (h.laid.words32 image _ map) hregions⟩
  unfold loadPhysicalMemoryRegionDescriptors
  rw [if_neg h.provided]
  exact hload

-- The loader ends on every well-formed map, with a table that means the map
-- exactly when the low words suffice.
theorem loaded_means_map_iff (image : Machine.Memory) (multiboot_info : MultibootInfo)
    (memory : Memory) (map : List PhysicalMemoryRegionDescriptor) (rounds : Nat)
    (h : WellFormed image multiboot_info map) (hrounds : map.length < rounds) :
    ∃ loaded,
      loadPhysicalMemoryRegionDescriptors rounds image multiboot_info memory = some loaded ∧
      (MeansMap map loaded ↔ LowWordsSuffice map) := by
  obtain ⟨loaded, hload, htable⟩ := loaded_table image multiboot_info memory map rounds h hrounds
  exact ⟨loaded, hload, meansMap_iff map loaded (h.laid.words32 image _ map) htable⟩

def emptyMemory : Memory :=
  { page_directory := fun _ => 0
    page_frame_map := fun _ => 0
    physical_memory_regions := fun _ => ⟨0, 0⟩
    physical_memory_region_count := 0 }

-- Two ranges of RAM with a reserved one between them. The last descriptor has four bytes
-- more than the others.
def mixedMap : List PhysicalMemoryRegionDescriptor :=
  [ { size := 20, base_addr_low := 0, base_addr_high := 0, length_low := 0x9FC00, length_high := 0
      region_type := 1 },
    { size := 20, base_addr_low := 0x9FC00, base_addr_high := 0, length_low := 0x400,
      length_high := 0, region_type := 2 },
    { size := 24, base_addr_low := 0x100000, base_addr_high := 0, length_low := 0x7EE0000,
      length_high := 0, region_type := 1 } ]

def mixedBytes : List UInt8 :=
  [20, 0, 0, 0, 0, 0, 0, 0, 0, 0, 0, 0, 0, 0xFC, 9, 0, 0, 0, 0, 0, 1, 0, 0, 0,
    20, 0, 0, 0, 0, 0xFC, 9, 0, 0, 0, 0, 0, 0, 4, 0, 0, 0, 0, 0, 0, 2, 0, 0, 0,
    24, 0, 0, 0, 0, 0, 0x10, 0, 0, 0, 0, 0, 0, 0, 0xEE, 7, 0, 0, 0, 0, 1, 0, 0, 0, 0, 0, 0, 0]

def mixedImage : Machine.Memory := fun a => mixedBytes.getD a 0

def mixedInfo : MultibootInfo := { flags := 64, mmap_length := 76, mmap_addr := 0 }

theorem mixedInfo_wellFormed : WellFormed mixedImage mixedInfo mixedMap :=
  ⟨by decide, ⟨by decide, by decide, by decide, by decide, by decide, by decide, trivial⟩,
    by decide, by decide⟩

theorem loaded_means_map_iff_mixed :
    ∃ loaded,
      loadPhysicalMemoryRegionDescriptors 4 mixedImage mixedInfo emptyMemory = some loaded ∧
      (MeansMap mixedMap loaded ↔ LowWordsSuffice mixedMap) :=
  loaded_means_map_iff mixedImage mixedInfo emptyMemory mixedMap 4 mixedInfo_wellFormed (by decide)

-- One descriptor: 4 KiB of RAM at 4 GiB.
def highDescriptor : PhysicalMemoryRegionDescriptor :=
  { size := 20, base_addr_low := 0, base_addr_high := 1, length_low := 4096, length_high := 0
    region_type := 1 }

def highImage : Machine.Memory := fun a =>
  if a = 0 then 20 else if a = 8 then 1 else if a = 13 then 16 else if a = 20 then 1 else 0

def highInfo : MultibootInfo := { flags := 64, mmap_length := 24, mmap_addr := 0 }

theorem highInfo_wellFormed : WellFormed highImage highInfo [highDescriptor] :=
  ⟨by decide, ⟨by decide, by decide, trivial⟩, by decide, by decide⟩

theorem high_ram_recorded_low :
    ¬∀ (image : Machine.Memory) (multiboot_info : MultibootInfo) (memory loaded : Memory)
      (map : List PhysicalMemoryRegionDescriptor) (rounds : Nat),
      WellFormed image multiboot_info map →
      loadPhysicalMemoryRegionDescriptors rounds image multiboot_info memory = some loaded →
      MeansMap map loaded := by
  intro h
  obtain ⟨loaded, hload, htable⟩ := loaded_table highImage highInfo emptyMemory [highDescriptor] 2
    highInfo_wellFormed (by decide)
  have hmeans := h _ _ _ loaded _ _ highInfo_wellFormed hload
  have hzero : TableCovers loaded 0 :=
    (htable 0).mpr ⟨highDescriptor, List.mem_singleton.mpr rfl, by decide, by decide, by decide⟩
  obtain ⟨d, hd, -, hbase, -⟩ := (hmeans.sound 0 hzero).2
  rw [List.mem_singleton.mp hd] at hbase
  exact absurd hbase (by decide)

end Coverage

end PalleyOS.Paging
