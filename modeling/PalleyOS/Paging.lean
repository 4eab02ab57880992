import Mathlib.Algebra.Group.Nat.Defs
import Mathlib.Logic.Function.Basic

namespace PalleyOS.Paging

def FRAME_SIZE : Nat := 4 * 1024 * 1024

inductive PageSize where
  | PAGE_SIZE_4_KIB
  | PAGE_SIZE_4_MIB
  deriving DecidableEq

inductive PageRW where
  | PAGE_READ_ONLY
  | PAGE_READ_WRITE
  deriving DecidableEq

inductive PagePermission where
  | PAGE_SUPERVISOR_ONLY
  | PAGE_USER_AND_SUPERVISOR
  deriving DecidableEq

-- `none` is the endless loop after the message about a bad PFN.
def constructPageDirEntry (pfn : Nat) (page_size : PageSize) (rw : PageRW)
    (permission : PagePermission) : Option Nat :=
  if 0x40000 ≤ pfn then none
  else
    let entry := 0
    let entry := entry ||| (pfn <<< 22) % 2 ^ 32
    let entry := entry ||| if page_size = .PAGE_SIZE_4_MIB then 1 <<< 7 else 0
    let entry := entry ||| if rw = .PAGE_READ_WRITE then 1 <<< 1 else 0
    let entry := entry ||| if permission = .PAGE_USER_AND_SUPERVISOR then 1 <<< 2 else 0
    some (entry ||| 1)

structure Physical_Memory_Region where
  address : UInt32
  size : UInt32

-- The static data of memory.c: the page directory by entry, the frame map by
-- 32-bit word, and the table of regions with its count.
structure Memory where
  page_directory : Nat → Nat
  page_frame_map : Nat → Nat
  physical_memory_regions : Nat → Physical_Memory_Region
  physical_memory_region_count : UInt32

def getVirtualFrameNumber (virtual_address : UInt32) : Nat := virtual_address.toNat >>> 22

def get_physical_frame_number (physical_address : Nat) : Nat := physical_address >>> 22

def is_frame_used (memory : Memory) (pfn : Nat) : Bool :=
  memory.page_frame_map (pfn / 32) &&& 1 <<< (pfn % 32) ≠ 0

def setFrameUsed (memory : Memory) (pfn : Nat) : Memory :=
  { memory with
    page_frame_map := Function.update memory.page_frame_map (pfn / 32)
      (memory.page_frame_map (pfn / 32) ||| 1 <<< (pfn % 32)) }

-- The frames of one region, in the order the inner loop tries them. The count
-- is kept in a `uint8_t`, the addresses are `uint32_t`.
def scanRegion (memory : Memory) (region : Physical_Memory_Region) : Option Nat :=
  let address := region.address.toNat
  let size := region.size.toNat
  let frame_start := ((address &&& (2 ^ 32 - 1 - (FRAME_SIZE - 1))) + FRAME_SIZE) % 2 ^ 32
  if (address + size) % 2 ^ 32 < frame_start then none
  else
    let remaining_size := (size + 2 ^ 32 - (frame_start + 2 ^ 32 - address) % 2 ^ 32) % 2 ^ 32
    let frame_count := remaining_size / FRAME_SIZE % 256
    (List.range frame_count).findSome? fun frame =>
      let address := (frame_start + frame * FRAME_SIZE) % 2 ^ 32
      let pfn := get_physical_frame_number address
      if is_frame_used memory pfn then none else some pfn

-- The loop over the regions counts in a `uint8_t`. After 256 rounds without a
-- result it is back at region 0 with nothing changed and never ends.
def scanRegions (memory : Memory) : Nat → Nat → Option Nat
  | 0, _ => none
  | rounds + 1, region_index =>
      if region_index < memory.physical_memory_region_count.toNat then
        (scanRegion memory (memory.physical_memory_regions region_index)).or
          (scanRegions memory rounds ((region_index + 1) % 256))
      else none

-- `none` is the halt after "Ran out of physical memory!".
def handle_page_fault (memory : Memory) (fault_address : UInt32) : Option Memory :=
  match scanRegions memory 256 0 with
  | none => none
  | some pfn =>
      let memory := setFrameUsed memory pfn
      let vpn := getVirtualFrameNumber fault_address
      match constructPageDirEntry pfn .PAGE_SIZE_4_MIB .PAGE_READ_WRITE
          .PAGE_USER_AND_SUPERVISOR with
      | none => none
      | some entry =>
          some { memory with page_directory := Function.update memory.page_directory vpn entry }

-- The directory is cleared, entry 0 maps the first 4 MiB, and the frame map
-- keeps only frame 0. The region table is left as it was loaded.
def setupPaging (memory : Memory) : Option Memory :=
  let page_directory := fun i => if i < 1024 then 0 else memory.page_directory i
  match constructPageDirEntry 0 .PAGE_SIZE_4_MIB .PAGE_READ_WRITE .PAGE_USER_AND_SUPERVISOR with
  | none => none
  | some entry =>
      let page_frame_map := fun i => if i < 32 then 0 else memory.page_frame_map i
      some { memory with
        page_directory := Function.update page_directory 0 entry
        page_frame_map := Function.update page_frame_map 0 (page_frame_map 0 ||| 1 <<< 0) }

end PalleyOS.Paging
