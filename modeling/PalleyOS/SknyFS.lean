import Mathlib.Algebra.Group.Nat.Defs
import Mathlib.Logic.Function.Basic

namespace PalleyOS.SknyFS

def IDE_SECTOR_SIZE : Nat := 512
def CHUNK_SIZE : Nat := 1024
def SECTORS_PER_CHUNK : Nat := CHUNK_SIZE / IDE_SECTOR_SIZE
def CHUNKS_IN_ALLOCATION_MAP : Nat := 16
def CHUNKS_IN_FILE_MAP : Nat := 16
def ALLOCATION_MAP_BEGIN : Nat := 0
def FILE_MAP_BEGIN : Nat := CHUNKS_IN_ALLOCATION_MAP * CHUNK_SIZE
def NAME_SIZE : Nat := 252
def FILE_METADATA_SIZE : Nat := NAME_SIZE + 4
def FILES_PER_CHUNK : Nat := CHUNK_SIZE / FILE_METADATA_SIZE

abbrev Buffer := Nat → UInt8

-- The sector driver is not part of the repository. `contents` is what the disk
-- of a drive holds; a missing buffer and `false` stand for an error code.
structure IdeDriver (σ : Type) where
  contents : σ → UInt8 → Nat → UInt8
  ideReadSectors : σ → UInt8 → Nat → Nat → σ × Option Buffer
  ideWriteSectors : σ → UInt8 → Nat → Nat → Buffer → σ × Bool

-- Whole sectors move at the given byte offset; a failed call changes nothing.
structure IdeDriver.Transfers {σ : Type} (ide : IdeDriver σ) : Prop where
  read_contents : ∀ s drive num_sectors location,
    ide.contents (ide.ideReadSectors s drive num_sectors location).1 = ide.contents s
  read_bytes : ∀ s drive num_sectors location buffer,
    (ide.ideReadSectors s drive num_sectors location).2 = some buffer →
    ∀ k < num_sectors * IDE_SECTOR_SIZE, buffer k = ide.contents s drive (location + k)
  write_done : ∀ s drive num_sectors location buffer,
    (ide.ideWriteSectors s drive num_sectors location buffer).2 = true →
    ∀ d x, ide.contents (ide.ideWriteSectors s drive num_sectors location buffer).1 d x =
      if d = drive ∧ location ≤ x ∧ x < location + num_sectors * IDE_SECTOR_SIZE
      then buffer (x - location) else ide.contents s d x
  write_failed : ∀ s drive num_sectors location buffer,
    (ide.ideWriteSectors s drive num_sectors location buffer).2 = false →
    ide.contents (ide.ideWriteSectors s drive num_sectors location buffer).1 = ide.contents s

def IdeDriver.ReadsSucceed {σ : Type} (ide : IdeDriver σ) : Prop :=
  ∀ s drive num_sectors location, (ide.ideReadSectors s drive num_sectors location).2.isSome = true

structure IdeDriver.NeverFails {σ : Type} (ide : IdeDriver σ) : Prop where
  read : ide.ReadsSucceed
  write : ∀ s drive num_sectors location buffer,
    (ide.ideWriteSectors s drive num_sectors location buffer).2 = true

inductive SknyStatus where
  | SKNY_STATUS_OK
  | SKNY_WRITE_FAILURE
  | SKNY_READ_FAILURE
  | SKNY_FILESYSTEM_FULL
  | SKNY_FILE_NOT_FOUND
  deriving DecidableEq

structure SknyHandle where
  drive : UInt8

-- The bytes of a C string before its terminator.
structure CString where
  bytes : List UInt8
  no_nul : ∀ byte ∈ bytes, byte ≠ 0

def CString.load (string : CString) (k : Nat) : UInt8 := string.bytes.getD k 0

structure FileMetadata where
  name : Buffer
  location : Nat

-- The packed image of the record: the name, then the location from its low
-- byte up.
def FileMetadata.image (file : FileMetadata) : Buffer := fun k =>
  if k < NAME_SIZE then file.name k
  else UInt8.ofNat (file.location / 256 ^ (k - NAME_SIZE) % 256)

section Search

variable {σ : Type} (ide : IdeDriver σ) (handle : SknyHandle)

-- The loop over the bits of byte `j` of map chunk `i`.
def clearBitOf (i : Nat) (map_chunk : Buffer) (j : Nat) : Option Nat :=
  let byte_field := (map_chunk j).toNat
  if byte_field ≠ 0xff then
    (List.range 8).findSome? fun bit =>
      if byte_field &&& 1 <<< bit = 0 then some (i * (CHUNK_SIZE * 8) + j * 8 + bit) else none
  else none

def firstClearBit (i : Nat) (map_chunk : Buffer) : Option Nat :=
  (List.range CHUNK_SIZE).findSome? (clearBitOf i map_chunk)

-- The loop over the records of one chunk of the file map.
def firstEmptyName (chunk_index : Nat) (files : Buffer) : Option Nat :=
  (List.range FILES_PER_CHUNK).findSome? fun file_index =>
    if files (file_index * FILE_METADATA_SIZE) = 0 then
      some (chunk_index * FILES_PER_CHUNK + file_index)
    else none

-- The loop over the chunks of either map: `scan` looks at one chunk.
def searchChunksFrom (map_begin : Nat) (scan : Nat → Buffer → Option Nat) :
    Nat → Nat → σ → σ × Except SknyStatus Nat
  | 0, _, s => (s, .error .SKNY_FILESYSTEM_FULL)
  | remaining + 1, i, s =>
      match ide.ideReadSectors s handle.drive SECTORS_PER_CHUNK (map_begin + i * CHUNK_SIZE) with
      | (s, none) => (s, .error .SKNY_READ_FAILURE)
      | (s, some chunk) =>
          match scan i chunk with
          | some found => (s, .ok found)
          | none => searchChunksFrom map_begin scan remaining (i + 1) s

def searchAllocationMap (s : σ) : σ × Except SknyStatus Nat :=
  searchChunksFrom ide handle ALLOCATION_MAP_BEGIN firstClearBit CHUNKS_IN_ALLOCATION_MAP 0 s

def searchFileMap (s : σ) : σ × Except SknyStatus Nat :=
  searchChunksFrom ide handle FILE_MAP_BEGIN firstEmptyName CHUNKS_IN_FILE_MAP 0 s

end Search

section Update

variable {σ : Type} (ide : IdeDriver σ) (handle : SknyHandle)

-- The chunk that holds the bit, and that chunk with the bit set.
def mapChunkLocation (chunk_number : Nat) : Nat :=
  ALLOCATION_MAP_BEGIN + chunk_number / (CHUNK_SIZE * 8) * CHUNK_SIZE

def withBitSet (chunk_number : Nat) (map_chunk_buffer : Buffer) : Buffer :=
  let offset_into_map_chunk := chunk_number % (CHUNK_SIZE * 8)
  let byte_offset := offset_into_map_chunk / 8
  let bit_offset := offset_into_map_chunk % 8
  Function.update map_chunk_buffer byte_offset
    (UInt8.ofNat ((map_chunk_buffer byte_offset).toNat ||| 1 <<< bit_offset))

-- Both updates read a chunk, change it in memory and write it back.
def rewriteChunk (location : Nat) (change : Buffer → Buffer) (s : σ) : σ × SknyStatus :=
  match ide.ideReadSectors s handle.drive SECTORS_PER_CHUNK location with
  | (s, none) => (s, .SKNY_READ_FAILURE)
  | (s, some chunk) =>
      match ide.ideWriteSectors s handle.drive SECTORS_PER_CHUNK location (change chunk) with
      | (s, false) => (s, .SKNY_WRITE_FAILURE)
      | (s, true) => (s, .SKNY_STATUS_OK)

def markChunkAsUsed (s : σ) (chunk_number : Nat) : σ × SknyStatus :=
  rewriteChunk ide handle (mapChunkLocation chunk_number) (withBitSet chunk_number) s

def fileChunkLocation (file_index : Nat) : Nat :=
  FILE_MAP_BEGIN + file_index / FILES_PER_CHUNK * CHUNK_SIZE

def withFile (file_index : Nat) (file_metadata : FileMetadata) (files : Buffer) : Buffer := fun k =>
  let first := file_index % FILES_PER_CHUNK * FILE_METADATA_SIZE
  if first ≤ k ∧ k < first + FILE_METADATA_SIZE then file_metadata.image (k - first) else files k

def writeFileMetadata (s : σ) (file_index : Nat) (file_metadata : FileMetadata) : σ × SknyStatus :=
  rewriteChunk ide handle (fileChunkLocation file_index) (withFile file_index file_metadata) s

end Update

section Create

variable {σ : Type} (ide : IdeDriver σ) (handle : SknyHandle)

def kmemset (dest : Buffer) (value : UInt8) (num : Nat) : Buffer := fun k =>
  if k < num then value else dest k

def kstrncpyFrom (src : Nat → UInt8) (max : Nat) : Nat → Nat → Buffer → Buffer
  | 0, num_written, dest => Function.update dest num_written 0
  | steps + 1, num_written, dest =>
      if src num_written ≠ 0 ∧ num_written < max - 1 then
        kstrncpyFrom src max steps (num_written + 1)
          (Function.update dest num_written (src num_written))
      else Function.update dest num_written 0

-- `max - 1` bounds the number of rounds.
def kstrncpy (dest : Buffer) (src : Nat → UInt8) (max : Nat) : Buffer :=
  kstrncpyFrom src max (max - 1) 0 dest

-- The record on the stack: its bytes before the two calls are arbitrary.
def newMetadata (stack : Buffer) (name : CString) (available_chunk : Nat) : FileMetadata :=
  { name := kstrncpy (kmemset stack 0 NAME_SIZE) name.load NAME_SIZE
    location := available_chunk }

-- The statuses of the two updates are dropped, as in the source.
def sknyCreateFile (stack : Buffer) (name : CString) (s : σ) : σ × SknyStatus :=
  match searchAllocationMap ide handle s with
  | (s, .error status) => (s, status)
  | (s, .ok available_chunk) =>
      match searchFileMap ide handle s with
      | (s, .error status) => (s, status)
      | (s, .ok file_index) =>
          let s := (markChunkAsUsed ide handle s available_chunk).1
          let file_metadata := newMetadata stack name available_chunk
          let s := (writeFileMetadata ide handle s file_index file_metadata).1
          (s, .SKNY_STATUS_OK)

end Create

section Format

variable {σ : Type} (ide : IdeDriver σ)

def clearChunkFrom (handle : SknyHandle) (chunk : Nat) (byte : UInt8) :
    Nat → Nat → σ → σ × Bool
  | 0, _, s => (s, true)
  | remaining + 1, i, s =>
      match ide.ideWriteSectors s handle.drive 1 (chunk * CHUNK_SIZE + i * IDE_SECTOR_SIZE)
          (fun _ => byte) with
      | (s, false) => (s, false)
      | (s, true) => clearChunkFrom handle chunk byte remaining (i + 1) s

def clearChunk (handle : SknyHandle) (chunk : Nat) (byte : UInt8) (s : σ) : σ × Bool :=
  clearChunkFrom ide handle chunk byte SECTORS_PER_CHUNK 0 s

def clearChunks (handle : SknyHandle) (first : Nat) : Nat → Nat → σ → σ × Bool
  | 0, _, s => (s, true)
  | remaining + 1, i, s =>
      match clearChunk ide handle (first + i) 0 s with
      | (s, false) => (s, false)
      | (s, true) => clearChunks handle first remaining (i + 1) s

def sknyCreateFilesystem (drive : UInt8) (s : σ) : SknyHandle × σ × SknyStatus :=
  let handle : SknyHandle := { drive := drive }
  match clearChunks ide handle 0 CHUNKS_IN_ALLOCATION_MAP 0 s with
  | (s, false) => (handle, s, .SKNY_WRITE_FAILURE)
  | (s, true) =>
      match clearChunks ide handle CHUNKS_IN_ALLOCATION_MAP CHUNKS_IN_FILE_MAP 0 s with
      | (s, false) => (handle, s, .SKNY_WRITE_FAILURE)
      | (s, true) => (handle, s, .SKNY_STATUS_OK)

end Format

end PalleyOS.SknyFS
