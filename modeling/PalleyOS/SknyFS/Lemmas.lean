import PalleyOS.SknyFS
import PalleyOS.Machine.Bitmap
import PalleyOS.Machine.Search
import Mathlib.Data.Nat.Bitwise

namespace PalleyOS.SknyFS

abbrev Disk := Nat → UInt8

section Views

-- The bytes of a disk as a bitmap of the 131072 chunks, and its file map, the
-- 64 records of 256 bytes that start at 16 KiB.
def allocated (disk : Disk) (chunk : Nat) : Bool :=
  decide (chunk < 131072) && Machine.bitAt 8 (fun k => (disk k).toNat) chunk

def entryByte (disk : Disk) (file_index k : Nat) : UInt8 :=
  disk (16384 + file_index * 256 + k)

def entryLocation (disk : Disk) (file_index : Nat) : Nat :=
  (entryByte disk file_index 252).toNat + 256 * (entryByte disk file_index 253).toNat +
    256 ^ 2 * (entryByte disk file_index 254).toNat +
    256 ^ 3 * (entryByte disk file_index 255).toNat

def present (disk : Disk) (file_index : Nat) : Prop := entryByte disk file_index 0 ≠ 0

-- The disk after a completed update of either map.
def markBit (disk : Disk) (chunk : Nat) : Disk :=
  Function.update disk (chunk / 8) (UInt8.ofNat ((disk (chunk / 8)).toNat ||| 1 <<< (chunk % 8)))

def writeEntry (disk : Disk) (file_index : Nat) (image : Buffer) : Disk := fun x =>
  if 16384 + file_index * 256 ≤ x ∧ x < 16384 + file_index * 256 + 256
  then image (x - (16384 + file_index * 256)) else disk x

theorem toNat_markBit (disk : Disk) (chunk k : Nat) :
    (markBit disk chunk k).toNat =
      Machine.setBitAt 8 (fun k => (disk k).toNat) chunk k := by
  unfold markBit Machine.setBitAt
  by_cases hk : k = chunk / 8
  · subst k
    have hbyte : (disk (chunk / 8)).toNat ||| 1 <<< (chunk % 8) < 2 ^ 8 := by
      apply Nat.or_lt_two_pow (UInt8.toNat_lt _)
      rw [Nat.one_shiftLeft]
      exact Nat.pow_lt_pow_right (by decide) (by omega)
    simp only [Function.update_self]
    exact UInt8.toNat_ofNat_of_lt' hbyte
  · simp only [Function.update_of_ne hk]

theorem allocated_markBit (disk : Disk) (chunk n : Nat) (hchunk : chunk < 131072) :
    allocated (markBit disk chunk) n = (decide (n = chunk) || allocated disk n) := by
  unfold allocated
  have hwords : (fun k => (markBit disk chunk k).toNat) =
      Machine.setBitAt 8 (fun k => (disk k).toNat) chunk := by
    funext k
    exact toNat_markBit disk chunk k
  rw [hwords, Machine.bitAt_setBitAt]
  by_cases hn : n = chunk
  · subst n
    simp [hchunk]
  · simp [hn]

theorem markBit_outside (disk : Disk) (chunk x : Nat) (hchunk : chunk < 131072)
    (hx : 16384 ≤ x) : markBit disk chunk x = disk x := by
  unfold markBit
  apply Function.update_of_ne
  omega

theorem entryByte_markBit (disk : Disk) (chunk file_index k : Nat) (hchunk : chunk < 131072) :
    entryByte (markBit disk chunk) file_index k = entryByte disk file_index k := by
  apply markBit_outside disk chunk _ hchunk
  omega

theorem entryLocation_markBit (disk : Disk) (chunk file_index : Nat) (hchunk : chunk < 131072) :
    entryLocation (markBit disk chunk) file_index = entryLocation disk file_index := by
  simp only [entryLocation, entryByte_markBit disk chunk _ _ hchunk]

theorem entryByte_writeEntry (disk : Disk) (file_index other k : Nat) (image : Buffer)
    (hk : k < 256) :
    entryByte (writeEntry disk file_index image) other k =
      if other = file_index then image k else entryByte disk other k := by
  unfold entryByte writeEntry
  by_cases ho : other = file_index
  · subst other
    rw [if_pos (by omega), if_pos rfl]
    congr 1
    omega
  · rw [if_neg (by omega), if_neg ho]

theorem allocated_writeEntry (disk : Disk) (file_index n : Nat) (image : Buffer) :
    allocated (writeEntry disk file_index image) n = allocated disk n := by
  unfold allocated Machine.bitAt
  by_cases hn : n < 131072
  · have hbyte : writeEntry disk file_index image (n / 8) = disk (n / 8) := by
      unfold writeEntry
      rw [if_neg (by omega)]
    simp only [hbyte]
  · simp [hn]

theorem writeEntry_outside (disk : Disk) (file_index x : Nat) (image : Buffer)
    (hfile : file_index < 64) (hx : 32768 ≤ x) : writeEntry disk file_index image x = disk x := by
  unfold writeEntry
  rw [if_neg (by omega)]

end Views

section Names

-- The name field of the record of `name`: its first 251 bytes, then zeros.
def storedName (name : CString) (k : Nat) : UInt8 := (name.bytes.take 251).getD k 0

theorem load_ne_zero_iff (name : CString) (k : Nat) : name.load k ≠ 0 ↔ k < name.bytes.length := by
  unfold CString.load
  by_cases hk : k < name.bytes.length
  · rw [List.getD_eq_getElem _ _ hk]
    simp [hk, name.no_nul _ (List.getElem_mem hk)]
  · rw [List.getD_eq_default _ _ (by omega)]
    simp [hk]

-- The copy stops at the end of the string or one byte short of `max`.
theorem kstrncpyFrom_apply (name : CString) (max steps num_written : Nat) (dest : Buffer)
    (hsteps : num_written + steps = max - 1) (hlen : num_written ≤ name.bytes.length) (k : Nat) :
    kstrncpyFrom name.load max steps num_written dest k =
      if num_written ≤ k ∧ k < min name.bytes.length (max - 1) then name.load k
      else if k = min name.bytes.length (max - 1) then 0 else dest k := by
  induction steps generalizing num_written dest with
  | zero =>
      have hmin : min name.bytes.length (max - 1) = num_written := by omega
      rw [kstrncpyFrom, hmin, if_neg (by omega)]
      by_cases hk : k = num_written
      · subst k
        simp
      · simp [hk]
  | succ steps ih =>
      rw [kstrncpyFrom]
      by_cases hmore : num_written < name.bytes.length
      · rw [if_pos ⟨(load_ne_zero_iff name num_written).mpr hmore, by omega⟩,
          ih (num_written + 1) _ (by omega) hmore]
        by_cases hk : k = num_written
        · subst k
          rw [if_neg (by omega), if_neg (by omega), Function.update_self, if_pos (by omega)]
        · rw [Function.update_of_ne hk]
          simp only [show num_written + 1 ≤ k ↔ num_written ≤ k by omega]
      · have hend : min name.bytes.length (max - 1) = num_written := by omega
        rw [if_neg (fun h => hmore ((load_ne_zero_iff name num_written).mp h.1)), hend,
          if_neg (by omega)]
        by_cases hk : k = num_written
        · subst k
          simp
        · simp [hk]

theorem newMetadata_name (stack : Buffer) (name : CString) (available_chunk k : Nat)
    (hk : k < 252) : (newMetadata stack name available_chunk).name k = storedName name k := by
  unfold newMetadata kstrncpy
  simp only [NAME_SIZE]
  rw [kstrncpyFrom_apply name 252 251 0 _ rfl (Nat.zero_le _)]
  unfold storedName CString.load kmemset
  by_cases hlt : k < min name.bytes.length 251
  · have htake : k < (name.bytes.take 251).length := by
      rw [List.length_take]
      omega
    rw [if_pos ⟨Nat.zero_le _, hlt⟩, List.getD_eq_getElem _ _ htake,
      List.getD_eq_getElem _ _ (by omega), List.getElem_take]
  · rw [if_neg (by omega), List.getD_eq_default _ _ (by rw [List.length_take]; omega)]
    simp [hk]

theorem storedName_zero_iff (name : CString) : storedName name 0 ≠ 0 ↔ name.bytes ≠ [] := by
  unfold storedName
  cases hbytes : name.bytes with
  | nil => simp
  | cons byte rest =>
      have hne := name.no_nul byte (by simp [hbytes])
      simp [hne]

end Names

section Image

theorem image_name (file : FileMetadata) (k : Nat) (hk : k < 252) : file.image k = file.name k := by
  unfold FileMetadata.image
  rw [if_pos (by simpa [NAME_SIZE] using hk)]

-- The four location bytes read back as the location.
theorem entryLocation_writeEntry (disk : Disk) (file_index other : Nat) (file : FileMetadata)
    (hlocation : file.location < 2 ^ 32) :
    entryLocation (writeEntry disk file_index file.image) other =
      if other = file_index then file.location else entryLocation disk other := by
  unfold entryLocation
  simp only [entryByte_writeEntry _ _ _ _ _ (show 252 < 256 by decide),
    entryByte_writeEntry _ _ _ _ _ (show 253 < 256 by decide),
    entryByte_writeEntry _ _ _ _ _ (show 254 < 256 by decide),
    entryByte_writeEntry _ _ _ _ _ (show 255 < 256 by decide)]
  by_cases ho : other = file_index
  · simp only [ho, if_true, FileMetadata.image, NAME_SIZE]
    simp only [show ¬252 < 252 by decide, show ¬253 < 252 by decide, show ¬254 < 252 by decide,
      show ¬255 < 252 by decide, if_false, Nat.reduceSub, Nat.reducePow]
    simp only [UInt8.toNat_ofNat']
    omega
  · simp only [ho, if_false]

end Image

end PalleyOS.SknyFS
