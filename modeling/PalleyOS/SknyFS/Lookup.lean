import PalleyOS.SknyFS.Theorems

namespace PalleyOS.SknyFS

section Compare

-- `*str1 - *str2`, a `char` being signed.
def charDiff (a b : UInt8) : Int := a.toInt8.toInt - b.toInt8.toInt

-- From the `k`-th characters on. The `int` difference comes back in a `size_t`.
def kstrcmpFrom (str2 : Nat → UInt8) : List UInt8 → Nat → Nat
  | [], _ => 0
  | c :: rest, k =>
      if str2 k = 0 then 0
      else
        let diff := charDiff c (str2 k)
        if diff ≠ 0 then (diff % 4294967296).toNat else kstrcmpFrom str2 rest (k + 1)

def kstrcmp (str1 : CString) (str2 : Nat → UInt8) : Nat := kstrcmpFrom str2 str1.bytes 0

-- The characters of `string` from the `k`-th on are `bytes` and then a terminator.
def Spells (string : Nat → UInt8) : Nat → List UInt8 → Prop
  | k, [] => string k = 0
  | k, c :: rest => string k = c ∧ c ≠ 0 ∧ Spells string (k + 1) rest

-- One string is as long as the other goes.
def Alike (bytes other : List UInt8) : Prop := bytes <+: other ∨ other <+: bytes

theorem charDiff_eq_zero_iff (a b : UInt8) : charDiff a b = 0 ↔ a = b := by
  unfold charDiff
  constructor
  · intro hzero
    have hsame : a.toInt8 = b.toInt8 := Int8.toInt_inj.mp (by omega)
    exact congrArg Int8.toUInt8 hsame
  · rintro rfl
    exact Int.sub_self _

theorem charDiff_returned (a b : UInt8) (hne : charDiff a b ≠ 0) :
    (charDiff a b % 4294967296).toNat ≠ 0 := by
  have ha := Int8.le_toInt a.toInt8
  have ha' := Int8.toInt_lt a.toInt8
  have hb := Int8.le_toInt b.toInt8
  have hb' := Int8.toInt_lt b.toInt8
  unfold charDiff at hne ⊢
  omega

theorem alike_cons_iff (c d : UInt8) (bytes other : List UInt8) :
    Alike (c :: bytes) (d :: other) ↔ c = d ∧ Alike bytes other := by
  unfold Alike
  rw [List.cons_prefix_cons, List.cons_prefix_cons, and_or_left, eq_comm (a := d)]

-- The loop stops at the end of either string and reports them equal there.
theorem kstrcmpFrom_eq_zero_iff (str2 : Nat → UInt8) (bytes other : List UInt8) (k : Nat)
    (h : Spells str2 k other) : kstrcmpFrom str2 bytes k = 0 ↔ Alike bytes other := by
  induction bytes generalizing other k with
  | nil => exact iff_of_true rfl (.inl (List.nil_prefix))
  | cons c bytes ih =>
      rw [kstrcmpFrom]
      cases other with
      | nil =>
          rw [if_pos (show str2 k = 0 from h)]
          exact iff_of_true rfl (.inr List.nil_prefix)
      | cons d other =>
          obtain ⟨hd, hne, hrest⟩ := h
          rw [hd, if_neg hne, alike_cons_iff]
          by_cases hdiff : charDiff c d = 0
          · have hsame := (charDiff_eq_zero_iff c d).mp hdiff
            rw [if_neg (not_not.mpr hdiff), ih other (k + 1) hrest]
            exact (and_iff_right hsame).symm
          · rw [if_pos hdiff]
            refine iff_of_false (charDiff_returned c d hdiff) (fun hsame => ?_)
            exact hdiff ((charDiff_eq_zero_iff c d).mpr hsame.1)

theorem Spells.congr {string other : Nat → UInt8} {k : Nat} {bytes : List UInt8}
    (h : Spells string k bytes) (last : Nat) (hlast : k + bytes.length ≤ last)
    (hsame : ∀ i ≤ last, other i = string i) : Spells other k bytes := by
  induction bytes generalizing k with
  | nil =>
      rw [List.length_nil] at hlast
      exact (hsame k (by omega)).trans h
  | cons c bytes ih =>
      rw [List.length_cons] at hlast
      exact ⟨(hsame k (by omega)).trans h.1, h.2.1, ih h.2.2 (by omega)⟩

end Compare

section Names

-- The bytes of a name field from the `k`-th on, `remaining` at most.
def nameFrom (field : Nat → UInt8) : Nat → Nat → List UInt8
  | 0, _ => []
  | remaining + 1, k => if field k = 0 then [] else field k :: nameFrom field remaining (k + 1)

def nameOf (disk : Disk) (file_index : Nat) : List UInt8 :=
  nameFrom (entryByte disk file_index) 252 0

-- Every name field of the file map has its terminator.
def NamesTerminated (disk : Disk) : Prop :=
  ∀ file_index < 64, ∃ k < 252, entryByte disk file_index k = 0

theorem nameFrom_length (field : Nat → UInt8) (remaining k : Nat) :
    (nameFrom field remaining k).length ≤ remaining := by
  induction remaining generalizing k with
  | zero => exact Nat.le_refl 0
  | succ remaining ih =>
      rw [nameFrom]
      split
      · exact Nat.zero_le _
      · have hrest := ih (k + 1)
        rw [List.length_cons]
        omega

theorem nameFrom_spells (field : Nat → UInt8) (remaining k last : Nat) (hlow : k ≤ last)
    (hhigh : last < k + remaining) (hend : field last = 0) :
    Spells field k (nameFrom field remaining k) := by
  induction remaining generalizing k with
  | zero => omega
  | succ remaining ih =>
      rw [nameFrom]
      by_cases hzero : field k = 0
      · rw [if_pos hzero]
        exact hzero
      · have hne : k ≠ last := fun he => hzero (he ▸ hend)
        rw [if_neg hzero]
        exact ⟨rfl, hzero, ih (k + 1) (by omega) (by omega)⟩

theorem nameOf_spells (disk : Disk) (file_index : Nat) (hnames : NamesTerminated disk)
    (hindex : file_index < 64) :
    Spells (entryByte disk file_index) 0 (nameOf disk file_index) := by
  obtain ⟨last, hlast, hend⟩ := hnames file_index hindex
  exact nameFrom_spells _ 252 0 last (Nat.zero_le _) (by omega) hend

end Names

section Lookup

variable {σ : Type} (ide : IdeDriver σ) (handle : SknyHandle)

-- The loop over the records of one chunk of the file map.
def firstCompared (name : CString) (chunk_index : Nat) (files : Buffer) : Option Nat :=
  (List.range FILES_PER_CHUNK).findSome? fun file_index =>
    if kstrcmp name (fun k => files (file_index * FILE_METADATA_SIZE + k)) = 0 then
      some (chunk_index * FILES_PER_CHUNK + file_index)
    else none

def searchForFile (name : CString) (s : σ) : σ × Except SknyStatus Nat :=
  searchChunksFrom ide handle FILE_MAP_BEGIN (firstCompared name) CHUNKS_IN_FILE_MAP 0 s

variable {ide}

theorem kstrcmp_record (disk : Disk) (name : CString) (hnames : NamesTerminated disk)
    (i n : Nat) (chunk : Buffer) (hi : i < 16) (hn : n < 4)
    (hbytes : ChunkBytes disk FILE_MAP_BEGIN i chunk) :
    kstrcmp name (fun k => chunk (n * FILE_METADATA_SIZE + k)) = 0 ↔
      Alike name.bytes (nameOf disk (i * 4 + n)) := by
  have hsizes : FILE_METADATA_SIZE = 256 ∧ FILE_MAP_BEGIN = 16384 := ⟨rfl, rfl⟩
  have hlength : (nameOf disk (i * 4 + n)).length ≤ 252 := nameFrom_length _ _ _
  have hspells := nameOf_spells disk (i * 4 + n) hnames (by omega)
  have hrecord : ∀ k ≤ 252,
      chunk (n * FILE_METADATA_SIZE + k) = entryByte disk (i * 4 + n) k := by
    intro k hk
    have hbyte := hbytes (n * 256 + k) (by omega)
    rw [hsizes.2] at hbyte
    have hcell : 16384 + i * 1024 + (n * 256 + k) = 16384 + (i * 4 + n) * 256 + k := by omega
    rw [hsizes.1, hbyte, hcell]
    exact rfl
  exact kstrcmpFrom_eq_zero_iff _ _ _ 0 (hspells.congr 252 (by omega) hrecord)

theorem firstCompared_scans (disk : Disk) (name : CString) (hnames : NamesTerminated disk) :
    Scans disk FILE_MAP_BEGIN 4 (firstCompared name)
      (fun n => ¬Alike name.bytes (nameOf disk n)) := by
  refine ⟨?_, ?_⟩
  · rintro i hi found ⟨chunk, hchunk, hfound⟩
    obtain ⟨m, hm, hfound, hzero, hbefore⟩ :=
      Machine.findSome?_range_ite_eq_some _ _ FILES_PER_CHUNK found hfound
    have hm' : m < 4 := hm
    refine ⟨m, hm, hfound, not_not.mpr ?_, fun n hn halike => ?_⟩
    · exact (kstrcmp_record disk name hnames i m chunk hi hm' hchunk).mp hzero
    · exact hbefore n hn
        ((kstrcmp_record disk name hnames i n chunk hi (by omega) hchunk).mpr halike)
  · rintro i hi ⟨chunk, hchunk, hnone⟩ n hn halike
    exact Machine.findSome?_range_ite_eq_none _ _ FILES_PER_CHUNK hnone n hn
      ((kstrcmp_record disk name hnames i n chunk hi hn hchunk).mpr halike)

-- The search ends at the first record whose name is the start of the one looked
-- for, or begins with it.
theorem searchForFile_spec (hide : ide.Transfers) (hreads : ide.ReadsSucceed) (name : CString)
    (s : σ) (hnames : NamesTerminated (ide.contents s handle.drive)) :
    (∃ i, (searchForFile ide handle name s).2 = .ok i ∧ i < 64 ∧
      Alike name.bytes (nameOf (ide.contents s handle.drive) i) ∧
      ∀ j < i, ¬Alike name.bytes (nameOf (ide.contents s handle.drive) j)) ∨
    ((searchForFile ide handle name s).2 = .error .SKNY_FILESYSTEM_FULL ∧
      ∀ i < 64, ¬Alike name.bytes (nameOf (ide.contents s handle.drive) i)) := by
  rcases hsearch : searchForFile ide handle name s with ⟨t, status | i⟩
  · obtain ⟨-, -, herr⟩ := searchMap_spec handle hide _ 4 _ _ s t _
      (firstCompared_scans _ name hnames) hsearch
    obtain ⟨hfull, hnone⟩ := (herr status rfl).2 hreads
    exact .inr ⟨by rw [hfull], hnone⟩
  · obtain ⟨-, hok, -⟩ := searchMap_spec handle hide _ 4 _ _ s t _
      (firstCompared_scans _ name hnames) hsearch
    obtain ⟨hi, halike, hbefore⟩ := hok i rfl
    exact .inl ⟨i, rfl, hi, not_not.mp halike, hbefore⟩

-- What a lookup of `name` should answer: the first record of that name, and an
-- error when there is none.
def Names (disk : Disk) (name : CString) (i : Nat) : Prop := nameOf disk i = name.bytes

def LookupExact (disk : Disk) (name : CString) (answer : Except SknyStatus Nat) : Prop :=
  (∀ i, answer = .ok i ↔ i < 64 ∧ Names disk name i ∧ ∀ j < i, ¬Names disk name j) ∧
  ((∀ i < 64, ¬Names disk name i) → ∃ status, answer = .error status ∧ status ≠ .SKNY_STATUS_OK)

-- A record that `kstrcmp` takes for `name`: an empty slot, a name that `name`
-- continues, or one that continues `name`.
def Mistaken (disk : Disk) (name : CString) (i : Nat) : Prop :=
  Alike name.bytes (nameOf disk i) ∧ ¬Names disk name i

theorem Names.alike {disk : Disk} {name : CString} {i : Nat} (h : Names disk name i) :
    Alike name.bytes (nameOf disk i) := .inl (h ▸ List.prefix_refl _)

theorem lookupExact_iff (disk : Disk) (name : CString) (answer : Except SknyStatus Nat)
    (h : (∃ i, answer = .ok i ∧ i < 64 ∧ Alike name.bytes (nameOf disk i) ∧
        ∀ j < i, ¬Alike name.bytes (nameOf disk j)) ∨
      (answer = .error .SKNY_FILESYSTEM_FULL ∧ ∀ i < 64, ¬Alike name.bytes (nameOf disk i))) :
    LookupExact disk name answer ↔
      ∀ i < 64, Mistaken disk name i → ∃ j < i, Names disk name j := by
  rcases h with ⟨i, rfl, hi, halike, hbefore⟩ | ⟨rfl, hnone⟩
  · have hfirst : ∀ j < i, ¬Names disk name j := fun j hj hname => hbefore j hj hname.alike
    constructor
    · rintro ⟨hexact, -⟩ k hk ⟨hsimilar, hother⟩
      obtain ⟨-, hname, -⟩ := (hexact i).mp rfl
      have hle : i ≤ k := Nat.not_lt.mp (fun hlt => hbefore k hlt hsimilar)
      have hne : i ≠ k := fun he => hother (he ▸ hname)
      exact ⟨i, by omega, hname⟩
    · intro hmistaken
      have hname : Names disk name i := by
        by_contra hother
        obtain ⟨j, hj, hearlier⟩ := hmistaken i hi ⟨halike, hother⟩
        exact hfirst j hj hearlier
      refine ⟨fun k => ⟨?_, ?_⟩, fun hno => absurd hname (hno i hi)⟩
      · intro hk
        obtain rfl := Except.ok.inj hk
        exact ⟨hi, hname, hfirst⟩
      · rintro ⟨-, hk, hleast⟩
        rcases Nat.lt_trichotomy i k with hlt | rfl | hlt
        · exact absurd hname (hleast i hlt)
        · rfl
        · exact absurd hk (hfirst k hlt)
  · have hno : ∀ i < 64, ¬Names disk name i := fun i hi hname => hnone i hi hname.alike
    refine iff_of_true ⟨fun i => ?_, fun _ => ⟨_, rfl, by decide⟩⟩
      (fun i hi hmistaken => absurd hmistaken.1 (hnone i hi))
    constructor
    · intro hok
      cases hok
    · rintro ⟨hi, hname, -⟩
      exact absurd hname (hno i hi)

theorem lookup_exact_iff (hide : ide.Transfers) (hreads : ide.ReadsSucceed) (name : CString)
    (s : σ) (hnames : NamesTerminated (ide.contents s handle.drive)) :
    LookupExact (ide.contents s handle.drive) name (searchForFile ide handle name s).2 ↔
      ∀ i < 64, Mistaken (ide.contents s handle.drive) name i →
        ∃ j < i, Names (ide.contents s handle.drive) name j :=
  lookupExact_iff _ name _ (searchForFile_spec handle hide hreads name s hnames)

theorem blankDisks_terminated :
    NamesTerminated ((memoryDrive fun _ _ => false).contents blankDisks firstDrive.drive) :=
  fun _ _ => ⟨0, by decide, rfl⟩

theorem lookup_exact_iff_blank :
    LookupExact (blankDisks 0) letterA
        (searchForFile (memoryDrive fun _ _ => false) firstDrive letterA blankDisks).2 ↔
      ∀ i < 64, Mistaken (blankDisks 0) letterA i → ∃ j < i, Names (blankDisks 0) letterA j :=
  lookup_exact_iff firstDrive (memoryDrive_transfers _) (memoryDrive_reads _) letterA blankDisks
    blankDisks_terminated

-- A name is found on a disk without files.
theorem empty_slot_found :
    (memoryDrive fun _ _ => false).Transfers ∧ (memoryDrive fun _ _ => false).ReadsSucceed ∧
    NamesTerminated (blankDisks 0) ∧ letterA.bytes ≠ [] ∧
    ¬LookupExact (blankDisks 0) letterA
      (searchForFile (memoryDrive fun _ _ => false) firstDrive letterA blankDisks).2 := by
  refine ⟨memoryDrive_transfers _, memoryDrive_reads _, blankDisks_terminated, by decide, ?_⟩
  have hanswer :
      (searchForFile (memoryDrive fun _ _ => false) firstDrive letterA blankDisks).2 = .ok 0 := rfl
  rw [hanswer]
  rintro ⟨hexact, -⟩
  have hname : nameOf (blankDisks 0) 0 = letterA.bytes := ((hexact 0).mp rfl).2.1
  exact absurd hname (by decide)

end Lookup

end PalleyOS.SknyFS
