import PalleyOS.Machine.Refinement
import PalleyOS.SknyFS.Compare

namespace PalleyOS.SknyFS

-- The file system without a disk: files in the order they were made.
section Store

instance (bytes other : List UInt8) : Decidable (Alike bytes other) :=
  inferInstanceAs (Decidable (_ ∨ _))

structure StoredFile where
  name : List UInt8
  chunk : Nat

-- Every chunk that was handed out counts, also one whose file got no name.
structure Store where
  files : List StoredFile
  chunks : Nat
  files_le : files.length ≤ 64
  chunks_le : chunks ≤ 131072
  named : ∀ file ∈ files, file.name ≠ []
  owned : ∀ file ∈ files, file.chunk < chunks
  apart : files.Pairwise (fun file other => file.chunk ≠ other.chunk)

def Store.empty : Store where
  files := []
  chunks := 0
  files_le := by simp
  chunks_le := by simp
  named := by simp
  owned := by simp
  apart := List.Pairwise.nil

-- A name is cut to 251 characters. Without one the chunk is lost.
def Store.create (name : CString) (store : Store) : Store × SknyStatus :=
  if hroom : store.chunks < 131072 ∧ store.files.length < 64 then
    ({ files := if name.bytes = [] then store.files
          else store.files ++ [⟨name.bytes.take 251, store.chunks⟩]
       chunks := store.chunks + 1
       files_le := by
        split
        · exact store.files_le
        · rw [List.length_append, List.length_singleton]
          exact hroom.2
       chunks_le := hroom.1
       named := by
        split
        · exact store.named
        · rename_i hname
          intro file hfile
          rcases List.mem_append.mp hfile with hfile | hfile
          · exact store.named file hfile
          · rw [List.mem_singleton.mp hfile]
            simpa using hname
       owned := by
        split
        · exact fun file hfile => Nat.lt_succ_of_lt (store.owned file hfile)
        · intro file hfile
          rcases List.mem_append.mp hfile with hfile | hfile
          · exact Nat.lt_succ_of_lt (store.owned file hfile)
          · rw [List.mem_singleton.mp hfile]
            exact Nat.lt_succ_self _
       apart := by
        split
        · exact store.apart
        · refine List.pairwise_append.mpr ⟨store.apart, List.pairwise_singleton _ _, ?_⟩
          intro file hfile other hother
          rw [List.mem_singleton.mp hother]
          exact Nat.ne_of_lt (store.owned file hfile) }, .SKNY_STATUS_OK)
  else (store, .SKNY_FILESYSTEM_FULL)

-- The first file whose name agrees as far as the shorter one goes, or else the
-- first record that no file has.
def Store.lookup (name : CString) (store : Store) : Except SknyStatus Nat :=
  match store.files.findIdx? (fun file => decide (Alike name.bytes file.name)) with
  | some i => .ok i
  | none =>
      if store.files.length < 64 then .ok store.files.length
      else .error .SKNY_FILESYSTEM_FULL

inductive FileCall where
  | create (stack : Buffer) (name : CString)
  | lookup (name : CString)

inductive FileAnswer where
  | created (status : SknyStatus)
  | found (answer : Except SknyStatus Nat)

def Store.call : FileCall → Store → Store × FileAnswer
  | .create _ name, store => ((store.create name).1, .created (store.create name).2)
  | .lookup name, store => (store, .found (store.lookup name))

def Store.nameAt (store : Store) (i : Nat) : List UInt8 :=
  (store.files[i]?.map StoredFile.name).getD []

theorem Store.nameAt_ne_nil_iff (store : Store) (i : Nat) :
    store.nameAt i ≠ [] ↔ i < store.files.length := by
  unfold Store.nameAt
  by_cases hi : i < store.files.length
  · rw [List.getElem?_eq_getElem hi]
    exact iff_of_true (store.named _ (List.getElem_mem hi)) hi
  · rw [List.getElem?_eq_none (Nat.not_lt.mp hi)]
    exact iff_of_false (fun hne => hne rfl) hi

theorem Store.nameAt_of_lt (store : Store) {i : Nat} (hi : i < store.files.length) :
    store.nameAt i = store.files[i].name := by
  rw [Store.nameAt, List.getElem?_eq_getElem hi]
  rfl

theorem Store.nameAt_length (store : Store) : store.nameAt store.files.length = [] :=
  not_not.mp (mt (store.nameAt_ne_nil_iff _).mp (Nat.lt_irrefl _))

theorem Store.findIdx?_eq_none {store : Store} {name : CString}
    (h : ∀ j < store.files.length, ¬Alike name.bytes (store.nameAt j)) :
    store.files.findIdx? (fun file => decide (Alike name.bytes file.name)) = none := by
  rw [List.findIdx?_eq_none_iff]
  intro file hfile
  obtain ⟨j, hj, rfl⟩ := List.getElem_of_mem hfile
  rw [← store.nameAt_of_lt hj]
  exact decide_eq_false (h j hj)

theorem Store.lookup_eq_ok {store : Store} {name : CString} {i : Nat} (hi : i < 64)
    (halike : Alike name.bytes (store.nameAt i))
    (hbefore : ∀ j < i, ¬Alike name.bytes (store.nameAt j)) : store.lookup name = .ok i := by
  unfold Store.lookup
  by_cases hlt : i < store.files.length
  · have hfirst : store.files.findIdx? (fun file => decide (Alike name.bytes file.name)) =
        some i := by
      rw [List.findIdx?_eq_some_iff_getElem]
      refine ⟨hlt, ?_, fun j hj => ?_⟩
      · rw [← store.nameAt_of_lt hlt]
        exact decide_eq_true halike
      · rw [← store.nameAt_of_lt (hj.trans hlt), decide_eq_true_eq]
        exact hbefore j hj
    rw [hfirst]
  · -- The record after the files is empty, and no name is unlike an empty one.
    have hempty : Alike name.bytes (store.nameAt store.files.length) := by
      rw [store.nameAt_length]
      exact .inr List.nil_prefix
    have hlast : i = store.files.length :=
      Nat.le_antisymm (Nat.not_lt.mp (fun hj => hbefore _ hj hempty)) (Nat.not_lt.mp hlt)
    subst i
    rw [store.findIdx?_eq_none hbefore]
    exact if_pos hi

theorem Store.lookup_eq_error {store : Store} {name : CString}
    (hnone : ∀ i < 64, ¬Alike name.bytes (store.nameAt i)) :
    store.lookup name = .error .SKNY_FILESYSTEM_FULL := by
  have hfull : ¬store.files.length < 64 := by
    intro hlt
    refine hnone _ hlt ?_
    rw [store.nameAt_length]
    exact .inr List.nil_prefix
  have hfiles := store.files_le
  rw [Store.lookup, store.findIdx?_eq_none (fun j hj => hnone j (by omega))]
  exact if_neg hfull

end Store

section Names

theorem nameFrom_of_spells (field : Nat → UInt8) (bytes : List UInt8) (remaining k : Nat)
    (h : Spells field k bytes) (hlength : bytes.length < remaining) :
    nameFrom field remaining k = bytes := by
  induction bytes generalizing remaining k with
  | nil =>
      obtain _ | remaining := remaining
      · exact absurd hlength (Nat.not_lt_zero _)
      · exact if_pos h
  | cons c bytes ih =>
      obtain _ | remaining := remaining
      · exact absurd hlength (Nat.not_lt_zero _)
      · obtain ⟨rfl, hne, hrest⟩ := h
        rw [nameFrom, if_neg hne, ih remaining (k + 1) hrest (Nat.lt_of_succ_lt_succ hlength)]

theorem nameFrom_congr (field other : Nat → UInt8) (remaining k : Nat)
    (h : ∀ i, k ≤ i → i < k + remaining → field i = other i) :
    nameFrom field remaining k = nameFrom other remaining k := by
  induction remaining generalizing k with
  | zero => rfl
  | succ remaining ih =>
      rw [nameFrom, nameFrom, h k (Nat.le_refl k) (by omega),
        ih (k + 1) (fun i hlow hhigh => h i (by omega) (by omega))]

theorem present_iff_nameOf (disk : Disk) (file_index : Nat) :
    present disk file_index ↔ nameOf disk file_index ≠ [] := by
  rw [nameOf, nameFrom]
  by_cases hzero : entryByte disk file_index 0 = 0
  · rw [if_pos hzero]
    exact iff_of_false (fun hpresent => hpresent hzero) (fun hne => hne rfl)
  · rw [if_neg hzero]
    exact iff_of_true hzero (List.cons_ne_nil _ _)

-- The name that a record gets is the one given, cut to its field.
theorem nameOf_newMetadata (disk : Disk) (stack : Buffer) (name : CString)
    (available_chunk file_index : Nat) :
    nameOf (writeEntry disk file_index (newMetadata stack name available_chunk).image)
      file_index = name.bytes.take 251 := by
  have hcut : ∀ byte ∈ name.bytes.take 251, byte ≠ 0 :=
    fun byte hbyte => name.no_nul byte (List.mem_of_mem_take hbyte)
  have hlength : (name.bytes.take 251).length < 252 := by
    rw [List.length_take]
    omega
  rw [nameOf, nameFrom_congr _ (storedName name) 252 0
    (fun k _ hk => newMetadata_entry disk stack name available_chunk file_index k (by omega))]
  exact nameFrom_of_spells _ _ 252 0 (CString.spells ⟨name.bytes.take 251, hcut⟩) hlength

theorem nameOf_congr (disk disk' : Disk) (file_index : Nat)
    (h : ∀ k < 252, entryByte disk' file_index k = entryByte disk file_index k) :
    nameOf disk' file_index = nameOf disk file_index :=
  nameFrom_congr _ _ 252 0 (fun k _ hk => h k (by omega))

end Names

section Refinement

variable {σ : Type} (ide : IdeDriver σ) (handle : SknyHandle)

def fileCall : FileCall → σ → σ × FileAnswer
  | .create stack name, s =>
      let (s, status) := sknyCreateFile ide handle stack name s
      (s, .created status)
  | .lookup name, s =>
      let (s, answer) := searchForFile ide handle name s
      (s, .found answer)

structure Represents (disk : Disk) (store : Store) : Prop where
  chunks : ∀ n < 131072, allocated disk n = decide (n < store.chunks)
  names : ∀ i < 64, nameOf disk i = store.nameAt i
  locations : ∀ i file, store.files[i]? = some file → entryLocation disk i = file.chunk
  terminated : NamesTerminated disk

variable {ide}

theorem Represents.present_iff {disk : Disk} {store : Store} (h : Represents disk store)
    (i : Nat) (hi : i < 64) : present disk i ↔ i < store.files.length := by
  rw [present_iff_nameOf, h.names i hi, store.nameAt_ne_nil_iff]

theorem Represents.formatted (disk : Disk) (hzero : ∀ x < 32768, disk x = 0) :
    Represents disk Store.empty where
  chunks n _ := by
    rw [allocated_formatted disk hzero n]
    rfl
  names i hi := by
    have hempty := present_formatted disk hzero i hi
    rw [present_iff_nameOf, not_not] at hempty
    exact hempty
  locations i file hfile := by
    cases hfile
  terminated i hi := ⟨0, by decide, not_not.mp (present_formatted disk hzero i hi)⟩

-- There is room for a file exactly if both searches find a place for it.
theorem Represents.found (hide : ide.Transfers) (hreads : ide.ReadsSucceed) {s : σ}
    {store : Store} (h : Represents (ide.contents s handle.drive) store) :
    (store.chunks < 131072 ∧ store.files.length < 64 →
      ∃ u, Found ide handle s store.chunks store.files.length u) ∧
    ∀ chunk index u, Found ide handle s chunk index u →
      store.chunks < 131072 ∧ store.files.length < 64 := by
  constructor
  · rintro ⟨hchunks, hlength⟩
    obtain ⟨chunk, index, u, hfound⟩ := exists_found handle hide hreads s store.chunks
      store.files.length hchunks (by rw [h.chunks _ hchunks]; simp) hlength
      (fun hp => absurd ((h.present_iff _ hlength).mp hp) (Nat.lt_irrefl _))
    obtain ⟨-, ⟨hchunk, hclear, hbefore⟩, hindex, hempty, hrecords⟩ :=
      found_spec handle hide s u chunk index hfound
    rw [h.chunks chunk hchunk, decide_eq_false_iff_not, Nat.not_lt] at hclear
    rw [h.present_iff index hindex, Nat.not_lt] at hempty
    have hchunk' : chunk = store.chunks := by
      refine Nat.le_antisymm (Nat.not_lt.mp (fun hlt => ?_)) hclear
      have hbit := hbefore store.chunks hlt
      rw [h.chunks _ hchunks, decide_eq_true_eq] at hbit
      exact Nat.lt_irrefl _ hbit
    have hindex' : index = store.files.length := by
      refine Nat.le_antisymm (Nat.not_lt.mp (fun hlt => ?_)) hempty
      exact Nat.lt_irrefl _ ((h.present_iff _ hlength).mp (hrecords _ hlt))
    subst chunk index
    exact ⟨u, hfound⟩
  · intro chunk index u hfound
    obtain ⟨-, ⟨hchunk, hclear, -⟩, hindex, hempty, -⟩ :=
      found_spec handle hide s u chunk index hfound
    rw [h.chunks chunk hchunk, decide_eq_false_iff_not, Nat.not_lt] at hclear
    rw [h.present_iff index hindex, Nat.not_lt] at hempty
    exact ⟨Nat.lt_of_le_of_lt hclear hchunk, Nat.lt_of_le_of_lt hempty hindex⟩

theorem Represents.written {disk : Disk} {store : Store} (h : Represents disk store)
    (stack : Buffer) (name : CString)
    (hroom : store.chunks < 131072 ∧ store.files.length < 64) :
    Represents (writeEntry (markBit disk store.chunks) store.files.length
      (newMetadata stack name store.chunks).image) (store.create name).1 := by
  have hother (i : Nat) (hne : i ≠ store.files.length) (k : Nat) (hk : k < 252) :
      entryByte (writeEntry (markBit disk store.chunks) store.files.length
        (newMetadata stack name store.chunks).image) i k = entryByte disk i k := by
    rw [entryByte_writeEntry _ _ _ _ _ (by omega), if_neg hne,
      entryByte_markBit _ _ _ _ hroom.1]
  have hcreated : (store.create name).1.chunks = store.chunks + 1 ∧
      (store.create name).1.files = if name.bytes = [] then store.files
        else store.files ++ [⟨name.bytes.take 251, store.chunks⟩] := by
    rw [Store.create, dif_pos hroom]
    exact ⟨rfl, rfl⟩
  refine ⟨fun n hn => ?_, fun i hi => ?_, fun i file hfile => ?_, fun i hi => ?_⟩
  · rw [allocated_writeEntry, allocated_markBit _ _ _ hroom.1, h.chunks n hn, hcreated.1,
      ← Bool.decide_or]
    exact decide_eq_decide.mpr (by omega)
  · by_cases hsame : i = store.files.length
    · subst i
      rw [nameOf_newMetadata, Store.nameAt, hcreated.2]
      by_cases hname : name.bytes = []
      · rw [if_pos hname, hname, List.getElem?_eq_none (Nat.le_refl _)]
        rfl
      · rw [if_neg hname, List.getElem?_concat_length]
        rfl
    · rw [nameOf_congr _ _ i (hother i hsame), h.names i hi, Store.nameAt, Store.nameAt,
        hcreated.2]
      by_cases hname : name.bytes = []
      · rw [if_pos hname]
      · rw [if_neg hname, List.getElem?_append]
        by_cases hlt : i < store.files.length
        · rw [if_pos hlt]
        · rw [if_neg hlt, List.getElem?_eq_none (Nat.not_lt.mp hlt),
            List.getElem?_eq_none (by rw [List.length_singleton]; omega)]
  · rw [newMetadata_location _ _ _ _ _ _ hroom.1, entryLocation_markBit _ _ _ hroom.1]
    rw [hcreated.2] at hfile
    by_cases hname : name.bytes = []
    · rw [if_pos hname] at hfile
      obtain ⟨hi, -⟩ := List.getElem?_eq_some_iff.mp hfile
      rw [if_neg (Nat.ne_of_lt hi)]
      exact h.locations i file hfile
    · rw [if_neg hname, List.getElem?_append] at hfile
      by_cases hlt : i < store.files.length
      · rw [if_pos hlt] at hfile
        rw [if_neg (Nat.ne_of_lt hlt)]
        exact h.locations i file hfile
      · rw [if_neg hlt] at hfile
        obtain ⟨hi, hlast⟩ := List.getElem?_eq_some_iff.mp hfile
        rw [List.length_singleton] at hi
        rw [if_pos (by omega), ← hlast, List.getElem_singleton]
  · by_cases hsame : i = store.files.length
    · subst i
      refine ⟨min name.bytes.length 251, by omega, ?_⟩
      rw [newMetadata_entry _ _ _ _ _ _ (by omega), storedName,
        List.getD_eq_default _ _ (by rw [List.length_take]; omega)]
    · obtain ⟨k, hk, hend⟩ := h.terminated i hi
      exact ⟨k, hk, (hother i hsame k hk).trans hend⟩

theorem Represents.create (hide : ide.Transfers) (hnever : ide.NeverFails) {s : σ}
    {store : Store} (h : Represents (ide.contents s handle.drive) store) (stack : Buffer)
    (name : CString) :
    (sknyCreateFile ide handle stack name s).2 = (store.create name).2 ∧
    Represents (ide.contents (sknyCreateFile ide handle stack name s).1 handle.drive)
      (store.create name).1 := by
  obtain ⟨hroom_found, hfound_room⟩ := h.found handle hide hnever.read
  by_cases hroom : store.chunks < 131072 ∧ store.files.length < 64
  · obtain ⟨u, hfound⟩ := hroom_found hroom
    rw [contents_create_done handle hide hnever stack name s u _ _ hfound,
      sknyCreateFile_found handle stack name s u _ _ hfound]
    refine ⟨?_, h.written stack name hroom⟩
    rw [Store.create, dif_pos hroom]
  · have hall : ∀ chunk index u, ¬Found ide handle s chunk index u :=
      fun chunk index u hfound => hroom (hfound_room chunk index u hfound)
    obtain ⟨hsame, -, hfull⟩ := sknyCreateFile_not_found handle hide stack name s hall
    rw [hsame, (hfull hnever.read).1, Store.create, dif_neg hroom]
    exact ⟨rfl, h⟩

theorem searchForFile_contents (hide : ide.Transfers) (name : CString) (s : σ)
    (hnames : NamesTerminated (ide.contents s handle.drive)) :
    ide.contents (searchForFile ide handle name s).1 = ide.contents s :=
  (searchMap_spec handle hide _ 4 _ _ s _ _ (firstCompared_scans _ name hnames) rfl).1

theorem Represents.lookup (hide : ide.Transfers) (hreads : ide.ReadsSucceed) {s : σ}
    {store : Store} (h : Represents (ide.contents s handle.drive) store) (name : CString) :
    (searchForFile ide handle name s).2 = store.lookup name ∧
    Represents (ide.contents (searchForFile ide handle name s).1 handle.drive) store := by
  rw [searchForFile_contents handle hide name s h.terminated]
  refine ⟨?_, h⟩
  rcases searchForFile_spec handle hide hreads name s h.terminated with
    ⟨i, hok, hi, halike, hbefore⟩ | ⟨hfull, hnone⟩
  · rw [h.names i hi] at halike
    rw [hok, Store.lookup_eq_ok hi halike
      (fun j hj => h.names j (hj.trans hi) ▸ hbefore j hj)]
  · rw [hfull, Store.lookup_eq_error (fun i hi => h.names i hi ▸ hnone i hi)]

theorem fileCall_refines (hide : ide.Transfers) (hnever : ide.NeverFails) :
    Machine.Refines (fun s store => Represents (ide.contents s handle.drive) store)
      (fun _ => True) (fileCall ide handle) Store.call := by
  intro call s store _ h
  cases call with
  | create stack name =>
      obtain ⟨hstatus, hnext⟩ := h.create handle hide hnever stack name
      exact ⟨congrArg FileAnswer.created hstatus, hnext⟩
  | lookup name =>
      obtain ⟨hanswer, hnext⟩ := h.lookup handle hide hnever.read name
      exact ⟨congrArg FileAnswer.found hanswer, hnext⟩

theorem formatted_represents (hide : ide.Transfers) (hnever : ide.NeverFails) (drive : UInt8)
    (s₀ : σ) :
    ∃ s, sknyCreateFilesystem ide drive s₀ = ({ drive := drive }, s, .SKNY_STATUS_OK) ∧
      Represents (ide.contents s drive) Store.empty := by
  obtain ⟨s, hs⟩ := sknyCreateFilesystem_ok
    (fun s drive location buffer => hnever.write s drive 1 location buffer) drive s₀
  obtain ⟨-, hcontents⟩ := sknyCreateFilesystem_done _ hide drive s₀ s hs
  exact ⟨s, hs, Represents.formatted _ (fun x hx => (hcontents x).trans (if_pos hx))⟩

-- On a drive that does its work, a formatted disk answers every list of calls as
-- the store does, and holds its files.
theorem files_refine_store (hide : ide.Transfers) (hnever : ide.NeverFails) (drive : UInt8)
    (s₀ : σ) :
    ∃ s, sknyCreateFilesystem ide drive s₀ = ({ drive := drive }, s, .SKNY_STATUS_OK) ∧
    ∀ calls, Machine.answers (fileCall ide { drive := drive }) s calls =
        Machine.answers Store.call Store.empty calls ∧
      Represents
        (ide.contents (Machine.finalState (fileCall ide { drive := drive }) s calls) drive)
        (Machine.finalState Store.call Store.empty calls) := by
  obtain ⟨s, hs, hempty⟩ := formatted_represents hide hnever drive s₀
  refine ⟨s, hs, fun calls => ?_⟩
  exact (fileCall_refines { drive := drive } hide hnever).answers_eq hempty calls
    (fun _ _ => trivial)

theorem files_refine_store_memory :
    ∃ s, sknyCreateFilesystem (memoryDrive fun _ _ => false) 0 blankDisks =
        (firstDrive, s, .SKNY_STATUS_OK) ∧
    ∀ calls, Machine.answers (fileCall (memoryDrive fun _ _ => false) firstDrive) s calls =
        Machine.answers Store.call Store.empty calls ∧
      Represents ((memoryDrive fun _ _ => false).contents
          (Machine.finalState (fileCall (memoryDrive fun _ _ => false) firstDrive) s calls) 0)
        (Machine.finalState Store.call Store.empty calls) :=
  files_refine_store (memoryDrive_transfers _) memoryDrive_neverFails 0 blankDisks

end Refinement

-- Files are only ever added, so an answer that is a file stays the answer.
section Lasting

variable {σ : Type} {ide : IdeDriver σ}

-- What the disk shows of a file.
theorem Represents.file {disk : Disk} {store : Store} (h : Represents disk store) {i : Nat}
    {file : StoredFile} (hfile : store.files[i]? = some file) :
    nameOf disk i = file.name ∧ entryLocation disk i = file.chunk ∧
      allocated disk file.chunk = true := by
  obtain ⟨hi, -⟩ := List.getElem?_eq_some_iff.mp hfile
  have howned := store.owned file (List.mem_of_getElem? hfile)
  refine ⟨?_, h.locations i file hfile, ?_⟩
  · rw [h.names i (Nat.lt_of_lt_of_le hi store.files_le), Store.nameAt, hfile]
    rfl
  · rw [h.chunks _ (Nat.lt_of_lt_of_le howned store.chunks_le)]
    exact decide_eq_true howned

end Lasting

end PalleyOS.SknyFS
