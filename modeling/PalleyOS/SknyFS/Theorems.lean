import PalleyOS.SknyFS.Operations
import PalleyOS.Machine.Runs

namespace PalleyOS.SknyFS

open Machine

section Disks

-- A disk that lives in memory and refuses some writes.
def memoryDrive (refuses : Nat → Nat → Bool) : IdeDriver (UInt8 → Disk) where
  contents disks := disks
  ideReadSectors disks drive _ location := (disks, some fun k => disks drive (location + k))
  ideWriteSectors disks drive num_sectors location buffer :=
    if refuses num_sectors location then (disks, false)
    else
      (fun d x =>
        if d = drive ∧ location ≤ x ∧ x < location + num_sectors * IDE_SECTOR_SIZE
        then buffer (x - location) else disks d x, true)

theorem memoryDrive_transfers (refuses : Nat → Nat → Bool) : (memoryDrive refuses).Transfers := by
  refine ⟨fun _ _ _ _ => rfl, ?_, ?_, ?_⟩
  · intro disks drive num_sectors location buffer h k _
    obtain rfl := Option.some.inj h
    rfl
  · intro disks drive num_sectors location buffer h d x
    simp only [memoryDrive] at h ⊢
    by_cases hr : refuses num_sectors location = true
    · simp [hr] at h
    · simp only [hr]
      rfl
  · intro disks drive num_sectors location buffer h
    simp only [memoryDrive] at h ⊢
    by_cases hr : refuses num_sectors location = true
    · simp only [hr, if_true]
    · simp [hr] at h

theorem memoryDrive_reads (refuses : Nat → Nat → Bool) : (memoryDrive refuses).ReadsSucceed :=
  fun _ _ _ _ => rfl

theorem memoryDrive_neverFails : (memoryDrive fun _ _ => false).NeverFails :=
  ⟨memoryDrive_reads _, fun _ _ _ _ _ => rfl⟩

def blankDisks : UInt8 → Disk := fun _ _ => 0

def firstDrive : SknyHandle := { drive := 0 }

end Disks

section Entries

variable {σ : Type} {ide : IdeDriver σ} (handle : SknyHandle)

-- The disk after the mark and after the metadata write, whichever went through.
theorem contents_mark (hide : ide.Transfers) (s u : σ) (available_chunk file_index : Nat)
    (h : Found ide handle s available_chunk file_index u) :
    (MarkTransferred ide handle u available_chunk →
      ide.contents (markChunkAsUsed ide handle u available_chunk).1 handle.drive =
        markBit (ide.contents s handle.drive) available_chunk) ∧
    (¬MarkTransferred ide handle u available_chunk →
      ide.contents (markChunkAsUsed ide handle u available_chunk).1 handle.drive =
        ide.contents s handle.drive) := by
  obtain ⟨hsame, -⟩ := found_spec handle hide s u available_chunk file_index h
  rw [← hsame]
  exact ⟨markChunkAsUsed_done handle hide u available_chunk,
    fun hfail => congrFun (rewriteChunk_failed handle hide _ _ u hfail) _⟩

theorem contents_create (hide : ide.Transfers) (stack : Buffer) (name : CString) (s u : σ)
    (available_chunk file_index : Nat)
    (h : Found ide handle s available_chunk file_index u) :
    (MetadataTransferred ide handle (markChunkAsUsed ide handle u available_chunk).1 file_index
        (newMetadata stack name available_chunk) →
      ide.contents (sknyCreateFile ide handle stack name s).1 handle.drive =
        writeEntry (ide.contents (markChunkAsUsed ide handle u available_chunk).1 handle.drive)
          file_index (newMetadata stack name available_chunk).image) ∧
    (¬MetadataTransferred ide handle (markChunkAsUsed ide handle u available_chunk).1 file_index
        (newMetadata stack name available_chunk) →
      ide.contents (sknyCreateFile ide handle stack name s).1 handle.drive =
        ide.contents (markChunkAsUsed ide handle u available_chunk).1 handle.drive) := by
  rw [sknyCreateFile_found handle stack name s u available_chunk file_index h]
  exact ⟨writeFileMetadata_done handle hide _ file_index _,
    fun hfail => congrFun (rewriteChunk_failed handle hide _ _ _ hfail) _⟩

theorem contents_create_done (hide : ide.Transfers) (hnever : ide.NeverFails) (stack : Buffer)
    (name : CString) (s u : σ) (available_chunk file_index : Nat)
    (h : Found ide handle s available_chunk file_index u) :
    ide.contents (sknyCreateFile ide handle stack name s).1 handle.drive =
      writeEntry (markBit (ide.contents s handle.drive) available_chunk) file_index
        (newMetadata stack name available_chunk).image := by
  have hmark := (contents_mark handle hide s u available_chunk file_index h).1
    (transferred_of_neverFails handle hnever _ _ u)
  have hdisk := (contents_create handle hide stack name s u available_chunk file_index h).1
    (transferred_of_neverFails handle hnever _ _ _)
  rw [hmark] at hdisk
  exact hdisk

-- The record that a call writes: its name bytes, its presence and its location.
theorem newMetadata_entry (disk : Disk) (stack : Buffer) (name : CString)
    (available_chunk file_index k : Nat) (hk : k < 252) :
    entryByte (writeEntry disk file_index (newMetadata stack name available_chunk).image)
      file_index k = storedName name k := by
  rw [entryByte_writeEntry _ _ _ _ _ (by omega), if_pos rfl, image_name _ _ hk,
    newMetadata_name _ _ _ _ hk]

theorem newMetadata_present (disk : Disk) (stack : Buffer) (name : CString)
    (available_chunk file_index : Nat) :
    present (writeEntry disk file_index (newMetadata stack name available_chunk).image)
      file_index ↔ name.bytes ≠ [] := by
  unfold present
  rw [newMetadata_entry _ _ _ _ _ _ (by omega)]
  exact storedName_zero_iff name

theorem newMetadata_location (disk : Disk) (stack : Buffer) (name : CString)
    (available_chunk file_index other : Nat) (hchunk : available_chunk < 131072) :
    entryLocation (writeEntry disk file_index (newMetadata stack name available_chunk).image)
      other = if other = file_index then available_chunk else entryLocation disk other := by
  have hlocation : (newMetadata stack name available_chunk).location = available_chunk := rfl
  rw [entryLocation_writeEntry _ _ _ _ (by rw [hlocation]; omega), hlocation]

theorem present_writeEntry_of_ne (disk : Disk) (file_index other : Nat) (image : Buffer)
    (hother : other ≠ file_index) :
    present (writeEntry disk file_index image) other ↔ present disk other := by
  unfold present
  rw [entryByte_writeEntry _ _ _ _ _ (by omega), if_neg hother]

theorem present_markBit (disk : Disk) (chunk other : Nat) (hchunk : chunk < 131072) :
    present (markBit disk chunk) other ↔ present disk other := by
  unfold present
  rw [entryByte_markBit _ _ _ _ hchunk]

end Entries

-- Named entries own allocated chunks, each its own.
section Chunks

def NoSharedChunks (disk : Disk) : Prop :=
  (∀ i < 64, present disk i → allocated disk (entryLocation disk i) = true) ∧
  ∀ i < 64, ∀ j < 64, present disk i → present disk j → i ≠ j →
    entryLocation disk i ≠ entryLocation disk j

theorem NoSharedChunks.formatted (disk : Disk) (hzero : ∀ x < 32768, disk x = 0) :
    NoSharedChunks disk :=
  ⟨fun i hi hp => absurd hp (present_formatted disk hzero i hi),
    fun i hi _ _ hp => absurd hp (present_formatted disk hzero i hi)⟩

theorem NoSharedChunks.markBit {disk : Disk} (h : NoSharedChunks disk) (chunk : Nat)
    (hchunk : chunk < 131072) : NoSharedChunks (markBit disk chunk) := by
  refine ⟨?_, ?_⟩
  · intro i hi hp
    rw [entryLocation_markBit _ _ _ hchunk, allocated_markBit _ _ _ hchunk,
      h.1 i hi ((present_markBit _ _ _ hchunk).mp hp), Bool.or_true]
  · intro i hi j hj hpi hpj hne
    rw [entryLocation_markBit _ _ _ hchunk, entryLocation_markBit _ _ _ hchunk]
    exact h.2 i hi j hj ((present_markBit _ _ _ hchunk).mp hpi)
      ((present_markBit _ _ _ hchunk).mp hpj) hne

-- A written record is harmless when it has no name, or when its chunk is
-- allocated and no named entry has it yet.
theorem NoSharedChunks.writeEntry {disk : Disk} (h : NoSharedChunks disk) (stack : Buffer)
    (name : CString) (available_chunk file_index : Nat) (hchunk : available_chunk < 131072)
    (hnamed : name.bytes ≠ [] → allocated disk available_chunk = true ∧
      ∀ i < 64, present disk i → entryLocation disk i ≠ available_chunk) :
    NoSharedChunks
      (writeEntry disk file_index (newMetadata stack name available_chunk).image) := by
  refine ⟨?_, ?_⟩
  · intro i hi hp
    rw [newMetadata_location _ _ _ _ _ _ hchunk, allocated_writeEntry]
    by_cases hsame : i = file_index
    · subst i
      rw [if_pos rfl]
      exact (hnamed ((newMetadata_present _ _ _ _ _).mp hp)).1
    · rw [if_neg hsame]
      exact h.1 i hi ((present_writeEntry_of_ne _ _ _ _ hsame).mp hp)
  · intro i hi j hj hpi hpj hne
    rw [newMetadata_location _ _ _ _ _ _ hchunk, newMetadata_location _ _ _ _ _ _ hchunk]
    by_cases hsi : i = file_index
    · subst i
      have hsj : ¬j = file_index := fun he => hne he.symm
      rw [if_pos rfl, if_neg hsj]
      exact ((hnamed ((newMetadata_present _ _ _ _ _).mp hpi)).2 j hj
        ((present_writeEntry_of_ne _ _ _ _ hsj).mp hpj)).symm
    · rw [if_neg hsi]
      have hpi' := (present_writeEntry_of_ne _ _ _ _ hsi).mp hpi
      by_cases hsj : j = file_index
      · subst j
        rw [if_pos rfl]
        exact (hnamed ((newMetadata_present _ _ _ _ _).mp hpj)).2 i hi hpi'
      · rw [if_neg hsj]
        exact h.2 i hi j hj hpi' ((present_writeEntry_of_ne _ _ _ _ hsj).mp hpj) hne

variable {σ : Type} (ide : IdeDriver σ) (handle : SknyHandle)

def createStep (s : σ) (call : Buffer × CString) (t : σ) : Prop :=
  t = (sknyCreateFile ide handle call.1 call.2 s).1

-- Both disks that a call goes through: after the mark and after the metadata.
def KeepsChunksApart (s : σ) (_call : Buffer × CString) (t : σ) : Prop :=
  (∀ available_chunk file_index u, Found ide handle s available_chunk file_index u →
    NoSharedChunks
      (ide.contents (markChunkAsUsed ide handle u available_chunk).1 handle.drive)) ∧
  NoSharedChunks (ide.contents t handle.drive)

-- The driver does not refuse the mark of a named file whose metadata it writes.
def MarksWhatItNames (s : σ) (call : Buffer × CString) (_t : σ) : Prop :=
  ∀ available_chunk file_index u, Found ide handle s available_chunk file_index u →
    call.2.bytes ≠ [] →
    MetadataTransferred ide handle (markChunkAsUsed ide handle u available_chunk).1 file_index
      (newMetadata call.1 call.2 available_chunk) →
    MarkTransferred ide handle u available_chunk

variable {ide}

theorem NoSharedChunks.mark {s u : σ} (hide : ide.Transfers)
    (h : NoSharedChunks (ide.contents s handle.drive)) (available_chunk file_index : Nat)
    (hfound : Found ide handle s available_chunk file_index u) :
    NoSharedChunks
      (ide.contents (markChunkAsUsed ide handle u available_chunk).1 handle.drive) := by
  obtain ⟨-, ⟨hchunk, -⟩, -⟩ := found_spec handle hide s u available_chunk file_index hfound
  obtain ⟨hdone, hfailed⟩ := contents_mark handle hide s u available_chunk file_index hfound
  by_cases hmark : MarkTransferred ide handle u available_chunk
  · rw [hdone hmark]
    exact h.markBit available_chunk hchunk
  · rw [hfailed hmark]
    exact h

-- A call finds a free chunk and a free entry, or leaves every disk as it was.
theorem createStep_cases (hide : ide.Transfers) {s t : σ} {call : Buffer × CString}
    (hstep : createStep ide handle s call t) :
    (∃ available_chunk file_index u, Found ide handle s available_chunk file_index u ∧
      available_chunk < 131072 ∧
      allocated (ide.contents s handle.drive) available_chunk = false ∧
      t = (sknyCreateFile ide handle call.1 call.2 s).1) ∨
    ide.contents t = ide.contents s := by
  unfold createStep at hstep
  by_cases hfound : ∃ available_chunk file_index u, Found ide handle s available_chunk file_index u
  · obtain ⟨available_chunk, file_index, u, hfound⟩ := hfound
    obtain ⟨-, ⟨hchunk, hclear, -⟩, -⟩ :=
      found_spec handle hide s u available_chunk file_index hfound
    exact .inl ⟨available_chunk, file_index, u, hfound, hchunk, hclear, hstep⟩
  · have hall : ∀ available_chunk file_index u,
        ¬Found ide handle s available_chunk file_index u :=
      fun available_chunk file_index u hf => hfound ⟨available_chunk, file_index, u, hf⟩
    rw [hstep]
    exact .inr (sknyCreateFile_not_found handle hide call.1 call.2 s hall).1

theorem createStep_keeps (hide : ide.Transfers) (s : σ) (call : Buffer × CString) (t : σ)
    (h : NoSharedChunks (ide.contents s handle.drive)) (hstep : createStep ide handle s call t)
    (hmarks : MarksWhatItNames ide handle s call t) :
    NoSharedChunks (ide.contents t handle.drive) := by
  obtain ⟨stack, name⟩ := call
  rcases createStep_cases handle hide hstep with
    ⟨available_chunk, file_index, u, hfound, hchunk, hclear, rfl⟩ | hsame
  · have hmarked := h.mark handle hide available_chunk file_index hfound
    obtain ⟨hwritten, hunwritten⟩ :=
      contents_create handle hide stack name s u available_chunk file_index hfound
    by_cases hmeta : MetadataTransferred ide handle
        (markChunkAsUsed ide handle u available_chunk).1 file_index
        (newMetadata stack name available_chunk)
    · rw [hwritten hmeta]
      apply hmarked.writeEntry stack name available_chunk file_index hchunk
      intro hname
      have hmark := hmarks available_chunk file_index u hfound hname hmeta
      rw [(contents_mark handle hide s u available_chunk file_index hfound).1 hmark]
      refine ⟨by rw [allocated_markBit _ _ _ hchunk]; simp, ?_⟩
      intro i hi hp he
      -- A named entry's chunk was allocated, the chunk found was not.
      rw [entryLocation_markBit _ _ _ hchunk] at he
      have hbit := h.1 i hi ((present_markBit _ _ _ hchunk).mp hp)
      rw [he, hclear] at hbit
      cases hbit
    · rw [hunwritten hmeta]
      exact hmarked
  · rw [hsame]
    exact h

-- A named record whose mark was refused points at a chunk that is still free.
theorem createStep_breaks (hide : ide.Transfers) (s u : σ) (stack : Buffer) (name : CString)
    (available_chunk file_index : Nat)
    (hfound : Found ide handle s available_chunk file_index u) (hname : name.bytes ≠ [])
    (hmeta : MetadataTransferred ide handle (markChunkAsUsed ide handle u available_chunk).1
      file_index (newMetadata stack name available_chunk))
    (hmark : ¬MarkTransferred ide handle u available_chunk) :
    ¬NoSharedChunks (ide.contents (sknyCreateFile ide handle stack name s).1 handle.drive) := by
  obtain ⟨-, ⟨hchunk, hclear, -⟩, hindex, -⟩ :=
    found_spec handle hide s u available_chunk file_index hfound
  rw [(contents_create handle hide stack name s u available_chunk file_index hfound).1 hmeta,
    (contents_mark handle hide s u available_chunk file_index hfound).2 hmark]
  intro h
  have hbit := h.1 file_index hindex ((newMetadata_present _ _ _ _ _).mpr hname)
  rw [newMetadata_location _ _ _ _ _ _ hchunk, if_pos rfl, allocated_writeEntry, hclear] at hbit
  cases hbit

theorem keepsChunksApart_iff (hide : ide.Transfers) (s : σ) (call : Buffer × CString) (t : σ)
    (h : NoSharedChunks (ide.contents s handle.drive)) (hstep : createStep ide handle s call t) :
    KeepsChunksApart ide handle s call t ↔ MarksWhatItNames ide handle s call t := by
  constructor
  · intro hkeeps available_chunk file_index u hfound hname hmeta
    by_contra hmark
    have hbreaks := createStep_breaks handle hide s u call.1 call.2 available_chunk file_index
      hfound hname hmeta hmark
    rw [← show t = (sknyCreateFile ide handle call.1 call.2 s).1 from hstep] at hbreaks
    exact hbreaks hkeeps.2
  · intro hmarks
    exact ⟨fun available_chunk file_index u hfound =>
      h.mark handle hide available_chunk file_index hfound,
      createStep_keeps handle hide s call t h hstep hmarks⟩

-- Over whole runs of calls from a fresh filesystem, with any I/O failures.
theorem chunks_apart_iff (hide : ide.Transfers) (drive : UInt8) (s₀ s : σ)
    (hformat : sknyCreateFilesystem ide drive s₀ = (handle, s, .SKNY_STATUS_OK))
    (trace : List ((Buffer × CString) × σ)) (hrun : Along (createStep ide handle) s trace) :
    (NoSharedChunks (ide.contents s handle.drive) ∧
      Along (KeepsChunksApart ide handle) s trace) ↔
    Along (MarksWhatItNames ide handle) s trace := by
  obtain ⟨hdrive, hcontents⟩ := sknyCreateFilesystem_done handle hide drive s₀ s hformat
  have hfresh : NoSharedChunks (ide.contents s handle.drive) := by
    apply NoSharedChunks.formatted
    intro x hx
    rw [hdrive, hcontents x, if_pos hx]
  have hiff := along_iff (fun s => NoSharedChunks (ide.contents s handle.drive))
    (createStep_keeps handle hide) (keepsChunksApart_iff handle hide) hfresh hrun
  exact ⟨fun h => hiff.mp h.2, fun h => ⟨hfresh, hiff.mpr h⟩⟩

-- A drive that refuses every write of two sectors at the start of the disk:
-- formatting succeeds, the mark of chunk 0 never does.
def refusesMark (num_sectors location : Nat) : Bool := num_sectors == 2 && location == 0

def letterA : CString := { bytes := [97], no_nul := by simp }

theorem formatted_found (refuses : Nat → Nat → Bool) (s : UInt8 → Disk)
    (hzero : ∀ x < 32768, s 0 x = 0) :
    ∃ file_index u, Found (memoryDrive refuses) firstDrive s 0 file_index u := by
  have hclear (n : Nat) : allocated ((memoryDrive refuses).contents s firstDrive.drive) n =
      false := allocated_formatted (s 0) hzero n
  obtain ⟨chunk, index, u, hfound⟩ := exists_found firstDrive (memoryDrive_transfers refuses)
    (memoryDrive_reads refuses) s 0 0 (by omega) (hclear 0) (by omega)
    (present_formatted (s 0) hzero 0 (by omega))
  obtain ⟨-, ⟨-, -, hfirst⟩, -⟩ :=
    found_spec firstDrive (memoryDrive_transfers refuses) s u chunk index hfound
  have hchunk : chunk = 0 := by
    by_contra hne
    have hbit := hfirst 0 (by omega)
    rw [hclear 0] at hbit
    cases hbit
  subst chunk
  exact ⟨index, u, hfound⟩

theorem memoryDrive_formats (refuses : Nat → Nat → Bool) (s₀ : UInt8 → Disk)
    (hone : ∀ location, refuses 1 location = false) :
    ∃ s, sknyCreateFilesystem (memoryDrive refuses) 0 s₀ =
      (firstDrive, s, .SKNY_STATUS_OK) ∧ ∀ x < 32768, s 0 x = 0 := by
  have hwrite (s : UInt8 → Disk) (drive : UInt8) (location : Nat) (buffer : Buffer) :
      ((memoryDrive refuses).ideWriteSectors s drive 1 location buffer).2 = true := by
    simp [memoryDrive, hone location]
  obtain ⟨s, hs⟩ := sknyCreateFilesystem_ok hwrite 0 s₀
  obtain ⟨-, hcontents⟩ := sknyCreateFilesystem_done _ (memoryDrive_transfers refuses) 0 s₀ s hs
  refine ⟨s, hs, ?_⟩
  intro x hx
  exact (hcontents x).trans (if_pos hx)

theorem memoryDrive_transferred (refuses : Nat → Nat → Bool) (location : Nat)
    (change : Buffer → Buffer) (s : UInt8 → Disk) :
    Transferred (memoryDrive refuses) firstDrive location change s ↔
      refuses 2 location = false := by
  have hsectors : SECTORS_PER_CHUNK = 2 := rfl
  cases hr : refuses 2 location <;>
    simp [Transferred, memoryDrive, hsectors, hr]

-- Two files on the drive that refuses the mark.
theorem chunks_apart_iff_two_files :
    ∃ s,
      let first := (sknyCreateFile (memoryDrive refusesMark) firstDrive (fun _ => 0) letterA s).1
      let second :=
        (sknyCreateFile (memoryDrive refusesMark) firstDrive (fun _ => 1) letterA first).1
      (NoSharedChunks (s 0) ∧
        Along (KeepsChunksApart (memoryDrive refusesMark) firstDrive) s
          [((fun _ => 0, letterA), first), ((fun _ => 1, letterA), second)]) ↔
        Along (MarksWhatItNames (memoryDrive refusesMark) firstDrive) s
          [((fun _ => 0, letterA), first), ((fun _ => 1, letterA), second)] := by
  obtain ⟨s, hs, -⟩ := memoryDrive_formats refusesMark blankDisks (fun _ => rfl)
  exact ⟨s, chunks_apart_iff firstDrive (memoryDrive_transfers refusesMark) 0 blankDisks s hs _
    ⟨rfl, rfl, trivial⟩⟩

theorem named_file_on_free_chunk :
    (memoryDrive refusesMark).Transfers ∧
    ∃ s, sknyCreateFilesystem (memoryDrive refusesMark) 0 blankDisks =
      (firstDrive, s, .SKNY_STATUS_OK) ∧
      ¬NoSharedChunks ((memoryDrive refusesMark).contents
        (sknyCreateFile (memoryDrive refusesMark) firstDrive (fun _ => 0) letterA s).1
        firstDrive.drive) := by
  refine ⟨memoryDrive_transfers refusesMark, ?_⟩
  obtain ⟨s, hs, hzero⟩ := memoryDrive_formats refusesMark blankDisks (fun _ => rfl)
  obtain ⟨index, u, hfound⟩ := formatted_found refusesMark s hzero
  refine ⟨s, hs, ?_⟩
  refine createStep_breaks firstDrive (memoryDrive_transfers refusesMark) s u (fun _ => 0)
    letterA 0 index hfound (by simp [letterA]) ?_ ?_
  · rw [MetadataTransferred, memoryDrive_transferred]
    have hlocation : fileChunkLocation index = 16384 + index / 4 * 1024 := rfl
    simp [refusesMark, hlocation]
  · rw [MarkTransferred, memoryDrive_transferred]
    have hlocation : mapChunkLocation 0 = 0 := by decide
    simp [refusesMark, hlocation]

end Chunks

-- What a call reports against what is on the disk afterwards.
section Reports

-- The entry reads as the C string `name`, cut to 251 bytes.
def HoldsName (disk : Disk) (name : CString) (file_index : Nat) : Prop :=
  present disk file_index ∧
    ∀ k ≤ min name.bytes.length 251, entryByte disk file_index k = storedName name k

theorem HoldsName.bytes_ne_nil {disk : Disk} {name : CString} {file_index : Nat}
    (h : HoldsName disk name file_index) : name.bytes ≠ [] := by
  rw [← storedName_zero_iff, ← h.2 0 (Nat.zero_le _)]
  exact h.1

theorem holdsName_markBit (disk : Disk) (name : CString) (chunk file_index : Nat)
    (hchunk : chunk < 131072) :
    HoldsName (markBit disk chunk) name file_index ↔ HoldsName disk name file_index := by
  simp only [HoldsName, present_markBit _ _ _ hchunk, entryByte_markBit _ _ _ _ hchunk]

theorem holdsName_writeEntry_of_ne (disk : Disk) (name : CString) (file_index other : Nat)
    (image : Buffer) (hother : other ≠ file_index) :
    HoldsName (writeEntry disk file_index image) name other ↔ HoldsName disk name other := by
  unfold HoldsName
  rw [present_writeEntry_of_ne _ _ _ _ hother]
  apply and_congr_right
  intro _
  constructor
  · intro h k hk
    rw [← h k hk, entryByte_writeEntry _ _ _ _ _ (by omega), if_neg hother]
  · intro h k hk
    rw [← h k hk, entryByte_writeEntry _ _ _ _ _ (by omega), if_neg hother]

theorem holdsName_newMetadata (disk : Disk) (stack : Buffer) (name : CString)
    (available_chunk file_index : Nat) :
    HoldsName (writeEntry disk file_index (newMetadata stack name available_chunk).image) name
      file_index ↔ name.bytes ≠ [] := by
  constructor
  · exact HoldsName.bytes_ne_nil
  · intro hname
    exact ⟨(newMetadata_present _ _ _ _ _).mpr hname,
      fun k hk => newMetadata_entry _ _ _ _ _ _ (by omega)⟩

variable {σ : Type} (ide : IdeDriver σ) (handle : SknyHandle)

def Stored (disk : Disk) (name : CString) : Prop :=
  ∃ i < 64, HoldsName disk name i ∧ allocated disk (entryLocation disk i) = true

-- A success means that the file is there, a failure that nothing happened.
def ReportsTruly (stack : Buffer) (name : CString) (s : σ) : Prop :=
  ((sknyCreateFile ide handle stack name s).2 = .SKNY_STATUS_OK →
    Stored (ide.contents (sknyCreateFile ide handle stack name s).1 handle.drive) name) ∧
  ((sknyCreateFile ide handle stack name s).2 ≠ .SKNY_STATUS_OK →
    ide.contents (sknyCreateFile ide handle stack name s).1 = ide.contents s)

-- The name is not empty, and both updates go through or an entry of that name
-- stands on the disk already, on a chunk that is allocated or gets allocated.
def WritesWhatItReports (stack : Buffer) (name : CString) (s : σ) : Prop :=
  ∀ available_chunk file_index u, Found ide handle s available_chunk file_index u →
    name.bytes ≠ [] ∧
    ((MarkTransferred ide handle u available_chunk ∧
        MetadataTransferred ide handle (markChunkAsUsed ide handle u available_chunk).1 file_index
          (newMetadata stack name available_chunk)) ∨
      ∃ i < 64, HoldsName (ide.contents s handle.drive) name i ∧
        (allocated (ide.contents s handle.drive)
            (entryLocation (ide.contents s handle.drive) i) = true ∨
          MarkTransferred ide handle u available_chunk ∧
            entryLocation (ide.contents s handle.drive) i = available_chunk))

variable {ide}

theorem stored_markBit (disk : Disk) (name : CString) (chunk : Nat) (hchunk : chunk < 131072) :
    Stored (markBit disk chunk) name ↔ ∃ i < 64, HoldsName disk name i ∧
      (allocated disk (entryLocation disk i) = true ∨ entryLocation disk i = chunk) := by
  simp only [Stored, holdsName_markBit _ _ _ _ hchunk, entryLocation_markBit _ _ _ hchunk,
    allocated_markBit _ _ _ hchunk, Bool.or_eq_true, decide_eq_true_eq, or_comm]

-- The record written is the only entry that changes.
theorem stored_writeEntry (disk : Disk) (stack : Buffer) (name : CString)
    (available_chunk file_index : Nat) (hchunk : available_chunk < 131072) (hindex : file_index < 64)
    (hempty : ¬present disk file_index) :
    Stored (writeEntry disk file_index (newMetadata stack name available_chunk).image) name ↔
      (name.bytes ≠ [] ∧ allocated disk available_chunk = true) ∨ Stored disk name := by
  constructor
  · rintro ⟨i, hi, hholds, hbit⟩
    rw [newMetadata_location _ _ _ _ _ _ hchunk, allocated_writeEntry] at hbit
    by_cases hsame : i = file_index
    · subst i
      rw [if_pos rfl] at hbit
      exact Or.inl ⟨hholds.bytes_ne_nil, hbit⟩
    · rw [if_neg hsame] at hbit
      exact Or.inr ⟨i, hi, (holdsName_writeEntry_of_ne _ _ _ _ _ hsame).mp hholds, hbit⟩
  · rintro (⟨hname, hbit⟩ | ⟨i, hi, hholds, hbit⟩)
    · refine ⟨file_index, hindex, (holdsName_newMetadata _ _ _ _ _).mpr hname, ?_⟩
      rw [newMetadata_location _ _ _ _ _ _ hchunk, allocated_writeEntry, if_pos rfl]
      exact hbit
    · have hsame : i ≠ file_index := by
        intro he
        rw [he] at hholds
        exact hempty hholds.1
      refine ⟨i, hi, (holdsName_writeEntry_of_ne _ _ _ _ _ hsame).mpr hholds, ?_⟩
      rw [newMetadata_location _ _ _ _ _ _ hchunk, allocated_writeEntry, if_neg hsame]
      exact hbit

theorem stored_create (hide : ide.Transfers) (stack : Buffer) (name : CString) (s u : σ)
    (available_chunk file_index : Nat)
    (hfound : Found ide handle s available_chunk file_index u) :
    Stored (ide.contents (sknyCreateFile ide handle stack name s).1 handle.drive) name ↔
      name.bytes ≠ [] ∧
      ((MarkTransferred ide handle u available_chunk ∧
          MetadataTransferred ide handle (markChunkAsUsed ide handle u available_chunk).1
            file_index (newMetadata stack name available_chunk)) ∨
        ∃ i < 64, HoldsName (ide.contents s handle.drive) name i ∧
          (allocated (ide.contents s handle.drive)
              (entryLocation (ide.contents s handle.drive) i) = true ∨
            MarkTransferred ide handle u available_chunk ∧
              entryLocation (ide.contents s handle.drive) i = available_chunk)) := by
  obtain ⟨-, ⟨hchunk, hclear, -⟩, hindex, hempty, -⟩ :=
    found_spec handle hide s u available_chunk file_index hfound
  obtain ⟨hmarked, hunmarked⟩ := contents_mark handle hide s u available_chunk file_index hfound
  obtain ⟨hwritten, hunwritten⟩ :=
    contents_create handle hide stack name s u available_chunk file_index hfound
  -- An entry that holds the name shows that the name is not empty.
  have hnamed {disk : Disk} {Q : Nat → Prop}
      (h : ∃ i < 64, HoldsName disk name i ∧ Q i) : name.bytes ≠ [] := by
    obtain ⟨i, -, hholds, -⟩ := h
    exact hholds.bytes_ne_nil
  by_cases hmark : MarkTransferred ide handle u available_chunk
  · have hbit : allocated (markBit (ide.contents s handle.drive) available_chunk)
        available_chunk = true := by
      rw [allocated_markBit _ _ _ hchunk]
      simp
    by_cases hmeta : MetadataTransferred ide handle
        (markChunkAsUsed ide handle u available_chunk).1 file_index
        (newMetadata stack name available_chunk)
    · rw [hwritten hmeta, hmarked hmark, stored_writeEntry _ _ _ _ _ hchunk hindex
        (fun hp => hempty ((present_markBit _ _ _ hchunk).mp hp))]
      constructor
      · rintro (⟨hname, -⟩ | hstored)
        · exact ⟨hname, Or.inl ⟨hmark, hmeta⟩⟩
        · exact ⟨hnamed hstored, Or.inl ⟨hmark, hmeta⟩⟩
      · rintro ⟨hname, -⟩
        exact Or.inl ⟨hname, hbit⟩
    · rw [hunwritten hmeta, hmarked hmark, stored_markBit _ _ _ hchunk]
      simp only [hmark, hmeta, and_false, false_or, true_and]
      exact ⟨fun h => ⟨hnamed h, h⟩, fun h => h.2⟩
  · by_cases hmeta : MetadataTransferred ide handle
        (markChunkAsUsed ide handle u available_chunk).1 file_index
        (newMetadata stack name available_chunk)
    · rw [hwritten hmeta, hunmarked hmark, stored_writeEntry _ _ _ _ _ hchunk hindex hempty]
      simp only [hmark, hclear, false_and, false_or, or_false, Bool.false_eq_true, and_false]
      exact ⟨fun h => ⟨hnamed h, h⟩, fun h => h.2⟩
    · rw [hunwritten hmeta, hunmarked hmark]
      simp only [hmark, false_and, false_or, or_false]
      exact ⟨fun h => ⟨hnamed h, h⟩, fun h => h.2⟩

theorem reports_truly_iff (hide : ide.Transfers) (stack : Buffer) (name : CString) (s : σ) :
    ReportsTruly ide handle stack name s ↔ WritesWhatItReports ide handle stack name s := by
  constructor
  · rintro ⟨htrue, -⟩ available_chunk file_index u hfound
    rw [← stored_create handle hide stack name s u available_chunk file_index hfound]
    apply htrue
    rw [sknyCreateFile_found handle stack name s u available_chunk file_index hfound]
  · intro hwrites
    by_cases hfound : ∃ available_chunk file_index u,
        Found ide handle s available_chunk file_index u
    · obtain ⟨available_chunk, file_index, u, hfound⟩ := hfound
      refine ⟨fun _ => ?_, fun hne => ?_⟩
      · rw [stored_create handle hide stack name s u available_chunk file_index hfound]
        exact hwrites available_chunk file_index u hfound
      · rw [sknyCreateFile_found handle stack name s u available_chunk file_index hfound] at hne
        exact absurd rfl hne
    · have hall : ∀ available_chunk file_index u,
          ¬Found ide handle s available_chunk file_index u :=
        fun available_chunk file_index u hf => hfound ⟨available_chunk, file_index, u, hf⟩
      obtain ⟨hsame, hne, -⟩ := sknyCreateFile_not_found handle hide stack name s hall
      exact ⟨fun hok => absurd hok hne, fun _ => hsame⟩

theorem reports_truly_iff_blank :
    ReportsTruly (memoryDrive fun _ _ => false) firstDrive (fun _ => 0) letterA blankDisks ↔
      WritesWhatItReports (memoryDrive fun _ _ => false) firstDrive (fun _ => 0) letterA
        blankDisks :=
  reports_truly_iff firstDrive (memoryDrive_transfers _) (fun _ => 0) letterA blankDisks

-- Every write is refused, and the call still reports success.
theorem success_without_file :
    (memoryDrive fun _ _ => true).Transfers ∧
    ¬ReportsTruly (memoryDrive fun _ _ => true) firstDrive (fun _ => 0) letterA blankDisks := by
  refine ⟨memoryDrive_transfers _, ?_⟩
  rintro ⟨htrue, -⟩
  obtain ⟨index, u, hfound⟩ := formatted_found (fun _ _ => true) blankDisks (fun _ _ => rfl)
  have hok := htrue (by
    rw [sknyCreateFile_found firstDrive (fun _ => 0) letterA blankDisks u 0 index hfound])
  obtain ⟨-, hcases⟩ := (stored_create firstDrive (memoryDrive_transfers _) (fun _ => 0)
    letterA blankDisks u 0 index hfound).mp hok
  rcases hcases with ⟨hmark, -⟩ | ⟨i, hi, hholds, -⟩
  · rw [MarkTransferred, memoryDrive_transferred] at hmark
    cases hmark
  · exact present_formatted _ (fun _ _ => rfl) i hi hholds.1

end Reports

-- Runs of calls on a drive that never fails.
section FaultFree

variable {σ : Type} (ide : IdeDriver σ) (handle : SknyHandle)

-- The state after the first calls of a sequence.
def afterCreates (calls : Nat → Buffer × CString) (s : σ) : Nat → σ
  | 0 => s
  | k + 1 => (sknyCreateFile ide handle (calls k).1 (calls k).2 (afterCreates calls s k)).1

-- The first `k` records and the first `k` chunks are in use, and nothing else.
def Filled (disk : Disk) (k : Nat) : Prop :=
  (∀ n, allocated disk n = decide (n < k)) ∧ ∀ i < 64, present disk i ↔ i < k

-- One call writes the next record, for the chunk of the same number.
def Advances (disk disk' : Disk) (name : CString) (k : Nat) : Prop :=
  (∀ b < 252, entryByte disk' k b = storedName name b) ∧ entryLocation disk' k = k ∧
  (∀ i < 64, i ≠ k → ∀ b < 256, entryByte disk' i b = entryByte disk i b) ∧
  (∀ n < 131072, allocated disk' n = true ↔ n ≤ k) ∧ ∀ x, 32768 ≤ x → disk' x = disk x

variable {ide}

theorem Filled.formatted (disk : Disk) (hzero : ∀ x < 32768, disk x = 0) : Filled disk 0 := by
  refine ⟨?_, ?_⟩
  · intro n
    rw [allocated_formatted disk hzero n]
    simp
  · intro i hi
    exact iff_of_false (present_formatted disk hzero i hi) (by omega)

-- The searches of a filled disk find record `k` and chunk `k`.
theorem Filled.found (hide : ide.Transfers) (hreads : ide.ReadsSucceed) (s : σ) (k : Nat)
    (h : Filled (ide.contents s handle.drive) k) (hk : k < 64) :
    ∃ u, Found ide handle s k k u := by
  obtain ⟨chunk, index, u, hfound⟩ := exists_found handle hide hreads s k k (by omega)
    (by rw [h.1 k]; simp) hk (fun hp => absurd ((h.2 k hk).mp hp) (Nat.lt_irrefl k))
  obtain ⟨-, ⟨-, hclear, hchunks⟩, hindex, hempty, hrecords⟩ :=
    found_spec handle hide s u chunk index hfound
  rw [h.1 chunk] at hclear
  have hchunk : chunk = k := by
    by_contra hne
    have hbit := hchunks k (by have := of_decide_eq_false hclear; omega)
    rw [h.1 k] at hbit
    simp at hbit
  have hrecord : index = k := by
    by_contra hne
    rw [h.2 index hindex] at hempty
    exact absurd ((h.2 k hk).mp (hrecords k (by omega))) (Nat.lt_irrefl k)
  subst chunk index
  exact ⟨u, hfound⟩

theorem Filled.create (hide : ide.Transfers) (hnever : ide.NeverFails) (stack : Buffer)
    (name : CString) (hname : name.bytes ≠ []) (s : σ) (k : Nat)
    (h : Filled (ide.contents s handle.drive) k) (hk : k < 64) :
    (sknyCreateFile ide handle stack name s).2 = .SKNY_STATUS_OK ∧
    Advances (ide.contents s handle.drive)
      (ide.contents (sknyCreateFile ide handle stack name s).1 handle.drive) name k ∧
    Filled (ide.contents (sknyCreateFile ide handle stack name s).1 handle.drive) (k + 1) := by
  obtain ⟨u, hfound⟩ := h.found handle hide hnever.read s k hk
  have hok : (sknyCreateFile ide handle stack name s).2 = .SKNY_STATUS_OK := by
    rw [sknyCreateFile_found handle stack name s u k k hfound]
  have hdisk := contents_create_done handle hide hnever stack name s u k k hfound
  have hk' : k < 131072 := by omega
  have hbit (n : Nat) : allocated
      (ide.contents (sknyCreateFile ide handle stack name s).1 handle.drive) n =
        decide (n < k + 1) := by
    rw [hdisk, allocated_writeEntry, allocated_markBit _ _ _ hk', h.1 n, ← Bool.decide_or]
    exact decide_eq_decide.mpr (by omega)
  refine ⟨hok, ⟨?_, ?_, ?_, ?_, ?_⟩, hbit, ?_⟩
  · intro b hb
    rw [hdisk]
    exact newMetadata_entry _ _ _ _ _ _ hb
  · rw [hdisk, newMetadata_location _ _ _ _ _ _ hk', if_pos rfl]
  · intro i _ hne b hb
    rw [hdisk, entryByte_writeEntry _ _ _ _ _ hb, if_neg hne, entryByte_markBit _ _ _ _ hk']
  · intro n _
    rw [hbit n, decide_eq_true_eq]
    omega
  · intro x hx
    rw [hdisk, writeEntry_outside _ _ _ _ hk hx, markBit_outside _ _ _ hk' (by omega)]
  · intro i hi
    rw [hdisk]
    by_cases hsame : i = k
    · subst i
      rw [newMetadata_present]
      exact iff_of_true hname (by omega)
    · rw [present_writeEntry_of_ne _ _ _ _ hsame, present_markBit _ _ _ hk', h.2 i hi]
      omega

theorem Filled.full (hide : ide.Transfers) (hreads : ide.ReadsSucceed) (stack : Buffer)
    (name : CString) (s : σ) (h : Filled (ide.contents s handle.drive) 64) :
    (sknyCreateFile ide handle stack name s).2 = .SKNY_FILESYSTEM_FULL ∧
    ide.contents (sknyCreateFile ide handle stack name s).1 = ide.contents s := by
  have hall : ∀ chunk index u, ¬Found ide handle s chunk index u := by
    intro chunk index u hfound
    obtain ⟨-, -, hindex, hempty, -⟩ := found_spec handle hide s u chunk index hfound
    exact hempty ((h.2 index hindex).mpr hindex)
  obtain ⟨hsame, -, hfull⟩ := sknyCreateFile_not_found handle hide stack name s hall
  exact ⟨(hfull hreads).1, hsame⟩

theorem filled_afterCreates (hide : ide.Transfers) (hnever : ide.NeverFails)
    (calls : Nat → Buffer × CString) (hnames : ∀ k, (calls k).2.bytes ≠ []) (s : σ)
    (hzero : ∀ x < 32768, ide.contents s handle.drive x = 0) (k : Nat) :
    Filled (ide.contents (afterCreates ide handle calls s k) handle.drive) (min k 64) ∧
    ∀ x, 32768 ≤ x → ide.contents (afterCreates ide handle calls s k) handle.drive x =
      ide.contents s handle.drive x := by
  induction k with
  | zero => exact ⟨Filled.formatted _ hzero, fun _ _ => rfl⟩
  | succ k ih =>
      obtain ⟨hfilled, hstorage⟩ := ih
      rw [afterCreates]
      by_cases hk : k < 64
      · rw [show min k 64 = k by omega] at hfilled
        obtain ⟨-, ⟨-, -, -, -, hkept⟩, hnext⟩ := hfilled.create handle hide hnever (calls k).1
          (calls k).2 (hnames k) _ k hk
        rw [show min (k + 1) 64 = k + 1 by omega]
        exact ⟨hnext, fun x hx => (hkept x hx).trans (hstorage x hx)⟩
      · rw [show min k 64 = 64 by omega] at hfilled
        rw [show min (k + 1) 64 = 64 by omega,
          (hfilled.full handle hide hnever.read (calls k).1 (calls k).2 _).2]
        exact ⟨hfilled, hstorage⟩

theorem fault_free_run (hide : ide.Transfers) (hnever : ide.NeverFails) (drive : UInt8) (s₀ : σ) :
    ∃ s, sknyCreateFilesystem ide drive s₀ = ({ drive := drive }, s, .SKNY_STATUS_OK) ∧
    ∀ calls : Nat → Buffer × CString, (∀ k, (calls k).2.bytes ≠ []) → ∀ k,
      let before := afterCreates ide { drive := drive } calls s k
      let outcome := sknyCreateFile ide { drive := drive } (calls k).1 (calls k).2 before
      (k < 64 → outcome.2 = .SKNY_STATUS_OK ∧
        Advances (ide.contents before drive) (ide.contents outcome.1 drive) (calls k).2 k) ∧
      (64 ≤ k → outcome.2 = .SKNY_FILESYSTEM_FULL ∧
        ide.contents outcome.1 = ide.contents before) ∧
      ∀ x, 32768 ≤ x → ide.contents outcome.1 drive x = ide.contents s₀ drive x := by
  obtain ⟨s, hs⟩ := sknyCreateFilesystem_ok
    (fun s drive location buffer => hnever.write s drive 1 location buffer) drive s₀
  obtain ⟨-, hcontents⟩ := sknyCreateFilesystem_done _ hide drive s₀ s hs
  have hzero (x : Nat) (hx : x < 32768) : ide.contents s drive x = 0 :=
    (hcontents x).trans (if_pos hx)
  refine ⟨s, hs, ?_⟩
  intro calls hnames k before outcome
  obtain ⟨hfilled, -⟩ :=
    filled_afterCreates { drive := drive } hide hnever calls hnames s hzero k
  obtain ⟨-, hstorage⟩ :=
    filled_afterCreates { drive := drive } hide hnever calls hnames s hzero (k + 1)
  refine ⟨?_, ?_, ?_⟩
  · intro hk
    rw [show min k 64 = k by omega] at hfilled
    obtain ⟨hok, hadvances, -⟩ := hfilled.create { drive := drive } hide hnever (calls k).1
      (calls k).2 (hnames k) _ k hk
    exact ⟨hok, hadvances⟩
  · intro hk
    rw [show min k 64 = 64 by omega] at hfilled
    exact hfilled.full { drive := drive } hide hnever.read (calls k).1 (calls k).2 _
  · intro x hx
    rw [← (hcontents x).trans (if_neg (by omega))]
    exact hstorage x hx

-- The first call, the second one and the one that finds the file map full.
theorem fault_free_run_memory :
    let ide := memoryDrive fun _ _ => false
    ∃ s, sknyCreateFilesystem ide 0 blankDisks = (firstDrive, s, .SKNY_STATUS_OK) ∧
      let before := afterCreates ide firstDrive (fun _ => (fun _ => 0, letterA)) s
      let outcome (k : Nat) := sknyCreateFile ide firstDrive (fun _ => 0) letterA (before k)
      (outcome 0).2 = .SKNY_STATUS_OK ∧ (outcome 1).2 = .SKNY_STATUS_OK ∧
        (outcome 64).2 = .SKNY_FILESYSTEM_FULL ∧
        ide.contents (outcome 64).1 = ide.contents (before 64) := by
  intro ide
  obtain ⟨s, hs, hrun⟩ := fault_free_run (memoryDrive_transfers _) memoryDrive_neverFails 0 blankDisks
  have hcalls := hrun (fun _ => (fun _ => 0, letterA)) (fun _ => by simp [letterA])
  exact ⟨s, hs, ((hcalls 0).1 (by decide)).1, ((hcalls 1).1 (by decide)).1,
    (hcalls 64).2.1 (by decide)⟩

-- Sixty-four records fill the file map: call number 64 is refused.
theorem file_map_full_at_64 :
    (memoryDrive fun _ _ => false).Transfers ∧ (memoryDrive fun _ _ => false).NeverFails ∧
    ∃ s, sknyCreateFilesystem (memoryDrive fun _ _ => false) 0 blankDisks =
        (firstDrive, s, .SKNY_STATUS_OK) ∧
      (sknyCreateFile (memoryDrive fun _ _ => false) firstDrive (fun _ => 0) letterA
        (afterCreates (memoryDrive fun _ _ => false) firstDrive
          (fun _ => (fun _ => 0, letterA)) s 64)).2 = .SKNY_FILESYSTEM_FULL := by
  refine ⟨memoryDrive_transfers _, memoryDrive_neverFails, ?_⟩
  obtain ⟨s, hs, hzero⟩ := memoryDrive_formats (fun _ _ => false) blankDisks (fun _ => rfl)
  have hfilled := (filled_afterCreates firstDrive (memoryDrive_transfers _) memoryDrive_neverFails
    (fun _ => (fun _ => 0, letterA)) (fun _ => by simp [letterA]) s hzero 64).1
  exact ⟨s, hs, (hfilled.full firstDrive (memoryDrive_transfers _) (memoryDrive_reads _)
    (fun _ => 0) letterA _).1⟩

end FaultFree

end PalleyOS.SknyFS
