import PalleyOS.SknyFS.Theorems

namespace PalleyOS.SknyFS

open Machine

section Chunks

-- The chunks of the two maps: those that formatting clears and the searches read.
def Metadata (chunk : Nat) : Prop := chunk < CHUNKS_IN_ALLOCATION_MAP + CHUNKS_IN_FILE_MAP

def FilesOffMetadata (disk : Disk) : Prop :=
  ∀ i < 64, present disk i → ¬Metadata (entryLocation disk i)

-- No file exists, and the chunks handed out so far are the first `k`.
def Unnamed (disk : Disk) (k : Nat) : Prop :=
  (∀ n, allocated disk n = decide (n < k)) ∧ ∀ i < 64, ¬present disk i

-- No chunk of the maps is left to hand out.
def Sealed (disk : Disk) : Prop :=
  (∀ n, Metadata n → allocated disk n = true) ∧ FilesOffMetadata disk

theorem Unnamed.formatted (disk : Disk) (hzero : ∀ x < 32768, disk x = 0) : Unnamed disk 0 := by
  refine ⟨fun n => ?_, present_formatted disk hzero⟩
  rw [allocated_formatted disk hzero n]
  simp

theorem Unnamed.off_metadata {disk : Disk} {k : Nat} (h : Unnamed disk k) :
    FilesOffMetadata disk := fun i hi hp => absurd hp (h.2 i hi)

theorem Unnamed.sealed {disk : Disk} (h : Unnamed disk 32) : Sealed disk := by
  refine ⟨fun n hn => ?_, h.off_metadata⟩
  rw [h.1 n]
  exact decide_eq_true hn

-- What a call that finds chunk `k` free writes.
theorem Unnamed.write {disk : Disk} {k : Nat} (h : Unnamed disk k) (hk : k < 131072)
    (stack : Buffer) (name : CString) (file_index : Nat) (hname : name.bytes = []) :
    Unnamed (writeEntry (markBit disk k) file_index (newMetadata stack name k).image) (k + 1) := by
  refine ⟨fun n => ?_, fun i hi hp => ?_⟩
  · rw [allocated_writeEntry, allocated_markBit _ _ _ hk, h.1 n, ← Bool.decide_or]
    exact decide_eq_decide.mpr (by omega)
  · by_cases hsame : i = file_index
    · subst i
      exact (newMetadata_present _ _ _ _ _).mp hp hname
    · rw [present_writeEntry_of_ne _ _ _ _ hsame, present_markBit _ _ _ hk] at hp
      exact h.2 i hi hp

theorem Sealed.write {disk : Disk} (h : Sealed disk) (available_chunk : Nat)
    (hchunk : available_chunk < 131072) (hclear : allocated disk available_chunk = false)
    (stack : Buffer) (name : CString) (file_index : Nat) :
    Sealed (writeEntry (markBit disk available_chunk) file_index
      (newMetadata stack name available_chunk).image) := by
  refine ⟨fun n hn => ?_, fun i hi hp => ?_⟩
  · rw [allocated_writeEntry, allocated_markBit _ _ _ hchunk, h.1 n hn, Bool.or_true]
  · rw [newMetadata_location _ _ _ _ _ _ hchunk]
    by_cases hsame : i = file_index
    · -- A chunk that was free is none of the maps'.
      rw [if_pos hsame]
      intro hmetadata
      rw [h.1 available_chunk hmetadata] at hclear
      cases hclear
    · rw [if_neg hsame, entryLocation_markBit _ _ _ hchunk]
      rw [present_writeEntry_of_ne _ _ _ _ hsame, present_markBit _ _ _ hchunk] at hp
      exact h.2 i hi hp

end Chunks

section Runs

variable {σ : Type} {ide : IdeDriver σ} (handle : SknyHandle)

theorem Unnamed.found (hide : ide.Transfers) (hreads : ide.ReadsSucceed) (s : σ) (k : Nat)
    (h : Unnamed (ide.contents s handle.drive) k) (hk : k < 131072) :
    ∃ index u, index < 64 ∧ Found ide handle s k index u := by
  have hfree : allocated (ide.contents s handle.drive) k = false := by
    rw [h.1 k]
    exact decide_eq_false (Nat.lt_irrefl k)
  obtain ⟨chunk, index, u, hfound⟩ :=
    exists_found handle hide hreads s k 0 hk hfree (by omega) (h.2 0 (by omega))
  obtain ⟨-, ⟨-, hclear, hchunks⟩, hindex, -⟩ := found_spec handle hide s u chunk index hfound
  rw [h.1 chunk] at hclear
  have hlow := of_decide_eq_false hclear
  have hchunk : chunk = k := by
    by_contra hne
    have hbit := hchunks k (by omega)
    rw [hfree] at hbit
    cases hbit
  subst chunk
  exact ⟨index, u, hindex, hfound⟩

theorem createStep_sealed (hide : ide.Transfers) (hnever : ide.NeverFails) (s : σ)
    (call : Buffer × CString) (t : σ) (h : Sealed (ide.contents s handle.drive))
    (hstep : createStep ide handle s call t) : Sealed (ide.contents t handle.drive) := by
  obtain ⟨stack, name⟩ := call
  rcases createStep_cases handle hide hstep with
    ⟨available_chunk, file_index, u, hfound, hchunk, hclear, rfl⟩ | hsame
  · rw [contents_create_done handle hide hnever stack name s u available_chunk file_index hfound]
    exact h.write available_chunk hchunk hclear stack name file_index
  · rw [hsame]
    exact h

theorem sealed_run (hide : ide.Transfers) (hnever : ide.NeverFails) (s : σ)
    (trace : List ((Buffer × CString) × σ)) (h : Sealed (ide.contents s handle.drive))
    (hrun : Along (createStep ide handle) s trace) :
    Along (fun _ _ t => FilesOffMetadata (ide.contents t handle.drive)) s trace := by
  induction trace generalizing s with
  | nil => trivial
  | cons entry rest ih =>
      obtain ⟨call, t⟩ := entry
      have hnext := createStep_sealed handle hide hnever s call t h hrun.1
      exact ⟨hnext.2, ih t hnext hrun.2⟩

-- The calls use up the chunks of the maps one by one, and the first of them that
-- names a file gives it one.
theorem unnamed_run (hide : ide.Transfers) (hnever : ide.NeverFails) (s : σ) (k : Nat)
    (hk : k ≤ 32) (trace : List ((Buffer × CString) × σ))
    (h : Unnamed (ide.contents s handle.drive) k) (hrun : Along (createStep ide handle) s trace) :
    Along (fun _ _ t => FilesOffMetadata (ide.contents t handle.drive)) s trace ↔
      ∀ entry ∈ trace.take (32 - k), entry.1.2.bytes = [] := by
  induction trace generalizing s k with
  | nil => simp
  | cons entry rest ih =>
      by_cases hlast : k = 32
      · subst k
        refine iff_of_true (sealed_run handle hide hnever s _ h.sealed hrun) (fun entry hentry => ?_)
        rw [Nat.sub_self, List.take_zero] at hentry
        cases hentry
      · obtain ⟨⟨stack, name⟩, t⟩ := entry
        obtain ⟨index, u, hindex, hfound⟩ := h.found handle hide hnever.read s k (by omega)
        have hdisk := contents_create_done handle hide hnever stack name s u k index hfound
        have hstep : t = (sknyCreateFile ide handle stack name s).1 := hrun.1
        rw [← hstep] at hdisk
        have hcount : 32 - k = (32 - (k + 1)) + 1 := by omega
        rw [hcount, List.take_succ_cons]
        by_cases hname : name.bytes = []
        · have hnext : Unnamed (ide.contents t handle.drive) (k + 1) := by
            rw [hdisk]
            exact h.write (by omega) stack name index hname
          have hrest := ih t (k + 1) (by omega) hnext hrun.2
          rw [along_cons, hrest, List.forall_mem_cons]
          exact ⟨fun hall => ⟨hname, hall.2⟩, fun hall => ⟨hnext.off_metadata, hall.2⟩⟩
        · refine iff_of_false (fun hall => ?_) (fun hall => hname (hall _ (List.mem_cons_self ..)))
          have hoff := hall.1 index hindex
          rw [hdisk, newMetadata_present, newMetadata_location _ _ _ _ _ _ (by omega),
            if_pos rfl] at hoff
          exact hoff hname (Nat.lt_of_lt_of_le (Nat.lt_of_le_of_ne hk hlast) (Nat.le_refl 32))

-- Over whole runs of calls from a fresh filesystem.
theorem files_off_metadata_iff (hide : ide.Transfers) (hnever : ide.NeverFails) (drive : UInt8)
    (s₀ s : σ) (hformat : sknyCreateFilesystem ide drive s₀ = (handle, s, .SKNY_STATUS_OK))
    (trace : List ((Buffer × CString) × σ)) (hrun : Along (createStep ide handle) s trace) :
    Along (fun _ _ t => FilesOffMetadata (ide.contents t handle.drive)) s trace ↔
      ∀ entry ∈ trace.take 32, entry.1.2.bytes = [] := by
  obtain ⟨hdrive, hcontents⟩ := sknyCreateFilesystem_done handle hide drive s₀ s hformat
  have hfresh : Unnamed (ide.contents s handle.drive) 0 := by
    apply Unnamed.formatted
    intro x hx
    rw [hdrive, hcontents x, if_pos hx]
  exact unnamed_run handle hide hnever s 0 (by omega) trace hfresh hrun

end Runs

section OneFile

def createA (s : UInt8 → Disk) : UInt8 → Disk :=
  (sknyCreateFile (memoryDrive fun _ _ => false) firstDrive (fun _ => 0) letterA s).1

def oneCreate (s : UInt8 → Disk) : List ((Buffer × CString) × (UInt8 → Disk)) :=
  [((fun _ => 0, letterA), createA s)]

theorem files_off_metadata_iff_one_file :
    ∃ s, sknyCreateFilesystem (memoryDrive fun _ _ => false) 0 blankDisks =
        (firstDrive, s, .SKNY_STATUS_OK) ∧
      (Along (fun _ _ t => FilesOffMetadata ((memoryDrive fun _ _ => false).contents t 0)) s
          (oneCreate s) ↔
        ∀ entry ∈ (oneCreate s).take 32, entry.1.2.bytes = []) := by
  obtain ⟨s, hs, -⟩ := memoryDrive_formats (fun _ _ => false) blankDisks (fun _ => rfl)
  exact ⟨s, hs, files_off_metadata_iff firstDrive (memoryDrive_transfers _) memoryDrive_neverFails
    0 blankDisks s hs (oneCreate s) ⟨rfl, trivial⟩⟩

-- The first file of a fresh filesystem lies on the allocation map.
theorem first_file_on_allocation_map :
    (memoryDrive fun _ _ => false).Transfers ∧ (memoryDrive fun _ _ => false).NeverFails ∧
    ∃ s, sknyCreateFilesystem (memoryDrive fun _ _ => false) 0 blankDisks =
        (firstDrive, s, .SKNY_STATUS_OK) ∧
      ¬Along (fun _ _ t => FilesOffMetadata ((memoryDrive fun _ _ => false).contents t 0)) s
        (oneCreate s) := by
  refine ⟨memoryDrive_transfers _, memoryDrive_neverFails, ?_⟩
  obtain ⟨s, hs, hzero⟩ := memoryDrive_formats (fun _ _ => false) blankDisks (fun _ => rfl)
  have hrun := unnamed_run firstDrive (memoryDrive_transfers _) memoryDrive_neverFails s 0
    (by omega) (oneCreate s) (Unnamed.formatted (s 0) hzero) ⟨rfl, trivial⟩
  refine ⟨s, hs, fun hoff => ?_⟩
  have hempty := hrun.mp hoff ((fun _ => 0, letterA), createA s) (by simp [oneCreate])
  simp [letterA] at hempty

end OneFile

end PalleyOS.SknyFS
