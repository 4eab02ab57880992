import PalleyOS.SknyFS.Theorems

namespace PalleyOS.SknyFS

variable {σ : Type} {ide : IdeDriver σ} (handle : SknyHandle)

section Marking

theorem rewriteChunk_status (location : Nat) (change : Buffer → Buffer) (s : σ)
    (h : Transferred ide handle location change s) :
    (rewriteChunk ide handle location change s).2 = .SKNY_STATUS_OK := by
  obtain ⟨u, chunk, hread, hwrite⟩ := h
  rcases hw : ide.ideWriteSectors u handle.drive SECTORS_PER_CHUNK location (change chunk)
    with ⟨v, written⟩
  rw [hw] at hwrite
  obtain rfl : written = true := hwrite
  simp only [rewriteChunk, hread, hw]

-- The bit of `chunk` is set, and no other bit or byte of any drive changes.
structure MarksOnly (drive : UInt8) (chunk : Nat) (before after : UInt8 → Disk) : Prop where
  bits : ∀ n, allocated (after drive) n = (decide (n = chunk) || allocated (before drive) n)
  bytes : ∀ d x, d ≠ drive ∨ x ≠ chunk / 8 → after d x = before d x

theorem markChunkAsUsed_marks (hide : ide.Transfers) (hnever : ide.NeverFails) (s : σ)
    (chunk_number : Nat) (hchunk : chunk_number < 131072) :
    (markChunkAsUsed ide handle s chunk_number).2 = .SKNY_STATUS_OK ∧
    MarksOnly handle.drive chunk_number (ide.contents s)
      (ide.contents (markChunkAsUsed ide handle s chunk_number).1) := by
  have hdone := transferred_of_neverFails handle hnever (mapChunkLocation chunk_number)
    (withBitSet chunk_number) s
  have hdisk := markChunkAsUsed_done handle hide s chunk_number hdone
  obtain ⟨chunk, -, hcontents⟩ := rewriteChunk_done handle hide _ _ s hdone
  refine ⟨rewriteChunk_status handle _ _ s hdone, fun n => ?_, fun d x hother => ?_⟩
  · rw [hdisk, allocated_markBit _ _ _ hchunk]
  · by_cases hd : d = handle.drive
    · subst d
      rw [hdisk]
      exact Function.update_of_ne (hother.resolve_left (not_not.mpr rfl)) _ _
    · refine (hcontents d x).trans ?_
      rw [if_neg (fun h => hd h.1)]

end Marking

section Searching

def FirstClear (disk : Disk) (chunk : Nat) : Prop :=
  chunk < 131072 ∧ allocated disk chunk = false ∧ ∀ n < chunk, allocated disk n = true

theorem FirstClear.unique {disk : Disk} {n m : Nat} (hn : FirstClear disk n)
    (hm : FirstClear disk m) : n = m := by
  rcases Nat.lt_trichotomy n m with hlt | rfl | hlt
  · exact absurd (hm.2.2 n hlt) (Bool.eq_false_iff.mp hn.2.1)
  · rfl
  · exact absurd (hn.2.2 m hlt) (Bool.eq_false_iff.mp hm.2.1)

theorem searchAllocationMap_cases (hide : ide.Transfers) (hreads : ide.ReadsSucceed) (s : σ) :
    ide.contents (searchAllocationMap ide handle s).1 = ide.contents s ∧
    ((∃ chunk, (searchAllocationMap ide handle s).2 = .ok chunk ∧
        FirstClear (ide.contents s handle.drive) chunk) ∨
      (searchAllocationMap ide handle s).2 = .error .SKNY_FILESYSTEM_FULL ∧
        ∀ n < 131072, allocated (ide.contents s handle.drive) n = true) := by
  rcases hsearch : searchAllocationMap ide handle s with ⟨t, status | chunk⟩
  · obtain ⟨hsame, -, herr⟩ := searchAllocationMap_spec handle hide s t _ hsearch
    obtain ⟨hfull, hset⟩ := (herr status rfl).2 hreads
    exact ⟨hsame, .inr ⟨by rw [hfull], hset⟩⟩
  · obtain ⟨hsame, hok, -⟩ := searchAllocationMap_spec handle hide s t _ hsearch
    exact ⟨hsame, .inl ⟨chunk, rfl, hok chunk rfl⟩⟩

-- What was the first clear bit is set, and so is every bit before it.
theorem FirstClear.after_mark {drive : UInt8} {chunk next : Nat} {before after : UInt8 → Disk}
    (h : FirstClear (before drive) chunk) (hmark : MarksOnly drive chunk before after)
    (hnext : FirstClear (after drive) next) : chunk < next := by
  by_contra hle
  have hclear := hnext.2.1
  rw [hmark.bits next, Bool.or_eq_false_iff] at hclear
  have hne : next ≠ chunk := of_decide_eq_false hclear.1
  have hset := h.2.2 next (by omega)
  rw [hclear.2] at hset
  cases hset

end Searching

theorem map_search_and_marking_agree (hide : ide.Transfers) (hnever : ide.NeverFails) (s : σ) :
    (∀ chunk, (searchAllocationMap ide handle s).2 = .ok chunk ↔
      FirstClear (ide.contents s handle.drive) chunk) ∧
    ((searchAllocationMap ide handle s).2 = .error .SKNY_FILESYSTEM_FULL ↔
      ∀ n < 131072, allocated (ide.contents s handle.drive) n = true) ∧
    (∀ chunk < 131072, (markChunkAsUsed ide handle s chunk).2 = .SKNY_STATUS_OK ∧
      MarksOnly handle.drive chunk (ide.contents s)
        (ide.contents (markChunkAsUsed ide handle s chunk).1)) ∧
    ∀ chunk, (searchAllocationMap ide handle s).2 = .ok chunk →
      let t := (markChunkAsUsed ide handle (searchAllocationMap ide handle s).1 chunk).1
      (∃ next, (searchAllocationMap ide handle t).2 = .ok next ∧ chunk < next) ∨
        (searchAllocationMap ide handle t).2 = .error .SKNY_FILESYSTEM_FULL := by
  obtain ⟨hsame, hcases⟩ := searchAllocationMap_cases handle hide hnever.read s
  have hfound (chunk : Nat) (hok : (searchAllocationMap ide handle s).2 = .ok chunk) :
      FirstClear (ide.contents s handle.drive) chunk := by
    rcases hcases with ⟨first, hfirst, hclear⟩ | ⟨hfull, -⟩
    · obtain rfl := Except.ok.inj (hfirst.symm.trans hok)
      exact hclear
    · rw [hfull] at hok
      cases hok
  refine ⟨fun chunk => ⟨hfound chunk, fun hclear => ?_⟩, ⟨fun hfull => ?_, fun hset => ?_⟩,
    fun chunk => markChunkAsUsed_marks handle hide hnever s chunk, fun chunk hok => ?_⟩
  · rcases hcases with ⟨first, hfirst, hclear'⟩ | ⟨-, hset⟩
    · rw [hclear.unique hclear', hfirst]
    · exact absurd (hset chunk hclear.1) (Bool.eq_false_iff.mp hclear.2.1)
  · rcases hcases with ⟨first, hfirst, -⟩ | ⟨-, hset⟩
    · rw [hfirst] at hfull
      cases hfull
    · exact hset
  · rcases hcases with ⟨first, -, hclear⟩ | ⟨hfull, -⟩
    · exact absurd (hset first hclear.1) (Bool.eq_false_iff.mp hclear.2.1)
    · exact hfull
  · intro t
    have hclear := hfound chunk hok
    obtain ⟨-, hmark⟩ := markChunkAsUsed_marks handle hide hnever
      (searchAllocationMap ide handle s).1 chunk hclear.1
    rw [hsame] at hmark
    obtain ⟨-, hnext⟩ := searchAllocationMap_cases handle hide hnever.read t
    rcases hnext with ⟨next, hok', hclear'⟩ | ⟨hfull, -⟩
    · exact .inl ⟨next, hok', hclear.after_mark hmark hclear'⟩
    · exact .inr hfull

theorem map_search_and_marking_agree_blank :
    (∀ chunk, (searchAllocationMap (memoryDrive fun _ _ => false) firstDrive blankDisks).2 =
        .ok chunk ↔ FirstClear (blankDisks 0) chunk) ∧
    ∀ chunk < 131072, MarksOnly 0 chunk blankDisks
      (markChunkAsUsed (memoryDrive fun _ _ => false) firstDrive blankDisks chunk).1 := by
  obtain ⟨hsearch, -, hmark, -⟩ := map_search_and_marking_agree firstDrive
    (memoryDrive_transfers _) memoryDrive_neverFails blankDisks
  exact ⟨hsearch, fun chunk hchunk => (hmark chunk hchunk).2⟩

end PalleyOS.SknyFS
