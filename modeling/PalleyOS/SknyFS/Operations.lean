import PalleyOS.SknyFS.Lemmas

namespace PalleyOS.SknyFS

section Chunks

theorem testBit_of_and (word b : Nat) (h : ¬word &&& 1 <<< b = 0) : word.testBit b = true :=
  (Machine.and_one_shiftLeft_ne_zero word b).mp h

-- A byte of the map is passed over only when its eight bits are set.
theorem clearBitOf_none (i : Nat) (map_chunk : Buffer) (j : Nat)
    (h : clearBitOf i map_chunk j = none) (bit : Nat) (hbit : bit < 8) :
    (map_chunk j).toNat.testBit bit = true := by
  simp only [clearBitOf] at h
  split at h
  · have hb := Machine.findSome?_range_eq_none _ 8 h bit hbit
    split at hb
    · cases hb
    · rename_i hset
      exact testBit_of_and _ _ hset
  · rename_i hfull
    rw [not_not.mp hfull]
    have hall : ∀ b < 8, (0xff : Nat).testBit b = true := by decide
    exact hall bit hbit

theorem clearBitOf_some (i : Nat) (map_chunk : Buffer) (j chunk : Nat)
    (h : clearBitOf i map_chunk j = some chunk) :
    ∃ bit < 8, chunk = i * 8192 + j * 8 + bit ∧ (map_chunk j).toNat.testBit bit = false ∧
      ∀ b < bit, (map_chunk j).toNat.testBit b = true := by
  simp only [clearBitOf] at h
  split at h
  · obtain ⟨bit, hbit, hb, hbefore⟩ := Machine.findSome?_range_eq_some _ 8 chunk h
    split at hb
    · rename_i hclear
      refine ⟨bit, hbit, (Option.some.inj hb).symm, ?_, ?_⟩
      · rw [← Bool.not_eq_true, ← Machine.and_one_shiftLeft_ne_zero, not_not]
        exact hclear
      · intro b hlt
        have hn := hbefore b hlt
        split at hn
        · cases hn
        · rename_i hset
          exact testBit_of_and _ _ hset
    · cases hb
  · cases h

theorem firstClearBit_some (i : Nat) (map_chunk : Buffer) (chunk : Nat)
    (h : firstClearBit i map_chunk = some chunk) :
    ∃ m < 8192, chunk = i * 8192 + m ∧
      Machine.bitAt 8 (fun k => (map_chunk k).toNat) m = false ∧
      ∀ n < m, Machine.bitAt 8 (fun k => (map_chunk k).toNat) n = true := by
  obtain ⟨j, hj, hfound, hbefore⟩ := Machine.findSome?_range_eq_some
    (clearBitOf i map_chunk) CHUNK_SIZE chunk h
  have hbyte : j < 1024 := hj
  obtain ⟨bit, hbit, hchunk, hclear, hset⟩ := clearBitOf_some i map_chunk j chunk hfound
  refine ⟨j * 8 + bit, by omega, hchunk.trans (Nat.add_assoc _ _ _), ?_, ?_⟩
  · simpa only [Machine.bitAt, show (j * 8 + bit) / 8 = j by omega,
      show (j * 8 + bit) % 8 = bit by omega] using hclear
  · intro n hn
    unfold Machine.bitAt
    by_cases hsame : n / 8 = j
    · rw [hsame]
      exact hset _ (by omega)
    · exact clearBitOf_none i map_chunk (n / 8) (hbefore _ (by omega)) _ (by omega)

theorem firstClearBit_none (i : Nat) (map_chunk : Buffer) (h : firstClearBit i map_chunk = none) :
    ∀ n < 8192, Machine.bitAt 8 (fun k => (map_chunk k).toNat) n = true := by
  intro n hn
  have hbyte : n / 8 < 1024 := by omega
  have hj := Machine.findSome?_range_eq_none (clearBitOf i map_chunk) CHUNK_SIZE h (n / 8) hbyte
  exact clearBitOf_none i map_chunk (n / 8) hj _ (by omega)

-- The records of one chunk of the file map, and the first one without a name.
theorem firstEmptyName_some (chunk_index : Nat) (files : Buffer) (file_index : Nat)
    (h : firstEmptyName chunk_index files = some file_index) :
    ∃ m < 4, file_index = chunk_index * 4 + m ∧ files (m * 256) = 0 ∧
      ∀ n < m, files (n * 256) ≠ 0 := by
  obtain ⟨m, hm, hfound, hempty, hbefore⟩ :=
    Machine.findSome?_range_ite_eq_some _ _ FILES_PER_CHUNK _ h
  exact ⟨m, hm, hfound, hempty, hbefore⟩

theorem firstEmptyName_none (chunk_index : Nat) (files : Buffer)
    (h : firstEmptyName chunk_index files = none) : ∀ n < 4, files (n * 256) ≠ 0 :=
  Machine.findSome?_range_ite_eq_none _ _ FILES_PER_CHUNK h

end Chunks

section Searches

variable {σ : Type} {ide : IdeDriver σ} (handle : SknyHandle)

-- The buffer holds the chunk `i` of the map that begins at `map_begin`.
def ChunkBytes (disk : Disk) (map_begin i : Nat) (chunk : Buffer) : Prop :=
  ∀ k < 1024, chunk k = disk (map_begin + i * 1024 + k)

theorem read_chunk (hide : ide.Transfers) (s t : σ) (drive : UInt8) (location : Nat)
    (answer : Option Buffer)
    (h : ide.ideReadSectors s drive SECTORS_PER_CHUNK location = (t, answer)) :
    ide.contents t = ide.contents s ∧ ∀ buffer, answer = some buffer →
      ∀ k < 1024, buffer k = ide.contents s drive (location + k) := by
  have hcontents := hide.read_contents s drive SECTORS_PER_CHUNK location
  have hbytes := hide.read_bytes s drive SECTORS_PER_CHUNK location
  rw [h] at hcontents hbytes
  exact ⟨hcontents, fun buffer hb k hk => hbytes buffer hb k hk⟩

-- What the scan of chunk `i` of the map that begins at `map_begin` gives.
def ScansTo (disk : Disk) (map_begin : Nat) (scan : Nat → Buffer → Option Nat) (i : Nat)
    (result : Option Nat) : Prop :=
  ∃ chunk, ChunkBytes disk map_begin i chunk ∧ scan i chunk = result

theorem scansTo_none_cons {disk : Disk} {map_begin : Nat} {scan : Nat → Buffer → Option Nat}
    {i k : Nat} (hfirst : ScansTo disk map_begin scan i none)
    (hrest : ∀ j < k, ScansTo disk map_begin scan (i + 1 + j) none) :
    ∀ j < k + 1, ScansTo disk map_begin scan (i + j) none := by
  intro j hj
  cases j with
  | zero => exact hfirst
  | succ j =>
      rw [show i + (j + 1) = i + 1 + j by omega]
      exact hrest j (by omega)

-- A search leaves the disk alone. Its answer is the first hit from chunk `i` on,
-- and without read failures it reports a full map only when no chunk has a hit.
theorem searchChunksFrom_spec (hide : ide.Transfers) (map_begin : Nat)
    (scan : Nat → Buffer → Option Nat) (remaining i : Nat) (s t : σ)
    (answer : Except SknyStatus Nat)
    (h : searchChunksFrom ide handle map_begin scan remaining i s = (t, answer)) :
    ide.contents t = ide.contents s ∧
    (∀ found, answer = .ok found → ∃ k < remaining,
      ScansTo (ide.contents s handle.drive) map_begin scan (i + k) (some found) ∧
      ∀ j < k, ScansTo (ide.contents s handle.drive) map_begin scan (i + j) none) ∧
    (∀ status, answer = .error status → status ≠ .SKNY_STATUS_OK ∧
      (ide.ReadsSucceed → status = .SKNY_FILESYSTEM_FULL ∧
        ∀ j < remaining, ScansTo (ide.contents s handle.drive) map_begin scan (i + j) none)) := by
  induction remaining generalizing i s with
  | zero =>
      rw [searchChunksFrom] at h
      obtain ⟨rfl, rfl⟩ := Prod.mk.inj h
      refine ⟨rfl, (fun _ hc => by cases hc), ?_⟩
      rintro status hs
      obtain rfl := Except.error.inj hs
      exact ⟨by decide, fun _ => ⟨rfl, fun j hj => absurd hj (Nat.not_lt_zero j)⟩⟩
  | succ remaining ih =>
      rw [searchChunksFrom] at h
      rcases hread : ide.ideReadSectors s handle.drive SECTORS_PER_CHUNK
        (map_begin + i * CHUNK_SIZE) with ⟨u, _ | chunk⟩
      · obtain ⟨hsame, -⟩ := read_chunk hide s u handle.drive _ _ hread
        simp only [hread] at h
        obtain ⟨rfl, rfl⟩ := Prod.mk.inj h
        refine ⟨hsame, (fun _ hc => by cases hc), ?_⟩
        rintro status hs
        obtain rfl := Except.error.inj hs
        refine ⟨by decide, fun hreads => ?_⟩
        have hsome := hreads s handle.drive SECTORS_PER_CHUNK (map_begin + i * CHUNK_SIZE)
        simp [hread] at hsome
      · obtain ⟨hsame, hbytes⟩ := read_chunk hide s u handle.drive _ _ hread
        have hchunk : ChunkBytes (ide.contents s handle.drive) map_begin i chunk :=
          hbytes chunk rfl
        simp only [hread] at h
        cases hscan : scan i chunk with
        | some found =>
            simp only [hscan] at h
            obtain ⟨rfl, rfl⟩ := Prod.mk.inj h
            refine ⟨hsame, ?_, fun _ hs => by cases hs⟩
            rintro found hc
            obtain rfl := Except.ok.inj hc
            exact ⟨0, by omega, ⟨chunk, hchunk, hscan⟩, fun j hj => absurd hj (Nat.not_lt_zero j)⟩
        | none =>
            simp only [hscan] at h
            obtain ⟨hrest, hok, herr⟩ := ih (i + 1) u h
            rw [hsame] at hrest hok herr
            refine ⟨hrest, fun found hc => ?_, fun status hs => ?_⟩
            · obtain ⟨k, hk, hfound, hbefore⟩ := hok found hc
              rw [show i + 1 + k = i + (k + 1) by omega] at hfound
              exact ⟨k + 1, by omega, hfound, scansTo_none_cons ⟨chunk, hchunk, hscan⟩ hbefore⟩
            · obtain ⟨hne, hall⟩ := herr status hs
              refine ⟨hne, fun hreads => ?_⟩
              obtain ⟨hfull, hnone⟩ := hall hreads
              exact ⟨hfull, scansTo_none_cons ⟨chunk, hchunk, hscan⟩ hnone⟩

-- The scan of a chunk finds the first of its `width` items that is not taken.
structure Scans (disk : Disk) (map_begin width : Nat) (scan : Nat → Buffer → Option Nat)
    (taken : Nat → Prop) : Prop where
  hit : ∀ i < 16, ∀ found, ScansTo disk map_begin scan i (some found) →
    ∃ m < width, found = i * width + m ∧ ¬taken (i * width + m) ∧
      ∀ n < m, taken (i * width + n)
  full : ∀ i < 16, ScansTo disk map_begin scan i none → ∀ n < width, taken (i * width + n)

-- Then the search finds the first one of the whole map.
theorem searchMap_spec (hide : ide.Transfers) (map_begin width : Nat)
    (scan : Nat → Buffer → Option Nat) (taken : Nat → Prop) (s t : σ)
    (answer : Except SknyStatus Nat)
    (hscans : Scans (ide.contents s handle.drive) map_begin width scan taken)
    (h : searchChunksFrom ide handle map_begin scan 16 0 s = (t, answer)) :
    ide.contents t = ide.contents s ∧
    (∀ found, answer = .ok found → found < 16 * width ∧ ¬taken found ∧ ∀ n < found, taken n) ∧
    (∀ status, answer = .error status → status ≠ .SKNY_STATUS_OK ∧
      (ide.ReadsSucceed → status = .SKNY_FILESYSTEM_FULL ∧ ∀ n < 16 * width, taken n)) := by
  obtain ⟨hsame, hok, herr⟩ := searchChunksFrom_spec handle hide _ _ _ _ s t answer h
  have hfull (n : Nat) (hn : n / width < 16) (hwidth : 0 < width)
      (hnone : ScansTo (ide.contents s handle.drive) map_begin scan (0 + n / width) none) :
      taken n := by
    rw [Nat.zero_add] at hnone
    have htaken := hscans.full (n / width) hn hnone (n % width) (Nat.mod_lt n hwidth)
    rwa [Nat.div_add_mod'] at htaken
  refine ⟨hsame, ?_, ?_⟩
  · intro found hf
    obtain ⟨k, hk, hfound, hbefore⟩ := hok found hf
    rw [Nat.zero_add] at hfound
    obtain ⟨m, hm, rfl, hfree, htaken⟩ := hscans.hit k hk found hfound
    have hwidth : 0 < width := Nat.zero_lt_of_lt hm
    have hlast : k * width + m < (k + 1) * width := by
      rw [Nat.succ_mul]
      omega
    have hin : (k + 1) * width ≤ 16 * width := Nat.mul_le_mul_right width hk
    refine ⟨by omega, hfree, fun n hn => ?_⟩
    have hchunks : n / width < k + 1 := (Nat.div_lt_iff_lt_mul hwidth).mpr (by omega)
    by_cases hsame : n / width = k
    · have hsplit := Nat.div_add_mod' n width
      rw [hsame] at hsplit
      rw [← hsplit]
      exact htaken _ (by omega)
    · exact hfull n (by omega) hwidth (hbefore (n / width) (by omega))
  · intro status hs
    obtain ⟨hne, hall⟩ := herr status hs
    refine ⟨hne, fun hreads => ?_⟩
    obtain ⟨hstatus, hnone⟩ := hall hreads
    refine ⟨hstatus, fun n hn => ?_⟩
    have hwidth : 0 < width := by
      by_contra hzero
      rw [Nat.eq_zero_of_not_pos hzero] at hn
      exact Nat.not_lt_zero n hn
    have hchunk : n / width < 16 := (Nat.div_lt_iff_lt_mul hwidth).mpr hn
    exact hfull n hchunk hwidth (hnone (n / width) hchunk)

theorem bitAt_chunk (disk : Disk) (i n : Nat) (chunk : Buffer) (hn : n < 8192) (hi : i < 16)
    (hbytes : ChunkBytes disk ALLOCATION_MAP_BEGIN i chunk) :
    Machine.bitAt 8 (fun k => (chunk k).toNat) n = allocated disk (i * 8192 + n) := by
  have hbyte := hbytes (n / 8) (by omega)
  rw [show ALLOCATION_MAP_BEGIN + i * 1024 + n / 8 = (i * 8192 + n) / 8 by
    unfold ALLOCATION_MAP_BEGIN; omega] at hbyte
  simp only [allocated, Machine.bitAt, hbyte, show (i * 8192 + n) % 8 = n % 8 by omega,
    show i * 8192 + n < 131072 by omega, decide_true, Bool.true_and]

theorem firstClearBit_scans (disk : Disk) :
    Scans disk ALLOCATION_MAP_BEGIN 8192 firstClearBit (fun n => allocated disk n = true) := by
  refine ⟨?_, ?_⟩
  · rintro i hi found ⟨chunk, hchunk, hfound⟩
    obtain ⟨m, hm, hfound, hclear, hset⟩ := firstClearBit_some i chunk found hfound
    refine ⟨m, hm, hfound, ?_, fun n hn => ?_⟩
    · rw [← bitAt_chunk disk i m chunk hm hi hchunk, hclear]
      exact Bool.false_ne_true
    · rw [← bitAt_chunk disk i n chunk (by omega) hi hchunk]
      exact hset n hn
  · rintro i hi ⟨chunk, hchunk, hnone⟩ n hn
    rw [← bitAt_chunk disk i n chunk hn hi hchunk]
    exact firstClearBit_none i chunk hnone n hn

theorem searchAllocationMap_spec (hide : ide.Transfers) (s t : σ)
    (answer : Except SknyStatus Nat) (h : searchAllocationMap ide handle s = (t, answer)) :
    ide.contents t = ide.contents s ∧
    (∀ chunk, answer = .ok chunk → chunk < 131072 ∧
      allocated (ide.contents s handle.drive) chunk = false ∧
      ∀ n < chunk, allocated (ide.contents s handle.drive) n = true) ∧
    (∀ status, answer = .error status → status ≠ .SKNY_STATUS_OK ∧
      (ide.ReadsSucceed → status = .SKNY_FILESYSTEM_FULL ∧
        ∀ n < 131072, allocated (ide.contents s handle.drive) n = true)) := by
  obtain ⟨hsame, hok, herr⟩ :=
    searchMap_spec handle hide _ 8192 _ _ s t answer (firstClearBit_scans _) h
  refine ⟨hsame, fun chunk hc => ?_, herr⟩
  obtain ⟨hin, hfree, hbefore⟩ := hok chunk hc
  exact ⟨hin, eq_false_of_ne_true hfree, hbefore⟩

theorem entryByte_chunk (disk : Disk) (i n : Nat) (chunk : Buffer) (hn : n < 4)
    (hbytes : ChunkBytes disk FILE_MAP_BEGIN i chunk) :
    chunk (n * 256) = entryByte disk (i * 4 + n) 0 := by
  have hbegin : FILE_MAP_BEGIN = 16384 := rfl
  rw [hbytes (n * 256) (by omega), hbegin]
  unfold entryByte
  rw [show 16384 + i * 1024 + n * 256 = 16384 + (i * 4 + n) * 256 + 0 by omega]

theorem firstEmptyName_scans (disk : Disk) :
    Scans disk FILE_MAP_BEGIN 4 firstEmptyName (present disk) := by
  refine ⟨?_, ?_⟩
  · rintro i - found ⟨chunk, hchunk, hfound⟩
    obtain ⟨m, hm, hfound, hempty, hset⟩ := firstEmptyName_some i chunk found hfound
    refine ⟨m, hm, hfound, ?_, fun n hn => ?_⟩
    · rw [entryByte_chunk disk i m chunk hm hchunk] at hempty
      exact not_not.mpr hempty
    · unfold present
      rw [← entryByte_chunk disk i n chunk (by omega) hchunk]
      exact hset n hn
  · rintro i - ⟨chunk, hchunk, hnone⟩ n hn
    unfold present
    rw [← entryByte_chunk disk i n chunk hn hchunk]
    exact firstEmptyName_none i chunk hnone n hn

theorem searchFileMap_spec (hide : ide.Transfers) (s t : σ)
    (answer : Except SknyStatus Nat) (h : searchFileMap ide handle s = (t, answer)) :
    ide.contents t = ide.contents s ∧
    (∀ file_index, answer = .ok file_index → file_index < 64 ∧
      ¬present (ide.contents s handle.drive) file_index ∧
      ∀ n < file_index, present (ide.contents s handle.drive) n) ∧
    (∀ status, answer = .error status → status ≠ .SKNY_STATUS_OK ∧
      (ide.ReadsSucceed → status = .SKNY_FILESYSTEM_FULL ∧
        ∀ n < 64, present (ide.contents s handle.drive) n)) :=
  searchMap_spec handle hide _ 4 _ _ s t answer (firstEmptyName_scans _) h

end Searches

section Updates

variable {σ : Type} (ide : IdeDriver σ) (handle : SknyHandle)

-- The sector driver carries out both transfers of an update.
def Transferred (location : Nat) (change : Buffer → Buffer) (s : σ) : Prop :=
  ∃ u chunk, ide.ideReadSectors s handle.drive SECTORS_PER_CHUNK location = (u, some chunk) ∧
    (ide.ideWriteSectors u handle.drive SECTORS_PER_CHUNK location (change chunk)).2 = true

def MarkTransferred (s : σ) (chunk_number : Nat) : Prop :=
  Transferred ide handle (mapChunkLocation chunk_number) (withBitSet chunk_number) s

def MetadataTransferred (s : σ) (file_index : Nat) (file_metadata : FileMetadata) : Prop :=
  Transferred ide handle (fileChunkLocation file_index) (withFile file_index file_metadata) s

variable {ide}

theorem rewriteChunk_done (hide : ide.Transfers) (location : Nat) (change : Buffer → Buffer)
    (s : σ) (h : Transferred ide handle location change s) :
    ∃ chunk : Buffer, (∀ k < 1024, chunk k = ide.contents s handle.drive (location + k)) ∧
      ∀ d x, ide.contents (rewriteChunk ide handle location change s).1 d x =
        if d = handle.drive ∧ location ≤ x ∧ x < location + 1024
        then change chunk (x - location) else ide.contents s d x := by
  obtain ⟨u, chunk, hread, hwrite⟩ := h
  obtain ⟨hsame, hbytes⟩ := read_chunk hide s u handle.drive _ _ hread
  refine ⟨chunk, hbytes chunk rfl, ?_⟩
  intro d x
  have hdone := hide.write_done u handle.drive SECTORS_PER_CHUNK location (change chunk) hwrite d x
  rw [hsame] at hdone
  rcases hw : ide.ideWriteSectors u handle.drive SECTORS_PER_CHUNK location (change chunk)
    with ⟨v, written⟩
  rw [hw] at hwrite hdone
  obtain rfl : written = true := hwrite
  simp only [rewriteChunk, hread, hw]
  exact hdone

theorem rewriteChunk_failed (hide : ide.Transfers) (location : Nat) (change : Buffer → Buffer)
    (s : σ) (h : ¬Transferred ide handle location change s) :
    ide.contents (rewriteChunk ide handle location change s).1 = ide.contents s := by
  rcases hread : ide.ideReadSectors s handle.drive SECTORS_PER_CHUNK location with ⟨u, _ | chunk⟩
  · obtain ⟨hsame, -⟩ := read_chunk hide s u handle.drive _ _ hread
    simpa only [rewriteChunk, hread] using hsame
  · obtain ⟨hsame, -⟩ := read_chunk hide s u handle.drive _ _ hread
    rcases hw : ide.ideWriteSectors u handle.drive SECTORS_PER_CHUNK location (change chunk)
      with ⟨v, _ | _⟩
    · have hfailed := hide.write_failed u handle.drive SECTORS_PER_CHUNK location (change chunk)
        (by rw [hw])
      rw [hw, hsame] at hfailed
      simpa only [rewriteChunk, hread, hw] using hfailed
    · exact absurd ⟨u, chunk, hread, by rw [hw]⟩ h

theorem transferred_of_neverFails (hnever : ide.NeverFails) (location : Nat)
    (change : Buffer → Buffer) (s : σ) : Transferred ide handle location change s := by
  have hsome := hnever.read s handle.drive SECTORS_PER_CHUNK location
  rcases hread : ide.ideReadSectors s handle.drive SECTORS_PER_CHUNK location with ⟨u, _ | chunk⟩
  · simp [hread] at hsome
  · exact ⟨u, chunk, hread, hnever.write _ _ _ _ _⟩

theorem markChunkAsUsed_done (hide : ide.Transfers) (s : σ) (chunk_number : Nat)
    (h : MarkTransferred ide handle s chunk_number) :
    ide.contents (markChunkAsUsed ide handle s chunk_number).1 handle.drive =
      markBit (ide.contents s handle.drive) chunk_number := by
  obtain ⟨chunk, hchunk, hdone⟩ := rewriteChunk_done handle hide _ _ s h
  have hlocation : mapChunkLocation chunk_number = chunk_number / 8192 * 1024 := Nat.zero_add _
  rw [hlocation] at hchunk
  funext x
  refine (hdone handle.drive x).trans ?_
  rw [hlocation]
  have hbyte : withBitSet chunk_number chunk =
      Function.update chunk (chunk_number % 8192 / 8)
        (UInt8.ofNat ((chunk (chunk_number % 8192 / 8)).toNat |||
          1 <<< (chunk_number % 8192 % 8))) := rfl
  rw [hbyte]
  unfold markBit
  by_cases hx : x = chunk_number / 8
  · subst x
    rw [if_pos ⟨rfl, by omega, by omega⟩, Function.update_self,
      show chunk_number / 8 - chunk_number / 8192 * 1024 = chunk_number % 8192 / 8 by omega,
      Function.update_self, hchunk _ (by omega),
      show chunk_number / 8192 * 1024 + chunk_number % 8192 / 8 = chunk_number / 8 by omega,
      show chunk_number % 8192 % 8 = chunk_number % 8 by omega]
  · rw [Function.update_of_ne hx]
    split
    · rename_i hin
      rw [Function.update_of_ne (by omega), hchunk _ (by omega),
        show chunk_number / 8192 * 1024 + (x - chunk_number / 8192 * 1024) = x by omega]
    · rfl

set_option maxRecDepth 2048 in
theorem writeFileMetadata_done (hide : ide.Transfers) (s : σ) (file_index : Nat)
    (file_metadata : FileMetadata)
    (h : MetadataTransferred ide handle s file_index file_metadata) :
    ide.contents (writeFileMetadata ide handle s file_index file_metadata).1 handle.drive =
      writeEntry (ide.contents s handle.drive) file_index file_metadata.image := by
  obtain ⟨chunk, hchunk, hdone⟩ := rewriteChunk_done handle hide _ _ s h
  have hlocation : fileChunkLocation file_index = 16384 + file_index / 4 * 1024 := rfl
  rw [hlocation] at hchunk
  funext x
  refine (hdone handle.drive x).trans ?_
  rw [hlocation]
  have hrecord (k : Nat) : withFile file_index file_metadata chunk k =
      if file_index % 4 * 256 ≤ k ∧ k < file_index % 4 * 256 + 256
      then file_metadata.image (k - file_index % 4 * 256) else chunk k := rfl
  rw [hrecord]
  unfold writeEntry
  by_cases hin : 16384 + file_index / 4 * 1024 ≤ x ∧ x < 16384 + file_index / 4 * 1024 + 1024
  · rw [if_pos ⟨rfl, hin.1, hin.2⟩]
    obtain ⟨k, rfl⟩ := Nat.exists_eq_add_of_le hin.1
    have hk : k < 1024 := Nat.lt_of_add_lt_add_left hin.2
    have hfirst : 16384 + file_index * 256 =
        16384 + file_index / 4 * 1024 + file_index % 4 * 256 := by omega
    rw [Nat.add_sub_cancel_left, hchunk k hk, hfirst]
    by_cases hr : file_index % 4 * 256 ≤ k ∧ k < file_index % 4 * 256 + 256
    · rw [if_pos hr, if_pos (by omega), Nat.add_sub_add_left]
    · rw [if_neg hr, if_neg (by omega)]
  · rw [if_neg (fun hp => hin hp.2), if_neg (by omega)]

end Updates

section Create

variable {σ : Type} (ide : IdeDriver σ) (handle : SknyHandle)

-- Both searches succeed and leave the driver in `u`.
def Found (s : σ) (available_chunk file_index : Nat) (u : σ) : Prop :=
  ∃ v, searchAllocationMap ide handle s = (v, .ok available_chunk) ∧
    searchFileMap ide handle v = (u, .ok file_index)

variable {ide}

theorem Found.unique {s u u' : σ} {available_chunk file_index chunk index : Nat}
    (h : Found ide handle s available_chunk file_index u) (h' : Found ide handle s chunk index u') :
    available_chunk = chunk ∧ file_index = index ∧ u = u' := by
  obtain ⟨v, hmap, hfile⟩ := h
  obtain ⟨v', hmap', hfile'⟩ := h'
  rw [hmap] at hmap'
  obtain ⟨rfl, hchunk⟩ := Prod.mk.inj hmap'
  rw [hfile] at hfile'
  obtain ⟨hu, hindex⟩ := Prod.mk.inj hfile'
  exact ⟨Except.ok.inj hchunk, Except.ok.inj hindex, hu⟩

theorem found_spec (hide : ide.Transfers) (s u : σ) (available_chunk file_index : Nat)
    (h : Found ide handle s available_chunk file_index u) :
    ide.contents u = ide.contents s ∧
    (available_chunk < 131072 ∧
      allocated (ide.contents s handle.drive) available_chunk = false ∧
      ∀ n < available_chunk, allocated (ide.contents s handle.drive) n = true) ∧
    file_index < 64 ∧ ¬present (ide.contents s handle.drive) file_index ∧
      ∀ n < file_index, present (ide.contents s handle.drive) n := by
  obtain ⟨v, hmap, hfile⟩ := h
  obtain ⟨hsame, hchunk, -⟩ := searchAllocationMap_spec handle hide s v _ hmap
  obtain ⟨hsame', hindex, -⟩ := searchFileMap_spec handle hide v u _ hfile
  rw [hsame] at hsame' hindex
  exact ⟨hsame', hchunk _ rfl, hindex _ rfl⟩

theorem sknyCreateFile_found (stack : Buffer) (name : CString) (s u : σ)
    (available_chunk file_index : Nat)
    (h : Found ide handle s available_chunk file_index u) :
    sknyCreateFile ide handle stack name s =
      ((writeFileMetadata ide handle (markChunkAsUsed ide handle u available_chunk).1 file_index
        (newMetadata stack name available_chunk)).1, .SKNY_STATUS_OK) := by
  obtain ⟨v, hmap, hfile⟩ := h
  simp only [sknyCreateFile, hmap, hfile]

-- A call that does not find room reports it and leaves the disk alone.
theorem sknyCreateFile_not_found (hide : ide.Transfers) (stack : Buffer) (name : CString) (s : σ)
    (h : ∀ available_chunk file_index u, ¬Found ide handle s available_chunk file_index u) :
    ide.contents (sknyCreateFile ide handle stack name s).1 = ide.contents s ∧
    (sknyCreateFile ide handle stack name s).2 ≠ .SKNY_STATUS_OK ∧
    (ide.ReadsSucceed →
      (sknyCreateFile ide handle stack name s).2 = .SKNY_FILESYSTEM_FULL ∧
      ((∀ n < 131072, allocated (ide.contents s handle.drive) n = true) ∨
        ∀ n < 64, present (ide.contents s handle.drive) n)) := by
  rcases hmap : searchAllocationMap ide handle s with ⟨v, status | available_chunk⟩
  · obtain ⟨hsame, -, herr⟩ := searchAllocationMap_spec handle hide s v _ hmap
    obtain ⟨hne, hfull⟩ := herr status rfl
    simp only [sknyCreateFile, hmap]
    exact ⟨hsame, hne, fun hreads => ⟨(hfull hreads).1, Or.inl (hfull hreads).2⟩⟩
  · obtain ⟨hsame, -, -⟩ := searchAllocationMap_spec handle hide s v _ hmap
    rcases hfile : searchFileMap ide handle v with ⟨u, status | file_index⟩
    · obtain ⟨hsame', -, herr⟩ := searchFileMap_spec handle hide v u _ hfile
      obtain ⟨hne, hfull⟩ := herr status rfl
      rw [hsame] at hsame' hfull
      simp only [sknyCreateFile, hmap, hfile]
      exact ⟨hsame', hne, fun hreads => ⟨(hfull hreads).1, Or.inr (hfull hreads).2⟩⟩
    · exact absurd ⟨v, hmap, hfile⟩ (h available_chunk file_index u)

theorem exists_found (hide : ide.Transfers) (hreads : ide.ReadsSucceed) (s : σ)
    (available_chunk file_index : Nat) (hchunk : available_chunk < 131072)
    (hclear : allocated (ide.contents s handle.drive) available_chunk = false)
    (hindex : file_index < 64) (hempty : ¬present (ide.contents s handle.drive) file_index) :
    ∃ chunk index u, Found ide handle s chunk index u := by
  by_contra hnone
  have hall : ∀ chunk index u, ¬Found ide handle s chunk index u :=
    fun chunk index u hf => hnone ⟨chunk, index, u, hf⟩
  obtain ⟨-, -, hfull⟩ := sknyCreateFile_not_found handle hide (fun _ => 0) ⟨[], by simp⟩ s hall
  rcases (hfull hreads).2 with hmap | hfile
  · rw [hmap available_chunk hchunk] at hclear
    cases hclear
  · exact hempty (hfile file_index hindex)

end Create

section Format

variable {σ : Type} {ide : IdeDriver σ} (handle : SknyHandle)

set_option maxRecDepth 2048 in
theorem clearChunkFrom_done (hide : ide.Transfers) (chunk : Nat) (byte : UInt8)
    (remaining i : Nat) (s t : σ)
    (h : clearChunkFrom ide handle chunk byte remaining i s = (t, true)) (x : Nat) :
    ide.contents t handle.drive x =
      if 1024 * chunk + 512 * i ≤ x ∧ x < 1024 * chunk + 512 * (i + remaining) then byte
      else ide.contents s handle.drive x := by
  induction remaining generalizing i s with
  | zero =>
      rw [clearChunkFrom] at h
      obtain ⟨rfl, -⟩ := Prod.mk.inj h
      rw [if_neg (by omega)]
  | succ remaining ih =>
      rw [clearChunkFrom] at h
      rcases hw : ide.ideWriteSectors s handle.drive 1 (chunk * CHUNK_SIZE + i * IDE_SECTOR_SIZE)
        (fun _ => byte) with ⟨u, _ | _⟩
      · simp only [hw] at h
        cases (Prod.mk.inj h).2
      · simp only [hw] at h
        have hdone := hide.write_done s handle.drive 1 (chunk * CHUNK_SIZE + i * IDE_SECTOR_SIZE)
          (fun _ => byte) (by rw [hw]) handle.drive x
        rw [hw, Nat.mul_comm chunk, Nat.mul_comm i,
          show CHUNK_SIZE * chunk + IDE_SECTOR_SIZE * i = 1024 * chunk + 512 * i from rfl,
          show 1 * IDE_SECTOR_SIZE = 512 from rfl] at hdone
        rw [ih (i + 1) u h, hdone]
        by_cases hlater : 1024 * chunk + 512 * (i + 1) ≤ x ∧
            x < 1024 * chunk + 512 * (i + 1 + remaining)
        · rw [if_pos hlater, if_pos (by omega)]
        · rw [if_neg hlater]
          by_cases hhere : 1024 * chunk + 512 * i ≤ x ∧ x < 1024 * chunk + 512 * i + 512
          · rw [if_pos ⟨rfl, hhere⟩, if_pos (by omega)]
          · rw [if_neg (fun hp => hhere hp.2), if_neg (by omega)]

theorem clearChunks_done (hide : ide.Transfers) (first remaining i : Nat) (s t : σ)
    (h : clearChunks ide handle first remaining i s = (t, true)) (x : Nat) :
    ide.contents t handle.drive x =
      if 1024 * (first + i) ≤ x ∧ x < 1024 * (first + i + remaining) then 0
      else ide.contents s handle.drive x := by
  induction remaining generalizing i s with
  | zero =>
      rw [clearChunks] at h
      obtain ⟨rfl, -⟩ := Prod.mk.inj h
      rw [if_neg (by omega)]
  | succ remaining ih =>
      rw [clearChunks] at h
      rcases hw : clearChunk ide handle (first + i) 0 s with ⟨u, _ | _⟩
      · simp only [hw] at h
        cases (Prod.mk.inj h).2
      · simp only [hw] at h
        rw [clearChunk, show SECTORS_PER_CHUNK = 2 from rfl] at hw
        have hdone := clearChunkFrom_done handle hide (first + i) 0 2 0 s u hw x
        rw [ih (i + 1) u h, hdone]
        by_cases hlater : 1024 * (first + (i + 1)) ≤ x ∧ x < 1024 * (first + (i + 1) + remaining)
        · rw [if_pos hlater, if_pos (by omega)]
        · rw [if_neg hlater]
          by_cases hhere : 1024 * (first + i) + 512 * 0 ≤ x ∧ x < 1024 * (first + i) + 512 * (0 + 2)
          · rw [if_pos hhere, if_pos (by omega)]
          · rw [if_neg hhere, if_neg (by omega)]

-- Formatting clears the two maps and nothing else.
theorem sknyCreateFilesystem_done (hide : ide.Transfers) (drive : UInt8) (s t : σ)
    (h : sknyCreateFilesystem ide drive s = (handle, t, .SKNY_STATUS_OK)) :
    handle.drive = drive ∧ ∀ x, ide.contents t drive x =
      if x < 32768 then 0 else ide.contents s drive x := by
  have hcount : CHUNKS_IN_ALLOCATION_MAP = 16 ∧ CHUNKS_IN_FILE_MAP = 16 := ⟨rfl, rfl⟩
  simp only [sknyCreateFilesystem, hcount] at h
  rcases hmap : clearChunks ide { drive := drive } 0 16 0 s with ⟨u, _ | _⟩
  · simp only [hmap] at h
    cases (Prod.mk.inj (Prod.mk.inj h).2).2
  · simp only [hmap] at h
    rcases hfile : clearChunks ide { drive := drive } 16 16 0 u with ⟨v, _ | _⟩
    · simp only [hfile] at h
      cases (Prod.mk.inj (Prod.mk.inj h).2).2
    · simp only [hfile] at h
      obtain ⟨rfl, htail⟩ := Prod.mk.inj h
      obtain ⟨rfl, -⟩ := Prod.mk.inj htail
      refine ⟨rfl, ?_⟩
      intro x
      rw [clearChunks_done _ hide 16 16 0 u v hfile x, clearChunks_done _ hide 0 16 0 s u hmap x]
      by_cases hx : x < 32768
      · rw [if_pos hx]
        by_cases hlow : x < 16384
        · rw [if_neg (by omega), if_pos (by omega)]
        · rw [if_pos (by omega)]
      · rw [if_neg (by omega), if_neg (by omega), if_neg hx]

theorem allocated_formatted (disk : Disk) (hzero : ∀ x < 32768, disk x = 0) (n : Nat) :
    allocated disk n = false := by
  unfold allocated Machine.bitAt
  by_cases hn : n < 131072
  · simp [hzero (n / 8) (by omega)]
  · simp [hn]

theorem present_formatted (disk : Disk) (hzero : ∀ x < 32768, disk x = 0) (file_index : Nat)
    (hindex : file_index < 64) : ¬present disk file_index :=
  not_not.mpr (hzero _ (by omega))

-- A driver that never refuses a write formats the drive.
theorem clearChunkFrom_ok (hwrite : ∀ s drive location buffer,
      (ide.ideWriteSectors s drive 1 location buffer).2 = true)
    (chunk : Nat) (byte : UInt8) (remaining i : Nat) (s : σ) :
    (clearChunkFrom ide handle chunk byte remaining i s).2 = true := by
  induction remaining generalizing i s with
  | zero => rfl
  | succ remaining ih =>
      have hok := hwrite s handle.drive (chunk * CHUNK_SIZE + i * IDE_SECTOR_SIZE) (fun _ => byte)
      rw [clearChunkFrom]
      rcases hw : ide.ideWriteSectors s handle.drive 1 (chunk * CHUNK_SIZE + i * IDE_SECTOR_SIZE)
        (fun _ => byte) with ⟨u, _ | _⟩
      · rw [hw] at hok
        cases hok
      · exact ih (i + 1) u

theorem clearChunks_ok (hwrite : ∀ s drive location buffer,
      (ide.ideWriteSectors s drive 1 location buffer).2 = true)
    (first remaining i : Nat) (s : σ) :
    (clearChunks ide handle first remaining i s).2 = true := by
  induction remaining generalizing i s with
  | zero => rfl
  | succ remaining ih =>
      have hok := clearChunkFrom_ok handle hwrite (first + i) 0 SECTORS_PER_CHUNK 0 s
      rw [clearChunks]
      rcases hw : clearChunk ide handle (first + i) 0 s with ⟨u, _ | _⟩
      · rw [← clearChunk, hw] at hok
        cases hok
      · exact ih (i + 1) u

theorem sknyCreateFilesystem_ok (hwrite : ∀ s drive location buffer,
      (ide.ideWriteSectors s drive 1 location buffer).2 = true) (drive : UInt8) (s : σ) :
    ∃ t, sknyCreateFilesystem ide drive s = ({ drive := drive }, t, .SKNY_STATUS_OK) := by
  have hmap := clearChunks_ok { drive := drive } hwrite 0 CHUNKS_IN_ALLOCATION_MAP 0 s
  rcases hm : clearChunks ide { drive := drive } 0 CHUNKS_IN_ALLOCATION_MAP 0 s with ⟨u, _ | _⟩
  · rw [hm] at hmap
    cases hmap
  · have hfile := clearChunks_ok { drive := drive } hwrite CHUNKS_IN_ALLOCATION_MAP
      CHUNKS_IN_FILE_MAP 0 u
    rcases hf : clearChunks ide { drive := drive } CHUNKS_IN_ALLOCATION_MAP CHUNKS_IN_FILE_MAP 0 u
      with ⟨v, _ | _⟩
    · rw [hf] at hfile
      cases hfile
    · exact ⟨v, by simp only [sknyCreateFilesystem, hm, hf]⟩

end Format

end PalleyOS.SknyFS
