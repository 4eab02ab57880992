import PalleyOS.Ata
import Mathlib.Data.List.Flatten
import Mathlib.Data.Nat.Bitwise

namespace PalleyOS.Ata

open Machine

section Words

-- Below 128 the first byte of a word stays as it is, from 128 on the sign
-- extension fills the second byte with ones.
theorem signExtended_toNat (low : Nat) (hlow : low < 256) :
    (UInt8.ofNat low).toInt8.toInt16.toUInt16.toNat =
      if low < 128 then low else low + 65280 := by
  have hall : ∀ b : Fin 256, (UInt8.ofNat b.val).toInt8.toInt16.toUInt16.toNat =
      if b.val < 128 then b.val else b.val + 65280 := by decide +kernel
  exact hall ⟨low, hlow⟩

theorem or_all_ones (high : Nat) (hhigh : high < 256) : 255 ||| high = 255 := by
  have hall : ∀ b : Fin 256, 255 ||| b.val = 255 := by decide +kernel
  exact hall ⟨high, hhigh⟩

theorem shifted_toNat (high next : Nat) (hhigh : high < 256) :
    (UInt16.ofNat ((high + 256 * next) <<< 8)).toNat = high <<< 8 := by
  rw [UInt16.toNat_ofNat', Nat.shiftLeft_eq, Nat.shiftLeft_eq]
  omega

theorem nextWord_toNat (m : Memory) (data : Nat) :
    (nextWord m data).toNat =
      if load8 m data < 128 then load8 m data + 256 * load8 m (data + 1)
      else load8 m data + 65280 := by
  have hlow := load8_lt m data
  have hhigh := load8_lt m (data + 1)
  unfold nextWord load16
  rw [UInt16.toNat_or, shifted_toNat _ _ hhigh, signExtended_toNat _ hlow]
  by_cases hsign : load8 m data < 128
  · rw [if_pos hsign, if_pos hsign, Nat.or_comm, ← Nat.shiftLeft_add_eq_or_of_lt (by omega),
      Nat.shiftLeft_eq]
    omega
  · have hones : load8 m data + 65280 = 255 <<< 8 ||| load8 m data := by
      rw [← Nat.shiftLeft_add_eq_or_of_lt (by omega), Nat.shiftLeft_eq]
      omega
    rw [if_neg hsign, if_neg hsign, hones, Nat.or_assoc, Nat.or_comm (load8 m data), ← Nat.or_assoc,
      ← Nat.shiftLeft_or_distrib, or_all_ones _ hhigh]

-- The pair of bytes that goes through a word and back unchanged.
def survives (low high : Nat) : Prop := low < 128 ∨ high = 255

theorem nextWord_eq_pair_iff (m : Memory) (data : Nat) :
    (nextWord m data).toNat = load8 m data + 256 * load8 m (data + 1) ↔
      survives (load8 m data) (load8 m (data + 1)) := by
  rw [nextWord_toNat]
  unfold survives
  split <;> omega

theorem nextWord_low (m : Memory) (data : Nat) :
    (nextWord m data).toNat % 256 = load8 m data := by
  have hlow := load8_lt m data
  rw [nextWord_toNat]
  split <;> omega

theorem nextWord_high_iff (m : Memory) (data : Nat) :
    (nextWord m data).toNat / 256 = load8 m (data + 1) ↔
      survives (load8 m data) (load8 m (data + 1)) := by
  have hlow := load8_lt m data
  rw [nextWord_toNat]
  unfold survives
  split <;> omega

end Words

section Requests

variable {δ : Type} (ports : Ports δ) (drive : ATA_Drive)

theorem pollUntil_succ (ready : UInt8 → Bool) (fuel : Nat) (d : δ) :
    pollUntil ports drive ready (fuel + 1) d =
      if ready (ports.inb drive.command_port d).1 then some (ports.inb drive.command_port d)
      else pollUntil ports drive ready fuel (ports.inb drive.command_port d).2 := rfl

theorem programRequest_eq_some (settle : δ → δ) (command : UInt8)
    (num_sectors sector_num : UInt32) (fuel : Nat) (d d' : δ)
    (h : programRequest ports drive settle command num_sectors sector_num fuel d = some d') :
    ∃ idle d₁ ready,
      pollUntil ports drive (fun poll => !busy poll && !data_transfer_requested poll) fuel
        (selectDrive ports drive settle sector_num d) = some (idle, d₁) ∧
      pollUntil ports drive (fun poll => !busy poll && data_transfer_requested poll) fuel
        (programRegisters ports drive command num_sectors sector_num d₁) = some (ready, d') := by
  unfold programRequest at h
  cases hidle : pollUntil ports drive (fun poll => !busy poll && !data_transfer_requested poll)
      fuel (selectDrive ports drive settle sector_num d) with
  | none => simp [hidle] at h
  | some answer =>
      obtain ⟨idle, d₁⟩ := answer
      simp only [hidle] at h
      obtain ⟨⟨ready, d₂⟩, hready, rfl⟩ := Option.map_eq_some_iff.mp h
      exact ⟨idle, d₁, ready, rfl, hready⟩

theorem ataReadDrive_eq_some (fuel data : Nat) (num_sectors sector_num : UInt32) (m m' : Memory)
    (d d' : δ) (result : Int32) (haccepts : accepts drive num_sectors sector_num = true)
    (h : ataReadDrive ports drive fuel data num_sectors sector_num m d =
      some (result, m', d')) :
    ∃ d₁ poll,
      programRequest ports drive (resetBus ports drive) ATA_CMD_READ_PIO num_sectors sector_num
        fuel d = some d₁ ∧
      m' = (readWords ports drive (wordCount num_sectors) data m d₁).1 ∧
      pollUntil ports drive (fun poll => !busy poll) fuel (flushCache ports drive
        (readWords ports drive (wordCount num_sectors) data m d₁).2) = some (poll, d') ∧
      result = if error poll then 0 else (num_sectors * SECTOR_SIZE).toInt32 := by
  unfold ataReadDrive at h
  rw [if_pos haccepts] at h
  cases hprogram : programRequest ports drive (resetBus ports drive) ATA_CMD_READ_PIO num_sectors
      sector_num fuel d with
  | none => simp [hprogram] at h
  | some d₁ =>
      simp only [hprogram] at h
      cases hfinish : pollUntil ports drive (fun poll => !busy poll) fuel (flushCache ports drive
          (readWords ports drive (wordCount num_sectors) data m d₁).2) with
      | none => simp [hfinish] at h
      | some answer =>
          simp only [hfinish] at h
          obtain ⟨hresult, hrest⟩ := Prod.mk.inj (Option.some.inj h)
          obtain ⟨hm, hd⟩ := Prod.mk.inj hrest
          exact ⟨d₁, answer.1, rfl, hm.symm, by rw [hfinish, ← hd], hresult.symm⟩

theorem ataWriteDrive_eq_some (fuel data : Nat) (num_sectors sector_num : UInt32) (m : Memory)
    (d d' : δ) (result : Int32) (loads : List Nat)
    (haccepts : accepts drive num_sectors sector_num = true)
    (h : ataWriteDrive ports drive fuel data num_sectors sector_num m d =
      some (result, loads, d')) :
    ∃ d₁ poll,
      programRequest ports drive (ataSetNoInterrupts ports drive) ATA_CMD_WRITE_PIO num_sectors
        sector_num fuel d = some d₁ ∧
      loads = (writeWords ports drive m (wordCount num_sectors) data d₁).2 ∧
      pollUntil ports drive (fun poll => !data_transfer_requested poll && !busy poll) fuel
        (flushCache ports drive (writeWords ports drive m (wordCount num_sectors) data d₁).1) =
        some (poll, d') ∧
      result = if error poll then 0 else (num_sectors * SECTOR_SIZE).toInt32 := by
  unfold ataWriteDrive at h
  rw [if_pos haccepts] at h
  cases hprogram : programRequest ports drive (ataSetNoInterrupts ports drive) ATA_CMD_WRITE_PIO
      num_sectors sector_num fuel d with
  | none => simp [hprogram] at h
  | some d₁ =>
      simp only [hprogram] at h
      cases hfinish : pollUntil ports drive
          (fun poll => !data_transfer_requested poll && !busy poll) fuel (flushCache ports drive
            (writeWords ports drive m (wordCount num_sectors) data d₁).1) with
      | none => simp [hfinish] at h
      | some answer =>
          simp only [hfinish] at h
          obtain ⟨hresult, hrest⟩ := Prod.mk.inj (Option.some.inj h)
          obtain ⟨hloads, hd⟩ := Prod.mk.inj hrest
          exact ⟨d₁, answer.1, rfl, hloads.symm, by rw [hfinish, ← hd], hresult.symm⟩

end Requests

section Loops

variable {δ : Type} (ports : Ports δ) (drive : ATA_Drive)

theorem wordCount_eq (num_sectors : UInt32) (hsize : 512 * num_sectors.toNat < 4294967296) :
    wordCount num_sectors = 256 * num_sectors.toNat := by
  unfold wordCount
  rw [UInt32.toNat_mul, show (SECTOR_SIZE / 2).toNat = 256 from rfl]
  omega

-- The words in the order in which the device hands them over, and the device after.
def received : Nat → δ → List UInt16 × δ
  | 0, d => ([], d)
  | words + 1, d =>
      let (tmp, d) := ports.inw (drive.io_port + ATA_REG_DATA) d
      let (rest, d) := received words d
      (tmp :: rest, d)

theorem readWords_device (words itr : Nat) (m : Memory) (d : δ) :
    (readWords ports drive words itr m d).2 = (received ports drive words d).2 := by
  induction words generalizing itr m d with
  | zero => rfl
  | succ words ih =>
      simp only [readWords, received]
      exact ih _ _ _

theorem readWords_outside (words itr : Nat) (m : Memory) (d : δ) (x : Nat)
    (hfit : itr + 2 * words ≤ 4294967296) (hx : x < itr ∨ itr + 2 * words ≤ x) :
    (readWords ports drive words itr m d).1 x = m x := by
  induction words generalizing itr m d with
  | zero => rfl
  | succ words ih =>
      simp only [readWords]
      rw [ih _ _ _ (by omega) (by omega), store16_of_ne _ _ _ _ (by omega) (by omega) (by omega)]

-- The buffer holds the two bytes of each word, the low one first.
theorem readWords_bytes (words itr : Nat) (m : Memory) (d : δ) (i : Nat)
    (hfit : itr + 2 * words ≤ 4294967296) (hi : i < words) :
    (readWords ports drive words itr m d).1 (itr + 2 * i) =
        UInt8.ofNat ((received ports drive words d).1.getD i 0).toNat ∧
    (readWords ports drive words itr m d).1 (itr + 2 * i + 1) =
        UInt8.ofNat (((received ports drive words d).1.getD i 0).toNat / 256) := by
  induction words generalizing itr m d i with
  | zero => omega
  | succ words ih =>
      simp only [readWords, received]
      cases i with
      | zero =>
          rw [Nat.mul_zero, Nat.add_zero itr,
            readWords_outside ports drive _ _ _ _ _ (by omega) (by omega),
            readWords_outside ports drive _ _ _ _ _ (by omega) (by omega),
            store16_low _ _ _ (by omega), store16_high _ _ _ (by omega)]
          exact ⟨rfl, rfl⟩
      | succ i =>
          rw [show itr + 2 * (i + 1) = itr + 2 + 2 * i by omega]
          exact ih (itr + 2) _ _ i (by omega) (by omega)

-- The words that the buffer at `data` is turned into, and what is loaded for them.
def wordsFrom (m : Memory) (data words : Nat) : List UInt16 :=
  (List.range words).map fun i => nextWord m (data + 2 * i)

theorem wordsFrom_succ (m : Memory) (data words : Nat) :
    wordsFrom m data (words + 1) = nextWord m data :: wordsFrom m (data + 2) words := by
  unfold wordsFrom
  rw [List.range_succ_eq_map, List.map_cons, List.map_map]
  congr 1
  apply List.map_congr_left
  intro i _
  simp only [Function.comp_apply]
  rw [show data + 2 * i.succ = data + 2 + 2 * i by omega]

theorem wordsFrom_getD (m : Memory) (data words i : Nat) (hi : i < words) :
    (wordsFrom m data words).getD i 0 = nextWord m (data + 2 * i) := by
  unfold wordsFrom
  rw [List.getD_eq_getElem _ _ (by simpa using hi)]
  simp

-- The last word loads the byte right after the buffer.
theorem writeWords_loads_end (m : Memory) (words data : Nat) (d : δ) :
    (data + 2 * (words + 1)) % 4294967296 ∈
      (writeWords ports drive m (words + 1) data d).2 := by
  induction words generalizing data d with
  | zero => simp [writeWords, wordLoads]
  | succ words ih =>
      rw [writeWords]
      apply List.mem_append_right
      rw [show data + 2 * (words + 1 + 1) = data + 2 + 2 * (words + 1) by omega]
      exact ih (data + 2) _

end Loops

end PalleyOS.Ata
