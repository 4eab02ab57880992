import PalleyOS.Ata.Device
import PalleyOS.Machine.Runs

namespace PalleyOS.Ata

open Machine

-- The device next to the sector array that it should be: for every sector
-- number, the bytes of the request that last wrote it.
section Sessions

abbrev History := Nat → Option (Nat → UInt8)

structure Session where
  device : Lba28
  history : History

inductive Request where
  | write (data : Nat) (m : Memory) (num_sectors sector_num : UInt32)
  | read (data : Nat) (m m' : Memory) (num_sectors sector_num : UInt32)

-- From 1 to 255 sectors, accepted by the checks, in a buffer that exists.
def Issued (drive : ATA_Drive) (data : Nat) (num_sectors sector_num : UInt32) : Prop :=
  0 < num_sectors.toNat ∧ num_sectors.toNat < 256 ∧
    data + 512 * num_sectors.toNat ≤ 4294967296 ∧ accepts drive num_sectors sector_num = true

def record (history : History) (data : Nat) (m : Memory) (num_sectors sector_num : UInt32) :
    History := fun sector =>
  if sector_num.toNat ≤ sector ∧ sector < sector_num.toNat + num_sectors.toNat
  then some fun j => m (data + 512 * (sector - sector_num.toNat) + j)
  else history sector

def requestStep (drive : ATA_Drive) (s : Session) (request : Request) (t : Session) : Prop :=
  match request with
  | .write data m num_sectors sector_num =>
      Issued drive data num_sectors sector_num ∧
      (∃ fuel result loads, ataWriteDrive lba28 drive fuel data num_sectors sector_num m s.device =
        some (result, loads, t.device)) ∧
      t.history = record s.history data m num_sectors sector_num
  | .read data m m' num_sectors sector_num =>
      Issued drive data num_sectors sector_num ∧
      (∃ fuel result, ataReadDrive lba28 drive fuel data num_sectors sector_num m s.device =
        some (result, m', t.device)) ∧
      t.history = s.history

-- One log entry for each word of the request: word `w` belongs to sector
-- `sector_num + w / 256`.
def requestSectors (num_sectors sector_num : UInt32) : List Nat :=
  (List.range (256 * num_sectors.toNat)).map fun w => sector_num.toNat + w / 256

def wordByte (word : UInt16) (j : Nat) : UInt8 :=
  UInt8.ofNat (if j % 2 = 0 then word.toNat else word.toNat / 256)

-- What sector number `sector` holds: the last write, or the disk as it was.
def expected (disk : Nat → Nat → UInt16) (history : History) (sector j : Nat) : UInt8 :=
  match history sector with
  | some bytes => bytes j
  | none => wordByte (disk sector (j / 2)) j

def ActsAsSectors (disk : Nat → Nat → UInt16) (s : Session) (request : Request) (t : Session) :
    Prop :=
  match request with
  | .write _ _ num_sectors sector_num =>
      t.device.touched = s.device.touched ++ requestSectors num_sectors sector_num
  | .read data _ m' num_sectors sector_num =>
      t.device.touched = s.device.touched ++ requestSectors num_sectors sector_num ∧
      ∀ i < num_sectors.toNat, ∀ j < 512,
        m' (data + 512 * i + j) = expected disk s.history (sector_num.toNat + i) j

-- Requests that start at sector 0, and reads of bytes that pass through the words.
def ReadsSurvivors (s : Session) (request : Request) (_t : Session) : Prop :=
  match request with
  | .write _ _ _ sector_num => sector_num = 0
  | .read _ _ _ num_sectors sector_num =>
      sector_num = 0 ∧ ∀ i < num_sectors.toNat, ∀ bytes, s.history i = some bytes →
        ∀ w < 256, survives (bytes (2 * w)).toNat (bytes (2 * w + 1)).toNat

end Sessions

section Requests

variable (uses_packets : Bool) (capacity : UInt32)

-- What an issued write leaves on the device.
theorem ataWriteDrive_device (fuel data : Nat) (num_sectors sector_num : UInt32) (m : Memory)
    (d d' : Lba28) (result : Int32) (loads : List Nat)
    (hissued : Issued (primaryDrive uses_packets capacity) data num_sectors sector_num)
    (h : ataWriteDrive lba28 (primaryDrive uses_packets capacity) fuel data num_sectors sector_num m
      d = some (result, loads, d')) :
    d'.touched = d.touched ++ (List.range (256 * num_sectors.toNat)).map
      (fun w => startingLba true sector_num + w / 256) ∧
    ∀ sector word, word < 256 → d'.disk sector word =
      if startingLba true sector_num ≤ sector ∧
        sector < startingLba true sector_num + num_sectors.toNat
      then nextWord m (data + 512 * (sector - startingLba true sector_num) + 2 * word)
      else d.disk sector word := by
  obtain ⟨hpos, hsmall, hfit, haccepts⟩ := hissued
  obtain ⟨d₁, poll, hprogram, -, hfinish, -⟩ :=
    ataWriteDrive_eq_some _ _ _ _ _ _ _ _ _ _ _ haccepts h
  obtain ⟨htransfer, hdisk, htouched⟩ :=
    programRequest_write uses_packets capacity num_sectors sector_num fuel d d₁ hprogram
  rw [sectorCount_eq num_sectors hpos hsmall] at htransfer
  rw [wordCount_eq num_sectors (by omega)] at hfinish
  obtain ⟨polls, rfl⟩ := pollUntil_lba28 _ _ _ _ _ _ hfinish
  obtain ⟨hwords, hcells⟩ := writeWords_lba28 (primaryDrive uses_packets capacity) rfl m
    (256 * num_sectors.toNat) data d₁ (startingLba true sector_num) num_sectors.toNat 0 htransfer
    (by omega)
  rw [flushCache_lba28]
  simp only [hwords, htouched, Nat.zero_add]
  refine ⟨trivial, ?_⟩
  intro sector word hword
  rw [hcells sector word hword, hdisk]
  by_cases hin : startingLba true sector_num ≤ sector ∧
      sector < startingLba true sector_num + num_sectors.toNat
  · rw [if_pos hin, if_pos (by omega)]
    congr 1
    omega
  · rw [if_neg hin, if_neg (by omega)]

-- What an issued read leaves on the device and in the buffer.
theorem ataReadDrive_device (fuel data : Nat) (num_sectors sector_num : UInt32) (m m' : Memory)
    (d d' : Lba28) (result : Int32)
    (hissued : Issued (primaryDrive uses_packets capacity) data num_sectors sector_num)
    (h : ataReadDrive lba28 (primaryDrive uses_packets capacity) fuel data num_sectors sector_num m
      d = some (result, m', d')) :
    d'.touched = d.touched ++ (List.range (256 * num_sectors.toNat)).map
      (fun w => startingLba d.keeps_head sector_num + w / 256) ∧
    d'.disk = d.disk ∧
    ∀ i < num_sectors.toNat, ∀ j < 512, m' (data + 512 * i + j) =
      wordByte (d.disk (startingLba d.keeps_head sector_num + i) (j / 2)) j := by
  obtain ⟨hpos, hsmall, hfit, haccepts⟩ := hissued
  obtain ⟨d₁, poll, hprogram, rfl, hfinish, -⟩ :=
    ataReadDrive_eq_some _ _ _ _ _ _ _ _ _ _ _ haccepts h
  obtain ⟨htransfer, hdisk, htouched⟩ :=
    programRequest_read uses_packets capacity num_sectors sector_num fuel d d₁ hprogram
  rw [sectorCount_eq num_sectors hpos hsmall] at htransfer
  rw [wordCount_eq num_sectors (by omega)] at hfinish ⊢
  have hreceived := received_lba28 (primaryDrive uses_packets capacity) rfl
    (256 * num_sectors.toNat) d₁ (startingLba d.keeps_head sector_num) num_sectors.toNat 0
    htransfer (by omega)
  rw [readWords_device] at hfinish
  obtain ⟨polls, rfl⟩ := pollUntil_lba28 _ _ _ _ _ _ hfinish
  rw [flushCache_lba28, hreceived]
  refine ⟨?_, hdisk, ?_⟩
  · simp only [htouched, Nat.zero_add]
  · intro i hi j hj
    have hw : 256 * i + j / 2 < 256 * num_sectors.toNat := by omega
    obtain ⟨hlow, hhigh⟩ := readWords_bytes lba28 (primaryDrive uses_packets capacity)
      (256 * num_sectors.toNat) data m d₁ (256 * i + j / 2) (by omega) hw
    have hword : (received lba28 (primaryDrive uses_packets capacity)
        (256 * num_sectors.toNat) d₁).1.getD (256 * i + j / 2) 0 =
          d.disk (startingLba d.keeps_head sector_num + i) (j / 2) := by
      rw [hreceived, List.getD_eq_getElem _ _ (by simpa using hw)]
      simp only [List.getElem_map, List.getElem_range, hdisk, Nat.zero_add]
      rw [show (256 * i + j / 2) / 256 = i by omega, show (256 * i + j / 2) % 256 = j / 2 by omega]
    rw [hword] at hlow hhigh
    unfold wordByte
    rcases Nat.mod_two_eq_zero_or_one j with hj2 | hj2
    · rw [if_pos hj2, show data + 512 * i + j = data + 2 * (256 * i + j / 2) by omega]
      exact hlow
    · rw [if_neg (by omega), show data + 512 * i + j = data + 2 * (256 * i + j / 2) + 1 by omega]
      exact hhigh

end Requests

section Runs

variable (uses_packets : Bool) (capacity : UInt32) (disk : Nat → Nat → UInt16)

-- The word that a pair of bytes becomes, and what comes back of the pair.
def packed (low high : UInt8) : UInt16 :=
  UInt16.ofNat (if low.toNat < 128 then low.toNat + 256 * high.toNat else low.toNat + 65280)

theorem packed_toNat (low high : UInt8) : (packed low high).toNat =
    if low.toNat < 128 then low.toNat + 256 * high.toNat else low.toNat + 65280 := by
  have hlow := low.toNat_lt
  have hhigh := high.toNat_lt
  unfold packed
  apply UInt16.toNat_ofNat_of_lt'
  split <;> simp only [UInt16.size] <;> omega

theorem nextWord_eq_packed (m : Memory) (data : Nat) (hdata : data + 1 < 4294967296) :
    nextWord m data = packed (m data) (m (data + 1)) := by
  have hlow : load8 m data = (m data).toNat := by
    unfold load8
    rw [Nat.mod_eq_of_lt (by omega)]
  have hhigh : load8 m (data + 1) = (m (data + 1)).toNat := by
    unfold load8
    rw [Nat.mod_eq_of_lt hdata]
  rw [← UInt16.toNat_inj, nextWord_toNat, packed_toNat, hlow, hhigh]

theorem wordByte_even (low high : UInt8) (j : Nat) (hj : j % 2 = 0) :
    wordByte (packed low high) j = low := by
  have hlow := low.toNat_lt
  unfold wordByte
  rw [if_pos hj, ← UInt8.toNat_inj, UInt8.toNat_ofNat', packed_toNat]
  split <;> omega

theorem wordByte_odd (low high : UInt8) (j : Nat) (hj : j % 2 = 1) :
    wordByte (packed low high) j = high ↔ survives low.toNat high.toNat := by
  have hlow := low.toNat_lt
  have hhigh := high.toNat_lt
  unfold wordByte survives
  rw [if_neg (by omega), ← UInt8.toNat_inj, UInt8.toNat_ofNat', packed_toNat]
  split <;> omega

-- Every sector of the device holds the words of its last write.
def HoldsHistory (s : Session) : Prop :=
  ∀ sector word, word < 256 → s.device.disk sector word =
    match s.history sector with
    | some bytes => packed (bytes (2 * word)) (bytes (2 * word + 1))
    | none => disk sector word

theorem requestSectors_eq_iff (num_sectors sector_num : UInt32) (lba : Nat)
    (hpos : 0 < num_sectors.toNat) :
    (List.range (256 * num_sectors.toNat)).map (fun w => lba + w / 256) =
      requestSectors num_sectors sector_num ↔ lba = sector_num.toNat := by
  unfold requestSectors
  constructor
  · intro h
    have hlength : 0 < 256 * num_sectors.toNat := by omega
    have hfirst := congrArg (fun l => l[0]?) h
    simp only [List.getElem?_map, List.getElem?_range hlength, Option.map_some,
      Option.some.injEq] at hfirst
    omega
  · rintro rfl
    rfl

theorem touched_iff (num_sectors sector_num : UInt32) (keeps_head : Bool)
    (before after : List Nat) (hpos : 0 < num_sectors.toNat)
    (hafter : after = before ++ (List.range (256 * num_sectors.toNat)).map
      (fun w => startingLba keeps_head sector_num + w / 256)) :
    after = before ++ requestSectors num_sectors sector_num ↔ sector_num = 0 := by
  rw [hafter, List.append_cancel_left_eq, requestSectors_eq_iff _ _ _ hpos, startingLba_eq_iff]

-- What a sector hands back is what was written to it exactly when its pairs survive.
theorem expected_iff (s : Session) (h : HoldsHistory disk s) (sector : Nat) :
    (∀ j < 512, wordByte (s.device.disk sector (j / 2)) j = expected disk s.history sector j) ↔
      ∀ bytes, s.history sector = some bytes →
        ∀ w < 256, survives (bytes (2 * w)).toNat (bytes (2 * w + 1)).toNat := by
  cases hhistory : s.history sector with
  | none =>
      have hword (j : Nat) (hj : j < 512) :
          wordByte (s.device.disk sector (j / 2)) j = expected disk s.history sector j := by
        rw [h sector (j / 2) (by omega)]
        simp only [expected, hhistory]
      exact iff_of_true hword (fun _ hb => by cases hb)
  | some bytes =>
      have hword (j : Nat) (hj : j < 512) : s.device.disk sector (j / 2) =
          packed (bytes (2 * (j / 2))) (bytes (2 * (j / 2) + 1)) := by
        rw [h sector (j / 2) (by omega)]
        simp only [hhistory]
      have hexpected (j : Nat) : expected disk s.history sector j = bytes j := by
        simp only [expected, hhistory]
      constructor
      · intro hback written hb w hw
        obtain rfl := Option.some.inj hb
        have hodd := hback (2 * w + 1) (by omega)
        rw [hword _ (by omega), hexpected, show (2 * w + 1) / 2 = w by omega] at hodd
        exact (wordByte_odd _ _ _ (by omega)).mp hodd
      · intro hsurvive j hj
        have hpair := hsurvive bytes rfl (j / 2) (by omega)
        rw [hword j hj, hexpected]
        rcases Nat.mod_two_eq_zero_or_one j with hj2 | hj2
        · rw [wordByte_even _ _ _ hj2, show 2 * (j / 2) = j by omega]
        · rw [(wordByte_odd _ _ _ hj2).mpr hpair, show 2 * (j / 2) + 1 = j by omega]

theorem requestStep_keeps (s : Session) (request : Request) (t : Session)
    (h : HoldsHistory disk s)
    (hstep : requestStep (primaryDrive uses_packets capacity) s request t)
    (hsurvive : ReadsSurvivors s request t) : HoldsHistory disk t := by
  cases request with
  | write data m num_sectors sector_num =>
      obtain ⟨hissued, ⟨fuel, result, loads, hwrite⟩, hhistory⟩ := hstep
      obtain ⟨-, hdisk⟩ := ataWriteDrive_device uses_packets capacity fuel data num_sectors
        sector_num m s.device t.device result loads hissued hwrite
      obtain rfl : sector_num = 0 := hsurvive
      rw [(startingLba_eq_iff true 0).mpr rfl] at hdisk
      obtain ⟨-, -, hfit, -⟩ := hissued
      intro sector word hword
      rw [hdisk sector word hword, hhistory]
      unfold record
      by_cases hin : (0 : UInt32).toNat ≤ sector ∧
          sector < (0 : UInt32).toNat + num_sectors.toNat
      · rw [if_pos hin, nextWord_eq_packed m _ (by omega)]
        simp only [if_pos hin]
        rfl
      · rw [if_neg hin]
        simp only [if_neg hin]
        exact h sector word hword
  | read data m m' num_sectors sector_num =>
      obtain ⟨hissued, ⟨fuel, result, hread⟩, hhistory⟩ := hstep
      obtain ⟨-, hdisk, -⟩ := ataReadDrive_device uses_packets capacity fuel data num_sectors
        sector_num m m' s.device t.device result hissued hread
      intro sector word hword
      rw [hdisk, hhistory]
      exact h sector word hword

theorem actsAsSectors_iff (s : Session) (request : Request) (t : Session)
    (h : HoldsHistory disk s)
    (hstep : requestStep (primaryDrive uses_packets capacity) s request t) :
    ActsAsSectors disk s request t ↔ ReadsSurvivors s request t := by
  cases request with
  | write data m num_sectors sector_num =>
      obtain ⟨hissued, ⟨fuel, result, loads, hwrite⟩, -⟩ := hstep
      obtain ⟨htouched, -⟩ := ataWriteDrive_device uses_packets capacity fuel data num_sectors
        sector_num m s.device t.device result loads hissued hwrite
      exact touched_iff num_sectors sector_num true _ _ hissued.1 htouched
  | read data m m' num_sectors sector_num =>
      obtain ⟨hissued, ⟨fuel, result, hread⟩, -⟩ := hstep
      obtain ⟨htouched, -, hbytes⟩ := ataReadDrive_device uses_packets capacity fuel data
        num_sectors sector_num m m' s.device t.device result hissued hread
      simp only [ActsAsSectors, ReadsSurvivors]
      rw [touched_iff num_sectors sector_num _ _ _ hissued.1 htouched]
      apply and_congr_right
      rintro rfl
      rw [(startingLba_eq_iff s.device.keeps_head 0).mpr rfl] at hbytes
      apply forall_congr'
      intro i
      apply forall_congr'
      intro hi
      rw [← expected_iff disk s h i]
      apply forall_congr'
      intro j
      apply forall_congr'
      intro hj
      rw [hbytes i hi j hj, show (0 : UInt32).toNat + i = i from Nat.zero_add i]

-- Whole runs of requests against a device with any contents and any timing.
theorem drive_is_sector_array_iff (device : Lba28) (trace : List (Request × Session))
    (hrun : Along (requestStep (primaryDrive uses_packets capacity))
      { device := device, history := fun _ => none } trace) :
    Along (ActsAsSectors device.disk) { device := device, history := fun _ => none } trace ↔
      Along ReadsSurvivors { device := device, history := fun _ => none } trace := by
  apply along_iff (HoldsHistory device.disk) (requestStep_keeps uses_packets capacity device.disk)
    (actsAsSectors_iff uses_packets capacity device.disk) ?_ hrun
  intro sector word _
  rfl

-- A device that is polled three times for a request: it is idle, then it has data, and
-- then it is idle again.
def promptLba28 : Lba28 :=
  { status := fun polls => if polls % 3 = 1 then 0x08 else 0
    polls := 0
    keeps_head := true
    seccount := 0
    lba_low := 0
    lba_mid := 0
    lba_high := 0
    drive_select := 0
    transfer := .idle
    disk := fun _ _ => 0
    touched := [] }

structure Prompt (polls : Nat) (d : Lba28) : Prop where
  status : d.status = promptLba28.status
  polls : d.polls = polls

theorem pollUntil_once (drive : ATA_Drive) (ready : UInt8 → Bool) {d : Lba28} {polls : Nat}
    (h : Prompt polls d) (hready : ready (promptLba28.status polls) = true) :
    ∃ poll d', pollUntil lba28 drive ready 1 d = some (poll, d') ∧ Prompt (polls + 1) d' := by
  have hanswer : lba28.inb drive.command_port d =
      (promptLba28.status polls, { d with polls := polls + 1 }) := by
    simp only [lba28, h.status, h.polls]
  refine ⟨promptLba28.status polls, { d with polls := polls + 1 }, ?_, h.status, rfl⟩
  rw [pollUntil_succ, hanswer]
  exact if_pos hready

theorem prompt_idle {polls : Nat} (h : polls % 3 ≠ 1) : promptLba28.status polls = 0 := if_neg h

theorem prompt_data {polls : Nat} (h : polls % 3 = 1) : promptLba28.status polls = 0x08 := if_pos h

theorem Prompt.takeWord {polls : Nat} {d : Lba28} (h : Prompt polls d) (value : UInt16) :
    Prompt polls (d.takeWord value) := by
  unfold Lba28.takeWord
  split
  · split <;> exact ⟨h.status, h.polls⟩
  · exact h

theorem Prompt.giveWord {polls : Nat} {d : Lba28} (h : Prompt polls d) :
    Prompt polls d.giveWord.2 := by
  unfold Lba28.giveWord
  split
  · split <;> exact ⟨h.status, h.polls⟩
  · exact h

theorem Prompt.writeWords {polls : Nat} {d : Lba28} (h : Prompt polls d) (m : Memory)
    (words data : Nat) :
    Prompt polls (writeWords lba28 (primaryDrive uses_packets capacity) m words data d).1 := by
  induction words generalizing data d with
  | zero => exact h
  | succ words ih => exact ih (h.takeWord (nextWord m data)) (data + 2)

theorem Prompt.readWords {polls : Nat} {d : Lba28} (h : Prompt polls d) (words itr : Nat)
    (m : Memory) :
    Prompt polls (readWords lba28 (primaryDrive uses_packets capacity) words itr m d).2 := by
  induction words generalizing itr m d with
  | zero => exact h
  | succ words ih => exact ih h.giveWord (itr + 2) _

theorem Prompt.flushCache {polls : Nat} {d : Lba28} (h : Prompt polls d) :
    Prompt polls (flushCache lba28 (primaryDrive uses_packets capacity) d) := by
  rw [flushCache_lba28]
  exact ⟨h.status, h.polls⟩

theorem Prompt.programRequest {k : Nat} {d : Lba28} (settle : Lba28 → Lba28) (command : UInt8)
    (num_sectors sector_num : UInt32)
    (h : Prompt (3 * k)
      (selectDrive lba28 (primaryDrive uses_packets capacity) settle sector_num d)) :
    ∃ d₁, programRequest lba28 (primaryDrive uses_packets capacity) settle command num_sectors
      sector_num 1 d = some d₁ ∧ Prompt (3 * k + 2) d₁ := by
  obtain ⟨poll, d₀, hidle, h₀⟩ := pollUntil_once (primaryDrive uses_packets capacity)
    (fun poll => !busy poll && !data_transfer_requested poll) h
    (by rw [prompt_idle (by omega)]; decide)
  have h₁ : Prompt (3 * k + 1) (programRegisters lba28 (primaryDrive uses_packets capacity) command
      num_sectors sector_num d₀) := by
    rw [programRegisters_lba28]
    unfold Lba28.begin
    split
    · exact ⟨h₀.status, h₀.polls⟩
    · split <;> exact ⟨h₀.status, h₀.polls⟩
  obtain ⟨poll', d₁, hready, h₂⟩ := pollUntil_once (primaryDrive uses_packets capacity)
    (fun poll => !busy poll && data_transfer_requested poll) h₁
    (by rw [prompt_data (by omega)]; decide)
  refine ⟨d₁, ?_, h₂⟩
  unfold Ata.programRequest
  simp only [hidle, hready]
  rfl

-- One completed write of one sector.
theorem exists_write (k : Nat) (s : Session) (h : Prompt (3 * k) s.device) (m : Memory)
    (sector_num : UInt32) (haccepts : accepts (primaryDrive false 8) 1 sector_num = true) :
    ∃ t, requestStep (primaryDrive false 8) s (.write 0 m 1 sector_num) t ∧
      Prompt (3 * (k + 1)) t.device := by
  have hselect : Prompt (3 * k) (selectDrive lba28 (primaryDrive false 8)
      (ataSetNoInterrupts lba28 (primaryDrive false 8)) sector_num s.device) := by
    rw [selectDrive_lba28]
    exact ⟨h.status, h.polls⟩
  obtain ⟨d₁, hprogram, h₁⟩ := Prompt.programRequest false 8
    (ataSetNoInterrupts lba28 (primaryDrive false 8)) ATA_CMD_WRITE_PIO 1 sector_num hselect
  obtain ⟨poll, d', hdone, h'⟩ := pollUntil_once (primaryDrive false 8)
    (fun poll => !data_transfer_requested poll && !busy poll)
    ((h₁.writeWords false 8 m (wordCount 1) 0).flushCache false 8)
    (by rw [prompt_idle (by omega)]; decide)
  have hreturns : ∃ result loads, ataWriteDrive lba28 (primaryDrive false 8) 1 0 1 sector_num m
      s.device = some (result, loads, d') := by
    unfold ataWriteDrive
    rw [if_pos haccepts, hprogram]
    simp only [hdone]
    exact ⟨_, _, rfl⟩
  exact ⟨{ device := d', history := record s.history 0 m 1 sector_num },
    ⟨⟨by decide, by decide, by decide, haccepts⟩, ⟨1, hreturns⟩, rfl⟩, h'⟩

-- One completed read of one sector.
theorem exists_read (k : Nat) (s : Session) (h : Prompt (3 * k) s.device) (m : Memory)
    (sector_num : UInt32) (haccepts : accepts (primaryDrive false 8) 1 sector_num = true) :
    ∃ m' t, requestStep (primaryDrive false 8) s (.read 0 m m' 1 sector_num) t := by
  have hselect : Prompt (3 * k) (selectDrive lba28 (primaryDrive false 8)
      (resetBus lba28 (primaryDrive false 8)) sector_num s.device) := by
    rw [selectDrive_reset_lba28]
    exact ⟨h.status, h.polls⟩
  obtain ⟨d₁, hprogram, h₁⟩ := Prompt.programRequest false 8
    (resetBus lba28 (primaryDrive false 8)) ATA_CMD_READ_PIO 1 sector_num hselect
  obtain ⟨poll, d', hdone, -⟩ := pollUntil_once (primaryDrive false 8) (fun poll => !busy poll)
    ((h₁.readWords false 8 (wordCount 1) 0 m).flushCache false 8)
    (by rw [prompt_idle (by omega)]; decide)
  have hreturns : ∃ result m', ataReadDrive lba28 (primaryDrive false 8) 1 0 1 sector_num m
      s.device = some (result, m', d') := by
    unfold ataReadDrive
    rw [if_pos haccepts, hprogram]
    simp only [hdone]
    exact ⟨_, _, rfl⟩
  obtain ⟨result, m', hreturns⟩ := hreturns
  exact ⟨m', { device := d', history := s.history },
    ⟨by decide, by decide, by decide, haccepts⟩, ⟨1, result, hreturns⟩, rfl⟩

def promptSession : Session := { device := promptLba28, history := fun _ => none }

-- A sector of letters, written and read back.
theorem drive_is_sector_array_iff_read_back :
    ∃ t m' u, Along (ActsAsSectors promptLba28.disk) promptSession
        [(.write 0 (fun _ => 65) 1 0, t), (.read 0 (fun _ => 0) m' 1 0, u)] ↔
      Along ReadsSurvivors promptSession
        [(.write 0 (fun _ => 65) 1 0, t), (.read 0 (fun _ => 0) m' 1 0, u)] := by
  obtain ⟨t, hwrite, ht⟩ := exists_write 0 promptSession ⟨rfl, rfl⟩ (fun _ => 65) 0 (by decide)
  obtain ⟨m', u, hread⟩ := exists_read 1 t ht (fun _ => 0) 0 (by decide)
  exact ⟨t, m', u, drive_is_sector_array_iff false 8 promptLba28 _ ⟨hwrite, hread, trivial⟩⟩

-- A write to sector 1 goes to sector 512 of the device.
theorem sector_one_goes_elsewhere :
    ∃ t, Along (requestStep (primaryDrive false 8))
        { device := promptLba28, history := fun _ => none } [(.write 0 (fun _ => 0) 1 1, t)] ∧
      ¬Along (ActsAsSectors promptLba28.disk)
        { device := promptLba28, history := fun _ => none } [(.write 0 (fun _ => 0) 1 1, t)] := by
  obtain ⟨t, hstep, -⟩ := exists_write 0 promptSession ⟨rfl, rfl⟩ (fun _ => 0) 1 (by decide)
  refine ⟨t, ⟨hstep, trivial⟩, ?_⟩
  rintro ⟨hacts, -⟩
  have hholds : HoldsHistory promptLba28.disk
      { device := promptLba28, history := fun _ => none } := fun _ _ _ => rfl
  have hsurvivors := (actsAsSectors_iff false 8 promptLba28.disk _ _ t hholds hstep).mp hacts
  have hzero : (1 : UInt32) = 0 := hsurvivors
  exact absurd hzero (by decide)

end Runs

end PalleyOS.Ata
