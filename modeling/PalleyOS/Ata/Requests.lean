import PalleyOS.Ata.Transfers

namespace PalleyOS.Ata

open Machine

-- One access of the driver to a port.
inductive Access where
  | inb (port : UInt16)
  | outb (port : UInt16) (value : UInt8)
  | inw (port : UInt16)
  | outw (port : UInt16) (value : UInt16)

-- A device by what it answers after each history of accesses.
structure Answers where
  status : List Access → UInt16 → UInt8
  word : List Access → UInt16 → UInt16

def observed (answers : Answers) : Ports (List Access) where
  inb port log := (answers.status log port, log ++ [.inb port])
  outb port value log := log ++ [.outb port value]
  inw port log := (answers.word log port, log ++ [.inw port])
  outw port value log := log ++ [.outw port value]

section Accesses

variable (answers : Answers) (drive : ATA_Drive)

@[simp] theorem observed_inb (port : UInt16) (log : List Access) :
    (observed answers).inb port log = (answers.status log port, log ++ [.inb port]) := rfl

@[simp] theorem observed_outb (port : UInt16) (value : UInt8) (log : List Access) :
    (observed answers).outb port value log = log ++ [.outb port value] := rfl

@[simp] theorem observed_inw (port : UInt16) (log : List Access) :
    (observed answers).inw port log = (answers.word log port, log ++ [.inw port]) := rfl

@[simp] theorem observed_outw (port value : UInt16) (log : List Access) :
    (observed answers).outw port value log = log ++ [.outw port value] := rfl

-- A poll that ends leaves only reads of the status, the last of which is the
-- one it answers.
theorem pollUntil_observed (ready : UInt8 → Bool) (fuel : Nat) (log log' : List Access)
    (poll : UInt8) (h : pollUntil (observed answers) drive ready fuel log = some (poll, log')) :
    ∃ polls, log' = log ++ List.replicate polls (.inb drive.command_port) ++
        [.inb drive.command_port] ∧
      poll = answers.status (log ++ List.replicate polls (.inb drive.command_port))
        drive.command_port := by
  induction fuel generalizing log with
  | zero => simp [pollUntil] at h
  | succ fuel ih =>
      rw [pollUntil_succ] at h
      by_cases hready : ready ((observed answers).inb drive.command_port log).1 = true
      · rw [if_pos hready] at h
        obtain ⟨rfl, rfl⟩ := Prod.mk.inj (Option.some.inj h)
        exact ⟨0, by simp, by simp⟩
      · rw [if_neg hready] at h
        obtain ⟨polls, rfl, rfl⟩ := ih _ h
        refine ⟨polls + 1, ?_, ?_⟩
        · simp [List.replicate_succ]
        · simp [List.replicate_succ]

def selectAccesses (sector_num : UInt32) : List Access :=
  [.outb (drive.io_port + ATA_REG_DRIVESELECT) (driveSelectAndHighBits drive (lbaOf sector_num))]

def resetAccesses : List Access :=
  [.outb drive.command_port ((1 : UInt8) <<< 2), .outb drive.command_port ((1 : UInt8) <<< 1)]

def requestAccesses (command : UInt8) (num_sectors sector_num : UInt32) : List Access :=
  [.outb (drive.io_port + ATA_REG_SECCOUNT) num_sectors.toUInt8,
    .outb (drive.io_port + ATA_REG_LBALOW) (lbaOf sector_num &&& 0xFF).toUInt8,
    .outb (drive.io_port + ATA_REG_LBAMID) (lbaOf sector_num >>> 8 &&& 0xFF).toUInt8,
    .outb (drive.io_port + ATA_REG_LBAHIGH) (lbaOf sector_num >>> 16 &&& 0xFF).toUInt8,
    .outb (drive.io_port + ATA_REG_COMMAND) command]

theorem resetBus_observed (log : List Access) :
    resetBus (observed answers) drive log = log ++ resetAccesses drive := by
  simp [resetBus, resetAccesses]

theorem programRegisters_observed (command : UInt8) (num_sectors sector_num : UInt32)
    (log : List Access) :
    programRegisters (observed answers) drive command num_sectors sector_num log =
      log ++ requestAccesses drive command num_sectors sector_num := by
  simp [programRegisters, requestAccesses]

theorem flushCache_observed (log : List Access) :
    flushCache (observed answers) drive log =
      log ++ .outb (drive.io_port + ATA_REG_COMMAND) ATA_CMD_CACHE_FLUSH :: resetAccesses drive := by
  simp [flushCache, resetBus_observed]

theorem readWords_observed (words itr : Nat) (m : Memory) (log : List Access) :
    (readWords (observed answers) drive words itr m log).2 =
      log ++ List.replicate words (.inw (drive.io_port + ATA_REG_DATA)) := by
  induction words generalizing itr m log with
  | zero => simp [readWords]
  | succ words ih =>
      refine (ih _ _ _).trans ?_
      simp [List.replicate_succ]

theorem writeWords_observed (m : Memory) (words data : Nat) (log : List Access) :
    (writeWords (observed answers) drive m words data log).1 =
      log ++ (wordsFrom m data words).map (.outw (drive.io_port + ATA_REG_DATA)) := by
  induction words generalizing data log with
  | zero => simp [writeWords, wordsFrom]
  | succ words ih =>
      refine (ih _ _).trans ?_
      simp [wordsFrom_succ]

-- The accesses of a whole request: `settle` is what follows the drive select,
-- `moves` what the data loop does, and the numbers count the polls.
def requestLog (settle moves : List Access) (command : UInt8) (num_sectors sector_num : UInt32)
    (idle ready finish : Nat) : List Access :=
  selectAccesses drive sector_num ++ settle ++
    List.replicate (idle + 1) (.inb drive.command_port) ++
    requestAccesses drive command num_sectors sector_num ++
    List.replicate (ready + 1) (.inb drive.command_port) ++ moves ++
    .outb (drive.io_port + ATA_REG_COMMAND) ATA_CMD_CACHE_FLUSH :: resetAccesses drive ++
    List.replicate finish (.inb drive.command_port) ++ [.inb drive.command_port]

-- The status that the last poll of a finished request reads.
def lastStatus (log : List Access) : UInt8 := answers.status log.dropLast drive.command_port

theorem programRequest_observed (settle : List Access → List Access) (settled : List Access)
    (hsettle : ∀ log, settle log = log ++ settled) (command : UInt8)
    (num_sectors sector_num : UInt32) (fuel : Nat) (log : List Access)
    (h : programRequest (observed answers) drive settle command num_sectors sector_num fuel [] =
      some log) :
    ∃ idle ready, log = selectAccesses drive sector_num ++ settled ++
      List.replicate (idle + 1) (.inb drive.command_port) ++
      requestAccesses drive command num_sectors sector_num ++
      List.replicate (ready + 1) (.inb drive.command_port) := by
  obtain ⟨_, log₁, _, hidle, hready⟩ := programRequest_eq_some _ _ _ _ _ _ _ _ _ h
  obtain ⟨idle, rfl, -⟩ := pollUntil_observed answers drive _ _ _ _ _ hidle
  obtain ⟨ready, rfl, -⟩ := pollUntil_observed answers drive _ _ _ _ _ hready
  refine ⟨idle, ready, ?_⟩
  simp [programRegisters_observed, selectDrive, hsettle, selectAccesses, List.replicate_succ']

theorem ataReadDrive_observed (fuel data : Nat) (num_sectors sector_num : UInt32) (m m' : Memory)
    (result : Int32) (log : List Access) (haccepts : accepts drive num_sectors sector_num = true)
    (h : ataReadDrive (observed answers) drive fuel data num_sectors sector_num m [] =
      some (result, m', log)) :
    (∃ idle ready finish, log = requestLog drive (resetAccesses drive)
      (List.replicate (wordCount num_sectors) (.inw (drive.io_port + ATA_REG_DATA)))
      ATA_CMD_READ_PIO num_sectors sector_num idle ready finish) ∧
    result = if error (lastStatus answers drive log) then 0
      else (num_sectors * SECTOR_SIZE).toInt32 := by
  obtain ⟨log₁, poll, hprogram, -, hfinish, hresult⟩ :=
    ataReadDrive_eq_some _ _ _ _ _ _ _ _ _ _ _ haccepts h
  obtain ⟨idle, ready, rfl⟩ := programRequest_observed answers drive _ (resetAccesses drive)
    (resetBus_observed answers drive) _ _ _ _ _ hprogram
  obtain ⟨finish, rfl, rfl⟩ := pollUntil_observed answers drive _ _ _ _ _ hfinish
  rw [readWords_observed, flushCache_observed] at *
  exact ⟨⟨idle, ready, finish, rfl⟩, by rw [hresult, lastStatus, List.dropLast_concat]⟩

theorem ataWriteDrive_observed (fuel data : Nat) (num_sectors sector_num : UInt32) (m : Memory)
    (result : Int32) (loads : List Nat) (log : List Access)
    (haccepts : accepts drive num_sectors sector_num = true)
    (h : ataWriteDrive (observed answers) drive fuel data num_sectors sector_num m [] =
      some (result, loads, log)) :
    (∃ idle ready finish, log = requestLog drive [.outb drive.command_port 0x02]
      ((wordsFrom m data (wordCount num_sectors)).map (.outw (drive.io_port + ATA_REG_DATA)))
      ATA_CMD_WRITE_PIO num_sectors sector_num idle ready finish) ∧
    result = if error (lastStatus answers drive log) then 0
      else (num_sectors * SECTOR_SIZE).toInt32 := by
  obtain ⟨log₁, poll, hprogram, -, hfinish, hresult⟩ :=
    ataWriteDrive_eq_some _ _ _ _ _ _ _ _ _ _ _ haccepts h
  obtain ⟨idle, ready, rfl⟩ := programRequest_observed answers drive _ [.outb drive.command_port 0x02]
    (fun _ => rfl) _ _ _ _ _ hprogram
  obtain ⟨finish, rfl, rfl⟩ := pollUntil_observed answers drive _ _ _ _ _ hfinish
  rw [writeWords_observed, flushCache_observed] at *
  exact ⟨⟨idle, ready, finish, rfl⟩, by rw [hresult, lastStatus, List.dropLast_concat]⟩

end Accesses

section Range

variable (drive : ATA_Drive) (num_sectors sector_num : UInt32)

-- In exact arithmetic the request ends on the drive.
def InRange : Prop := sector_num.toNat + num_sectors.toNat ≤ drive.num_sectors.toNat

def IssuesCommand (log : List Access) : Prop :=
  ∃ command, Access.outb (drive.io_port + ATA_REG_COMMAND) command ∈ log

-- Whatever the device answers, a command is issued in range only, and any other
-- request returns 0 with no access and `unchanged`.
def Guarded {α : Type} (unchanged : α)
    (call : Answers → Nat → Option (Int32 × α × List Access)) : Prop :=
  ∀ answers fuel,
    (∀ result answer log, call answers fuel = some (result, answer, log) →
      IssuesCommand drive log → InRange drive num_sectors sector_num) ∧
    (¬ InRange drive num_sectors sector_num → call answers fuel = some (0, unchanged, []))

theorem accepts_iff :
    accepts drive num_sectors sector_num = true ↔
      drive.ata_type ≠ .ATAPI ∧ sector_num.toNat ≤ drive.num_sectors.toNat ∧
        (sector_num.toNat + num_sectors.toNat) % 4294967296 ≤ drive.num_sectors.toNat := by
  simp only [accepts, Bool.and_eq_true, Bool.not_eq_true', decide_eq_false_iff_not, gt_iff_lt,
    UInt32.not_lt, UInt32.le_iff_toNat_le, UInt32.toNat_add, and_assoc]

-- What the wrapping sum lets through.
theorem accepts_out_of_range_iff :
    (accepts drive num_sectors sector_num = true ∧ ¬ InRange drive num_sectors sector_num) ↔
      drive.ata_type ≠ .ATAPI ∧ sector_num.toNat ≤ drive.num_sectors.toNat ∧
        4294967296 ≤ sector_num.toNat + num_sectors.toNat := by
  have hcapacity := drive.num_sectors.toNat_lt
  have hnum := num_sectors.toNat_lt
  rw [accepts_iff, InRange]
  constructor
  · rintro ⟨⟨hata, hsector, hsum⟩, hrange⟩
    exact ⟨hata, hsector, by omega⟩
  · rintro ⟨hata, hsector, hwraps⟩
    exact ⟨⟨hata, hsector, by omega⟩, by omega⟩

theorem requestLog_issues (settle moves : List Access) (command : UInt8)
    (idle ready finish : Nat) :
    IssuesCommand drive
      (requestLog drive settle moves command num_sectors sector_num idle ready finish) :=
  ⟨command, by simp [requestLog, requestAccesses]⟩

-- A drive that is ready at each poll.
def promptly : Answers where
  status log _ :=
    match log.getLast? with
    | some (.outb _ value) => if value = ATA_CMD_READ_PIO ∨ value = ATA_CMD_WRITE_PIO then 0x08 else 0
    | _ => 0
  word _ _ := 0

theorem pollUntil_promptly (ready : UInt8 → Bool) (log : List Access) (port : UInt16)
    (value : UInt8) (hlast : log.getLast? = some (.outb port value))
    (hready : ready
      (if value = ATA_CMD_READ_PIO ∨ value = ATA_CMD_WRITE_PIO then 0x08 else 0) = true) :
    ∃ poll, pollUntil (observed promptly) drive ready 1 log =
      some (poll, log ++ [.inb drive.command_port]) := by
  have hanswer : promptly.status log drive.command_port =
      if value = ATA_CMD_READ_PIO ∨ value = ATA_CMD_WRITE_PIO then 0x08 else 0 := by
    simp [promptly, hlast]
  rw [← hanswer] at hready
  exact ⟨_, if_pos hready⟩

theorem programRequest_promptly (settle : List Access → List Access) (settled : List Access)
    (port : UInt16) (hsettle : ∀ log, settle log = log ++ (settled ++ [.outb port 0x02]))
    (command : UInt8) (hcommand : command = ATA_CMD_READ_PIO ∨ command = ATA_CMD_WRITE_PIO) :
    ∃ log, programRequest (observed promptly) drive settle command num_sectors sector_num 1 [] =
      some log := by
  obtain ⟨idle, hidle⟩ := pollUntil_promptly drive
    (fun poll => !busy poll && !data_transfer_requested poll)
    (selectDrive (observed promptly) drive settle sector_num []) port 0x02
    (by rw [selectDrive, hsettle, ← List.append_assoc, List.getLast?_concat]) (by decide)
  obtain ⟨ready, hready⟩ := pollUntil_promptly drive
    (fun poll => !busy poll && data_transfer_requested poll)
    (programRegisters (observed promptly) drive command num_sectors sector_num
      (selectDrive (observed promptly) drive settle sector_num [] ++ [.inb drive.command_port]))
    (drive.io_port + ATA_REG_COMMAND) command
    (by simp [programRegisters_observed, requestAccesses]) (by rw [if_pos hcommand]; decide)
  unfold programRequest
  rw [hidle]
  simp only [hready]
  exact ⟨_, rfl⟩

theorem finish_promptly (ready : UInt8 → Bool) (hready : ready 0 = true) (log : List Access) :
    ∃ poll log', pollUntil (observed promptly) drive ready 1
      (flushCache (observed promptly) drive log) = some (poll, log') := by
  obtain ⟨poll, hfinish⟩ := pollUntil_promptly drive ready
    (flushCache (observed promptly) drive log) drive.command_port ((1 : UInt8) <<< 1)
    (by simp [flushCache_observed, resetAccesses]) hready
  exact ⟨poll, _, hfinish⟩

theorem ataReadDrive_issues (data : Nat) (m : Memory)
    (haccepts : accepts drive num_sectors sector_num = true) :
    ∃ result m' log, ataReadDrive (observed promptly) drive 1 data num_sectors sector_num m [] =
      some (result, m', log) ∧ IssuesCommand drive log := by
  obtain ⟨log, hprogram⟩ := programRequest_promptly drive num_sectors sector_num
    (resetBus (observed promptly) drive) [.outb drive.command_port ((1 : UInt8) <<< 2)] _
    (fun log => resetBus_observed promptly drive log) ATA_CMD_READ_PIO (.inl rfl)
  obtain ⟨poll, log', hfinish⟩ := finish_promptly drive (fun poll => !busy poll) (by decide)
    (readWords (observed promptly) drive (wordCount num_sectors) data m log).2
  have hreturns : ataReadDrive (observed promptly) drive 1 data num_sectors sector_num m [] =
      some (if error poll then 0 else (num_sectors * SECTOR_SIZE).toInt32,
        (readWords (observed promptly) drive (wordCount num_sectors) data m log).1, log') := by
    unfold ataReadDrive
    rw [if_pos haccepts, hprogram]
    simp only [hfinish]
  obtain ⟨⟨idle, ready, finish, hlog⟩, -⟩ :=
    ataReadDrive_observed promptly drive _ _ _ _ _ _ _ _ haccepts hreturns
  exact ⟨_, _, _, hreturns, hlog ▸ requestLog_issues drive _ _ _ _ _ _ _ _⟩

theorem ataWriteDrive_issues (data : Nat) (m : Memory)
    (haccepts : accepts drive num_sectors sector_num = true) :
    ∃ result loads log, ataWriteDrive (observed promptly) drive 1 data num_sectors sector_num m [] =
      some (result, loads, log) ∧ IssuesCommand drive log := by
  obtain ⟨log, hprogram⟩ := programRequest_promptly drive num_sectors sector_num
    (ataSetNoInterrupts (observed promptly) drive) [] drive.command_port
    (fun log => rfl) ATA_CMD_WRITE_PIO (.inr rfl)
  obtain ⟨poll, log', hfinish⟩ := finish_promptly drive
    (fun poll => !data_transfer_requested poll && !busy poll) (by decide)
    (writeWords (observed promptly) drive m (wordCount num_sectors) data log).1
  have hreturns : ataWriteDrive (observed promptly) drive 1 data num_sectors sector_num m [] =
      some (if error poll then 0 else (num_sectors * SECTOR_SIZE).toInt32,
        (writeWords (observed promptly) drive m (wordCount num_sectors) data log).2, log') := by
    unfold ataWriteDrive
    rw [if_pos haccepts, hprogram]
    simp only [hfinish]
  obtain ⟨⟨idle, ready, finish, hlog⟩, -⟩ :=
    ataWriteDrive_observed promptly drive _ _ _ _ _ _ _ _ haccepts hreturns
  exact ⟨_, _, _, hreturns, hlog ▸ requestLog_issues drive _ _ _ _ _ _ _ _⟩

-- The sum of the check wraps, or the checks are exact.
def SumFits : Prop :=
  drive.ata_type = .ATAPI ∨ drive.num_sectors.toNat < sector_num.toNat ∨
    sector_num.toNat + num_sectors.toNat < 4294967296

theorem guarded_of_sumFits {α : Type} (unchanged : α)
    (call : Answers → Nat → Option (Int32 × α × List Access))
    (hrefused : accepts drive num_sectors sector_num = false →
      ∀ answers fuel, call answers fuel = some (0, unchanged, []))
    (hfits : SumFits drive num_sectors sector_num) :
    Guarded drive num_sectors sector_num unchanged call := by
  have hrefuses (hrange : ¬ InRange drive num_sectors sector_num) :
      accepts drive num_sectors sector_num = false := by
    by_contra haccepts
    obtain ⟨hata, hsector, hwraps⟩ := (accepts_out_of_range_iff drive num_sectors sector_num).mp
      ⟨Bool.of_not_eq_false haccepts, hrange⟩
    rcases hfits with htype | hhigh | hsum
    · exact hata htype
    · omega
    · omega
  intro answers fuel
  refine ⟨fun result answer log hreturns hissues => ?_, fun hrange => hrefused (hrefuses hrange) _ _⟩
  by_contra hrange
  rw [hrefused (hrefuses hrange)] at hreturns
  cases hreturns
  obtain ⟨command, hcommand⟩ := hissues
  cases hcommand

theorem sumFits_of_guarded {α : Type} (unchanged : α)
    (call : Answers → Nat → Option (Int32 × α × List Access))
    (hissues : accepts drive num_sectors sector_num = true →
      ∃ result answer log, call promptly 1 = some (result, answer, log) ∧ IssuesCommand drive log)
    (hguarded : Guarded drive num_sectors sector_num unchanged call) :
    SumFits drive num_sectors sector_num := by
  by_contra hwraps
  simp only [SumFits, not_or, not_lt] at hwraps
  obtain ⟨haccepts, hrange⟩ := (accepts_out_of_range_iff drive num_sectors sector_num).mpr hwraps
  obtain ⟨result, answer, log, hreturns, hcommand⟩ := hissues haccepts
  exact hrange ((hguarded promptly 1).1 _ _ _ hreturns hcommand)

theorem commands_in_range_iff (data : Nat) (m : Memory) :
    (Guarded drive num_sectors sector_num m (fun answers fuel =>
        ataReadDrive (observed answers) drive fuel data num_sectors sector_num m []) ↔
      SumFits drive num_sectors sector_num) ∧
    (Guarded drive num_sectors sector_num [] (fun answers fuel =>
        ataWriteDrive (observed answers) drive fuel data num_sectors sector_num m []) ↔
      SumFits drive num_sectors sector_num) := by
  refine ⟨⟨sumFits_of_guarded _ _ _ _ _ (ataReadDrive_issues _ _ _ data m),
    guarded_of_sumFits _ _ _ _ _ ?_⟩, ⟨sumFits_of_guarded _ _ _ _ _ (ataWriteDrive_issues _ _ _ data m),
    guarded_of_sumFits _ _ _ _ _ ?_⟩⟩
  · intro hrefused answers fuel
    simp [ataReadDrive, hrefused]
  · intro hrefused answers fuel
    simp [ataWriteDrive, hrefused]

theorem wrapped_request_issued :
    ¬ ∀ (drive : ATA_Drive) (num_sectors sector_num : UInt32) (data : Nat) (m : Memory),
      Guarded drive num_sectors sector_num m (fun answers fuel =>
        ataReadDrive (observed answers) drive fuel data num_sectors sector_num m []) := by
  intro hclaim
  obtain ⟨result, m', log, hreturns, hissues⟩ := ataReadDrive_issues (primaryDrive false 8)
    0xFFFFFFFF 1 0 (fun _ => 0) (by decide)
  have hrange := (hclaim (primaryDrive false 8) 0xFFFFFFFF 1 0 (fun _ => 0) promptly 1).1 _ _ _
    hreturns hissues
  exact absurd hrange (by simp [InRange, primaryDrive])

end Range

section Counts

-- What a count in the sector count register asks for.
def toldSectors (count : UInt8) : Nat := if count = 0 then 256 else count.toNat

def Access.secCount : Access → Option UInt8
  | .outb port value => if port = PBUS + ATA_REG_SECCOUNT then some value else none
  | _ => none

def Access.isDataWord : Access → Bool
  | .inw port => port = PBUS + ATA_REG_DATA
  | .outw port _ => port = PBUS + ATA_REG_DATA
  | _ => false

def secCounts (log : List Access) : List UInt8 := log.filterMap Access.secCount

def dataWords (log : List Access) : Nat := log.countP Access.isDataWord

-- One count goes to the drive, as many sectors go over the data port, and the
-- call returns their bytes.
def CountsMatch (log : List Access) (result : Int32) : Prop :=
  ∃ count, secCounts log = [count] ∧ dataWords log = 256 * toldSectors count ∧
    result.toInt = 512 * toldSectors count

-- A call in either direction that returned, with all its accesses.
inductive Finished (answers : Answers) (drive : ATA_Drive) (num_sectors sector_num : UInt32) :
    Int32 → List Access → Prop
  | read {fuel data : Nat} {m m' : Memory} {result : Int32} {log : List Access}
      (hreturns : ataReadDrive (observed answers) drive fuel data num_sectors sector_num m [] =
        some (result, m', log)) : Finished answers drive num_sectors sector_num result log
  | write {fuel data : Nat} {m : Memory} {loads : List Nat} {result : Int32} {log : List Access}
      (hreturns : ataWriteDrive (observed answers) drive fuel data num_sectors sector_num m [] =
        some (result, loads, log)) : Finished answers drive num_sectors sector_num result log

@[simp] theorem secCounts_append (front back : List Access) :
    secCounts (front ++ back) = secCounts front ++ secCounts back := List.filterMap_append

@[simp] theorem dataWords_append (front back : List Access) :
    dataWords (front ++ back) = dataWords front + dataWords back := List.countP_append

theorem secCounts_eq_nil {log : List Access} (h : ∀ access ∈ log, access.secCount = none) :
    secCounts log = [] := List.filterMap_eq_nil_iff.mpr h

theorem dataWords_eq_zero {log : List Access} (h : ∀ access ∈ log, access.isDataWord = false) :
    dataWords log = 0 := List.countP_eq_zero.mpr (fun access hmem => by simp [h access hmem])

theorem dataWords_eq_length {log : List Access} (h : ∀ access ∈ log, access.isDataWord = true) :
    dataWords log = log.length := List.countP_eq_length.mpr h

variable (uses_packets : Bool) (capacity num_sectors sector_num : UInt32)

theorem secCounts_requestLog (settle moves : List Access) (command : UInt8)
    (idle ready finish : Nat) (hsettle : secCounts settle = []) (hmoves : secCounts moves = []) :
    secCounts (requestLog (primaryDrive uses_packets capacity) settle moves command num_sectors
      sector_num idle ready finish) = [num_sectors.toUInt8] := by
  have hpolls (n : Nat) (port : UInt16) : secCounts (List.replicate n (.inb port)) = [] :=
    secCounts_eq_nil (fun access hmem => by rw [List.eq_of_mem_replicate hmem]; rfl)
  simp only [requestLog, secCounts_append, hsettle, hmoves, hpolls]
  rfl

theorem dataWords_requestLog (settle moves : List Access) (command : UInt8)
    (idle ready finish : Nat) (hsettle : dataWords settle = 0) :
    dataWords (requestLog (primaryDrive uses_packets capacity) settle moves command num_sectors
      sector_num idle ready finish) = dataWords moves := by
  have hpolls (n : Nat) (port : UInt16) : dataWords (List.replicate n (.inb port)) = 0 :=
    dataWords_eq_zero (fun access hmem => by rw [List.eq_of_mem_replicate hmem]; rfl)
  simp only [requestLog, dataWords_append, hsettle, hpolls]
  exact Nat.zero_add _

theorem byteCount_toInt (hsmall : movedSectors num_sectors ≤ 256) :
    (num_sectors * SECTOR_SIZE).toInt32.toInt = 512 * movedSectors num_sectors := by
  have hbytes : (num_sectors * SECTOR_SIZE).toNat = 512 * movedSectors num_sectors := by
    unfold movedSectors at *
    rw [UInt32.toNat_mul, show SECTOR_SIZE.toNat = 512 from rfl]
    omega
  calc
    (num_sectors * SECTOR_SIZE).toInt32.toInt =
        (UInt32.ofNat (512 * movedSectors num_sectors)).toInt32.toInt := by
      rw [← hbytes, UInt32.ofNat_toNat]
    _ = (Int32.ofNat (512 * movedSectors num_sectors)).toInt := by rw [UInt32.toInt32_ofNat']
    _ = 512 * movedSectors num_sectors := Int32.toInt_ofNat_of_lt (by omega)

theorem sectorCount_eq_movedSectors_iff :
    sectorCount num_sectors = movedSectors num_sectors ↔
      1 ≤ movedSectors num_sectors ∧ movedSectors num_sectors ≤ 256 := by
  have hbyte : num_sectors.toUInt8 = 0 ↔ num_sectors.toNat % 256 = 0 := by
    rw [← UInt8.toNat_inj, UInt32.toNat_toUInt8]
    rfl
  unfold sectorCount movedSectors
  by_cases hzero : num_sectors.toUInt8 = 0
  · have hlow := hbyte.mp hzero
    rw [if_pos hzero]
    omega
  · have hlow := mt hbyte.mpr hzero
    rw [if_neg hzero, UInt32.toNat_toUInt8]
    omega

theorem requestCounts_iff {result : Int32} {log : List Access}
    (hcounts : secCounts log = [num_sectors.toUInt8])
    (hwords : dataWords log = wordCount num_sectors) {failed : Bool}
    (hresult : result = if failed then 0 else (num_sectors * SECTOR_SIZE).toInt32) :
    CountsMatch log result ↔
      (1 ≤ movedSectors num_sectors ∧ movedSectors num_sectors ≤ 256) ∧ failed = false := by
  have htold : toldSectors num_sectors.toUInt8 = sectorCount num_sectors := rfl
  rw [← sectorCount_eq_movedSectors_iff]
  constructor
  · rintro ⟨count, hcount, hmoved, hbytes⟩
    rw [hcounts] at hcount
    cases hcount
    rw [hwords, wordCount_sectors, htold] at hmoved
    have hequal : sectorCount num_sectors = movedSectors num_sectors := by omega
    refine ⟨hequal, ?_⟩
    cases failed with
    | false => rfl
    | true =>
        have hlow := ((sectorCount_eq_movedSectors_iff num_sectors).mp hequal).1
        rw [hresult, htold, hequal, if_pos rfl] at hbytes
        simp at hbytes
        omega
  · rintro ⟨hequal, rfl⟩
    have hsmall := ((sectorCount_eq_movedSectors_iff num_sectors).mp hequal).2
    refine ⟨_, hcounts, ?_, ?_⟩
    · rw [hwords, wordCount_sectors, htold, hequal]
    · rw [hresult, if_neg Bool.false_ne_true, byteCount_toInt num_sectors hsmall, htold, hequal]

theorem Finished.counts {answers : Answers} {result : Int32} {log : List Access}
    (haccepts : accepts (primaryDrive uses_packets capacity) num_sectors sector_num = true)
    (hfinished : Finished answers (primaryDrive uses_packets capacity) num_sectors sector_num
      result log) :
    secCounts log = [num_sectors.toUInt8] ∧ dataWords log = wordCount num_sectors ∧
      result = if error (lastStatus answers (primaryDrive uses_packets capacity) log) then 0
        else (num_sectors * SECTOR_SIZE).toInt32 := by
  cases hfinished with
  | read hreturns =>
      obtain ⟨⟨idle, ready, finish, hlog⟩, hresult⟩ :=
        ataReadDrive_observed answers _ _ _ _ _ _ _ _ _ haccepts hreturns
      refine ⟨?_, ?_, hresult⟩
      · rw [hlog, secCounts_requestLog _ _ _ _ _ _ _ _ _ _ rfl]
        exact secCounts_eq_nil (fun access hmem => by rw [List.eq_of_mem_replicate hmem]; rfl)
      · rw [hlog, dataWords_requestLog _ _ _ _ _ _ _ _ _ _ rfl, dataWords_eq_length,
          List.length_replicate]
        intro access hmem
        rw [List.eq_of_mem_replicate hmem]
        rfl
  | write hreturns =>
      obtain ⟨⟨idle, ready, finish, hlog⟩, hresult⟩ :=
        ataWriteDrive_observed answers _ _ _ _ _ _ _ _ _ haccepts hreturns
      refine ⟨?_, ?_, hresult⟩
      · rw [hlog, secCounts_requestLog _ _ _ _ _ _ _ _ _ _ rfl]
        refine secCounts_eq_nil (fun access hmem => ?_)
        obtain ⟨word, -, rfl⟩ := List.mem_map.mp hmem
        rfl
      · rw [hlog, dataWords_requestLog _ _ _ _ _ _ _ _ _ _ rfl, dataWords_eq_length]
        · simp [wordsFrom]
        · intro access hmem
          obtain ⟨word, -, rfl⟩ := List.mem_map.mp hmem
          rfl

-- The drive is told as many sectors as move, and their bytes are the result,
-- exactly for 1 to 256 sectors and no error at the end.
theorem counts_match_iff {answers : Answers} {result : Int32} {log : List Access}
    (haccepts : accepts (primaryDrive uses_packets capacity) num_sectors sector_num = true)
    (hfinished : Finished answers (primaryDrive uses_packets capacity) num_sectors sector_num
      result log) :
    CountsMatch log result ↔
      (1 ≤ movedSectors num_sectors ∧ movedSectors num_sectors ≤ 256) ∧
        error (lastStatus answers (primaryDrive uses_packets capacity) log) = false := by
  obtain ⟨hcounts, hwords, hresult⟩ := hfinished.counts _ _ _ _ haccepts
  exact requestCounts_iff num_sectors hcounts hwords hresult

theorem counts_match_iff_one_sector :
    ∃ result log, Finished promptly (primaryDrive false 8) 1 0 result log ∧
      (CountsMatch log result ↔ (1 ≤ movedSectors 1 ∧ movedSectors 1 ≤ 256) ∧
        error (lastStatus promptly (primaryDrive false 8) log) = false) := by
  obtain ⟨result, m', log, hreturns, -⟩ :=
    ataReadDrive_issues (primaryDrive false 8) 1 0 0 (fun _ => 0) (by decide)
  exact ⟨result, log, .read hreturns, counts_match_iff false 8 1 0 (by decide) (.read hreturns)⟩

theorem no_sectors_told_as_256 :
    ¬ ∀ (answers : Answers) (uses_packets : Bool) (capacity num_sectors sector_num : UInt32)
      (result : Int32) (log : List Access),
      accepts (primaryDrive uses_packets capacity) num_sectors sector_num = true →
      Finished answers (primaryDrive uses_packets capacity) num_sectors sector_num result log →
      CountsMatch log result := by
  intro hclaim
  obtain ⟨result, m', log, hreturns, -⟩ :=
    ataReadDrive_issues (primaryDrive false 8) 0 0 0 (fun _ => 0) (by decide)
  have hmatch := hclaim promptly false 8 0 0 result log (by decide) (.read hreturns)
  obtain ⟨hcounts, hwords, hresult⟩ := (Finished.read hreturns).counts _ _ _ _ (by decide)
  have hsectors := (requestCounts_iff 0 hcounts hwords hresult).mp hmatch
  exact absurd hsectors.1.1 (by decide)

end Counts

end PalleyOS.Ata
