import PalleyOS.Ata.Device

namespace PalleyOS.Ata

open Machine

-- BSY is clear and DRQ is set.
def transferReady (status : UInt8) : Bool := !busy status && data_transfer_requested status

-- When a PIO device is ready and what it answers until then: `delay n` status
-- reads pass after the first `n` sectors of a command before it goes on.
structure Timing where
  delay : Nat → Nat
  waiting : Nat → Nat → UInt8
  offering : UInt8
  resting : UInt8
  contents : Nat → Nat → UInt16
  waiting_not_ready : ∀ sectors waits, transferReady (waiting sectors waits) = false
  offering_ready : transferReady offering = true
  resting_idle : busy resting = false ∧ data_transfer_requested resting = false

inductive Phase where
  | resting (sectors waits : Nat)
  | moving (count sectors words waits : Nat)

-- `moved` logs the status under which each word went over the data port.
structure PioDisk where
  timing : Timing
  seccount : UInt8
  phase : Phase
  moved : List UInt8

def PioDisk.status (d : PioDisk) : UInt8 :=
  match d.phase with
  | .resting _ 0 => d.timing.resting
  | .resting sectors (waits + 1) => d.timing.waiting sectors waits
  | .moving _ _ _ 0 => d.timing.offering
  | .moving _ sectors _ (waits + 1) => d.timing.waiting sectors waits

def PioDisk.readStatus (d : PioDisk) : PioDisk :=
  match d.phase with
  | .resting sectors waits => { d with phase := .resting sectors (waits - 1) }
  | .moving count sectors words waits => { d with phase := .moving count sectors words (waits - 1) }

def PioDisk.begin (d : PioDisk) (command : UInt8) : PioDisk :=
  { d with
    phase :=
      if command = ATA_CMD_READ_PIO ∨ command = ATA_CMD_WRITE_PIO then
        .moving (if d.seccount = 0 then 256 else d.seccount.toNat) 0 0 (d.timing.delay 0)
      else .resting 0 (d.timing.delay 0) }

def PioDisk.setRegister (d : PioDisk) (port : UInt16) (value : UInt8) : PioDisk :=
  if port = PBUS + ATA_REG_SECCOUNT then { d with seccount := value }
  else if port = PBUS + ATA_REG_COMMAND then d.begin value
  else if port = PBUSC then
    if value.toNat.testBit 2 then { d with phase := .resting 0 (d.timing.delay 0) } else d
  else d

def PioDisk.word (d : PioDisk) : UInt16 :=
  match d.phase with
  | .moving _ sectors words 0 => d.timing.contents sectors words
  | _ => 0xFFFF

-- A word that moves while the device is not ready does not advance it.
def PioDisk.nextPhase (d : PioDisk) : Phase :=
  match d.phase with
  | .moving count sectors words 0 =>
      if words < 255 then .moving count sectors (words + 1) 0
      else if sectors + 1 < count then .moving count (sectors + 1) 0 (d.timing.delay (sectors + 1))
      else .resting (sectors + 1) (d.timing.delay (sectors + 1))
  | phase => phase

def PioDisk.moveWord (d : PioDisk) : PioDisk :=
  { d with phase := d.nextPhase, moved := d.moved ++ [d.status] }

def pio : Ports PioDisk where
  inb port d := if port = PBUSC then (d.status, d.readStatus) else (0xFF, d)
  outb port value d := d.setRegister port value
  inw port d := if port = PBUS + ATA_REG_DATA then (d.word, d.moveWord) else (0xFFFF, d)
  outw port _ d := if port = PBUS + ATA_REG_DATA then d.moveWord else d

-- Between commands, with some status reads left until the device is idle.
def atRest (timing : Timing) (seccount : UInt8) (sectors waits : Nat) : PioDisk :=
  ⟨timing, seccount, .resting sectors waits, []⟩

section Polls

variable (uses_packets : Bool) (capacity : UInt32)

theorem pollUntil_resting (ready : UInt8 → Bool) (d : PioDisk) (sectors waits fuel : Nat)
    (hready : ready d.timing.resting = true) (hfuel : waits < fuel) :
    ∃ poll left, pollUntil pio (primaryDrive uses_packets capacity) ready fuel
      { d with phase := .resting sectors waits } =
        some (poll, { d with phase := .resting sectors left }) := by
  induction fuel generalizing waits with
  | zero => omega
  | succ fuel ih =>
      rw [pollUntil_succ]
      cases waits with
      | zero => exact ⟨_, 0, if_pos hready⟩
      | succ waits =>
          by_cases hpoll : ready (d.timing.waiting sectors waits) = true
          · exact ⟨_, waits, if_pos hpoll⟩
          · obtain ⟨poll, left, hleft⟩ := ih waits (by omega)
            exact ⟨poll, left, (if_neg hpoll).trans hleft⟩

-- The poll before the words move ends once the first sector is there.
theorem pollUntil_moving (d : PioDisk) (count waits fuel : Nat) (hfuel : waits < fuel) :
    pollUntil pio (primaryDrive uses_packets capacity)
      (fun poll => !busy poll && data_transfer_requested poll) fuel
      { d with phase := .moving count 0 0 waits } =
        some (d.timing.offering, { d with phase := .moving count 0 0 0 }) := by
  induction fuel generalizing waits with
  | zero => omega
  | succ fuel ih =>
      rw [pollUntil_succ]
      cases waits with
      | zero => exact if_pos d.timing.offering_ready
      | succ waits =>
          have hwait : ¬ transferReady (d.timing.waiting 0 waits) = true := by
            simp [d.timing.waiting_not_ready]
          exact (if_neg hwait).trans (ih waits (by omega))

end Polls

section Words

-- The log only grows, by the status of each word.
theorem moved_iterate (words : Nat) (d : PioDisk) :
    ∃ later, (PioDisk.moveWord^[words] d).moved = d.moved ++ later ∧ later.length = words := by
  induction words generalizing d with
  | zero => exact ⟨[], by simp⟩
  | succ words ih =>
      obtain ⟨later, hlater, hlength⟩ := ih d.moveWord
      refine ⟨d.status :: later, ?_, by simp [hlength]⟩
      rw [Function.iterate_succ_apply, hlater]
      simp [PioDisk.moveWord]

def MovesReady (d : PioDisk) : Prop := ∀ status ∈ d.moved, transferReady status = true

theorem movesReady_moveWord (d : PioDisk) :
    MovesReady d.moveWord ↔ MovesReady d ∧ transferReady d.status = true := by
  simp [MovesReady, PioDisk.moveWord, or_imp, forall_and]

theorem movesReady_of_iterate (words : Nat) (d : PioDisk)
    (h : MovesReady (PioDisk.moveWord^[words] d)) : MovesReady d := by
  obtain ⟨later, hlater, -⟩ := moved_iterate words d
  intro status hstatus
  exact h status (by rw [hlater]; exact List.mem_append_left _ hstatus)

theorem not_movesReady_iterate (words : Nat) (d : PioDisk)
    (hnot : transferReady d.status = false) :
    ¬ MovesReady (PioDisk.moveWord^[words + 1] d) := by
  intro h
  have hfirst := movesReady_of_iterate words _ h
  rw [movesReady_moveWord, hnot] at hfirst
  exact Bool.false_ne_true hfirst.2

theorem timing_iterate (words : Nat) (d : PioDisk) :
    (PioDisk.moveWord^[words] d).timing = d.timing := by
  induction words generalizing d with
  | zero => rfl
  | succ words ih => exact ih d.moveWord

theorem resting_not_ready (d : PioDisk) (sectors waits : Nat)
    (hphase : d.phase = .resting sectors waits) : transferReady d.status = false := by
  cases waits with
  | zero => simp [PioDisk.status, hphase, transferReady, d.timing.resting_idle]
  | succ waits => simp [PioDisk.status, hphase, d.timing.waiting_not_ready]

theorem waiting_not_ready (d : PioDisk) (count sectors words waits : Nat)
    (hphase : d.phase = .moving count sectors words waits) (hwaits : waits ≠ 0) :
    transferReady d.status = false := by
  cases waits with
  | zero => exact absurd rfl hwaits
  | succ waits => simp [PioDisk.status, hphase, d.timing.waiting_not_ready]

theorem movesReady_offered (d : PioDisk) (count sectors words : Nat)
    (hphase : d.phase = .moving count sectors words 0) :
    MovesReady d.moveWord ↔ MovesReady d := by
  have hstatus : d.status = d.timing.offering := by simp [PioDisk.status, hphase]
  rw [movesReady_moveWord, hstatus]
  simp [d.timing.offering_ready]

-- What is left of a sector moves without a wait.
theorem moveWord_sector (left : Nat) (d : PioDisk) (count sectors words : Nat)
    (hphase : d.phase = .moving count sectors words 0) (hleft : words + left = 255) :
    (PioDisk.moveWord^[left + 1] d).phase =
      (if sectors + 1 < count then .moving count (sectors + 1) 0 (d.timing.delay (sectors + 1))
      else .resting (sectors + 1) (d.timing.delay (sectors + 1))) ∧
    (MovesReady (PioDisk.moveWord^[left + 1] d) ↔ MovesReady d) := by
  have hmoves := movesReady_offered d _ _ _ hphase
  induction left generalizing d words with
  | zero =>
      refine ⟨?_, hmoves⟩
      have hlast : ¬ words < 255 := by omega
      simp [PioDisk.moveWord, PioDisk.nextPhase, hphase, hlast]
  | succ left ih =>
      have hnext : d.moveWord.phase = .moving count sectors (words + 1) 0 := by
        have hinside : words < 255 := by omega
        simp [PioDisk.moveWord, PioDisk.nextPhase, hphase, hinside]
      obtain ⟨hphase', hready⟩ :=
        ih d.moveWord (words + 1) hnext (by omega) (movesReady_offered _ _ _ _ hnext)
      rw [Function.iterate_succ_apply]
      exact ⟨hphase', hready.trans hmoves⟩

-- By sectors: a wait after a sector, or the end of the command, is met by the
-- first word of the next one.
theorem movesReady_sectors (n : Nat) (d : PioDisk) (count sectors : Nat)
    (hphase : d.phase = .moving count sectors 0 0) (hsectors : sectors < count) :
    MovesReady (PioDisk.moveWord^[256 * (n + 1)] d) ↔
      MovesReady d ∧ sectors + n < count ∧
        ∀ k, sectors < k → k ≤ sectors + n → d.timing.delay k = 0 := by
  obtain ⟨hnext, hready⟩ := moveWord_sector 255 d count sectors 0 hphase rfl
  cases n with
  | zero =>
      refine hready.trans (iff_self_and.mpr fun _ => ⟨hsectors, fun k hlow hhigh => ?_⟩)
      omega
  | succ n =>
      have htiming := timing_iterate (255 + 1) d
      rw [show 256 * (n + 1 + 1) = 256 * n + 255 + 1 + (255 + 1) by omega,
        Function.iterate_add_apply]
      generalize PioDisk.moveWord^[255 + 1] d = e at *
      by_cases hlast : sectors + 1 < count
      · rw [if_pos hlast] at hnext
        by_cases hdelay : d.timing.delay (sectors + 1) = 0
        · rw [hdelay] at hnext
          rw [show 256 * n + 255 + 1 = 256 * (n + 1) by omega,
            movesReady_sectors n e count (sectors + 1) hnext hlast, hready, htiming]
          refine and_congr_right fun _ => ⟨?_, ?_⟩
          · rintro ⟨hroom, hall⟩
            refine ⟨by omega, fun k hlow hhigh => ?_⟩
            by_cases hk : k = sectors + 1
            · rw [hk, hdelay]
            · exact hall k (by omega) (by omega)
          · rintro ⟨hroom, hall⟩
            exact ⟨by omega, fun k hlow hhigh => hall k (by omega) (by omega)⟩
        · refine iff_of_false (not_movesReady_iterate _ _
            (waiting_not_ready e _ _ _ _ hnext hdelay)) ?_
          rintro ⟨-, -, hall⟩
          exact hdelay (hall _ (by omega) (by omega))
      · rw [if_neg hlast] at hnext
        refine iff_of_false (not_movesReady_iterate _ _ (resting_not_ready e _ _ hnext)) ?_
        rintro ⟨-, hroom, -⟩
        omega

variable (uses_packets : Bool) (capacity : UInt32)

theorem readWords_pio (words itr : Nat) (m : Memory) (d : PioDisk) :
    (readWords pio (primaryDrive uses_packets capacity) words itr m d).2 =
      PioDisk.moveWord^[words] d := by
  induction words generalizing itr m d with
  | zero => rfl
  | succ words ih => exact ih _ _ _

theorem writeWords_pio (m : Memory) (words data : Nat) (d : PioDisk) :
    (writeWords pio (primaryDrive uses_packets capacity) m words data d).1 =
      PioDisk.moveWord^[words] d := by
  induction words generalizing data d with
  | zero => rfl
  | succ words ih => exact ih _ _

end Words

section Requests

variable (uses_packets : Bool) (capacity : UInt32)

-- The sectors that the data loop moves: the word count is taken modulo 2^32.
def movedSectors (num_sectors : UInt32) : Nat := num_sectors.toNat % 16777216

theorem wordCount_sectors (num_sectors : UInt32) :
    wordCount num_sectors = 256 * movedSectors num_sectors := by
  unfold wordCount movedSectors
  rw [UInt32.toNat_mul, show (SECTOR_SIZE / 2).toNat = 256 from rfl]
  omega

-- At most 256 sectors, with no wait after any but the last.
def NeverWaits (timing : Timing) (num_sectors : UInt32) : Prop :=
  movedSectors num_sectors ≤ 256 ∧ ∀ k, 0 < k → k < movedSectors num_sectors → timing.delay k = 0

theorem movesReady_request (d : PioDisk) (num_sectors : UInt32)
    (hphase : d.phase = .moving (sectorCount num_sectors) 0 0 0) (hmoved : d.moved = []) :
    MovesReady (PioDisk.moveWord^[wordCount num_sectors] d) ↔ NeverWaits d.timing num_sectors := by
  have hbase : MovesReady d := by simp [MovesReady, hmoved]
  have hcount : movedSectors num_sectors ≤ sectorCount num_sectors ↔
      movedSectors num_sectors ≤ 256 := by
    have hbyte : num_sectors.toUInt8 = 0 ↔ num_sectors.toNat % 256 = 0 := by
      rw [← UInt8.toNat_inj, UInt32.toNat_toUInt8]
      rfl
    unfold sectorCount movedSectors
    by_cases hzero : num_sectors.toUInt8 = 0
    · rw [if_pos hzero]
    · rw [if_neg hzero, UInt32.toNat_toUInt8]
      have hlow := mt hbyte.mpr hzero
      omega
  rw [wordCount_sectors]
  unfold NeverWaits
  cases hn : movedSectors num_sectors with
  | zero => simp [hbase]
  | succ n =>
      have hpos : 0 < sectorCount num_sectors := by
        unfold sectorCount
        by_cases hzero : num_sectors.toUInt8 = 0
        · rw [if_pos hzero]
          omega
        · rw [if_neg hzero]
          exact Nat.pos_of_ne_zero (fun h => hzero (UInt8.toNat_inj.mp h))
      rw [movesReady_sectors n d _ _ hphase hpos, ← hn, ← hcount, hn]
      constructor
      · rintro ⟨-, hroom, hall⟩
        exact ⟨by omega, fun k hlow hhigh => hall k hlow (by omega)⟩
      · rintro ⟨hroom, hall⟩
        exact ⟨hbase, by omega, fun k hlow hhigh => hall k hlow (by omega)⟩

theorem programRegisters_pio (command : UInt8) (num_sectors sector_num : UInt32) (d : PioDisk)
    (hcommand : command = ATA_CMD_READ_PIO ∨ command = ATA_CMD_WRITE_PIO) :
    programRegisters pio (primaryDrive uses_packets capacity) command num_sectors sector_num d =
      { d with
        seccount := num_sectors.toUInt8
        phase := .moving (sectorCount num_sectors) 0 0 (d.timing.delay 0) } := by
  have hbegin : programRegisters pio (primaryDrive uses_packets capacity) command num_sectors
      sector_num d = { d with seccount := num_sectors.toUInt8 }.begin command := rfl
  rw [hbegin, PioDisk.begin, if_pos hcommand]
  rfl

-- From rest the device comes to offer its first sector, however it waits.
theorem programRequest_pio (settle : PioDisk → PioDisk) (command : UInt8)
    (num_sectors sector_num : UInt32) (fuel sectors waits : Nat) (d : PioDisk)
    (hcommand : command = ATA_CMD_READ_PIO ∨ command = ATA_CMD_WRITE_PIO)
    (hsettle : selectDrive pio (primaryDrive uses_packets capacity) settle sector_num d =
      { d with phase := .resting sectors waits })
    (hfuel : waits < fuel) (hfuel' : d.timing.delay 0 < fuel) :
    programRequest pio (primaryDrive uses_packets capacity) settle command num_sectors sector_num
      fuel d = some { d with
        seccount := num_sectors.toUInt8
        phase := .moving (sectorCount num_sectors) 0 0 0 } := by
  obtain ⟨poll, left, hidle⟩ := pollUntil_resting uses_packets capacity
    (fun poll => !busy poll && !data_transfer_requested poll) d sectors waits fuel
    (by simp [d.timing.resting_idle]) hfuel
  unfold programRequest
  rw [hsettle, hidle]
  simp only
  rw [programRegisters_pio _ _ _ _ _ _ hcommand]
  rw [pollUntil_moving uses_packets capacity { d with seccount := num_sectors.toUInt8 } _ _ _ hfuel']
  rfl

theorem flushCache_pio (d : PioDisk) :
    flushCache pio (primaryDrive uses_packets capacity) d =
      { d with phase := .resting 0 (d.timing.delay 0) } := by
  have hflush : pio.outb ((primaryDrive uses_packets capacity).io_port + ATA_REG_COMMAND)
      ATA_CMD_CACHE_FLUSH d = d.begin ATA_CMD_CACHE_FLUSH := rfl
  have hreset (e : PioDisk) : resetBus pio (primaryDrive uses_packets capacity) e =
      { e with phase := .resting 0 (e.timing.delay 0) } := rfl
  rw [flushCache, hflush, hreset]
  rfl

-- After the data loop the cache flush ends, and no more words move.
theorem finish_pio (ready : UInt8 → Bool) (d : PioDisk) (num_sectors : UInt32) (fuel : Nat)
    (hready : ready d.timing.resting = true) (hfuel : d.timing.delay 0 < fuel)
    (hphase : d.phase = .moving (sectorCount num_sectors) 0 0 0) (hmoved : d.moved = []) :
    ∃ poll d', pollUntil pio (primaryDrive uses_packets capacity) ready fuel
      (flushCache pio (primaryDrive uses_packets capacity)
        (PioDisk.moveWord^[wordCount num_sectors] d)) = some (poll, d') ∧
      (MovesReady d' ↔ NeverWaits d.timing num_sectors) := by
  have htiming := timing_iterate (wordCount num_sectors) d
  have hmoves := movesReady_request d num_sectors hphase hmoved
  generalize PioDisk.moveWord^[wordCount num_sectors] d = e at *
  rw [flushCache_pio]
  obtain ⟨poll, left, hleft⟩ := pollUntil_resting uses_packets capacity ready e 0
    (e.timing.delay 0) fuel (by rw [htiming]; exact hready) (by rw [htiming]; exact hfuel)
  exact ⟨poll, _, hleft, hmoves⟩

theorem ataReadDrive_pio (timing : Timing) (seccount : UInt8) (sectors waits data fuel : Nat)
    (num_sectors sector_num : UInt32) (m : Memory)
    (haccepts : accepts (primaryDrive uses_packets capacity) num_sectors sector_num = true)
    (hfuel : timing.delay 0 < fuel) :
    ∃ result m' d', ataReadDrive pio (primaryDrive uses_packets capacity) fuel data num_sectors
      sector_num m (atRest timing seccount sectors waits) = some (result, m', d') ∧
      (MovesReady d' ↔ NeverWaits timing num_sectors) := by
  have hselect : selectDrive pio (primaryDrive uses_packets capacity)
      (resetBus pio (primaryDrive uses_packets capacity)) sector_num
      (atRest timing seccount sectors waits) =
      { atRest timing seccount sectors waits with phase := .resting 0 (timing.delay 0) } := rfl
  have hprogram := programRequest_pio uses_packets capacity _ ATA_CMD_READ_PIO num_sectors
    sector_num fuel _ _ _ (.inl rfl) hselect hfuel hfuel
  obtain ⟨poll, d', hfinish, hmoves⟩ := finish_pio uses_packets capacity (fun poll => !busy poll)
    { atRest timing seccount sectors waits with
      seccount := num_sectors.toUInt8
      phase := .moving (sectorCount num_sectors) 0 0 0 } num_sectors fuel
    (by simp [atRest, timing.resting_idle]) hfuel rfl rfl
  unfold ataReadDrive
  rw [if_pos haccepts, hprogram]
  simp only [readWords_pio, hfinish]
  exact ⟨_, _, _, rfl, hmoves⟩

theorem ataWriteDrive_pio (timing : Timing) (seccount : UInt8) (sectors waits data fuel : Nat)
    (num_sectors sector_num : UInt32) (m : Memory)
    (haccepts : accepts (primaryDrive uses_packets capacity) num_sectors sector_num = true)
    (hwaits : waits < fuel) (hfuel : timing.delay 0 < fuel) :
    ∃ result loads d', ataWriteDrive pio (primaryDrive uses_packets capacity) fuel data num_sectors
      sector_num m (atRest timing seccount sectors waits) = some (result, loads, d') ∧
      (MovesReady d' ↔ NeverWaits timing num_sectors) := by
  have hselect : selectDrive pio (primaryDrive uses_packets capacity)
      (ataSetNoInterrupts pio (primaryDrive uses_packets capacity)) sector_num
      (atRest timing seccount sectors waits) =
      { atRest timing seccount sectors waits with phase := .resting sectors waits } := rfl
  have hprogram := programRequest_pio uses_packets capacity _ ATA_CMD_WRITE_PIO num_sectors
    sector_num fuel _ _ _ (.inr rfl) hselect hwaits hfuel
  obtain ⟨poll, d', hfinish, hmoves⟩ := finish_pio uses_packets capacity
    (fun poll => !data_transfer_requested poll && !busy poll)
    { atRest timing seccount sectors waits with
      seccount := num_sectors.toUInt8
      phase := .moving (sectorCount num_sectors) 0 0 0 } num_sectors fuel
    (by simp [atRest, timing.resting_idle]) hfuel rfl rfl
  unfold ataWriteDrive
  rw [if_pos haccepts, hprogram]
  simp only [writeWords_pio, hfinish]
  exact ⟨_, _, _, rfl, hmoves⟩

end Requests

section Theorems

-- The driver polls before the first sector only: words move under a ready
-- device throughout exactly if it never waits between sectors.
theorem words_move_when_ready_iff (uses_packets : Bool) (capacity num_sectors sector_num : UInt32)
    (timing : Timing) (seccount : UInt8) (sectors waits data fuel : Nat) (m : Memory)
    (haccepts : accepts (primaryDrive uses_packets capacity) num_sectors sector_num = true)
    (hwaits : waits < fuel) (hfuel : timing.delay 0 < fuel) :
    (∃ result m' d', ataReadDrive pio (primaryDrive uses_packets capacity) fuel data num_sectors
      sector_num m (atRest timing seccount sectors waits) = some (result, m', d') ∧
      (MovesReady d' ↔ NeverWaits timing num_sectors)) ∧
    ∃ result loads d', ataWriteDrive pio (primaryDrive uses_packets capacity) fuel data num_sectors
      sector_num m (atRest timing seccount sectors waits) = some (result, loads, d') ∧
      (MovesReady d' ↔ NeverWaits timing num_sectors) :=
  ⟨ataReadDrive_pio _ _ _ _ _ _ _ _ _ _ _ haccepts hfuel,
    ataWriteDrive_pio _ _ _ _ _ _ _ _ _ _ _ haccepts hwaits hfuel⟩

-- Busy for one status read after every sector.
def pausing : Timing where
  delay _ := 1
  waiting _ _ := 0x80
  offering := 0x48
  resting := 0x40
  contents _ _ := 0
  waiting_not_ready _ _ := rfl
  offering_ready := rfl
  resting_idle := ⟨rfl, rfl⟩

theorem words_move_when_ready_iff_pausing :
    (∃ result m' d', ataReadDrive pio (primaryDrive false 8) 2 0 2 0 (fun _ => 0)
      (atRest pausing 0 0 0) = some (result, m', d') ∧ (MovesReady d' ↔ NeverWaits pausing 2)) ∧
    ∃ result loads d', ataWriteDrive pio (primaryDrive false 8) 2 0 2 0 (fun _ => 0)
      (atRest pausing 0 0 0) = some (result, loads, d') ∧ (MovesReady d' ↔ NeverWaits pausing 2) :=
  words_move_when_ready_iff false 8 2 0 pausing 0 0 0 0 2 (fun _ => 0) (by decide) (by decide)
    (by decide)

theorem second_sector_moves_while_busy :
    ¬ ∀ (uses_packets : Bool) (capacity num_sectors sector_num : UInt32) (timing : Timing)
      (seccount : UInt8) (sectors waits data fuel : Nat) (m m' : Memory) (result : Int32)
      (d' : PioDisk),
      accepts (primaryDrive uses_packets capacity) num_sectors sector_num = true →
      ataReadDrive pio (primaryDrive uses_packets capacity) fuel data num_sectors sector_num m
        (atRest timing seccount sectors waits) = some (result, m', d') → MovesReady d' := by
  intro hclaim
  obtain ⟨result, m', d', hreads, hmoves⟩ := ataReadDrive_pio false 8 pausing 0 0 0 0 2 2 0
    (fun _ => 0) (by decide) (by decide)
  have hready := hclaim false 8 2 0 pausing 0 0 0 0 2 _ _ _ _ (by decide) hreads
  exact absurd ((hmoves.mp hready).2 1 (by decide) (by decide)) (by decide)

end Theorems

end PalleyOS.Ata
