import PalleyOS.Ata.Lemmas

namespace PalleyOS.Ata

open Machine

-- What an LBA28 device is in the middle of: `moved` words of a request have
-- gone over the data port.
inductive Transfer where
  | idle
  | toHost (lba count moved : Nat)
  | fromHost (lba count moved : Nat)

-- A device on the primary bus that decodes the registers where the driver
-- addresses them. Its status answers are arbitrary, `touched` logs the sector
-- of every word that moves, and a reset may clear the head bits or keep them.
structure Lba28 where
  status : Nat → UInt8
  polls : Nat
  keeps_head : Bool
  seccount : UInt8
  lba_low : UInt8
  lba_mid : UInt8
  lba_high : UInt8
  drive_select : UInt8
  transfer : Transfer
  disk : Nat → Nat → UInt16
  touched : List Nat

def Lba28.lba (d : Lba28) : Nat :=
  d.lba_low.toNat + 256 * d.lba_mid.toNat + 65536 * d.lba_high.toNat +
    16777216 * (d.drive_select.toNat % 16)

def Lba28.count (d : Lba28) : Nat := if d.seccount = 0 then 256 else d.seccount.toNat

def Lba28.begin (d : Lba28) (command : UInt8) : Lba28 :=
  { d with
    transfer :=
      if command = ATA_CMD_READ_PIO then .toHost d.lba d.count 0
      else if command = ATA_CMD_WRITE_PIO then .fromHost d.lba d.count 0
      else .idle }

def Lba28.control (d : Lba28) (value : UInt8) : Lba28 :=
  if value.toNat.testBit 2 then
    { d with
      transfer := .idle
      drive_select := if d.keeps_head then d.drive_select else d.drive_select &&& 0xF0 }
  else d

def Lba28.setRegister (d : Lba28) (port : UInt16) (value : UInt8) : Lba28 :=
  if port = PBUS + ATA_REG_SECCOUNT then { d with seccount := value }
  else if port = PBUS + ATA_REG_LBALOW then { d with lba_low := value }
  else if port = PBUS + ATA_REG_LBAMID then { d with lba_mid := value }
  else if port = PBUS + ATA_REG_LBAHIGH then { d with lba_high := value }
  else if port = PBUS + ATA_REG_DRIVESELECT then { d with drive_select := value }
  else if port = PBUS + ATA_REG_COMMAND then d.begin value
  else if port = PBUSC then d.control value
  else d

def Lba28.giveWord (d : Lba28) : UInt16 × Lba28 :=
  match d.transfer with
  | .toHost lba count moved =>
      if moved < 256 * count then
        (d.disk (lba + moved / 256) (moved % 256),
          { d with
            transfer := .toHost lba count (moved + 1)
            touched := d.touched ++ [lba + moved / 256] })
      else (0xFFFF, d)
  | _ => (0xFFFF, d)

def Lba28.takeWord (d : Lba28) (value : UInt16) : Lba28 :=
  match d.transfer with
  | .fromHost lba count moved =>
      if moved < 256 * count then
        { d with
          disk := Function.update d.disk (lba + moved / 256)
            (Function.update (d.disk (lba + moved / 256)) (moved % 256) value)
          transfer := .fromHost lba count (moved + 1)
          touched := d.touched ++ [lba + moved / 256] }
      else d
  | _ => d

def lba28 : Ports Lba28 where
  inb _ d := (d.status d.polls, { d with polls := d.polls + 1 })
  outb port value d := d.setRegister port value
  inw port d := if port = PBUS + ATA_REG_DATA then d.giveWord else (0xFFFF, d)
  outw port value d := if port = PBUS + ATA_REG_DATA then d.takeWord value else d

section Registers

theorem pollUntil_lba28 (drive : ATA_Drive) (ready : UInt8 → Bool) (fuel : Nat) (d d' : Lba28)
    (poll : UInt8) (h : pollUntil lba28 drive ready fuel d = some (poll, d')) :
    ∃ polls, d' = { d with polls := polls } := by
  induction fuel generalizing d with
  | zero => simp [pollUntil] at h
  | succ fuel ih =>
      rw [pollUntil_succ] at h
      by_cases hready : ready (lba28.inb drive.command_port d).1 = true
      · rw [if_pos hready] at h
        exact ⟨d.polls + 1, (Prod.mk.inj (Option.some.inj h)).2.symm⟩
      · rw [if_neg hready] at h
        obtain ⟨polls, rfl⟩ := ih _ h
        exact ⟨polls, rfl⟩

theorem toNat_byte (lba : UInt32) (shift : UInt32) (hshift : shift.toNat < 32) :
    (lba >>> shift &&& 0xFF).toUInt8.toNat = lba.toNat / 2 ^ shift.toNat % 256 := by
  rw [UInt32.toNat_toUInt8, UInt32.toNat_and, UInt32.toNat_shiftRight,
    Nat.mod_eq_of_lt hshift, Nat.shiftRight_eq_div_pow]
  rw [show (0xFF : UInt32).toNat = 2 ^ 8 - 1 from rfl, Nat.and_two_pow_sub_one_eq_mod]
  omega

theorem lbaOf_toNat (sector_num : UInt32) :
    (lbaOf sector_num).toNat = 512 * sector_num.toNat % 268435456 := by
  unfold lbaOf
  rw [UInt32.toNat_and, UInt32.toNat_mul, show (0x0FFFFFFF : UInt32).toNat = 2 ^ 28 - 1 from rfl,
    Nat.and_two_pow_sub_one_eq_mod, show SECTOR_SIZE.toNat = 512 from rfl]
  omega

-- The head bits of the drive select register, as sent and after a clearing reset.
theorem driveSelect_head (drive : ATA_Drive) (lba : UInt32) :
    (driveSelectAndHighBits drive lba).toNat % 16 = lba.toNat / 16777216 % 16 := by
  have hbits : (lba >>> 24 &&& 0x0F).toUInt8.toNat = lba.toNat / 16777216 % 16 := by
    rw [UInt32.toNat_toUInt8, UInt32.toNat_and, UInt32.toNat_shiftRight,
      show (24 : UInt32).toNat % 32 = 24 from rfl, Nat.shiftRight_eq_div_pow,
      show (0x0F : UInt32).toNat = 2 ^ 4 - 1 from rfl, Nat.and_two_pow_sub_one_eq_mod]
    omega
  have hselect : (if drive.type = .PRIMARY then ATA_PRIMARY_SELECT
      else ATA_SECONDARY_SELECT).toNat % 2 ^ 4 = 0 := by
    split <;> rfl
  unfold driveSelectAndHighBits
  rw [UInt8.toNat_or, hbits, show 16 = 2 ^ 4 from rfl, Nat.or_mod_two_pow, hselect, Nat.zero_or,
    Nat.mod_mod]

theorem cleared_head (value : UInt8) : (value &&& 0xF0).toNat % 16 = 0 := by
  rw [UInt8.toNat_and, show 16 = 2 ^ 4 from rfl, Nat.and_mod_two_pow]
  exact Nat.and_zero _

theorem outb_seccount (d : Lba28) (value : UInt8) :
    lba28.outb (PBUS + ATA_REG_SECCOUNT) value d = { d with seccount := value } := rfl

theorem outb_low (d : Lba28) (value : UInt8) :
    lba28.outb (PBUS + ATA_REG_LBALOW) value d = { d with lba_low := value } := rfl

theorem outb_mid (d : Lba28) (value : UInt8) :
    lba28.outb (PBUS + ATA_REG_LBAMID) value d = { d with lba_mid := value } := rfl

theorem outb_high (d : Lba28) (value : UInt8) :
    lba28.outb (PBUS + ATA_REG_LBAHIGH) value d = { d with lba_high := value } := rfl

theorem outb_select (d : Lba28) (value : UInt8) :
    lba28.outb (PBUS + ATA_REG_DRIVESELECT) value d = { d with drive_select := value } := rfl

theorem outb_command (d : Lba28) (command : UInt8) :
    lba28.outb (PBUS + ATA_REG_COMMAND) command d = d.begin command := rfl

variable (uses_packets : Bool) (capacity : UInt32)

theorem programRegisters_lba28 (command : UInt8) (num_sectors sector_num : UInt32) (d : Lba28) :
    programRegisters lba28 (primaryDrive uses_packets capacity) command num_sectors sector_num d =
      ({ d with
          seccount := num_sectors.toUInt8
          lba_low := (lbaOf sector_num &&& 0xFF).toUInt8
          lba_mid := (lbaOf sector_num >>> 8 &&& 0xFF).toUInt8
          lba_high := (lbaOf sector_num >>> 16 &&& 0xFF).toUInt8 }).begin command := by
  simp only [programRegisters, primaryDrive, outb_seccount, outb_low, outb_mid, outb_high,
    outb_command]

theorem resetBus_lba28 (d : Lba28) :
    resetBus lba28 (primaryDrive uses_packets capacity) d =
      { d with
        transfer := .idle
        drive_select := if d.keeps_head then d.drive_select else d.drive_select &&& 0xF0 } := rfl

theorem ataSetNoInterrupts_lba28 (d : Lba28) :
    ataSetNoInterrupts lba28 (primaryDrive uses_packets capacity) d = d := rfl

theorem selectDrive_lba28 (sector_num : UInt32) (d : Lba28) :
    selectDrive lba28 (primaryDrive uses_packets capacity)
        (ataSetNoInterrupts lba28 (primaryDrive uses_packets capacity)) sector_num d =
      { d with
        drive_select :=
          driveSelectAndHighBits (primaryDrive uses_packets capacity) (lbaOf sector_num) } := by
  rw [selectDrive, ataSetNoInterrupts_lba28,
    show (primaryDrive uses_packets capacity).io_port = PBUS from rfl, outb_select]

theorem selectDrive_reset_lba28 (sector_num : UInt32) (d : Lba28) :
    selectDrive lba28 (primaryDrive uses_packets capacity)
        (resetBus lba28 (primaryDrive uses_packets capacity)) sector_num d =
      { d with
        transfer := .idle
        drive_select := if d.keeps_head
          then driveSelectAndHighBits (primaryDrive uses_packets capacity) (lbaOf sector_num)
          else driveSelectAndHighBits (primaryDrive uses_packets capacity) (lbaOf sector_num) &&&
            0xF0 } := by
  rw [selectDrive, show (primaryDrive uses_packets capacity).io_port = PBUS from rfl, outb_select,
    resetBus_lba28]

theorem flushCache_lba28 (d : Lba28) :
    flushCache lba28 (primaryDrive uses_packets capacity) d =
      { d with
        transfer := .idle
        drive_select := if d.keeps_head then d.drive_select else d.drive_select &&& 0xF0 } := by
  unfold flushCache
  rw [show (primaryDrive uses_packets capacity).io_port = PBUS from rfl, outb_command,
    resetBus_lba28]
  rfl

-- The sector that the device starts at: the byte offset of the request, cut to
-- the bits that reach the registers and survive a reset.
def startingLba (keeps_head : Bool) (sector_num : UInt32) : Nat :=
  if keeps_head then 512 * sector_num.toNat % 268435456 else 512 * sector_num.toNat % 16777216

theorem scaled_mod_eq_iff (modulus n : Nat) (hpos : 0 < modulus)
    (hcoprime : Nat.Coprime modulus 511) : 512 * n % modulus = n ↔ n = 0 := by
  constructor
  · intro h
    have hlt := Nat.mod_lt (512 * n) hpos
    have hdvd := Nat.dvd_sub_mod (n := modulus) (512 * n)
    rw [h] at hlt hdvd
    rw [show 512 * n - n = 511 * n by omega] at hdvd
    exact Nat.eq_zero_of_dvd_of_lt (hcoprime.dvd_of_dvd_mul_left hdvd) hlt
  · rintro rfl
    exact Nat.zero_mod _

theorem startingLba_eq_iff (keeps_head : Bool) (sector_num : UInt32) :
    startingLba keeps_head sector_num = sector_num.toNat ↔ sector_num = 0 := by
  have hzero : sector_num = 0 ↔ sector_num.toNat = 0 := UInt32.toNat_inj.symm
  rw [hzero]
  unfold startingLba
  cases keeps_head with
  | false => exact scaled_mod_eq_iff 16777216 _ (by omega) (by decide)
  | true => exact scaled_mod_eq_iff 268435456 _ (by omega) (by decide)

theorem lba_programmed (d : Lba28) (sector_num : UInt32) (select : UInt8) (keeps_head : Bool)
    (hselect : select.toNat % 16 =
      if keeps_head then (lbaOf sector_num).toNat / 16777216 % 16 else 0)
    (count : UInt8) :
    Lba28.lba { d with
      seccount := count
      lba_low := (lbaOf sector_num &&& 0xFF).toUInt8
      lba_mid := (lbaOf sector_num >>> 8 &&& 0xFF).toUInt8
      lba_high := (lbaOf sector_num >>> 16 &&& 0xFF).toUInt8
      drive_select := select } = startingLba keeps_head sector_num := by
  have hlow := toNat_byte (lbaOf sector_num) 0 (by decide)
  have hmid := toNat_byte (lbaOf sector_num) 8 (by decide)
  have hhigh := toNat_byte (lbaOf sector_num) 16 (by decide)
  rw [UInt32.shiftRight_zero] at hlow
  unfold Lba28.lba startingLba
  simp only [hlow, hmid, hhigh, hselect, lbaOf_toNat]
  rw [show (0 : UInt32).toNat = 0 from rfl, show (8 : UInt32).toNat = 8 from rfl,
    show (16 : UInt32).toNat = 16 from rfl]
  cases keeps_head
  · rw [if_neg Bool.false_ne_true, if_neg Bool.false_ne_true]
    omega
  · rw [if_pos rfl, if_pos rfl]
    omega

def sectorCount (num_sectors : UInt32) : Nat :=
  if num_sectors.toUInt8 = 0 then 256 else num_sectors.toUInt8.toNat

theorem sectorCount_eq (num_sectors : UInt32) (hpos : 0 < num_sectors.toNat)
    (hsmall : num_sectors.toNat < 256) : sectorCount num_sectors = num_sectors.toNat := by
  have hcount : num_sectors.toUInt8.toNat = num_sectors.toNat := by
    rw [UInt32.toNat_toUInt8]
    omega
  unfold sectorCount
  rw [if_neg, hcount]
  intro hzero
  rw [hzero, UInt8.toNat_zero] at hcount
  omega

theorem programRequest_read (num_sectors sector_num : UInt32) (fuel : Nat) (d d' : Lba28)
    (h : programRequest lba28 (primaryDrive uses_packets capacity)
      (resetBus lba28 (primaryDrive uses_packets capacity)) ATA_CMD_READ_PIO num_sectors
      sector_num fuel d = some d') :
    d'.transfer = .toHost (startingLba d.keeps_head sector_num) (sectorCount num_sectors) 0 ∧
    d'.disk = d.disk ∧ d'.touched = d.touched := by
  obtain ⟨idle, d₁, ready, hidle, hready⟩ := programRequest_eq_some _ _ _ _ _ _ _ _ _ h
  obtain ⟨polls, rfl⟩ := pollUntil_lba28 _ _ _ _ _ _ hidle
  obtain ⟨polls', rfl⟩ := pollUntil_lba28 _ _ _ _ _ _ hready
  rw [programRegisters_lba28, selectDrive_reset_lba28]
  refine ⟨?_, rfl, rfl⟩
  have hhead := driveSelect_head (primaryDrive uses_packets capacity) (lbaOf sector_num)
  have hclear := cleared_head
    (driveSelectAndHighBits (primaryDrive uses_packets capacity) (lbaOf sector_num))
  have hlba := lba_programmed { d with polls := polls, transfer := .idle } sector_num
    (if d.keeps_head
      then driveSelectAndHighBits (primaryDrive uses_packets capacity) (lbaOf sector_num)
      else driveSelectAndHighBits (primaryDrive uses_packets capacity) (lbaOf sector_num) &&& 0xF0)
    d.keeps_head (by
      cases d.keeps_head with
      | false => exact hclear
      | true => exact hhead) num_sectors.toUInt8
  simp only [Lba28.begin, if_true]
  rw [← hlba]
  rfl

theorem programRequest_write (num_sectors sector_num : UInt32) (fuel : Nat) (d d' : Lba28)
    (h : programRequest lba28 (primaryDrive uses_packets capacity)
      (ataSetNoInterrupts lba28 (primaryDrive uses_packets capacity)) ATA_CMD_WRITE_PIO num_sectors
      sector_num fuel d = some d') :
    d'.transfer = .fromHost (startingLba true sector_num) (sectorCount num_sectors) 0 ∧
    d'.disk = d.disk ∧ d'.touched = d.touched := by
  obtain ⟨idle, d₁, ready, hidle, hready⟩ := programRequest_eq_some _ _ _ _ _ _ _ _ _ h
  obtain ⟨polls, rfl⟩ := pollUntil_lba28 _ _ _ _ _ _ hidle
  obtain ⟨polls', rfl⟩ := pollUntil_lba28 _ _ _ _ _ _ hready
  rw [programRegisters_lba28, selectDrive_lba28]
  refine ⟨?_, rfl, rfl⟩
  have hlba := lba_programmed { d with polls := polls } sector_num
    (driveSelectAndHighBits (primaryDrive uses_packets capacity) (lbaOf sector_num)) true
    (by rw [if_pos rfl]; exact driveSelect_head _ _) num_sectors.toUInt8
  have hcommand : ¬ ATA_CMD_WRITE_PIO = ATA_CMD_READ_PIO := by decide
  simp only [Lba28.begin, hcommand, if_false, if_true]
  rw [← hlba]
  rfl

end Registers

-- The two loops against a device in the middle of a request: every word is the
-- next one of the request.
section Words

theorem received_lba28 (drive : ATA_Drive) (hport : drive.io_port = PBUS) (words : Nat)
    (d : Lba28) (lba count moved : Nat) (htransfer : d.transfer = .toHost lba count moved)
    (hroom : moved + words ≤ 256 * count) :
    received lba28 drive words d =
      ((List.range words).map fun i => d.disk (lba + (moved + i) / 256) ((moved + i) % 256),
        { d with
          transfer := .toHost lba count (moved + words)
          touched := d.touched ++ (List.range words).map fun i => lba + (moved + i) / 256 }) := by
  induction words generalizing d moved with
  | zero =>
      cases d
      simp_all [received]
  | succ words ih =>
      have hword : lba28.inw (drive.io_port + ATA_REG_DATA) d =
          (d.disk (lba + moved / 256) (moved % 256),
            { d with
              transfer := .toHost lba count (moved + 1)
              touched := d.touched ++ [lba + moved / 256] }) := by
        simp only [lba28, hport, if_true, Lba28.giveWord, htransfer]
        rw [if_pos (by omega)]
      rw [received, hword]
      simp only
      rw [ih _ (moved + 1) rfl (by omega), List.range_succ_eq_map]
      simp only [List.map_cons, List.map_map, Function.comp_def, Nat.add_zero, List.append_assoc,
        List.singleton_append, Nat.succ_eq_add_one, Nat.add_assoc, Nat.add_comm 1]

-- Positions count the words of the disk through the sectors.
theorem writeWords_lba28 (drive : ATA_Drive) (hport : drive.io_port = PBUS) (m : Memory)
    (words data : Nat) (d : Lba28) (lba count moved : Nat)
    (htransfer : d.transfer = .fromHost lba count moved) (hroom : moved + words ≤ 256 * count) :
    (writeWords lba28 drive m words data d).1.touched =
      d.touched ++ (List.range words).map (fun i => lba + (moved + i) / 256) ∧
    ∀ sector word, word < 256 → (writeWords lba28 drive m words data d).1.disk sector word =
      if 256 * lba + moved ≤ 256 * sector + word ∧
        256 * sector + word < 256 * lba + moved + words
      then nextWord m (data + 2 * (256 * sector + word - (256 * lba + moved)))
      else d.disk sector word := by
  induction words generalizing d data moved with
  | zero =>
      refine ⟨by simp [writeWords], ?_⟩
      intro sector word _
      rw [if_neg (by omega)]
      rfl
  | succ words ih =>
      have hword : lba28.outw (drive.io_port + ATA_REG_DATA) (nextWord m data) d =
          { d with
            disk := Function.update d.disk (lba + moved / 256)
              (Function.update (d.disk (lba + moved / 256)) (moved % 256) (nextWord m data))
            transfer := .fromHost lba count (moved + 1)
            touched := d.touched ++ [lba + moved / 256] } := by
        simp only [lba28, hport, if_true, Lba28.takeWord, htransfer]
        rw [if_pos (by omega)]
      rw [writeWords, hword]
      obtain ⟨htouched, hdisk⟩ := ih (data + 2)
        { d with
          disk := Function.update d.disk (lba + moved / 256)
            (Function.update (d.disk (lba + moved / 256)) (moved % 256) (nextWord m data))
          transfer := .fromHost lba count (moved + 1)
          touched := d.touched ++ [lba + moved / 256] } (moved + 1) rfl (by omega)
      refine ⟨?_, ?_⟩
      · refine htouched.trans ?_
        rw [List.range_succ_eq_map]
        simp only [List.map_cons, List.map_map, Function.comp_def, Nat.add_zero, List.append_assoc,
          List.singleton_append, Nat.succ_eq_add_one, Nat.add_assoc, Nat.add_comm 1]
      · intro sector word hw
        refine (hdisk sector word hw).trans ?_
        by_cases hhere : sector = lba + moved / 256 ∧ word = moved % 256
        · obtain ⟨rfl, rfl⟩ := hhere
          rw [if_neg (by omega), if_pos (by omega)]
          simp only [Function.update_self]
          congr 1
          omega
        · have hsame : Function.update d.disk (lba + moved / 256)
              (Function.update (d.disk (lba + moved / 256)) (moved % 256) (nextWord m data))
              sector word = d.disk sector word := by
            by_cases hs : sector = lba + moved / 256
            · subst hs
              rw [Function.update_self, Function.update_of_ne (fun he => hhere ⟨rfl, he⟩)]
            · rw [Function.update_of_ne hs]
          simp only [hsame]
          by_cases hlater : 256 * lba + (moved + 1) ≤ 256 * sector + word ∧
              256 * sector + word < 256 * lba + (moved + 1) + words
          · rw [if_pos hlater, if_pos (by omega)]
            congr 1
            omega
          · rw [if_neg hlater, if_neg (by omega)]

end Words

end PalleyOS.Ata
