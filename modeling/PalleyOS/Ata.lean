import PalleyOS.Machine.Memory

namespace PalleyOS.Ata

open Machine

def PBUS : UInt16 := 0x1F0
def PBUSC : UInt16 := 0x3f6
def ATA_PRIMARY_SELECT : UInt8 := 0xE0
def ATA_SECONDARY_SELECT : UInt8 := 0xF0
def ATA_REG_DATA : UInt16 := 0x00
def ATA_REG_SECCOUNT : UInt16 := 0x08
def ATA_REG_LBALOW : UInt16 := 0x03
def ATA_REG_LBAMID : UInt16 := 0x04
def ATA_REG_LBAHIGH : UInt16 := 0x05
def ATA_REG_DRIVESELECT : UInt16 := 0x06
def ATA_REG_COMMAND : UInt16 := 0x07
def ATA_CMD_READ_PIO : UInt8 := 0x20
def ATA_CMD_WRITE_PIO : UInt8 := 0x30
def ATA_CMD_CACHE_FLUSH : UInt8 := 0xE7
def SECTOR_SIZE : UInt32 := 512

inductive ATA_Type where
  | ATA
  | ATAPI
  deriving DecidableEq

inductive ATA_Drive_Type where
  | PRIMARY
  | SECONDARY
  deriving DecidableEq

structure ATA_Drive where
  ata_type : ATA_Type
  type : ATA_Drive_Type
  io_port : UInt16
  command_port : UInt16
  uses_packets : Bool
  num_sectors : UInt32

-- The bits of the status register that the driver looks at.
def busy (status : UInt8) : Bool := status.toNat.testBit 7
def data_transfer_requested (status : UInt8) : Bool := status.toNat.testBit 3
def error (status : UInt8) : Bool := status.toNat.testBit 0

-- What the ports answer and what they change, for a device with states in `δ`.
structure Ports (δ : Type) where
  inb : UInt16 → δ → UInt8 × δ
  outb : UInt16 → UInt8 → δ → δ
  inw : UInt16 → δ → UInt16 × δ
  outw : UInt16 → UInt16 → δ → δ

section Driver

variable {δ : Type} (ports : Ports δ) (drive : ATA_Drive)

def resetBus (d : δ) : δ :=
  let d := ports.outb drive.command_port ((1 : UInt8) <<< 2) d
  ports.outb drive.command_port ((1 : UInt8) <<< 1) d

def ataSetNoInterrupts (d : δ) : δ := ports.outb drive.command_port 0x02 d

-- The polling loops: `none` stands for a loop that is still running.
def pollUntil (ready : UInt8 → Bool) : Nat → δ → Option (UInt8 × δ)
  | 0, _ => none
  | fuel + 1, d =>
      let (poll, d) := ports.inb drive.command_port d
      if ready poll then some (poll, d) else pollUntil ready fuel d

-- The checks that both directions begin with.
def accepts (num_sectors sector_num : UInt32) : Bool :=
  !(drive.ata_type = .ATAPI) && !(sector_num > drive.num_sectors) &&
    !(sector_num + num_sectors > drive.num_sectors)

def lbaOf (sector_num : UInt32) : UInt32 := (sector_num * SECTOR_SIZE) &&& 0x0FFFFFFF

def driveSelectAndHighBits (lba : UInt32) : UInt8 :=
  (if drive.type = .PRIMARY then ATA_PRIMARY_SELECT else ATA_SECONDARY_SELECT) |||
    (lba >>> 24 &&& 0x0F).toUInt8

-- Select the drive with the highest four bits of the address. `settle` is what
-- the two directions do between that and the first poll.
def selectDrive (settle : δ → δ) (sector_num : UInt32) (d : δ) : δ :=
  settle (ports.outb (drive.io_port + ATA_REG_DRIVESELECT)
    (driveSelectAndHighBits drive (lbaOf sector_num)) d)

def programRegisters (command : UInt8) (num_sectors sector_num : UInt32) (d : δ) : δ :=
  let lba := lbaOf sector_num
  let d := ports.outb (drive.io_port + ATA_REG_SECCOUNT) num_sectors.toUInt8 d
  let d := ports.outb (drive.io_port + ATA_REG_LBALOW) (lba &&& 0xFF).toUInt8 d
  let d := ports.outb (drive.io_port + ATA_REG_LBAMID) (lba >>> 8 &&& 0xFF).toUInt8 d
  let d := ports.outb (drive.io_port + ATA_REG_LBAHIGH) (lba >>> 16 &&& 0xFF).toUInt8 d
  ports.outb (drive.io_port + ATA_REG_COMMAND) command d

-- Both directions program the request and wait until data can move.
def programRequest (settle : δ → δ) (command : UInt8) (num_sectors sector_num : UInt32)
    (fuel : Nat) (d : δ) : Option δ :=
  match pollUntil ports drive (fun poll => !busy poll && !data_transfer_requested poll) fuel
      (selectDrive ports drive settle sector_num d) with
  | none => none
  | some (_, d) =>
      (pollUntil ports drive (fun poll => !busy poll && data_transfer_requested poll) fuel
        (programRegisters ports drive command num_sectors sector_num d)).map Prod.snd

def flushCache (d : δ) : δ :=
  resetBus ports drive (ports.outb (drive.io_port + ATA_REG_COMMAND) ATA_CMD_CACHE_FLUSH d)

def wordCount (num_sectors : UInt32) : Nat := (num_sectors * (SECTOR_SIZE / 2)).toNat

def readWords : Nat → Nat → Memory → δ → Memory × δ
  | 0, _, m, d => (m, d)
  | words + 1, itr, m, d =>
      let (tmp, d) := ports.inw (drive.io_port + ATA_REG_DATA) d
      readWords words (itr + 2) (store16 m itr tmp.toNat) d

def ataReadDrive (fuel : Nat) (data : Nat) (num_sectors sector_num : UInt32) (m : Memory) (d : δ) :
    Option (Int32 × Memory × δ) :=
  if accepts drive num_sectors sector_num then
    match programRequest ports drive (resetBus ports drive) ATA_CMD_READ_PIO num_sectors
        sector_num fuel d with
    | none => none
    | some d =>
        let (m, d) := readWords ports drive (wordCount num_sectors) data m d
        match pollUntil ports drive (fun poll => !busy poll) fuel (flushCache ports drive d) with
        | none => none
        | some (poll, d) =>
            some (if error poll then 0 else (num_sectors * SECTOR_SIZE).toInt32, m, d)
  else some (0, m, d)

-- `char` is signed: the first byte of a word is sign extended. The second load
-- takes two bytes, of which the shift and the 16 bits of the word keep one.
def nextWord (m : Memory) (data : Nat) : UInt16 :=
  let to_write : UInt16 := (UInt8.ofNat (load8 m data)).toInt8.toInt16.toUInt16
  to_write ||| UInt16.ofNat (load16 m (data + 1) <<< 8)

-- The addresses that `nextWord` loads.
def wordLoads (data : Nat) : List Nat :=
  [data % 4294967296, (data + 1) % 4294967296, (data + 2) % 4294967296]

-- The loop also answers the addresses it loaded.
def writeWords (m : Memory) : Nat → Nat → δ → δ × List Nat
  | 0, _, d => (d, [])
  | words + 1, data, d =>
      let d := ports.outw (drive.io_port + ATA_REG_DATA) (nextWord m data) d
      let (d, loads) := writeWords m words (data + 2) d
      (d, wordLoads data ++ loads)

def ataWriteDrive (fuel : Nat) (data : Nat) (num_sectors sector_num : UInt32) (m : Memory) (d : δ) :
    Option (Int32 × List Nat × δ) :=
  if accepts drive num_sectors sector_num then
    match programRequest ports drive (ataSetNoInterrupts ports drive) ATA_CMD_WRITE_PIO
        num_sectors sector_num fuel d with
    | none => none
    | some d =>
        let (d, loads) := writeWords ports drive m (wordCount num_sectors) data d
        match pollUntil ports drive (fun poll => !data_transfer_requested poll && !busy poll) fuel
            (flushCache ports drive d) with
        | none => none
        | some (poll, d) =>
            some (if error poll then 0 else (num_sectors * SECTOR_SIZE).toInt32, loads, d)
  else some (0, [], d)

end Driver

-- The table entry that both `ataRead` and `ataWrite` use, as `ideInit` fills it in.
def primaryDrive (uses_packets : Bool) (num_sectors : UInt32) : ATA_Drive :=
  { ata_type := .ATA
    type := .PRIMARY
    io_port := PBUS
    command_port := PBUSC
    uses_packets := uses_packets
    num_sectors := num_sectors }

end PalleyOS.Ata
