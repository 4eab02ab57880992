import PalleyOS.Ata

namespace PalleyOS.Ata

def SBUS : UInt16 := 0x170
def ATA_REG_STATUS : UInt16 := 0x07
def ATA_CMD_IDENTIFY : UInt8 := 0xEC

section Source

variable {δ : Type} (ports : Ports δ)

-- Whether neither bus has a drive at all.
def isFloatingBus (d : δ) : Bool × δ :=
  let (init_read_primary, d) := ports.inb (PBUS + ATA_REG_STATUS) d
  let (init_read_secondary, d) := ports.inb (SBUS + ATA_REG_STATUS) d
  (init_read_primary == 0xFF && init_read_secondary == 0xFF, d)

-- What a drive answers to the IDENTIFY command, up to the point where
-- `ataIdentify` stops asking.
inductive IdentifyResponse where
  | absent
  | atapi
  | error
  | data (identify_data : List UInt16)
  deriving DecidableEq

-- The loop that reads the words of `identify_data`.
def identifyWords (bus : UInt16) : Nat → δ → List UInt16 × δ
  | 0, d => ([], d)
  | words + 1, d =>
      let (word, d) := ports.inw bus d
      let (identify_data, d) := identifyWords bus words d
      (word :: identify_data, d)

-- The port accesses of `ataIdentify`.
def identify (drive : ATA_Drive) (fuel : Nat) (d : δ) : Option (IdentifyResponse × δ) :=
  let bus := drive.io_port
  let d := ports.outb (bus + ATA_REG_DRIVESELECT) 0xA0 d
  let d := ataSetNoInterrupts ports drive d
  let d := ports.outb (bus + ATA_REG_SECCOUNT) 0x00 d
  let d := ports.outb (bus + ATA_REG_LBALOW) 0x00 d
  let d := ports.outb (bus + ATA_REG_LBAMID) 0x00 d
  let d := ports.outb (bus + ATA_REG_LBAHIGH) 0x00 d
  let d := ports.outb (bus + ATA_REG_STATUS) ATA_CMD_IDENTIFY d
  let (status, d) := ports.inb (bus + ATA_REG_STATUS) d
  if status = 0x00 then some (.absent, d)
  else
    match pollUntil ports drive (fun poll => !busy poll) fuel d with
    | none => none
    | some (_, d) =>
        let (lbamid, d) := ports.inb (bus + ATA_REG_LBAMID) d
        let (lbahigh, d) := ports.inb (bus + ATA_REG_LBAHIGH) d
        if lbamid = 0x14 ∧ lbahigh = 0xEB then some (.atapi, d)
        else
          match pollUntil ports drive (fun poll => data_transfer_requested poll || Ata.error poll)
              fuel d with
          | none => none
          | some (poll, d) =>
              if Ata.error poll then some (.error, d)
              else
                let (identify_data, d) := identifyWords ports bus 256 d
                some (.data identify_data, d)

def num_lba28_sectors (identify_data : List UInt16) : UInt32 :=
  (identify_data.getD 60 0).toUInt32 ||| (identify_data.getD 61 0).toUInt32 <<< 16

-- Not implemented: it returns before it asks the drive anything.
def atapiSetup (drive : ATA_Drive) : Bool × ATA_Drive := (false, drive)

-- What `ataIdentify` returns and makes of the drive behind its pointer.
def concludeIdentify (drive : ATA_Drive) : IdentifyResponse → Bool × ATA_Drive
  | .absent => (false, drive)
  | .atapi => atapiSetup { drive with ata_type := .ATAPI, uses_packets := true }
  | .error => (false, drive)
  | .data identify_data =>
      let drive := { drive with num_sectors := num_lba28_sectors identify_data }
      (num_lba28_sectors identify_data != 0, drive)

def ataIdentify (drive : ATA_Drive) (fuel : Nat) (d : δ) : Option (Bool × ATA_Drive × δ) :=
  match identify ports drive fuel d with
  | none => none
  | some (response, d) =>
      let (result, drive) := concludeIdentify drive response
      some (result, drive, d)

-- The fields that `ideInit` sets in its two locals. The others are whatever the
-- stack held.
def localPrimary (stack : ATA_Drive) : ATA_Drive :=
  { stack with ata_type := .ATA, type := .PRIMARY, io_port := PBUS, command_port := PBUSC }

def localSecondary (stack : ATA_Drive) : ATA_Drive :=
  { stack with ata_type := .ATA, type := .SECONDARY, io_port := SBUS, command_port := PBUSC }

-- The locals go into the table before the drives are asked.
def ideInit (primary_drive secondary_drive : ATA_Drive) (ata_drives : Nat → ATA_Drive)
    (fuel : Nat) (d : δ) : Option (Bool × (Nat → ATA_Drive) × δ) :=
  let (floating, d) := isFloatingBus ports d
  if floating then some (false, ata_drives, d)
  else
    let primary_drive := localPrimary primary_drive
    let secondary_drive := localSecondary secondary_drive
    let ata_drives := Function.update (Function.update ata_drives 0 primary_drive) 1 secondary_drive
    match ataIdentify ports primary_drive fuel d with
    | none => none
    | some (_, _, d) =>
        match ataIdentify ports secondary_drive fuel d with
        | none => none
        | some (_, _, d) => some (true, ata_drives, d)

end Source

section Published

variable {δ : Type} (ports : Ports δ)

-- A drive was asked, answered `response`, and `ataIdentify` returned `ok` with its
-- own copy of the drive being `found`.
structure Identified (drive : ATA_Drive) (fuel : Nat) (d : δ) (response : IdentifyResponse)
    (ok : Bool) (found : ATA_Drive) (next : δ) : Prop where
  asked : identify ports drive fuel d = some (response, next)
  concluded : ataIdentify ports drive fuel d = some (ok, found, next)

-- An entry of the table tells what the drive answered.
structure Publishes (response : IdentifyResponse) (ok : Bool) (entry : ATA_Drive) : Prop where
  capacity : ok = true → ∀ identify_data, response = .data identify_data →
    entry.num_sectors = num_lba28_sectors identify_data
  packets : response = .atapi → entry.ata_type = .ATAPI

-- The stack already holds the capacity where the local has its own, and the drive
-- does not want packets.
structure StackFits (response : IdentifyResponse) (stack : ATA_Drive) : Prop where
  capacity : ∀ identify_data, response = .data identify_data →
    num_lba28_sectors identify_data ≠ 0 → stack.num_sectors = num_lba28_sectors identify_data
  no_packets : response ≠ .atapi

variable {ports}

theorem Identified.conclude {drive found : ATA_Drive} {fuel : Nat} {d next : δ}
    {response : IdentifyResponse} {ok : Bool}
    (h : Identified ports drive fuel d response ok found next) :
    (ok, found) = concludeIdentify drive response := by
  have hconcluded := h.concluded
  unfold ataIdentify at hconcluded
  rw [h.asked] at hconcluded
  obtain ⟨rfl, rfl, -⟩ := Option.some.inj hconcluded
  rfl

theorem exists_identified (drive found : ATA_Drive) (fuel : Nat) (d next : δ) (ok : Bool)
    (h : ataIdentify ports drive fuel d = some (ok, found, next)) :
    ∃ response, Identified ports drive fuel d response ok found next := by
  have hasked := h
  unfold ataIdentify at hasked
  split at hasked
  · cases hasked
  · rename_i response between hidentify
    obtain ⟨-, -, rfl⟩ := Option.some.inj hasked
    exact ⟨response, hidentify, h⟩

-- `ataIdentify` succeeds on a drive that reports a capacity and on no other.
theorem Identified.ok_iff {drive found : ATA_Drive} {fuel : Nat} {d next : δ}
    {response : IdentifyResponse} {ok : Bool}
    (h : Identified ports drive fuel d response ok found next) :
    ok = true ↔
      ∃ identify_data, response = .data identify_data ∧ num_lba28_sectors identify_data ≠ 0 := by
  have hok : ok = (concludeIdentify drive response).1 := congrArg Prod.fst h.conclude
  rw [hok]
  cases response with
  | absent => simp [concludeIdentify]
  | atapi => simp [concludeIdentify, atapiSetup]
  | error => simp [concludeIdentify]
  | data identify_data => simp [concludeIdentify]

-- The copy that `ataIdentify` works on is right.
theorem Identified.publishes {drive found : ATA_Drive} {fuel : Nat} {d next : δ}
    {response : IdentifyResponse} {ok : Bool}
    (h : Identified ports drive fuel d response ok found next) : Publishes response ok found := by
  have hfound : found = (concludeIdentify drive response).2 := congrArg Prod.snd h.conclude
  refine ⟨fun _ identify_data hdata => ?_, fun hatapi => ?_⟩
  · rw [hfound, hdata]
    rfl
  · rw [hfound, hatapi]
    rfl

-- The entry of the table was copied before it.
theorem Identified.publishes_iff {drive found entry stack : ATA_Drive} {fuel : Nat} {d next : δ}
    {response : IdentifyResponse} {ok : Bool}
    (h : Identified ports drive fuel d response ok found next) (htype : entry.ata_type = .ATA)
    (hsectors : entry.num_sectors = stack.num_sectors) :
    Publishes response ok entry ↔ StackFits response stack := by
  constructor
  · intro hentry
    refine ⟨fun identify_data hdata hnonzero => ?_, fun hatapi => ?_⟩
    · rw [← hsectors]
      exact hentry.capacity (h.ok_iff.mpr ⟨identify_data, hdata, hnonzero⟩) identify_data hdata
    · exact ATA_Type.noConfusion (htype.symm.trans (hentry.packets hatapi))
  · intro hstack
    refine ⟨fun hok identify_data hdata => ?_, fun hatapi => absurd hatapi hstack.no_packets⟩
    obtain ⟨other, hother, hnonzero⟩ := h.ok_iff.mp hok
    obtain rfl := IdentifyResponse.data.inj (hdata.symm.trans hother)
    rw [hsectors]
    exact hstack.capacity identify_data hdata hnonzero

-- Reads and writes are then checked against the drive that answered.
theorem Identified.accepts_eq {drive found entry : ATA_Drive} {fuel : Nat} {d next : δ}
    {response : IdentifyResponse} {ok : Bool}
    (h : Identified ports drive fuel d response ok found next) (hok : ok = true)
    (htype : entry.ata_type = drive.ata_type) (hentry : Publishes response ok entry)
    (num_sectors sector_num : UInt32) :
    accepts entry num_sectors sector_num = accepts found num_sectors sector_num := by
  obtain ⟨identify_data, hdata, -⟩ := h.ok_iff.mp hok
  have hfound : found = (concludeIdentify drive response).2 := congrArg Prod.snd h.conclude
  have hfoundType : found.ata_type = drive.ata_type := by
    rw [hfound, hdata]
    rfl
  have hsectors : entry.num_sectors = found.num_sectors :=
    (hentry.capacity hok identify_data hdata).trans
      (h.publishes.capacity hok identify_data hdata).symm
  unfold accepts
  rw [htype, hfoundType, hsectors]

variable (ports)

-- In every run that returns true, for every stack and every answer of the drives.
theorem published_iff (primary_drive secondary_drive : ATA_Drive)
    (ata_drives published : Nat → ATA_Drive) (fuel : Nat) (d next : δ)
    (hinit : ideInit ports primary_drive secondary_drive ata_drives fuel d =
      some (true, published, next)) :
    ∃ first ok found between second ok' found',
      Identified ports (localPrimary primary_drive) fuel (isFloatingBus ports d).2
        first ok found between ∧
      Identified ports (localSecondary secondary_drive) fuel between second ok' found' next ∧
      (Publishes first ok (published 0) ∧ Publishes second ok' (published 1) ↔
        StackFits first primary_drive ∧ StackFits second secondary_drive) := by
  unfold ideInit at hinit
  simp only at hinit
  split at hinit
  · cases hinit
  · split at hinit
    · cases hinit
    · rename_i ok found between hprimary
      split at hinit
      · cases hinit
      · rename_i ok' found' last hsecondary
        obtain ⟨-, rfl, rfl⟩ := Option.some.inj hinit
        obtain ⟨first, hfirst⟩ := exists_identified _ _ _ _ _ _ hprimary
        obtain ⟨second, hsecond⟩ := exists_identified _ _ _ _ _ _ hsecondary
        refine ⟨first, ok, found, between, second, ok', found', hfirst, hsecond, ?_⟩
        exact and_congr (hfirst.publishes_iff rfl rfl) (hsecond.publishes_iff rfl rfl)

end Published

section Answering

-- Two drives that are ready at once and report 65537 sectors.
def readyDrives : Ports Unit where
  inb _ d := (0x08, d)
  outb _ _ d := d
  inw _ d := (1, d)
  outw _ _ d := d

def blankStack : ATA_Drive :=
  { ata_type := .ATA, type := .PRIMARY, io_port := 0, command_port := 0, uses_packets := false
    num_sectors := 0 }

theorem identifyWords_ready (bus : UInt16) (words : Nat) :
    identifyWords readyDrives bus words () = (List.replicate words 1, ()) := by
  induction words with
  | zero => rfl
  | succ words ih =>
      rw [identifyWords]
      simp only [readyDrives] at ih ⊢
      rw [ih]
      rfl

theorem identify_ready (drive : ATA_Drive) :
    identify readyDrives drive 1 () = some (.data (List.replicate 256 1), ()) := by
  have hwords := identifyWords_ready drive.io_port 256
  have hanswer (port : UInt16) : readyDrives.inb port () = (0x08, ()) := rfl
  have hstatus : (0x08 : UInt8) ≠ 0x00 := by decide
  have hsignature : ¬((0x08 : UInt8) = 0x14 ∧ (0x08 : UInt8) = 0xEB) := by decide
  have hbusy : busy 0x08 = false := by decide
  have hrequested : data_transfer_requested 0x08 = true := by decide
  have hidle : pollUntil readyDrives drive (fun poll => !busy poll) 1 () = some (0x08, ()) := by
    simp [pollUntil, readyDrives, hbusy]
  have hready : pollUntil readyDrives drive
      (fun poll => data_transfer_requested poll || Ata.error poll) 1 () = some (0x08, ()) := by
    simp [pollUntil, readyDrives, hrequested]
  have herror : ¬Ata.error 0x08 = true := by decide
  unfold identify
  simp only [hanswer, if_neg hstatus, hidle, if_neg hsignature, hready, if_neg herror, hwords]

theorem ataIdentify_ready (drive : ATA_Drive) :
    ataIdentify readyDrives drive 1 () =
      some (true, (concludeIdentify drive (.data (List.replicate 256 1))).2, ()) := by
  unfold ataIdentify
  rw [identify_ready]
  rfl

theorem ideInit_ready :
    ideInit readyDrives blankStack blankStack (fun _ => blankStack) 1 () =
      some (true, Function.update (Function.update (fun _ => blankStack) 0 (localPrimary blankStack))
        1 (localSecondary blankStack), ()) := by
  have hfloating : isFloatingBus readyDrives () = (false, ()) := by decide
  unfold ideInit
  simp only [hfloating, ataIdentify_ready]
  rfl

theorem published_iff_ready :
    ∃ first ok found between second ok' found',
      Identified readyDrives (localPrimary blankStack) 1 (isFloatingBus readyDrives ()).2
        first ok found between ∧
      Identified readyDrives (localSecondary blankStack) 1 between second ok' found' () ∧
      (Publishes first ok (localPrimary blankStack) ∧
          Publishes second ok' (localSecondary blankStack) ↔
        StackFits first blankStack ∧ StackFits second blankStack) :=
  published_iff readyDrives blankStack blankStack (fun _ => blankStack)
    (Function.update (Function.update (fun _ => blankStack) 0 (localPrimary blankStack))
      1 (localSecondary blankStack)) 1 () () ideInit_ready

-- The primary drive reports 65537 sectors, its entry has none.
theorem capacity_lost :
    ¬∀ (primary_drive secondary_drive : ATA_Drive) (ata_drives published : Nat → ATA_Drive)
        (fuel : Nat) (response : IdentifyResponse) (ok : Bool) (found : ATA_Drive)
        (between : Unit),
      ideInit readyDrives primary_drive secondary_drive ata_drives fuel () =
        some (true, published, ()) →
      Identified readyDrives (localPrimary primary_drive) fuel (isFloatingBus readyDrives ()).2
        response ok found between →
      Publishes response ok (published 0) := by
  intro h
  obtain ⟨response, hidentified⟩ := exists_identified _ _ _ _ _ _
    (ataIdentify_ready (localPrimary blankStack))
  have hresponse : response = .data (List.replicate 256 1) := by
    have hasked := hidentified.asked
    rw [identify_ready] at hasked
    exact (congrArg Prod.fst (Option.some.inj hasked)).symm
  have hpublished := h _ _ _ _ 1 response true _ () ideInit_ready hidentified
  have hcapacity := hpublished.capacity rfl _ hresponse
  exact absurd hcapacity (by decide)

end Answering

end PalleyOS.Ata
