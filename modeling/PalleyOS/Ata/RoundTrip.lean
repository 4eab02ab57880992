import PalleyOS.Ata.Lemmas

namespace PalleyOS.Ata

open Machine

-- The same device with a log of the words sent to it.
section Recording

variable {δ : Type} (ports : Ports δ) (drive : ATA_Drive)

def recording : Ports (δ × List UInt16) where
  inb port d := ((ports.inb port d.1).1, (ports.inb port d.1).2, d.2)
  outb port value d := (ports.outb port value d.1, d.2)
  inw port d := ((ports.inw port d.1).1, (ports.inw port d.1).2, d.2)
  outw port value d := (ports.outw port value d.1, d.2 ++ [value])

theorem pollUntil_recording (ready : UInt8 → Bool) (fuel : Nat) (d d' : δ)
    (sent sent' : List UInt16) (poll : UInt8)
    (h : pollUntil (recording ports) drive ready fuel (d, sent) = some (poll, d', sent')) :
    pollUntil ports drive ready fuel d = some (poll, d') ∧ sent' = sent := by
  induction fuel generalizing d with
  | zero => simp [pollUntil] at h
  | succ fuel ih =>
      rw [pollUntil_succ] at h ⊢
      by_cases hready : ready (ports.inb drive.command_port d).1 = true
      · rw [if_pos hready]
        rw [if_pos (show ready ((recording ports).inb drive.command_port (d, sent)).1 = true from
          hready)] at h
        obtain ⟨hpoll, hd⟩ := Prod.mk.inj (Option.some.inj h)
        obtain ⟨rfl, rfl⟩ := Prod.mk.inj hd
        exact ⟨by rw [← hpoll], rfl⟩
      · rw [if_neg hready]
        rw [if_neg (show ¬ready ((recording ports).inb drive.command_port (d, sent)).1 = true from
          hready)] at h
        exact ih _ h

theorem programRequest_recording (command : UInt8) (num_sectors sector_num : UInt32) (fuel : Nat)
    (d d' : δ) (sent sent' : List UInt16)
    (h : programRequest (recording ports) drive (ataSetNoInterrupts (recording ports) drive) command
      num_sectors sector_num fuel (d, sent) = some (d', sent')) : sent' = sent := by
  obtain ⟨idle, ⟨d₁, sent₁⟩, ready, hidle, hready⟩ := programRequest_eq_some _ _ _ _ _ _ _ _ _ h
  obtain ⟨-, hsame⟩ := pollUntil_recording ports drive _ fuel _ _ _ _ _ hidle
  obtain ⟨-, hsame'⟩ := pollUntil_recording ports drive _ fuel _ _ _ _ _ hready
  exact hsame'.trans hsame

theorem writeWords_recording (m : Memory) (words data : Nat) (d : δ) (sent : List UInt16) :
    (writeWords (recording ports) drive m words data (d, sent)).1.2 =
      sent ++ wordsFrom m data words := by
  induction words generalizing data d sent with
  | zero => simp [writeWords, wordsFrom]
  | succ words ih =>
      rw [writeWords, wordsFrom_succ]
      refine (ih (data + 2) _ _).trans ?_
      rw [List.append_assoc]
      rfl

-- A completed request sent the words of the buffer, whatever the device answered.
theorem ataWriteDrive_sent (fuel data : Nat) (num_sectors sector_num : UInt32) (m : Memory)
    (d d' : δ) (result : Int32) (loads : List Nat) (sent : List UInt16)
    (haccepts : accepts drive num_sectors sector_num = true)
    (h : ataWriteDrive (recording ports) drive fuel data num_sectors sector_num m (d, []) =
      some (result, loads, d', sent)) :
    sent = wordsFrom m data (wordCount num_sectors) ∧
    ∃ d₁, loads = (writeWords (recording ports) drive m (wordCount num_sectors) data d₁).2 := by
  obtain ⟨⟨d₁, sent₁⟩, poll, hprogram, rfl, hfinish, -⟩ :=
    ataWriteDrive_eq_some (recording ports) drive fuel data _ _ m _ _ _ _ haccepts h
  obtain rfl := programRequest_recording ports drive _ _ _ fuel _ _ _ _ hprogram
  refine ⟨?_, (d₁, []), rfl⟩
  rw [(pollUntil_recording ports drive _ fuel _ _ _ _ _ hfinish).2]
  exact writeWords_recording ports drive m _ data d₁ []

end Recording

-- A device that hands out the given words.
section Feeding

variable (drive : ATA_Drive)

def feeding : Ports (List UInt16) where
  inb _ words := (0, words)
  outb _ _ words := words
  inw _ words := (words.headD 0, words.tail)
  outw _ _ words := words

theorem received_feeding (words : List UInt16) :
    (received feeding drive words.length words).1 = words := by
  induction words with
  | nil => rfl
  | cons word rest ih =>
      rw [List.length_cons, received]
      exact congrArg (word :: ·) ih

end Feeding

section RoundTrip

variable (drive : ATA_Drive)

def SendsPairs (m : Memory) (data n : Nat) (sent : List UInt16) : Prop :=
  sent.length = 256 * n ∧ ∀ i < 256 * n,
    (sent.getD i 0).toNat = load8 m (data + 2 * i) + 256 * load8 m (data + 2 * i + 1)

def LoadsInside (data n : Nat) (loads : List Nat) : Prop :=
  ∀ a ∈ loads, data ≤ a ∧ a < data + 512 * n

def ReadsBack (m : Memory) (data n : Nat) (sent : List UInt16) : Prop :=
  ∀ m₀ itr, itr + 512 * n ≤ 4294967296 → ∀ k < 512 * n,
    (readWords feeding drive (256 * n) itr m₀ sent).1 (itr + k) = m (data + k)

def PairsSurvive (m : Memory) (data n : Nat) : Prop :=
  ∀ i < 256 * n, survives (load8 m (data + 2 * i)) (load8 m (data + 2 * i + 1))

theorem sendsPairs_iff (m : Memory) (data n : Nat) :
    SendsPairs m data n (wordsFrom m data (256 * n)) ↔ PairsSurvive m data n := by
  have hlength : (wordsFrom m data (256 * n)).length = 256 * n := by simp [wordsFrom]
  unfold SendsPairs PairsSurvive
  rw [and_iff_right hlength]
  apply forall_congr'
  intro i
  apply forall_congr'
  intro hi
  rw [wordsFrom_getD _ _ _ _ hi]
  exact nextWord_eq_pair_iff m (data + 2 * i)

-- The low byte of a word comes back, the high byte only from a pair that survives.
theorem readsBack_iff (m : Memory) (data n : Nat) (hfit : data + 512 * n ≤ 4294967296) :
    ReadsBack drive m data n (wordsFrom m data (256 * n)) ↔ PairsSurvive m data n := by
  have hlength : (wordsFrom m data (256 * n)).length = 256 * n := by simp [wordsFrom]
  have hreceived : (received feeding drive (256 * n) (wordsFrom m data (256 * n))).1 =
      wordsFrom m data (256 * n) := by
    have hall := received_feeding drive (wordsFrom m data (256 * n))
    rwa [hlength] at hall
  have hpair (m₀ : Memory) (itr i : Nat) (hitr : itr + 512 * n ≤ 4294967296)
      (hi : i < 256 * n) :
      (readWords feeding drive (256 * n) itr m₀ (wordsFrom m data (256 * n))).1 (itr + 2 * i) =
          m (data + 2 * i) ∧
      ((readWords feeding drive (256 * n) itr m₀ (wordsFrom m data (256 * n))).1
          (itr + 2 * i + 1) = m (data + 2 * i + 1) ↔
        survives (load8 m (data + 2 * i)) (load8 m (data + 2 * i + 1))) := by
    obtain ⟨hlow, hhigh⟩ := readWords_bytes feeding drive (256 * n) itr m₀
      (wordsFrom m data (256 * n)) i (by omega) hi
    rw [hreceived, wordsFrom_getD _ _ _ _ hi] at hlow hhigh
    have hbyte (k : Nat) (hk : k < 512 * n) : m (data + k) = UInt8.ofNat (load8 m (data + k)) := by
      unfold load8
      rw [Nat.mod_eq_of_lt (by omega), UInt8.ofNat_toNat]
    refine ⟨?_, ?_⟩
    · rw [hlow, hbyte _ (by omega), ← nextWord_low, ← UInt8.toNat_inj, UInt8.toNat_ofNat',
        UInt8.toNat_ofNat', Nat.mod_mod]
    · have hword := nextWord_high_iff m (data + 2 * i)
      have hsmall := (nextWord m (data + 2 * i)).toNat_lt
      have hload := load8_lt m (data + 2 * i + 1)
      rw [hhigh, ← hword, Nat.add_assoc, hbyte _ (by omega), ← UInt8.toNat_inj,
        UInt8.toNat_ofNat', UInt8.toNat_ofNat', ← Nat.add_assoc,
        Nat.mod_eq_of_lt (by omega), Nat.mod_eq_of_lt (by omega)]
  constructor
  · intro hback i hi
    have hodd := hback m data hfit (2 * i + 1) (by omega)
    rw [← Nat.add_assoc] at hodd
    exact (hpair m data i hfit hi).2.mp hodd
  · intro hsurvive m₀ itr hitr k hk
    obtain ⟨heven, hodd⟩ := hpair m₀ itr (k / 2) hitr (by omega)
    rcases Nat.mod_two_eq_zero_or_one k with hk2 | hk2
    · rw [show k = 2 * (k / 2) by omega]
      exact heven
    · rw [show k = 2 * (k / 2) + 1 by omega, ← Nat.add_assoc, ← Nat.add_assoc]
      exact hodd.mpr (hsurvive (k / 2) (by omega))

theorem not_loadsInside {δ : Type} (ports : Ports δ) (m : Memory) (data n : Nat) (d : δ)
    (hn : 0 < n) (hfit : data + 512 * n ≤ 4294967296) (hsize : 512 * n < 4294967296) :
    ¬LoadsInside data n (writeWords ports drive m (256 * n) data d).2 := by
  intro hinside
  have hlast := writeWords_loads_end ports drive m (256 * n - 1) data d
  rw [show 256 * n - 1 + 1 = 256 * n by omega] at hlast
  have hbounds := hinside _ hlast
  omega

-- Every request reads the byte after its buffer, and a word is the little-endian
-- pair, and the pair comes back, exactly when the sign extension adds nothing.
theorem round_trip_never {δ : Type} (ports : Ports δ) (fuel data : Nat)
    (num_sectors sector_num : UInt32) (m : Memory) (d d' : δ) (result : Int32)
    (loads : List Nat) (sent : List UInt16) (hn : 0 < num_sectors.toNat)
    (hfit : data + 512 * num_sectors.toNat ≤ 4294967296)
    (hsize : 512 * num_sectors.toNat < 4294967296)
    (haccepts : accepts drive num_sectors sector_num = true)
    (h : ataWriteDrive (recording ports) drive fuel data num_sectors sector_num m (d, []) =
      some (result, loads, d', sent)) :
    ¬(SendsPairs m data num_sectors.toNat sent ∧ LoadsInside data num_sectors.toNat loads ∧
      ReadsBack drive m data num_sectors.toNat sent) ∧
    (SendsPairs m data num_sectors.toNat sent ↔ PairsSurvive m data num_sectors.toNat) ∧
    (ReadsBack drive m data num_sectors.toNat sent ↔ PairsSurvive m data num_sectors.toNat) := by
  obtain ⟨hsent, d₁, hloads⟩ := ataWriteDrive_sent ports drive fuel data num_sectors sector_num m
    d d' result loads sent haccepts h
  rw [wordCount_eq _ hsize] at hsent hloads
  subst sent loads
  refine ⟨?_, sendsPairs_iff m data _, readsBack_iff drive m data _ hfit⟩
  rintro ⟨-, hinside, -⟩
  exact not_loadsInside drive (recording ports) m data _ d₁ hn hfit hsize hinside

-- A device that is idle at the first poll, has data at the second and is idle
-- from then on.
def promptDevice : Ports Nat where
  inb _ polls := (if polls = 1 then 0x08 else 0, polls + 1)
  outb _ _ polls := polls
  inw _ polls := (0, polls)
  outw _ _ polls := polls

theorem writeWords_prompt (m : Memory) (words data polls : Nat) (sent : List UInt16) :
    (writeWords (recording promptDevice) drive m words data (polls, sent)).1.1 = polls := by
  induction words generalizing data sent with
  | zero => rfl
  | succ words ih =>
      rw [writeWords]
      exact ih (data + 2) _

theorem pollUntil_prompt (ready : UInt8 → Bool) (polls : Nat) (sent : List UInt16)
    (hready : ready (if polls = 1 then 0x08 else 0) = true) :
    pollUntil (recording promptDevice) drive ready 1 (polls, sent) =
      some (if polls = 1 then 0x08 else 0, polls + 1, sent) := by
  rw [pollUntil_succ]
  exact if_pos hready

theorem ataWriteDrive_prompt (data : Nat) (num_sectors sector_num : UInt32) (m : Memory)
    (haccepts : accepts drive num_sectors sector_num = true) :
    ∃ result loads d' sent, ataWriteDrive (recording promptDevice) drive 1 data num_sectors
      sector_num m (0, []) = some (result, loads, d', sent) := by
  have hidle := pollUntil_prompt drive (fun poll => !busy poll && !data_transfer_requested poll)
    0 [] (by decide)
  have hready := pollUntil_prompt drive (fun poll => !busy poll && data_transfer_requested poll)
    1 [] (by decide)
  have hprogram : programRequest (recording promptDevice) drive
      (ataSetNoInterrupts (recording promptDevice) drive) ATA_CMD_WRITE_PIO num_sectors sector_num
      1 (0, []) = some (2, []) := by
    unfold programRequest
    rw [show selectDrive (recording promptDevice) drive
      (ataSetNoInterrupts (recording promptDevice) drive) sector_num (0, []) = (0, []) from rfl, hidle]
    exact congrArg (Option.map Prod.snd) hready
  rcases hwords : writeWords (recording promptDevice) drive m (wordCount num_sectors) data (2, [])
    with ⟨⟨polls, sent⟩, loads⟩
  have hpolls := writeWords_prompt drive m (wordCount num_sectors) data 2 []
  rw [hwords] at hpolls
  obtain rfl : polls = 2 := hpolls
  have hdone := pollUntil_prompt drive (fun poll => !data_transfer_requested poll && !busy poll)
    2 sent (by decide)
  have hflush : flushCache (recording promptDevice) drive (2, sent) = (2, sent) := rfl
  unfold ataWriteDrive
  rw [if_pos haccepts, hprogram]
  simp only [hwords, hflush, hdone]
  exact ⟨_, loads, 3, sent, rfl⟩

-- One sector that begins with the byte 0x80.
def highByteSector : Memory := fun a => if a = 0 then 0x80 else 0

theorem round_trip_never_high_byte :
    ∃ sent loads, ¬(SendsPairs highByteSector 0 1 sent ∧ LoadsInside 0 1 loads ∧
      ReadsBack (primaryDrive false 8) highByteSector 0 1 sent) := by
  obtain ⟨result, loads, d', sent, h⟩ :=
    ataWriteDrive_prompt (primaryDrive false 8) 0 1 0 highByteSector (by decide)
  obtain ⟨hnever, -⟩ := round_trip_never (primaryDrive false 8) promptDevice 1 0 1 0 highByteSector
    0 d' result loads sent (by decide) (by decide) (by decide) (by decide) h
  exact ⟨sent, loads, hnever⟩

-- The first word sent is 0xFF80, not 0x0080.
theorem high_byte_word_altered :
    ∃ result loads d' sent,
      ataWriteDrive (recording promptDevice) (primaryDrive false 8) 1 0 1 0 highByteSector (0, []) =
        some (result, loads, d', sent) ∧
      sent.getD 0 0 = 0xFF80 ∧ ¬SendsPairs highByteSector 0 1 sent ∧ ¬LoadsInside 0 1 loads := by
  have haccepts : accepts (primaryDrive false 8) 1 0 = true := by decide
  obtain ⟨result, loads, d', sent, h⟩ :=
    ataWriteDrive_prompt (primaryDrive false 8) 0 1 0 highByteSector haccepts
  refine ⟨result, loads, d', sent, h, ?_⟩
  obtain ⟨hsent, d₁, hloads⟩ := ataWriteDrive_sent promptDevice (primaryDrive false 8) 1 0 1 0
    highByteSector 0 d' result loads sent haccepts h
  rw [wordCount_eq 1 (by decide)] at hsent hloads
  have hfirst : sent.getD 0 0 = 0xFF80 := by
    rw [hsent, wordsFrom_getD _ _ _ _ (by decide)]
    rfl
  refine ⟨hfirst, ?_, ?_⟩
  · rintro ⟨-, hpairs⟩
    have hpair := hpairs 0 (by decide)
    rw [hfirst] at hpair
    exact absurd hpair (by decide)
  · rw [hloads]
    exact not_loadsInside (primaryDrive false 8) _ highByteSector 0 1 d₁ (by decide) (by decide)
      (by decide)

end RoundTrip

end PalleyOS.Ata
