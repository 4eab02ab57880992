import PalleyOS.Machine.Refinement
import PalleyOS.Pic

namespace PalleyOS.Irq

open Machine

-- What the routines of the two source files do to the sixteen lines, in any
-- order of calls.
section Lines

structure IrqLines where
  masked : Nat → Bool
  requested : Nat → Bool
  served : Nat → Bool

inductive PicCall where
  | irqSetMask (irq_line : UInt8)
  | irqClearMask (irq_line : UInt8)
  | picGetIrr
  | picGetIsr

-- Line 2 asks for the second controller: its request comes up with what that one has
-- waiting, and so also when a mask lets a waiting line through.
def CASCADE_LINE : Nat := 2

-- The bits of the answer, which the mask calls do not give, but for the request of the
-- second controller.
def PicCall.run : PicCall → Pics → Pics × (Nat → Bool)
  | .irqSetMask irq_line, pics => (Irq.irqSetMask irq_line pics, fun _ => false)
  | .irqClearMask irq_line, pics => (Irq.irqClearMask irq_line pics, fun _ => false)
  | .picGetIrr, pics =>
      ((Irq.picGetIrr pics).2,
        fun line => decide (line ≠ CASCADE_LINE) && (Irq.picGetIrr pics).1.toNat.testBit line)
  | .picGetIsr, pics => ((Irq.picGetIsr pics).2, (Irq.picGetIsr pics).1.toNat.testBit)

def PicCall.spec : PicCall → IrqLines → IrqLines × (Nat → Bool)
  | .irqSetMask irq_line, s =>
      ({ s with masked := Function.update s.masked irq_line.toNat true }, fun _ => false)
  | .irqClearMask irq_line, s =>
      ({ s with masked := Function.update s.masked irq_line.toNat false }, fun _ => false)
  | .picGetIrr, s =>
      (s, fun line => decide (line ≠ CASCADE_LINE) && (decide (line < 16) && s.requested line))
  | .picGetIsr, s => (s, fun line => decide (line < 16) && s.served line)

-- From 40 on the shift of the source is undefined.
def PicCall.Defined : PicCall → Prop
  | .irqSetMask irq_line => irq_line.toNat < 40
  | .irqClearMask irq_line => irq_line.toNat < 40
  | .picGetIrr => True
  | .picGetIsr => True

-- A register of both controllers, by lines.
def lineOf (master slave : BitVec 8) (line : Nat) : Bool :=
  if line < 8 then master.getLsbD line else slave.getLsbD (line - 8)

structure Shows (pics : Pics) (s : IrqLines) : Prop where
  master_ready : pics.master.awaited = 0
  slave_ready : pics.slave.awaited = 0
  masked : ∀ line < 16, s.masked line = lineOf pics.master.imr pics.slave.imr line
  requested : ∀ line < 16, line ≠ CASCADE_LINE →
    s.requested line = lineOf pics.master.irr pics.slave.irr line
  served : ∀ line < 16, s.served line = lineOf pics.master.isr pics.slave.isr line

-- The bit of a line, as a byte keeps it of the source's `int`.
theorem shifted_bit (k : UInt8) (hk : k.toNat < 32) (line : Nat) (hline : line < 8) :
    ((1 : UInt32) <<< k.toUInt32).toUInt8.toBitVec.getLsbD line = decide (line = k.toNat) := by
  have hall : ∀ k : Fin 32, ∀ line : Fin 8,
      ((1 : UInt32) <<< (UInt8.ofNat k).toUInt32).toUInt8.toBitVec.getLsbD line =
        decide (line.val = k.val) := by decide +kernel
  have h := hall ⟨k.toNat, hk⟩ ⟨line, hline⟩
  rw [UInt8.ofNat_toNat] at h
  exact h

-- A change of one bit of a mask.
def Sets (change : UInt32 → UInt32 → UInt32) (masked : Bool) : Prop :=
  ∀ (imr : BitVec 8) (k : UInt8), k.toNat < 32 → ∀ line < 8,
    (change (⟨imr⟩ : UInt8).toUInt32 ((1 : UInt32) <<< k.toUInt32)).toUInt8.toBitVec.getLsbD line =
      if line = k.toNat then masked else imr.getLsbD line

theorem irqSetMask_sets : Sets (fun value bit => value ||| bit) true := by
  intro imr k hk line hline
  rw [UInt32.toUInt8_or, UInt8.toBitVec_or, BitVec.getLsbD_or, shifted_bit k hk line hline,
    UInt8.toUInt8_toUInt32]
  by_cases hsame : line = k.toNat <;> simp [hsame]

theorem irqClearMask_sets : Sets (fun value bit => value &&& ~~~bit) false := by
  intro imr k hk line hline
  rw [UInt32.toUInt8_and, UInt32.toUInt8_not, UInt8.toBitVec_and, UInt8.toBitVec_not,
    BitVec.getLsbD_and, BitVec.getLsbD_not, shifted_bit k hk line hline, UInt8.toUInt8_toUInt32,
    decide_eq_true hline, Bool.true_and]
  by_cases hsame : line = k.toNat <;> simp [hsame]

theorem changeMask_eq (change : UInt32 → UInt32 → UInt32) (irq_line : UInt8) (pics : Pics)
    (hmaster : pics.master.awaited = 0) (hslave : pics.slave.awaited = 0) :
    changeMask change irq_line pics =
      if irq_line < 8 then
        { pics with master := { pics.master with
            imr := (change (⟨pics.master.imr⟩ : UInt8).toUInt32
              ((1 : UInt32) <<< irq_line.toUInt32)).toUInt8.toBitVec } }
      else
        pics.withSlave { pics.slave with
          imr := (change (⟨pics.slave.imr⟩ : UInt8).toUInt32
            ((1 : UInt32) <<< (irq_line - 8).toUInt32)).toUInt8.toBitVec } := by
  unfold changeMask
  dsimp only
  split
  · exact congrArg (fun master => Pics.mk master pics.slave) (pics.master.data_ready _ hmaster)
  · exact congrArg (fun slave => pics.withSlave slave) (pics.slave.data_ready _ hslave)

theorem Shows.changeMask {pics : Pics} {s : IrqLines} (h : Shows pics s)
    {change : UInt32 → UInt32 → UInt32} {masked : Bool} (hchange : Sets change masked)
    (irq_line : UInt8) (hline : irq_line.toNat < 40) :
    Shows (Irq.changeMask change irq_line pics)
      { s with masked := Function.update s.masked irq_line.toNat masked } := by
  rw [changeMask_eq change irq_line pics h.master_ready h.slave_ready]
  by_cases hlow : irq_line < 8
  · have hlt : irq_line.toNat < 8 := UInt8.lt_iff_toNat_lt.mp hlow
    rw [if_pos hlow]
    refine ⟨h.master_ready, h.slave_ready, fun line hline => ?_, h.requested, h.served⟩
    have hbefore := h.masked line hline
    unfold lineOf at hbefore ⊢
    by_cases hfirst : line < 8
    · rw [if_pos hfirst] at hbefore ⊢
      dsimp only
      rw [hchange pics.master.imr irq_line (by omega) line hfirst, ← hbefore, Function.update_apply]
    · rw [if_neg hfirst] at hbefore ⊢
      exact (Function.update_of_ne (by omega) ..).trans hbefore
  · have hge : 8 ≤ irq_line.toNat := Nat.not_lt.mp fun hlt => hlow (UInt8.lt_iff_toNat_lt.mpr hlt)
    have hsub : (irq_line - 8).toNat = irq_line.toNat - 8 :=
      UInt8.toNat_sub_of_le _ _ (UInt8.le_iff_toNat_le.mpr hge)
    rw [if_neg hlow]
    obtain ⟨irr, hpics, hirr⟩ := pics.withSlave_eq { pics.slave with
      imr := (change (⟨pics.slave.imr⟩ : UInt8).toUInt32
        ((1 : UInt32) <<< (irq_line - 8).toUInt32)).toUInt8.toBitVec }
    rw [hpics]
    refine ⟨h.master_ready, h.slave_ready, fun line hline => ?_, fun line hline hcascade => ?_,
      h.served⟩
    rotate_left
    · rw [h.requested line hline hcascade, lineOf, lineOf]
      split
      · exact (hirr line hcascade).symm
      · rfl
    have hbefore := h.masked line hline
    unfold lineOf at hbefore ⊢
    by_cases hfirst : line < 8
    · rw [if_pos hfirst] at hbefore ⊢
      exact (Function.update_of_ne (by omega) ..).trans hbefore
    · rw [if_neg hfirst] at hbefore ⊢
      dsimp only
      rw [hchange pics.slave.imr (irq_line - 8) (by omega) (line - 8) (by omega), ← hbefore, hsub,
        Function.update_apply]
      exact if_congr (by omega) rfl rfl

theorem word_bits (master slave : BitVec 8) (line : Nat) :
    ((⟨slave⟩ : UInt8).toUInt16 <<< 8 ||| (⟨master⟩ : UInt8).toUInt16).toNat.testBit line =
      (decide (line < 16) && lineOf master slave line) := by
  have hslave : ((⟨slave⟩ : UInt8).toUInt16 <<< 8).toNat = slave.toNat <<< 8 % 2 ^ 16 := by
    rw [UInt16.toNat_shiftLeft, UInt8.toNat_toUInt16]
    rfl
  have hmaster : (⟨master⟩ : UInt8).toUInt16.toNat = master.toNat := UInt8.toNat_toUInt16 _
  rw [UInt16.toNat_or, Nat.testBit_or, hslave, hmaster, Nat.testBit_mod_two_pow,
    Nat.testBit_shiftLeft, lineOf]
  by_cases hlow : line < 8
  · have hwide : line < 16 := by omega
    rw [if_pos hlow, decide_eq_true hwide, decide_eq_false (Nat.not_le.mpr hlow)]
    rfl
  · have hempty : master.toNat.testBit line = false := BitVec.getLsbD_of_ge master line (by omega)
    rw [if_neg hlow, hempty, decide_eq_true (Nat.not_lt.mp hlow), Bool.or_false, Bool.true_and]
    rfl

theorem command_read (pic : Pic) :
    pic.command PIC_READ_IRR.toBitVec = { pic with shows_isr := false } ∧
    pic.command PIC_READ_ISR.toBitVec = { pic with shows_isr := true } := by
  constructor
  · rw [Pic.command, if_neg (by decide), if_pos (by decide), if_pos (by decide)]
    rfl
  · rw [Pic.command, if_neg (by decide), if_pos (by decide), if_pos (by decide)]
    rfl

-- What a controller shows at its command port makes no request.
theorem outb_read (ocw3 : UInt8) (shows_isr : Bool)
    (hread : ∀ pic : Pic, pic.command ocw3.toBitVec = { pic with shows_isr := shows_isr })
    (pics : Pics) :
    (pics.outb PIC1_COMMAND ocw3).outb PIC2_COMMAND ocw3 =
      { master := { pics.master with shows_isr := shows_isr }
        slave := { pics.slave with shows_isr := shows_isr } } := by
  have hslave : (pics.slave.command ocw3.toBitVec).pending = pics.slave.pending := by
    rw [hread]
    rfl
  have houtb : (pics.outb PIC1_COMMAND ocw3).outb PIC2_COMMAND ocw3 =
      { master := pics.master.command ocw3.toBitVec
        slave := pics.slave.command ocw3.toBitVec } := Pics.withSlave_same _ hslave
  rw [houtb, hread, hread]

theorem picGetIrr_eq (pics : Pics) :
    picGetIrr pics =
      ((⟨pics.slave.irr⟩ : UInt8).toUInt16 <<< 8 ||| (⟨pics.master.irr⟩ : UInt8).toUInt16,
        { master := { pics.master with shows_isr := false }
          slave := { pics.slave with shows_isr := false } }) := by
  rw [picGetIrr, picGetIrqReg, outb_read PIC_READ_IRR false fun pic => (command_read pic).1]
  rfl

theorem picGetIsr_eq (pics : Pics) :
    picGetIsr pics =
      ((⟨pics.slave.isr⟩ : UInt8).toUInt16 <<< 8 ||| (⟨pics.master.isr⟩ : UInt8).toUInt16,
        { master := { pics.master with shows_isr := true }
          slave := { pics.slave with shows_isr := true } }) := by
  rw [picGetIsr, picGetIrqReg, outb_read PIC_READ_ISR true fun pic => (command_read pic).2]
  rfl

theorem calls_refine_lines : Refines Shows PicCall.Defined PicCall.run PicCall.spec := by
  intro call pics s hdefined h
  cases call with
  | irqSetMask irq_line => exact ⟨rfl, h.changeMask irqSetMask_sets irq_line hdefined⟩
  | irqClearMask irq_line => exact ⟨rfl, h.changeMask irqClearMask_sets irq_line hdefined⟩
  | picGetIrr =>
      simp only [PicCall.run, PicCall.spec, picGetIrr_eq]
      refine ⟨funext fun line => ?_, h.master_ready, h.slave_ready, h.masked, h.requested,
        h.served⟩
      rw [word_bits]
      by_cases hcascade : line = CASCADE_LINE
      · rw [decide_eq_false (not_not_intro hcascade), Bool.false_and, Bool.false_and]
      · by_cases hline : line < 16
        · rw [h.requested line hline hcascade]
        · rw [decide_eq_false hline, Bool.false_and, Bool.false_and]
  | picGetIsr =>
      simp only [PicCall.run, PicCall.spec, picGetIsr_eq]
      refine ⟨funext fun line => ?_, h.master_ready, h.slave_ready, h.masked, h.requested,
        h.served⟩
      rw [word_bits]
      by_cases hline : line < 16
      · rw [h.served line hline]
      · rw [decide_eq_false hline, Bool.false_and, Bool.false_and]

-- The lines that the controllers show.
def linesOf (pics : Pics) : IrqLines :=
  { masked := lineOf pics.master.imr pics.slave.imr
    requested := lineOf pics.master.irr pics.slave.irr
    served := lineOf pics.master.isr pics.slave.isr }

-- In any order of calls each mask is what was last asked for its line, the two
-- queries answer all sixteen lines, and no call disturbs what another one shows, the
-- second controller's own request apart.
theorem pic_calls_keep_lines (pics : Pics) (hmaster : pics.master.awaited = 0)
    (hslave : pics.slave.awaited = 0) (calls : List PicCall)
    (hcalls : ∀ call ∈ calls, call.Defined) :
    answers PicCall.run pics calls = answers PicCall.spec (linesOf pics) calls ∧
      Shows (finalState PicCall.run pics calls) (finalState PicCall.spec (linesOf pics) calls) :=
  calls_refine_lines.answers_eq
    ⟨hmaster, hslave, fun _ _ => rfl, fun _ _ _ => rfl, fun _ _ => rfl⟩ calls hcalls

theorem pic_calls_keep_lines_resting :
    answers PicCall.run (resting 5 64) [.irqSetMask 0, .irqClearMask 14, .picGetIrr] =
      answers PicCall.spec (linesOf (resting 5 64))
        [.irqSetMask 0, .irqClearMask 14, .picGetIrr] :=
  (pic_calls_keep_lines (resting 5 64) rfl rfl _ (by simp [PicCall.Defined])).1

-- A line that waits behind its mask shows on line 2 once the mask is cleared.
example : (Irq.picGetIrr (irqClearMask 14 (resting 0 64))).1 = 0x4004 := by decide

end Lines

end PalleyOS.Irq
