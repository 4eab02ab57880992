import Mathlib.Data.List.Basic

namespace Machine

-- The pair of 8259 interrupt controllers of a PC, as its ports show it. The
-- second one is behind line 2 of the first.
section Pic8259

-- `awaited` counts the initialization words, 0 outside an initialization.
-- `first` is the line of the highest priority.
structure Pic where
  irr : BitVec 8
  isr : BitVec 8
  imr : BitVec 8
  first : Nat
  base : BitVec 8
  cascade : BitVec 8
  awaited : Nat
  single : Bool
  word4 : Bool
  mode : BitVec 8
  shows_isr : Bool
  deriving DecidableEq

namespace Pic

-- The set line of the highest priority.
def highest (pic : Pic) (lines : BitVec 8) : Option Nat :=
  ((List.range 8).map fun k => (k + pic.first) % 8).find? fun line => lines.getLsbD line

-- An end of interrupt is for the line in service that has the highest priority.
def endOfInterrupt (rotate : Bool) (pic : Pic) : Pic :=
  match pic.highest pic.isr with
  | none => pic
  | some line =>
      { pic with
        isr := pic.isr &&& ~~~(BitVec.twoPow 8 line)
        first := if rotate then (line + 1) % 8 else pic.first }

def endOf (line : Nat) (pic : Pic) : Pic :=
  { pic with isr := pic.isr &&& ~~~(BitVec.twoPow 8 line) }

-- A write to the command port. An initialization resets the edge sense, so a request
-- from before it has to come again.
def command (value : BitVec 8) (pic : Pic) : Pic :=
  if value.getLsbD 4 then
    { pic with
      irr := 0
      isr := 0
      imr := 0
      first := 0
      awaited := 2
      single := value.getLsbD 1
      word4 := value.getLsbD 0
      mode := 0
      shows_isr := false }
  else if value.getLsbD 3 then
    { pic with shows_isr := if value.getLsbD 1 then value.getLsbD 0 else pic.shows_isr }
  else
    let line := value.toNat % 8
    match value.toNat / 32 with
    | 1 => pic.endOfInterrupt false
    | 5 => pic.endOfInterrupt true
    | 3 => pic.endOf line
    | 6 => { pic with first := (line + 1) % 8 }
    | 7 => { pic.endOf line with first := (line + 1) % 8 }
    | _ => pic

-- A write to the data port: a mask, or the word that an initialization awaits.
def data (value : BitVec 8) (pic : Pic) : Pic :=
  match pic.awaited with
  | 2 =>
      { pic with
        base := value &&& 0xF8
        awaited := if !pic.single then 3 else if pic.word4 then 4 else 0 }
  | 3 => { pic with cascade := value, awaited := if pic.word4 then 4 else 0 }
  | 4 => { pic with mode := value, awaited := 0 }
  | _ => { pic with imr := value }

-- A line interrupts if no line of its priority or above is in service.
def pending (pic : Pic) : Option Nat :=
  match pic.highest (pic.irr &&& ~~~pic.imr), pic.highest pic.isr with
  | some line, none => some line
  | some line, some served =>
      if (line + 8 - pic.first) % 8 < (served + 8 - pic.first) % 8 then some line else none
  | none, _ => none

theorem highest_zero (pic : Pic) : pic.highest 0 = none := by
  rw [highest, List.find?_eq_none]
  intro line _
  simp

theorem pending_of_quiet {pic : Pic} (h : pic.irr = 0) : pic.pending = none := by
  unfold pending
  rw [h, show (0 : BitVec 8) &&& ~~~pic.imr = 0 from BitVec.zero_and, highest_zero]

theorem pending_of_idle {pic : Pic} (h : pic.highest pic.isr = none) :
    pic.pending = pic.highest (pic.irr &&& ~~~pic.imr) := by
  unfold pending
  rw [h]
  cases pic.highest (pic.irr &&& ~~~pic.imr) <;> rfl

def raise (line : Nat) (pic : Pic) : Pic := { pic with irr := pic.irr ||| BitVec.twoPow 8 line }

-- With automatic ends of interrupts nothing is ever in service.
def acknowledge (line : Nat) (pic : Pic) : Pic :=
  { pic with
    irr := pic.irr &&& ~~~(BitVec.twoPow 8 line)
    isr := if pic.mode.getLsbD 1 then pic.isr else pic.isr ||| BitVec.twoPow 8 line }

end Pic

structure Pics where
  master : Pic
  slave : Pic
  deriving DecidableEq

namespace Pics

-- Whatever happens to the slave, a request of its own that comes up by it is handed on.
def withSlave (slave : Pic) (pics : Pics) : Pics :=
  { master :=
      if slave.pending.isSome && !pics.slave.pending.isSome then pics.master.raise 2
      else pics.master
    slave := slave }

def outb (port : UInt16) (value : UInt8) (pics : Pics) : Pics :=
  if port = 0x20 then { pics with master := pics.master.command value.toBitVec }
  else if port = 0x21 then { pics with master := pics.master.data value.toBitVec }
  else if port = 0xA0 then pics.withSlave (pics.slave.command value.toBitVec)
  else if port = 0xA1 then pics.withSlave (pics.slave.data value.toBitVec)
  else pics

def outs (writes : List (UInt16 × UInt8)) (pics : Pics) : Pics :=
  writes.foldl (fun pics write => pics.outb write.1 write.2) pics

def inb (port : UInt16) (pics : Pics) : UInt8 :=
  let status (pic : Pic) := if pic.shows_isr then pic.isr else pic.irr
  ⟨if port = 0x20 then status pics.master
    else if port = 0x21 then pics.master.imr
    else if port = 0xA0 then status pics.slave
    else if port = 0xA1 then pics.slave.imr
    else 0xFF⟩

-- A device asks for an interrupt.
def raise (line : Nat) (pics : Pics) : Pics :=
  if line < 8 then { pics with master := pics.master.raise line }
  else pics.withSlave (pics.slave.raise (line - 8))

-- The vector that the processor gets, if there is a request.
def acknowledge (pics : Pics) : Option (Nat × Pics) :=
  pics.master.pending.map fun line =>
    if line = 2 then
      match pics.slave.pending with
      | none => (pics.slave.base.toNat + 7, { pics with master := pics.master.acknowledge 2 })
      | some served =>
          (pics.slave.base.toNat + served,
            { master := pics.master.acknowledge 2, slave := pics.slave.acknowledge served })
    else (pics.master.base.toNat + line, { pics with master := pics.master.acknowledge line })

end Pics

-- The two commands that end an interrupt without naming it.
section Ends

theorem Pic.command_endOfInterrupt (pic : Pic) :
    pic.command 0x20 = pic.endOfInterrupt false ∧ pic.command 0xA0 = pic.endOfInterrupt true := by
  constructor
  · rw [command, if_neg (by decide), if_neg (by decide)]
    rfl
  · rw [command, if_neg (by decide), if_neg (by decide)]
    rfl

theorem Pic.endOfInterrupt_idle (pic : Pic) (rotate : Bool) (hisr : pic.isr = 0) :
    pic.endOfInterrupt rotate = pic := by
  rw [endOfInterrupt, hisr, highest_zero]

theorem Pic.endOfInterrupt_single (pic : Pic) (line : Nat) (hline : line < 8)
    (hfirst : pic.first = 0) (hisr : pic.isr = BitVec.twoPow 8 line) :
    pic.endOfInterrupt false = { pic with isr := 0 } := by
  have hhighest : pic.highest (BitVec.twoPow 8 line) = some line := by
    have hlines : ∀ line < 8, (((List.range 8).map fun k => (k + 0) % 8).find?
        fun other => (BitVec.twoPow 8 line).getLsbD other) = some line := by decide
    rw [highest, hfirst]
    exact hlines line hline
  rw [endOfInterrupt, hisr, hhighest]
  simp

end Ends

-- A controller that is not being initialized takes a mask.
theorem Pic.data_ready (value : BitVec 8) (pic : Pic) (h : pic.awaited = 0) :
    pic.data value = { pic with imr := value } := by
  obtain ⟨irr, isr, imr, first, base, cascade, awaited, single, word4, mode, shows_isr⟩ := pic
  obtain rfl : awaited = 0 := h
  rfl

-- Outside an initialization requests are no business of the ports, the slave's own
-- apart.
section Requests

def Pic.withRequests (irr : BitVec 8) (pic : Pic) : Pic := { pic with irr := irr }

def Pics.withRequests (master slave : BitVec 8) (pics : Pics) : Pics :=
  { master := pics.master.withRequests master, slave := pics.slave.withRequests slave }

theorem Pic.endOfInterrupt_withRequests (irr : BitVec 8) (rotate : Bool) (pic : Pic) :
    (pic.withRequests irr).endOfInterrupt rotate =
      (pic.endOfInterrupt rotate).withRequests irr := by
  have hsame : (pic.withRequests irr).highest (pic.withRequests irr).isr =
      pic.highest pic.isr := rfl
  rw [endOfInterrupt, endOfInterrupt, hsame]
  cases pic.highest pic.isr <;> rfl

theorem Pic.command_withRequests (value irr : BitVec 8) (hvalue : value.getLsbD 4 = false)
    (pic : Pic) : (pic.withRequests irr).command value = (pic.command value).withRequests irr := by
  have hrunning : ¬value.getLsbD 4 = true := Bool.eq_false_iff.mp hvalue
  rw [command, command, if_neg hrunning, if_neg hrunning]
  split
  · rfl
  · dsimp only
    split
    · exact pic.endOfInterrupt_withRequests irr false
    · exact pic.endOfInterrupt_withRequests irr true
    all_goals rfl

theorem Pic.data_withRequests (value irr : BitVec 8) (pic : Pic) :
    (pic.withRequests irr).data value = (pic.data value).withRequests irr := by
  have hsame : (pic.withRequests irr).awaited = pic.awaited := rfl
  unfold data
  rw [hsame]
  split <;> rfl

theorem Pics.withSlave_same {slave : Pic} (pics : Pics) (h : slave.pending = pics.slave.pending) :
    pics.withSlave slave = { pics with slave := slave } := by
  rw [withSlave, h, Bool.and_not_self, if_neg Bool.false_ne_true]

theorem Pics.withSlave_quiet {slave : Pic} (h : slave.irr = 0) (pics : Pics) :
    pics.withSlave slave = { pics with slave := slave } := by
  rw [withSlave, Pic.pending_of_quiet h, Option.isSome_none, Bool.false_and,
    if_neg Bool.false_ne_true]

-- The master gets a request on line 2 at most.
theorem Pics.withSlave_eq (slave : Pic) (pics : Pics) :
    ∃ irr, pics.withSlave slave = { master := pics.master.withRequests irr, slave := slave } ∧
      ∀ line ≠ 2, irr.getLsbD line = pics.master.irr.getLsbD line := by
  unfold withSlave
  split
  · refine ⟨(pics.master.raise 2).irr, rfl, fun line hline => ?_⟩
    rw [Pic.raise, BitVec.getLsbD_or, BitVec.getLsbD_twoPow, decide_eq_false (Ne.symm hline),
      Bool.and_false, Bool.or_false]
  · exact ⟨pics.master.irr, rfl, fun line _ => rfl⟩

theorem Pics.outb_withRequests (master slave : BitVec 8) (port : UInt16) (value : UInt8)
    (hvalue : value.toBitVec.getLsbD 4 = false) (pics : Pics) :
    ∃ master' slave', (pics.withRequests master slave).outb port value =
      (pics.outb port value).withRequests master' slave' := by
  have hslave (f : Pic → Pic) (hf : f (pics.slave.withRequests slave) =
      (f pics.slave).withRequests slave) :
      ∃ master' slave', (pics.withRequests master slave).withSlave
          (f (pics.slave.withRequests slave)) =
        (pics.withSlave (f pics.slave)).withRequests master' slave' := by
    obtain ⟨irr, hleft, -⟩ := (pics.withRequests master slave).withSlave_eq
      (f (pics.slave.withRequests slave))
    obtain ⟨irr', hright, -⟩ := pics.withSlave_eq (f pics.slave)
    rw [hleft, hright, hf]
    exact ⟨irr, slave, rfl⟩
  unfold outb
  split
  · exact ⟨master, slave, congrArg (fun pic => Pics.mk pic (pics.slave.withRequests slave))
      (pics.master.command_withRequests value.toBitVec master hvalue)⟩
  · split
    · exact ⟨master, slave, congrArg (fun pic => Pics.mk pic (pics.slave.withRequests slave))
        (pics.master.data_withRequests value.toBitVec master)⟩
    · split
      · exact hslave (Pic.command value.toBitVec)
          (pics.slave.command_withRequests value.toBitVec slave hvalue)
      · split
        · exact hslave (Pic.data value.toBitVec)
            (pics.slave.data_withRequests value.toBitVec slave)
        · exact ⟨master, slave, rfl⟩

theorem Pics.outs_withRequests (writes : List (UInt16 × UInt8))
    (hwrites : ∀ write ∈ writes, write.2.toBitVec.getLsbD 4 = false) (master slave : BitVec 8)
    (pics : Pics) :
    ∃ master' slave', (pics.withRequests master slave).outs writes =
      (pics.outs writes).withRequests master' slave' := by
  induction writes generalizing master slave pics with
  | nil => exact ⟨master, slave, rfl⟩
  | cons write rest ih =>
      rw [List.forall_mem_cons] at hwrites
      obtain ⟨master', slave', hwrite⟩ :=
        pics.outb_withRequests master slave write.1 write.2 hwrites.1
      obtain ⟨master'', slave'', hrest⟩ := ih hwrites.2 master' slave' (pics.outb write.1 write.2)
      exact ⟨master'', slave'', (congrArg (Pics.outs rest) hwrite).trans hrest⟩

theorem Pics.withSlave_irr (slave : Pic) (other : Nat) (pics : Pics)
    (h : pics.master.irr.getLsbD other = true) :
    (pics.withSlave slave).master.irr.getLsbD other = true := by
  unfold withSlave
  dsimp only
  split
  · rw [Pic.raise, BitVec.getLsbD_or, h, Bool.true_or]
  · exact h

theorem Pics.outb_irr (port : UInt16) (value : UInt8) (hvalue : value.toBitVec.getLsbD 4 = false)
    (other : Nat) (pics : Pics) (h : pics.master.irr.getLsbD other = true) :
    (pics.outb port value).master.irr.getLsbD other = true := by
  unfold outb
  split
  · have hsame := congrArg Pic.irr
      (pics.master.command_withRequests value.toBitVec pics.master.irr hvalue)
    exact (congrArg (fun irr => irr.getLsbD other) hsame).trans h
  · split
    · have hsame := congrArg Pic.irr
        (pics.master.data_withRequests value.toBitVec pics.master.irr)
      exact (congrArg (fun irr => irr.getLsbD other) hsame).trans h
    · split
      · exact pics.withSlave_irr _ other h
      · split
        · exact pics.withSlave_irr _ other h
        · exact h

theorem Pics.raise_irr (line other : Nat) (pics : Pics)
    (h : pics.master.irr.getLsbD other = true) :
    (pics.raise line).master.irr.getLsbD other = true := by
  unfold raise
  split
  · change (pics.master.irr ||| BitVec.twoPow 8 line).getLsbD other = true
    rw [BitVec.getLsbD_or, h, Bool.true_or]
  · exact pics.withSlave_irr _ other h

theorem Pics.raise_eq (line : Nat) (pics : Pics) :
    ∃ master slave, pics.raise line = pics.withRequests master slave := by
  unfold raise
  split
  · exact ⟨(pics.master.raise line).irr, pics.slave.irr, rfl⟩
  · obtain ⟨irr, hslave, -⟩ := pics.withSlave_eq (pics.slave.raise (line - 8))
    exact ⟨irr, (pics.slave.raise (line - 8)).irr, hslave⟩

end Requests

end Pic8259

end Machine
