import PalleyOS.Idt.Init
import PalleyOS.Isr
import PalleyOS.Machine.Pic8259
import Mathlib.Tactic.IntervalCases

namespace PalleyOS.Irq

open Machine

section Source

def PIC_READ_IRR : UInt8 := 0x0A
def PIC_READ_ISR : UInt8 := 0x0B

-- What the two mask functions have in common. A shift of the source is one of an
-- `int`.
def changeMask (change : UInt32 → UInt32 → UInt32) (irq_line : UInt8) (pics : Pics) : Pics :=
  let port := if irq_line < 8 then PIC1_DATA else PIC2_DATA
  let irq_line := if irq_line < 8 then irq_line else irq_line - 8
  let value := (change (pics.inb port).toUInt32 ((1 : UInt32) <<< irq_line.toUInt32)).toUInt8
  pics.outb port value

def irqSetMask (irq_line : UInt8) (pics : Pics) : Pics :=
  changeMask (fun value bit => value ||| bit) irq_line pics

def irqClearMask (irq_line : UInt8) (pics : Pics) : Pics :=
  changeMask (fun value bit => value &&& ~~~bit) irq_line pics

def picGetIrqReg (ocw3 : UInt8) (pics : Pics) : UInt16 × Pics :=
  let pics := pics.outb PIC1_COMMAND ocw3
  let pics := pics.outb PIC2_COMMAND ocw3
  ((pics.inb PIC2_COMMAND).toUInt16 <<< 8 ||| (pics.inb PIC1_COMMAND).toUInt16, pics)

def picGetIrr (pics : Pics) : UInt16 × Pics := picGetIrqReg PIC_READ_IRR pics

def picGetIsr (pics : Pics) : UInt16 × Pics := picGetIrqReg PIC_READ_ISR pics

end Source

-- What `idtInit` makes of the two controllers.
section Programming

-- Without interrupts nothing but the code itself writes to the ports.
structure Sent (t : Code) (writes : List (UInt16 × UInt8)) : Prop where
  quiet : t.interrupts = false
  sent : t.memory.ports.sent = writes

theorem Sent.store {t : Code} {writes more : List (UInt16 × UInt8)} (h : Sent t writes)
    (f : Kernel → Kernel)
    (hf : ∀ kernel, (f kernel).ports.sent = kernel.ports.sent ++ more) :
    Sent (store f t) (writes ++ more) := by
  have hsame : t.interrupted isr = t := by
    rw [Thread.interrupted, h.quiet]
    rfl
  refine ⟨(Thread.write_interrupts f t).trans h.quiet, ?_⟩
  rw [PalleyOS.store, Thread.write, Thread.access, hsame, ← h.sent]
  exact hf t.memory

theorem Sent.outb {t : Code} {writes : List (UInt16 × UInt8)} (h : Sent t writes)
    (port : UInt16) (value : UInt8) : Sent (outb port value t) (writes ++ [(port, value)]) :=
  h.store _ fun _ => rfl

theorem Sent.storeIdt {t : Code} {writes : List (UInt16 × UInt8)} (h : Sent t writes)
    (f : Idt → Idt) : Sent (storeIdt f t) writes := by
  have hstore : Sent (PalleyOS.storeIdt f t) (writes ++ []) :=
    h.store _ fun _ => (List.append_nil _).symm
  rw [List.append_nil] at hstore
  exact hstore

def remapWrites (offset1 offset2 : UInt8) : List (UInt16 × UInt8) :=
  [(PIC1_COMMAND, 0x11), (PIC2_COMMAND, 0x11), (PIC1_DATA, offset1), (PIC2_DATA, offset2),
    (PIC1_DATA, 4), (PIC2_DATA, 2), (PIC1_DATA, 1), (PIC2_DATA, 1), (PIC1_DATA, 0xFC),
    (PIC2_DATA, 0xFF)]

theorem remapPIC_sent {t : Code} {writes : List (UInt16 × UInt8)} (h : Sent t writes)
    (offset1 offset2 : UInt32) :
    Sent (remapPIC offset1 offset2 t)
      (writes ++ remapWrites offset1.toUInt8 offset2.toUInt8) := by
  have hall := (((((((((h.outb PIC1_COMMAND 0x11).outb PIC2_COMMAND 0x11).outb PIC1_DATA
    offset1.toUInt8).outb PIC2_DATA offset2.toUInt8).outb PIC1_DATA 4).outb PIC2_DATA 2).outb
    PIC1_DATA ICW4_8086).outb PIC2_DATA ICW4_8086).outb PIC1_DATA 0xFC).outb PIC2_DATA 0xFF
  simp only [List.append_assoc, List.cons_append, List.nil_append] at hall
  exact hall

theorem exceptions_sent (stubs : Stubs) {t : Code} {writes : List (UInt16 × UInt8)}
    (h : Sent t writes) : Sent (addExceptionsHandlersToIdt stubs t) writes := by
  unfold addExceptionsHandlersToIdt
  generalize exceptionStubs stubs = list
  induction list generalizing t with
  | nil => exact h
  | cons entry rest ih => exact ih (h.storeIdt _)

theorem idtInit_sent (stubs : Stubs) {t : Code} {writes : List (UInt16 × UInt8)}
    (h : Sent t writes) :
    Sent (idtInit stubs t)
      (writes ++ (remapWrites 0x20 0x28 ++ [(PIC1_DATA, 0x3C), (PIC2_DATA, 0xFF)])) := by
  have hremap := remapPIC_sent h 0x20 0x28
  have htable := exceptions_sent stubs ((hremap.storeIdt
    (fun idt => { idt with idt_entries := fun _ => zeroIdtEntry })).storeIdt
    (fun idt => { idt with idt_info := { size := 8 * 256 - 1, idt_addr := stubs.idt_entries } }))
  have hstubs := ((((htable.storeIdt (addIsrToIdt 0x20 stubs.PITIRQ 0 INTERRUPT_GATE_32)).storeIdt
    (addIsrToIdt 0x21 stubs.keyboardIsr 0 INTERRUPT_GATE_32)).storeIdt
    (addIsrToIdt (0x20 + 14) stubs.ideIRQISR 0 INTERRUPT_GATE_32)).storeIdt
    (addIsrToIdt (0x20 + 15) stubs.ideIRQISR 0 INTERRUPT_GATE_32)).storeIdt idtLoad
  have hmasks := (hstubs.outb PIC1_DATA 0x3C).outb PIC2_DATA 0xFF
  simp only [List.append_assoc, List.cons_append, List.nil_append] at hmasks
  exact hmasks

-- A controller as four initialization words and a mask leave it.
def programmed (base cascade imr : BitVec 8) : Pic :=
  { irr := 0
    isr := 0
    imr := imr
    first := 0
    base := base
    cascade := cascade
    awaited := 0
    single := false
    word4 := true
    mode := 1
    shows_isr := false }

-- Whatever the controllers were doing, the first command starts over. With nothing
-- waiting the slave hands nothing on.
theorem outs_remapWrites (offset1 offset2 : UInt8) (pics : Pics) :
    pics.outs (remapWrites offset1 offset2) =
      { master := programmed (offset1.toBitVec &&& 0xF8) 4 0xFC
        slave := programmed (offset2.toBitVec &&& 0xF8) 2 0xFF } := by
  obtain ⟨master, slave⟩ := pics
  have hstart (master slave : Pic) :
      ((Pics.mk master slave).outb PIC1_COMMAND 0x11).outb PIC2_COMMAND 0x11 =
        ⟨master.command 0x11, slave.command 0x11⟩ := Pics.withSlave_quiet rfl _
  have hdata (value value' : UInt8) (master slave : Pic)
      (h : (slave.data value'.toBitVec).irr = 0) :
      ((Pics.mk master slave).outb PIC1_DATA value).outb PIC2_DATA value' =
        ⟨master.data value.toBitVec, slave.data value'.toBitVec⟩ := Pics.withSlave_quiet h _
  simp only [remapWrites, Pics.outs, List.foldl_cons, List.foldl_nil]
  rw [hstart, hdata, hdata, hdata, hdata] <;> rfl

end Programming

-- Devices, controllers and handlers together.
section Flow

-- What the handlers write to the controllers. The keyboard's entry stub does it
-- once more, and its last write goes to the wrong port.
def endWrites : List (UInt16 × UInt8) := [(0x20, 0x20), (0xa0, 0x20)]

def keyboardWrites : List (UInt16 × UInt8) := endWrites ++ [(0x20, 0x20), (0x20, 0xa0)]

-- `none` is a vector without a gate, which faults in a handler that never returns.
def handlerWrites : Nat → Option (List (UInt16 × UInt8))
  | 0x20 => some endWrites
  | 0x21 => some keyboardWrites
  | 0x2E => some []
  | 0x2F => some []
  | _ => none

theorem timer_writes (kernel : Kernel) :
    (PITIRQ kernel).ports.sent = kernel.ports.sent ++ endWrites :=
  List.append_assoc ..

theorem keyboard_writes (scan_code : UInt8) (kernel : Kernel) (handler : Cpu → Cpu)
    (frame : Isr.ReturnFrame) (s : Cpu) :
    (keyboardInterruptHandler scan_code kernel).ports.sent = kernel.ports.sent ++ endWrites ∧
    (Isr.Stub.run .keyboardIsr handler frame s).outs =
      (handler (Isr.Stub.atCall .keyboardIsr frame s)).outs ++ [(0x20, 0x20), (0x20, 0xa0)] := by
  have hrun : (Isr.Stub.run .keyboardIsr handler frame s).outs =
      (handler (Isr.Stub.atCall .keyboardIsr frame s)).outs ++
        [(0x20, al (withAl (handler (Isr.Stub.atCall .keyboardIsr frame s)).popal.eax 0x20))] ++
        [(0x20, al (withAl (withAl
          (handler (Isr.Stub.atCall .keyboardIsr frame s)).popal.eax 0x20) 0xa0))] := rfl
  refine ⟨List.append_assoc .., ?_⟩
  rw [hrun, al_withAl, al_withAl, List.append_assoc]
  rfl

theorem handlerWrites_isSome (stubs : Stubs) (PITIRQHandler : UInt32) :
    ∀ line < 16, (handlerWrites (0x20 + line)).isSome =
      (lastFor (UInt8.ofNat (0x20 + line)) (kernelCalls stubs PITIRQHandler)).isSome := by
  intro line hline
  interval_cases line <;> rfl

-- `todo` is what the running handler has still to write, and `served` the vectors
-- that have been entered, the latest first.
structure Flow where
  pics : Pics
  todo : List (UInt16 × UInt8)
  served : List Nat
  halted : Bool

inductive Event where
  | raise (line : Fin 16)
  | write
  | interrupt

-- A handler masks the processor's interrupts until it has written all. The model ends at
-- the first vector without a gate: the fault's handler never returns, and what still
-- interrupts its loop is left out.
def step (s : Flow) : Event → Flow
  | .raise line => if s.halted then s else { s with pics := s.pics.raise line }
  | .write =>
      match s.todo with
      | [] => s
      | write :: rest => { s with pics := s.pics.outb write.1 write.2, todo := rest }
  | .interrupt =>
      if s.halted = true ∨ s.todo ≠ [] then s
      else
        match s.pics.acknowledge with
        | none => s
        | some (vector, pics) =>
            { pics := pics
              todo := (handlerWrites vector).getD []
              served := vector :: s.served
              halted := (handlerWrites vector).isNone }

-- The controllers at rest, as `idtInit` leaves them, with the requests that came since.
def resting (irr slave_irr : BitVec 8) : Pics :=
  { master := (programmed 0x20 4 0x3C).withRequests irr
    slave := (programmed 0x28 2 0xFF).withRequests slave_irr }

theorem outs_idtInit (pics : Pics) :
    pics.outs (remapWrites 0x20 0x28 ++ [(PIC1_DATA, 0x3C), (PIC2_DATA, 0xFF)]) =
      resting 0 0 := by
  have hremap := outs_remapWrites 0x20 0x28 pics
  rw [Pics.outs, List.foldl_append]
  rw [Pics.outs] at hremap
  rw [hremap]
  rfl

-- The lines that the masks leave open, in the order of their priority.
def openLines : List Nat := [0, 1, 6, 7]

theorem resting_pending (irr slave_irr : BitVec 8) :
    (resting irr slave_irr).master.pending = openLines.find? fun line => irr.getLsbD line := by
  have hserved : (resting irr slave_irr).master.highest 0 = none := by
    change ([0, 1, 2, 3, 4, 5, 6, 7] : List Nat).find? (fun line => (0 : BitVec 8).getLsbD line) = _
    decide
  have hmasked : (resting irr slave_irr).master.highest (irr &&& ~~~0x3C) =
      openLines.find? fun line => irr.getLsbD line := by
    change ([0, 1, 2, 3, 4, 5, 6, 7] : List Nat).find?
      (fun line => (irr &&& ~~~(0x3C : BitVec 8)).getLsbD line) = _
    simp [List.find?, openLines]
  rw [Pic.pending_of_idle hserved]
  exact hmasked

theorem resting_acknowledge (irr slave_irr : BitVec 8) :
    (resting irr slave_irr).acknowledge =
      (openLines.find? fun line => irr.getLsbD line).map fun line =>
        (0x20 + line, { resting irr slave_irr with
          master := (resting irr slave_irr).master.acknowledge line }) := by
  rw [Pics.acknowledge, resting_pending]
  cases hline : openLines.find? fun line => irr.getLsbD line with
  | none => rfl
  | some line =>
      have hopen := List.mem_of_find?_eq_some hline
      have hcascade : line ≠ 2 := by
        rintro rfl
        exact absurd hopen (by decide)
      rw [Option.map_some, Option.map_some, if_neg hcascade]
      rfl

-- Each handler's writes take its own line out of service and nothing else.
theorem outs_endWrites (irr slave_irr : BitVec 8) (line : Nat) (hline : line < 8) :
    Pics.outs endWrites { resting irr slave_irr with
        master := (resting irr slave_irr).master.acknowledge line } =
      resting (irr &&& ~~~(BitVec.twoPow 8 line)) slave_irr := by
  have hisr : ((resting irr slave_irr).master.acknowledge line).isr = BitVec.twoPow 8 line := by
    have hmode : (resting irr slave_irr).master.mode.getLsbD 1 = false := by
      change (1 : BitVec 8).getLsbD 1 = false
      decide
    rw [Pic.acknowledge]
    dsimp only
    rw [hmode, if_neg Bool.false_ne_true]
    exact BitVec.zero_or
  have hmaster := Pic.endOfInterrupt_single _ line hline rfl hisr
  have hslave := Pic.endOfInterrupt_idle (resting irr slave_irr).slave false rfl
  rw [← (Pic.command_endOfInterrupt _).1] at hmaster hslave
  have hfirst : Pics.outb 0x20 0x20 { resting irr slave_irr with
      master := (resting irr slave_irr).master.acknowledge line } =
        resting (irr &&& ~~~(BitVec.twoPow 8 line)) slave_irr :=
    congrArg (fun master => Pics.mk master (resting irr slave_irr).slave) hmaster
  rw [endWrites, Pics.outs, List.foldl_cons, hfirst, List.foldl_cons, List.foldl_nil]
  exact (congrArg (fun slave => Pics.withSlave slave _) hslave).trans
    (Pics.withSlave_same _ rfl)

theorem served_resting (irr slave_irr : BitVec 8) (line : Nat) (hline : line ∈ openLines)
    (writes : List (UInt16 × UInt8)) (hwrites : handlerWrites (0x20 + line) = some writes) :
    Pics.outs writes { resting irr slave_irr with
        master := (resting irr slave_irr).master.acknowledge line } =
      resting (irr &&& ~~~(BitVec.twoPow 8 line)) slave_irr := by
  simp only [openLines, List.mem_cons, List.not_mem_nil, or_false] at hline
  rcases hline with rfl | rfl | rfl | rfl
  · obtain rfl := Option.some.inj hwrites
    exact outs_endWrites irr slave_irr 0 (by decide)
  · -- The other two ends of interrupt find nothing in service.
    obtain rfl := Option.some.inj hwrites
    have hfirst := outs_endWrites irr slave_irr 1 (by decide)
    rw [keyboardWrites, Pics.outs, List.foldl_append]
    rw [Pics.outs] at hfirst
    rw [hfirst]
    have hagain := Pic.endOfInterrupt_idle
      (resting (irr &&& ~~~(BitVec.twoPow 8 1)) slave_irr).master false rfl
    have hrotate := Pic.endOfInterrupt_idle
      (resting (irr &&& ~~~(BitVec.twoPow 8 1)) slave_irr).master true rfl
    rw [← (Pic.command_endOfInterrupt _).1] at hagain
    rw [← (Pic.command_endOfInterrupt _).2] at hrotate
    exact congrArg (fun master => Pics.mk master _)
      ((congrArg (Pic.command 0xA0) hagain).trans hrotate)
  · cases hwrites
  · cases hwrites

-- Once the running handler is through, both controllers are at rest. Only the
-- two lines without a gate stop the kernel.
structure Balanced (s : Flow) : Prop where
  rests : s.halted = false → ∃ irr slave_irr, s.pics.outs s.todo = resting irr slave_irr
  ends : ∀ write ∈ s.todo, write.2.toBitVec.getLsbD 4 = false
  served : ∀ vector ∈ s.served, vector ∈ [0x20, 0x21, 0x26, 0x27]
  halted : s.halted = true ↔ 0x26 ∈ s.served ∨ 0x27 ∈ s.served

-- No handler starts an initialization.
theorem handlerWrites_ends (vector : Nat) :
    ∀ write ∈ (handlerWrites vector).getD [], write.2.toBitVec.getLsbD 4 = false := by
  unfold handlerWrites
  split <;> simp [endWrites, keyboardWrites]

theorem openLines_cases (line : Nat) (hline : line ∈ openLines) :
    (0x20 + line = 0x20 ∨ 0x20 + line = 0x21) ∧ (handlerWrites (0x20 + line)).isSome = true ∨
      (0x20 + line = 0x26 ∨ 0x20 + line = 0x27) ∧ handlerWrites (0x20 + line) = none := by
  simp only [openLines, List.mem_cons, List.not_mem_nil, or_false] at hline
  rcases hline with rfl | rfl | rfl | rfl <;> decide

theorem Balanced.enter {s : Flow} (h : Balanced s) (irr slave_irr : BitVec 8)
    (hhalted : s.halted = false) (line : Nat)
    (hline : line ∈ openLines) :
    Balanced
      { pics := { resting irr slave_irr with
          master := (resting irr slave_irr).master.acknowledge line }
        todo := (handlerWrites (0x20 + line)).getD []
        served := (0x20 + line) :: s.served
        halted := (handlerWrites (0x20 + line)).isNone } := by
  have hnot : ¬(0x26 ∈ s.served ∨ 0x27 ∈ s.served) := fun hmem => by
    rw [h.halted.mpr hmem] at hhalted
    cases hhalted
  rcases openLines_cases line hline with ⟨hvector, hsome⟩ | ⟨hvector, hnone⟩
  · obtain ⟨writes, hwrites⟩ := Option.isSome_iff_exists.mp hsome
    refine ⟨fun _ => ⟨irr &&& ~~~(BitVec.twoPow 8 line), slave_irr, ?_⟩,
      handlerWrites_ends _, ?_, ?_⟩
    · rw [hwrites]
      exact served_resting irr slave_irr line hline writes hwrites
    · rintro vector (_ | ⟨_, hmem⟩)
      · rcases hvector with hvector | hvector <;> rw [hvector] <;> decide
      · exact h.served vector hmem
    · rw [hwrites]
      refine ⟨nofun, fun hmem => absurd (hmem.imp (fun hmem => ?_) (fun hmem => ?_)) hnot⟩
      · exact (List.mem_cons.mp hmem).resolve_left (by omega)
      · exact (List.mem_cons.mp hmem).resolve_left (by omega)
  · refine ⟨fun hrunning => ?_, handlerWrites_ends _, ?_, ?_⟩
    · rw [hnone] at hrunning
      cases hrunning
    · rintro vector (_ | ⟨_, hmem⟩)
      · rcases hvector with hvector | hvector <;> rw [hvector] <;> decide
      · exact h.served vector hmem
    · rw [hnone]
      refine ⟨fun _ => ?_, fun _ => rfl⟩
      rcases hvector with hvector | hvector
      · exact .inl (hvector ▸ List.mem_cons_self)
      · exact .inr (hvector ▸ List.mem_cons_self)

theorem Balanced.step {s : Flow} (h : Balanced s) (event : Event) : Balanced (step s event) := by
  cases event with
  | raise line =>
      rw [Irq.step]
      split
      · exact h
      · rename_i hhalted
        obtain ⟨master, slave, hraise⟩ := Pics.raise_eq line s.pics
        refine ⟨fun hrunning => ?_, h.ends, h.served, h.halted⟩
        obtain ⟨irr, slave_irr, hrests⟩ := h.rests hrunning
        obtain ⟨irr', slave_irr', hlater⟩ :=
          s.pics.outs_withRequests s.todo h.ends master slave
        refine ⟨irr', slave_irr', ?_⟩
        dsimp only
        rw [hraise, hlater, hrests]
        rfl
  | write =>
      rw [Irq.step]
      cases htodo : s.todo with
      | nil => exact h
      | cons write rest =>
          have hends := h.ends
          rw [htodo, List.forall_mem_cons] at hends
          refine ⟨fun hrunning => ?_, hends.2, h.served, h.halted⟩
          obtain ⟨irr, slave_irr, hrests⟩ := h.rests hrunning
          rw [htodo] at hrests
          exact ⟨irr, slave_irr, hrests⟩
  | interrupt =>
      rw [Irq.step]
      split
      · exact h
      · rename_i hready
        obtain ⟨hhalted, htodo⟩ := not_or.mp hready
        have hrunning : s.halted = false := Bool.eq_false_iff.mpr hhalted
        obtain ⟨irr, slave_irr, hrests⟩ := h.rests hrunning
        rw [not_not.mp htodo] at hrests
        have hpics : s.pics = resting irr slave_irr := hrests
        rw [hpics, resting_acknowledge]
        cases hline : openLines.find? fun line => irr.getLsbD line with
        | none => exact h
        | some line =>
            exact h.enter irr slave_irr hrunning line (List.mem_of_find?_eq_some hline)

def started (irr slave_irr : BitVec 8) : Flow :=
  { pics := resting irr slave_irr, todo := [], served := [], halted := false }

theorem started_balanced (irr slave_irr : BitVec 8) : Balanced (started irr slave_irr) :=
  ⟨fun _ => ⟨irr, slave_irr, rfl⟩, by simp [started], by simp [started], by simp [started]⟩

theorem run_balanced (events : List Event) (s : Flow) (h : Balanced s) :
    Balanced (events.foldl step s) := by
  induction events generalizing s with
  | nil => exact h
  | cons event rest ih => exact ih _ (h.step event)

-- The source's table and the controllers, from whatever state they were in. What was
-- waiting does not wait any more.
theorem idtInit_programs_controllers (stubs : Stubs) (t : Code) (h : t.interrupts = false)
    (pics : Pics) :
    ∃ writes, (idtInit stubs t).memory.ports.sent = t.memory.ports.sent ++ writes ∧
      pics.outs writes = resting 0 0 :=
  ⟨_, (idtInit_sent stubs ⟨h, rfl⟩).sent, outs_idtInit pics⟩

theorem idtInit_programs_controllers_quiet :
    ∃ writes,
      (idtInit sampleStubs { booted with interrupts := false }).memory.ports.sent =
        booted.memory.ports.sent ++ writes ∧
      (resting 5 1).outs writes = resting 0 0 :=
  idtInit_programs_controllers sampleStubs { booted with interrupts := false } rfl (resting 5 1)

-- Whatever the devices ask for and whenever, no line stays in service: with no
-- handler running, the next interrupt is the open request of the highest
-- priority. The kernel stops at the two open lines that have no gate, and only
-- there.
theorem lines_never_stick (irr slave_irr : BitVec 8) (events : List Event) :
    let s := events.foldl step (started irr slave_irr)
    (∀ vector ∈ s.served, vector ∈ [0x20, 0x21, 0x26, 0x27]) ∧
    (s.halted = true ↔ 0x26 ∈ s.served ∨ 0x27 ∈ s.served) ∧
    (s.halted = false → s.todo = [] →
      s.pics.master.isr = 0 ∧ s.pics.slave.isr = 0 ∧ s.pics.master.imr = 0x3C ∧
      s.pics.slave.imr = 0xFF ∧
      s.pics.acknowledge.map Prod.fst =
        (openLines.find? fun line => s.pics.master.irr.getLsbD line).map (0x20 + ·)) := by
  intro s
  obtain ⟨hrests, -, hserved, hhalted⟩ :=
    run_balanced events (started irr slave_irr) (started_balanced irr slave_irr)
  refine ⟨hserved, hhalted, fun hrunning htodo => ?_⟩
  obtain ⟨irr', slave_irr', hpics⟩ := hrests hrunning
  change s.pics.outs s.todo = _ at hpics
  rw [htodo] at hpics
  have hresting : s.pics = resting irr' slave_irr' := hpics
  rw [hresting]
  refine ⟨rfl, rfl, rfl, rfl, ?_⟩
  rw [resting_acknowledge, Option.map_map]
  rfl

-- The request is still there, or its handler has been entered since.
structure Waits (line entered : Nat) (s : Flow) : Prop where
  past : entered ≤ s.served.count (0x20 + line)
  waits : s.pics.master.irr.getLsbD line = true ∨ entered < s.served.count (0x20 + line)

theorem Waits.enter {s : Flow} {line entered : Nat} (h : Waits line entered s)
    (irr slave_irr : BitVec 8) (hpics : s.pics = resting irr slave_irr) (other : Nat)
    (todo : List (UInt16 × UInt8)) (halted : Bool) :
    Waits line entered
      { pics := { resting irr slave_irr with
          master := (resting irr slave_irr).master.acknowledge other }
        todo := todo
        served := (0x20 + other) :: s.served
        halted := halted } := by
  have hpast := h.past
  by_cases hsame : other = line
  · subst other
    have hcount : ((0x20 + line) :: s.served).count (0x20 + line) =
        s.served.count (0x20 + line) + 1 := List.count_cons_self
    exact ⟨by dsimp only; omega, .inr (by dsimp only; omega)⟩
  · have hcount : ((0x20 + other) :: s.served).count (0x20 + line) =
        s.served.count (0x20 + line) := List.count_cons_of_ne (by omega)
    refine ⟨by dsimp only; omega, h.waits.imp (fun hirr => ?_) (fun hlater => ?_)⟩
    · rw [hpics] at hirr
      change (irr &&& ~~~(BitVec.twoPow 8 other)).getLsbD line = true
      change irr.getLsbD line = true at hirr
      have hline : line < 8 := BitVec.lt_of_getLsbD hirr
      simp [hirr, hline, Ne.symm hsame]
    · dsimp only
      omega

theorem Waits.step {s : Flow} {line entered : Nat} (h : Waits line entered s) (hs : Balanced s)
    (event : Event) : Waits line entered (step s event) := by
  cases event with
  | raise other =>
      rw [Irq.step]
      split
      · exact h
      · exact ⟨h.past, h.waits.imp_left (s.pics.raise_irr other line)⟩
  | write =>
      have hends := hs.ends
      rw [Irq.step]
      cases htodo : s.todo with
      | nil => exact h
      | cons write rest =>
          rw [htodo, List.forall_mem_cons] at hends
          exact ⟨h.past, h.waits.imp_left (s.pics.outb_irr write.1 write.2 hends.1 line)⟩
  | interrupt =>
      rw [Irq.step]
      split
      · exact h
      · rename_i hready
        obtain ⟨hhalted, htodo⟩ := not_or.mp hready
        obtain ⟨irr, slave_irr, hrests⟩ := hs.rests (Bool.eq_false_iff.mpr hhalted)
        rw [not_not.mp htodo] at hrests
        have hpics : s.pics = resting irr slave_irr := hrests
        rw [hpics, resting_acknowledge]
        cases openLines.find? fun line => irr.getLsbD line with
        | none => exact h
        | some other => exact h.enter irr slave_irr hpics other _ _

-- A request on an open line is never lost: it is there until its handler is
-- entered.
theorem request_waits_for_handler (irr slave_irr : BitVec 8) (before after : List Event)
    (line : Fin 16) (hline : line.val ∈ openLines)
    (hrunning : (before.foldl step (started irr slave_irr)).halted = false) :
    let s := before.foldl step (started irr slave_irr)
    let s' := after.foldl step (step s (.raise line))
    s'.pics.master.irr.getLsbD line = true ∨
      s.served.count (0x20 + line.val) < s'.served.count (0x20 + line.val) := by
  intro s s'
  have hbalanced : Balanced s := run_balanced before _ (started_balanced irr slave_irr)
  have hlt : line.val < 8 := by
    simp only [openLines, List.mem_cons, List.not_mem_nil, or_false] at hline
    omega
  have hraised : step s (.raise line) = { s with pics := s.pics.raise line } :=
    if_neg (Bool.eq_false_iff.mp hrunning)
  have hfirst : Waits line (s.served.count (0x20 + line.val)) (step s (.raise line)) := by
    rw [hraised]
    refine ⟨Nat.le_refl _, .inl ?_⟩
    dsimp only
    rw [Pics.raise, if_pos hlt]
    change (s.pics.master.irr ||| BitVec.twoPow 8 line.val).getLsbD line.val = true
    simp [hlt]
  have hrun (events : List Event) (u : Flow) (hu : Balanced u)
      (hw : Waits line (s.served.count (0x20 + line.val)) u) :
      Waits line (s.served.count (0x20 + line.val)) (events.foldl step u) := by
    induction events generalizing u with
    | nil => exact hw
    | cons event rest ih => exact ih _ (hu.step event) (hw.step hu event)
  exact (hrun after _ (hbalanced.step _) hfirst).waits

-- The timer asks again while the keyboard's handler writes.
theorem request_waits_for_handler_timer :
    let s := [Event.raise 1, .interrupt, .write].foldl step (started 0 0)
    let s' := [Event.write, .write, .write, .interrupt].foldl step (step s (.raise 0))
    s'.pics.master.irr.getLsbD 0 = true ∨ s.served.count 0x20 < s'.served.count 0x20 :=
  request_waits_for_handler 0 0 [.raise 1, .interrupt, .write] [.write, .write, .write, .interrupt]
    0 (by decide) (by decide)

end Flow

end PalleyOS.Irq
