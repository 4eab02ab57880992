import PalleyOS.Machine.Fields
import PalleyOS.Machine.Uart

namespace PalleyOS.Serial

open Machine

def COM1 : Nat := 0x3F8

-- Two names are there for each of the first two registers.
inductive COM_Register where
  | COM_DATA | COM_INTERRUPT_ENABLE | COM_BAUD_DIVISOR_LSB | COM_BAUD_DIVISOR_MSB
  | COM_INTERRUPT_AND_FIFO | COM_LINE_CONTROL | COM_MODEM_CONTROL | COM_LINE_STATUS
  | COM_MODEM_STATUS | COM_SCRATCH
  deriving DecidableEq, Repr

def COM_Register.value : COM_Register → Nat
  | .COM_DATA => 0
  | .COM_INTERRUPT_ENABLE => 1
  | .COM_BAUD_DIVISOR_LSB => 0
  | .COM_BAUD_DIVISOR_MSB => 1
  | .COM_INTERRUPT_AND_FIFO => 2
  | .COM_LINE_CONTROL => 3
  | .COM_MODEM_CONTROL => 4
  | .COM_LINE_STATUS => 5
  | .COM_MODEM_STATUS => 6
  | .COM_SCRATCH => 7

structure Line_Control where
  data_bits : Nat
  stop_bits : Nat
  parity : Nat
  reserved : Nat
  dlab : Nat

def Line_Control.byte (c : Line_Control) : UInt8 :=
  UInt8.ofNat (pack [(2, c.data_bits), (1, c.stop_bits), (3, c.parity), (1, c.reserved),
    (1, c.dlab)])

structure Interrupt_Enable where
  data_available : Nat
  transmitter_empty : Nat
  break_error : Nat
  status_change : Nat
  reserved : Nat

def Interrupt_Enable.byte (e : Interrupt_Enable) : UInt8 :=
  UInt8.ofNat (pack [(1, e.data_available), (1, e.transmitter_empty), (1, e.break_error),
    (1, e.status_change), (4, e.reserved)])

section Ports

-- The eight ports from `COM1` on are the device's.
def outb (port : Nat) (byte : UInt8) (u : Uart) : Uart := u.write (port - COM1) byte

def inb (port : Nat) (u : Uart) : UInt8 × Uart := u.read (port - COM1)

def setRegister (port : Nat) (reg : COM_Register) (byte : UInt8) (u : Uart) : Uart :=
  outb (port + reg.value) byte u

def readRegister (port : Nat) (reg : COM_Register) (u : Uart) : UInt8 × Uart :=
  inb (port + reg.value) u

end Ports

section Init

def serialInit (u : Uart) : Uart :=
  let interrupt_enable : Interrupt_Enable :=
    { data_available := 0, transmitter_empty := 0, break_error := 0, status_change := 0
      reserved := 0 }
  let u := setRegister COM1 .COM_INTERRUPT_ENABLE interrupt_enable.byte u
  let line_control : Line_Control :=
    { data_bits := 0b11, stop_bits := 0, parity := 0, reserved := 0, dlab := 1 }
  let u := setRegister COM1 .COM_LINE_CONTROL line_control.byte u
  let baud_divisor_msb := 0x00
  let baud_divisor_lsb := 0x10
  let u := setRegister COM1 .COM_BAUD_DIVISOR_LSB baud_divisor_lsb u
  let u := setRegister COM1 .COM_BAUD_DIVISOR_MSB baud_divisor_msb u
  let line_control := { line_control with dlab := 0 }
  setRegister COM1 .COM_LINE_CONTROL line_control.byte u

theorem setRegister_write (reg : COM_Register) (byte : UInt8) (u : Uart) :
    setRegister COM1 reg byte u = u.write reg.value byte := by
  rw [setRegister, outb, Nat.add_sub_cancel_left]

theorem readRegister_read (reg : COM_Register) (u : Uart) :
    readRegister COM1 reg u = u.read reg.value := by
  rw [readRegister, inb, Nat.add_sub_cancel_left]

-- The writes in the middle, with the divisor switched in.
theorem write_divisor (u : Uart) :
    (((u.write 3 0b10000011).write 0 0x10).write 1 0x00).write 3 0b11 =
      { u with lineControl := 0b11, divisorLsb := 0x10, divisorMsb := 0 } := by
  have hdlab : ∀ v : Uart, v.lineControl = 0b10000011 → v.dlab = true := by
    intro v hv
    rw [Uart.dlab, hv]
    decide
  have hlsb : (u.write 3 0b10000011).write 0 0x10 =
      { u with lineControl := 0b10000011, divisorLsb := 0x10 } := if_pos (hdlab _ rfl)
  have hmsb : Uart.write { u with lineControl := 0b10000011, divisorLsb := 0x10 } 1 0x00 =
      { u with lineControl := 0b10000011, divisorLsb := 0x10, divisorMsb := 0 } :=
    if_pos (hdlab _ rfl)
  rw [hlsb, hmsb]
  rfl

-- With the divisor switched in before the call, the first write does not reach the
-- interrupts.
theorem serialInit_eq (u : Uart) :
    serialInit u = { u with
      interruptEnable := if u.dlab then u.interruptEnable else 0
      lineControl := 0b11
      divisorLsb := 0x10
      divisorMsb := 0 } := by
  have hwrites : serialInit u = ((((u.write 1 0).write 3 0b10000011).write 0 0x10).write 1
      0x00).write 3 0b11 := by
    simp only [serialInit, setRegister_write]
    rfl
  rw [hwrites, write_divisor]
  cases hdlab : u.dlab with
  | false => simp [Uart.write, hdlab]
  | true => simp [Uart.write, hdlab]

end Init

section Read

-- The loop of `serialRead` between two of its accesses, with what is in the buffer so far.
structure Reading where
  uart : Uart
  amt : Nat
  buffer : List UInt8
  ready : Bool

def serialRead (amt : Nat) (u : Uart) : Reading :=
  { uart := u, amt := amt, buffer := [], ready := false }

def Reading.returned (s : Reading) : Bool := decide (s.amt ≤ s.buffer.length)

inductive Event where
  | access
  | arrival (byte : UInt8)

def step (s : Reading) : Event → Reading
  | .access =>
      if s.returned then s
      else if s.ready then
        let (byte, uart) := readRegister COM1 .COM_DATA s.uart
        { s with uart := uart, buffer := s.buffer ++ [byte], ready := false }
      else
        let (status, uart) := readRegister COM1 .COM_LINE_STATUS s.uart
        { s with uart := uart, ready := decide (status &&& 0x1 ≠ 0) }
  | .arrival byte => { s with uart := s.uart.receive byte }

def arrivals (events : List Event) : List UInt8 :=
  events.filterMap fun event =>
    match event with
    | .access => none
    | .arrival byte => some byte

-- How many bytes come in when there is no room.
def lost (s : Reading) : List Event → Nat
  | [] => 0
  | event :: rest =>
      (match event with
        | .access => 0
        | .arrival _ => if s.uart.full then 1 else 0) + lost (step s event) rest

def Reading.taken (s : Reading) : List UInt8 := s.buffer ++ s.uart.received

-- The line is set up, and what was seen to be ready is still there.
structure Invariant (s : Reading) : Prop where
  line : s.uart.lineControl = 0b11
  ready : s.ready = true → s.uart.received ≠ []
  bounded : s.buffer.length ≤ s.amt

theorem Invariant.dlab {s : Reading} (h : Invariant s) : s.uart.dlab = false := by
  rw [Uart.dlab, h.line]
  decide

-- What a processor's access does: it finds something or not, or it takes the first byte.
theorem step_access {s : Reading} (h : Invariant s) :
    (s.returned = true ∧ step s .access = s) ∨
    (s.returned = false ∧ s.ready = false ∧ step s .access = { s with
      uart := { s.uart with overrun := false }, ready := !s.uart.received.isEmpty }) ∨
    (s.returned = false ∧ s.ready = true ∧ ∃ byte rest, s.uart.received = byte :: rest ∧
      step s .access = { s with
        uart := { s.uart with received := rest, last := byte }
        buffer := s.buffer ++ [byte]
        ready := false }) := by
  cases hreturned : s.returned with
  | true => exact .inl ⟨rfl, if_pos hreturned⟩
  | false =>
      right
      cases hready : s.ready with
      | false =>
          left
          refine ⟨rfl, rfl, ?_⟩
          have hseen : decide (s.uart.status &&& 0x1 ≠ 0) = !s.uart.received.isEmpty := by
            rw [Bool.eq_iff_iff, decide_eq_true_iff, Uart.status_ready]
            simp
          rw [step, hreturned, hready, if_neg (by decide), if_neg (by decide), ← hseen,
            readRegister_read]
          rfl
      | true =>
          right
          obtain ⟨byte, rest, hreceived⟩ := List.exists_cons_of_ne_nil (h.ready hready)
          refine ⟨rfl, rfl, byte, rest, hreceived, ?_⟩
          have hread : s.uart.read 0 = (byte, { s.uart with received := rest, last := byte }) := by
            simp only [Uart.read, h.dlab, hreceived]
            rfl
          rw [step, hreturned, hready, if_neg (by decide), if_pos rfl, readRegister_read]
          exact congrArg (fun r : UInt8 × Uart =>
            { s with uart := r.2, buffer := s.buffer ++ [r.1], ready := false }) hread

theorem Invariant.step {s : Reading} (h : Invariant s) (event : Event) :
    Invariant (step s event) := by
  cases event with
  | access =>
      obtain ⟨-, hstep⟩ | ⟨-, -, hstep⟩ | ⟨hreturned, -, byte, rest, -, hstep⟩ := step_access h
      · rw [hstep]
        exact h
      · rw [hstep]
        exact ⟨h.line, fun hready => by simpa using hready, h.bounded⟩
      · have hlt : ¬s.amt ≤ s.buffer.length := of_decide_eq_false hreturned
        rw [hstep]
        refine ⟨h.line, fun hready => Bool.noConfusion hready, ?_⟩
        simp only [List.length_append, List.length_singleton]
        omega
  | arrival byte =>
      refine ⟨?_, fun _ => s.uart.receive_ne_nil byte, h.bounded⟩
      have hline : (s.uart.receive byte).lineControl = s.uart.lineControl := by
        rw [s.uart.receive_line byte]
      exact hline.trans h.line

theorem access_taken {s : Reading} (h : Invariant s) :
    (Serial.step s .access).taken = s.taken := by
  obtain ⟨-, hstep⟩ | ⟨-, -, hstep⟩ | ⟨-, -, byte, rest, hreceived, hstep⟩ := step_access h
  · rw [hstep]
  · rw [hstep]
    rfl
  · rw [hstep, Reading.taken, Reading.taken, hreceived, List.append_assoc]
    rfl

-- A run keeps the order of what came in and loses only what the receiver had no room for.
theorem run_taken (events : List Event) {s : Reading} (h : Invariant s) :
    Invariant (events.foldl Serial.step s) ∧
      List.Sublist (events.foldl Serial.step s).taken (s.taken ++ arrivals events) ∧
      (events.foldl Serial.step s).taken.length + lost s events =
        s.taken.length + (arrivals events).length := by
  induction events generalizing s with
  | nil => exact ⟨h, by simp [arrivals], rfl⟩
  | cons event rest ih =>
      obtain ⟨hinv, hsub, hlen⟩ := ih (h.step event)
      refine ⟨hinv, ?_, ?_⟩
      · cases event with
        | access =>
            rw [access_taken h] at hsub
            exact hsub
        | arrival byte =>
            refine hsub.trans ?_
            have hone : List.Sublist (Serial.step s (.arrival byte)).taken (s.taken ++ [byte]) := by
              rw [Reading.taken, Reading.taken, List.append_assoc]
              exact (List.Sublist.refl s.buffer).append (s.uart.receive_sublist byte)
            have happend := hone.append (List.Sublist.refl (arrivals rest))
            rw [List.append_assoc] at happend
            exact happend
      · cases event with
        | access =>
            rw [access_taken h] at hlen
            simp only [lost, Nat.zero_add]
            exact hlen
        | arrival byte =>
            have hone := s.uart.receive_length byte
            have hbefore : s.taken.length = s.buffer.length + s.uart.received.length :=
              List.length_append
            have hafter : (Serial.step s (.arrival byte)).taken.length =
                s.buffer.length + (s.uart.receive byte).received.length := List.length_append
            have hcons : (arrivals (.arrival byte :: rest)).length = (arrivals rest).length + 1 :=
              rfl
            rw [List.foldl_cons, lost, hcons]
            omega

-- Reading changes nothing of the line.
theorem step_uart {s : Reading} (h : Invariant s) (event : Event) :
    (Serial.step s event).uart = { s.uart with
      received := (Serial.step s event).uart.received
      last := (Serial.step s event).uart.last
      overrun := (Serial.step s event).uart.overrun } := by
  cases event with
  | access =>
      obtain ⟨-, hstep⟩ | ⟨-, -, hstep⟩ | ⟨-, -, byte, rest, -, hstep⟩ := step_access h
      all_goals rw [hstep]
  | arrival byte => exact s.uart.receive_line byte

theorem step_amt {s : Reading} (h : Invariant s) (event : Event) :
    (Serial.step s event).amt = s.amt := by
  cases event with
  | access =>
      obtain ⟨-, hstep⟩ | ⟨-, -, hstep⟩ | ⟨-, -, byte, rest, -, hstep⟩ := step_access h
      all_goals rw [hstep]
  | arrival byte => rfl

theorem run_uart (events : List Event) {s : Reading} (h : Invariant s) :
    (events.foldl Serial.step s).uart = { s.uart with
      received := (events.foldl Serial.step s).uart.received
      last := (events.foldl Serial.step s).uart.last
      overrun := (events.foldl Serial.step s).uart.overrun } ∧
      (events.foldl Serial.step s).amt = s.amt := by
  induction events generalizing s with
  | nil => exact ⟨rfl, rfl⟩
  | cons event rest ih =>
      obtain ⟨huart, hamt⟩ := ih (h.step event)
      rw [step_uart h event] at huart
      exact ⟨huart, hamt.trans (step_amt h event)⟩

theorem serialRead_invariant (amt : Nat) (u : Uart) : Invariant (serialRead amt (serialInit u)) := by
  refine ⟨?_, fun hready => Bool.noConfusion hready, Nat.zero_le _⟩
  rw [serialRead, serialInit_eq]

theorem serialRead_taken (amt : Nat) (u : Uart) :
    (serialRead amt (serialInit u)).taken = u.received := by
  rw [serialRead, serialInit_eq]
  rfl

-- Whatever the device held before, and however the bytes come in between the accesses.
theorem serialRead_in_order (u : Uart) (amt : Nat) (events : List Event) :
    let s := serialRead amt (serialInit u)
    let t := events.foldl step s
    List.Sublist (t.buffer ++ t.uart.received) (u.received ++ arrivals events) ∧
      (t.buffer ++ t.uart.received).length + lost s events =
        (u.received ++ arrivals events).length ∧
      (lost s events = 0 → t.buffer ++ t.uart.received = u.received ++ arrivals events) ∧
      t.buffer.length ≤ amt ∧
      t.uart = { u with
        interruptEnable := if u.dlab then u.interruptEnable else 0
        lineControl := 0b11
        divisorLsb := 0x10
        divisorMsb := 0
        received := t.uart.received
        last := t.uart.last
        overrun := t.uart.overrun } := by
  intro s t
  have hstart : Invariant s := serialRead_invariant amt u
  obtain ⟨hinv, hsub, hlen⟩ := run_taken events hstart
  obtain ⟨huart, hamt⟩ := run_uart events hstart
  rw [serialRead_taken] at hsub hlen
  rw [← List.length_append] at hlen
  refine ⟨hsub, hlen, fun hnone => hsub.eq_of_length ?_, hinv.bounded.trans (Nat.le_of_eq hamt), ?_⟩
  · rw [hnone] at hlen
    exact hlen
  · have hinit : s.uart = serialInit u := rfl
    rw [hinit, serialInit_eq] at huart
    exact huart

-- How many accesses are left until all is read, if it is there.
def remaining (s : Reading) : Nat :=
  2 * (s.amt - s.buffer.length) - (if s.ready then 1 else 0)

theorem accesses_returned (n : Nat) {s : Reading} (h : s.returned = true) :
    (List.replicate n Event.access).foldl Serial.step s = s := by
  induction n with
  | zero => rfl
  | succ n ih => rw [List.replicate_succ, List.foldl_cons, Serial.step, if_pos h, ih]

theorem access_remaining {s : Reading} (h : Invariant s) (hthere : s.amt ≤ s.taken.length)
    (hreturned : s.returned = false) :
    remaining (Serial.step s .access) + 1 = remaining s := by
  have hlt : ¬s.amt ≤ s.buffer.length := of_decide_eq_false hreturned
  have htaken : s.taken.length = s.buffer.length + s.uart.received.length := List.length_append
  obtain ⟨hyes, -⟩ | ⟨-, hready, hstep⟩ | ⟨-, hready, byte, rest, -, hstep⟩ := step_access h
  · exact absurd hyes (by simp [hreturned])
  · obtain ⟨byte, rest, hreceived⟩ := List.exists_cons_of_length_pos
      (show 0 < s.uart.received.length by omega)
    rw [hstep, remaining, remaining, hready, hreceived]
    simp
    omega
  · rw [hstep, remaining, remaining, hready]
    simp
    omega

-- Once enough is there, the loop ends after as many accesses.
theorem accesses_return (n : Nat) {s : Reading} (h : Invariant s) (hthere : s.amt ≤ s.taken.length)
    (hn : remaining s ≤ n) :
    ((List.replicate n Event.access).foldl Serial.step s).returned = true := by
  induction n generalizing s with
  | zero =>
      rw [List.replicate_zero, List.foldl_nil]
      apply decide_eq_true
      rw [remaining] at hn
      split at hn <;> omega
  | succ n ih =>
      cases hreturned : s.returned with
      | true => rw [accesses_returned _ hreturned, hreturned]
      | false =>
          have hless := access_remaining h hthere hreturned
          rw [List.replicate_succ, List.foldl_cons]
          apply ih (h.step .access)
          · rw [access_taken h, step_amt h]
            exact hthere
          · omega

theorem accesses_taken (n : Nat) {s : Reading} (h : Invariant s) :
    ((List.replicate n Event.access).foldl Serial.step s).taken = s.taken := by
  induction n generalizing s with
  | zero => rfl
  | succ n ih => rw [List.replicate_succ, List.foldl_cons, ih (h.step .access), access_taken h]

-- The call comes back exactly when enough bytes came in that were not lost, and after two
-- accesses for each at most.
theorem serialRead_returns_iff (u : Uart) (amt : Nat) (events : List Event) :
    let s := serialRead amt (serialInit u)
    let after n := (events ++ List.replicate n Event.access).foldl step s
    ((∃ n, (after n).returned = true) ↔
        amt + lost s events ≤ (u.received ++ arrivals events).length) ∧
      ∀ n, 2 * amt ≤ n → amt + lost s events ≤ (u.received ++ arrivals events).length →
        (after n).returned = true ∧ (lost s events = 0 →
          (after n).buffer = (u.received ++ arrivals events).take amt) := by
  intro s after
  have hstart : Invariant s := serialRead_invariant amt u
  obtain ⟨hinv, hsub, hlen⟩ := run_taken events hstart
  obtain ⟨-, hamt⟩ := run_uart events hstart
  generalize ht : events.foldl Serial.step s = t at hinv hsub hlen hamt
  have hafter : ∀ n, after n = (List.replicate n Event.access).foldl Serial.step t := by
    intro n
    rw [← ht, ← List.foldl_append]
  rw [serialRead_taken, ← List.length_append] at hlen
  rw [serialRead_taken] at hsub
  have hamt' : t.amt = amt := hamt
  have hreturns : ∀ n, 2 * amt ≤ n → amt + lost s events ≤ (u.received ++ arrivals events).length →
      (after n).returned = true := by
    intro n hn hthere
    rw [hafter]
    refine accesses_return n hinv (by omega) ?_
    unfold remaining
    omega
  refine ⟨⟨fun ⟨n, hreturned⟩ => ?_, fun hthere => ⟨2 * amt, hreturns _ (Nat.le_refl _) hthere⟩⟩,
    fun n hn hthere => ⟨hreturns n hn hthere, fun hnone => ?_⟩⟩
  · have htaken : (after n).taken = t.taken := by
      rw [hafter, accesses_taken n hinv]
    have hlong : (after n).amt ≤ (after n).buffer.length := of_decide_eq_true hreturned
    have hsame : (after n).amt = amt := (run_uart _ hstart).2
    have hsplit : t.taken.length = (after n).buffer.length + (after n).uart.received.length := by
      rw [← htaken]
      exact List.length_append
    omega
  · rw [hnone] at hlen
    have hall : (after n).taken = u.received ++ arrivals events := by
      rw [hafter, accesses_taken n hinv]
      exact hsub.eq_of_length hlen
    have hfull : (after n).buffer.length = amt := by
      have hlong : (after n).amt ≤ (after n).buffer.length := of_decide_eq_true (hreturns n hn hthere)
      have hbounded := (run_taken (events ++ List.replicate n Event.access) hstart).1.bounded
      have hsame : (after n).amt = amt := (run_uart _ hstart).2
      exact Nat.le_antisymm (hsame ▸ hbounded) (hsame ▸ hlong)
    rw [← hall, ← hfull, Reading.taken, List.take_left]

end Read

end PalleyOS.Serial
