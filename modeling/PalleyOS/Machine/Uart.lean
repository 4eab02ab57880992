import Mathlib.Data.Nat.Bitwise
import Mathlib.Data.List.Basic

namespace Machine

-- The receiver of a 16550 and the registers that set up its line. A received byte waits
-- until it is read; what comes in when there is no room is an overrun.
structure Uart where
  interruptEnable : UInt8
  lineControl : UInt8
  divisorLsb : UInt8
  divisorMsb : UInt8
  fifo : Bool
  received : List UInt8
  last : UInt8
  overrun : Bool
  sent : List UInt8
  deriving DecidableEq, Repr

namespace Uart

section Registers

-- With this bit of the line control on, the first two registers are the divisor.
def dlab (u : Uart) : Bool := u.lineControl.toNat.testBit 7

def status (u : Uart) : UInt8 :=
  0x60 + (if u.overrun then 2 else 0) + (if u.received.isEmpty then 0 else 1)

-- The modem and scratch registers are not kept.
def write (u : Uart) (register : Nat) (value : UInt8) : Uart :=
  match register with
  | 0 =>
      if u.dlab then { u with divisorLsb := value } else { u with sent := u.sent ++ [value] }
  | 1 =>
      if u.dlab then { u with divisorMsb := value }
      else { u with interruptEnable := value &&& 0x0f }
  | 3 => { u with lineControl := value }
  | _ => u

def read (u : Uart) (register : Nat) : UInt8 × Uart :=
  match register with
  | 0 =>
      if u.dlab then (u.divisorLsb, u)
      else
        match u.received with
        | [] => (u.last, u)
        | byte :: rest => (byte, { u with received := rest, last := byte })
  | 1 => (if u.dlab then u.divisorMsb else u.interruptEnable, u)
  | 3 => (u.lineControl, u)
  | 5 => (u.status, { u with overrun := false })
  | _ => (0xff, u)

theorem status_ready (u : Uart) : u.status &&& 1 ≠ 0 ↔ u.received ≠ [] := by
  unfold status
  cases u.received with
  | nil => cases u.overrun <;> decide
  | cons byte rest => cases u.overrun <;> simp <;> decide

end Registers

section Receiver

def full (u : Uart) : Bool := decide ((if u.fifo then 16 else 1) ≤ u.received.length)

-- The FIFO keeps what it has; without it the new byte takes the place of the old one.
def receive (u : Uart) (byte : UInt8) : Uart :=
  if u.full then
    { u with
      received := if u.fifo then u.received else u.received.dropLast ++ [byte]
      overrun := true }
  else { u with received := u.received ++ [byte] }

theorem receive_line (u : Uart) (byte : UInt8) :
    u.receive byte = { u with
      received := (u.receive byte).received
      last := (u.receive byte).last
      overrun := (u.receive byte).overrun } := by
  unfold receive
  split <;> rfl

-- Nothing comes in that was not sent, nor in another order.
theorem receive_sublist (u : Uart) (byte : UInt8) :
    List.Sublist (u.receive byte).received (u.received ++ [byte]) := by
  unfold receive
  split
  · cases u.fifo with
    | true => exact List.sublist_append_left _ _
    | false => exact (List.dropLast_sublist u.received).append (List.Sublist.refl _)
  · exact List.Sublist.refl _

-- An overrun loses one byte.
theorem receive_length (u : Uart) (byte : UInt8) :
    (u.receive byte).received.length + (if u.full then 1 else 0) = u.received.length + 1 := by
  cases hfull : u.full with
  | false => simp [receive, hfull]
  | true =>
      have hpos : 0 < u.received.length := by
        have hle : (if u.fifo then 16 else 1) ≤ u.received.length := of_decide_eq_true hfull
        split at hle <;> omega
      rw [receive, if_pos hfull, if_pos rfl]
      cases u.fifo with
      | true => rfl
      | false =>
          simp only [Bool.false_eq_true, if_false, List.length_append, List.length_dropLast,
            List.length_singleton]
          omega

theorem receive_ne_nil (u : Uart) (byte : UInt8) : (u.receive byte).received ≠ [] := by
  intro hnil
  have hlen := receive_length u byte
  rw [hnil, List.length_nil] at hlen
  cases hfull : u.full with
  | false => simp [receive, hfull] at hnil
  | true =>
      have hle : (if u.fifo then 16 else 1) ≤ u.received.length := of_decide_eq_true hfull
      rw [hfull, if_pos rfl] at hlen
      split at hle <;> omega

end Receiver

end Uart

end Machine
