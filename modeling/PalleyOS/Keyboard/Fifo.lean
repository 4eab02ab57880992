import PalleyOS.Keyboard.Queue
import PalleyOS.Machine.Ring
import PalleyOS.Machine.Runs

namespace PalleyOS.Keyboard

section Invariant

-- Between `queue_ridx++` and the load the index is one ahead of the bytes read.
def ahead : Consumer → Nat
  | .read _ => 1
  | .readE0 _ => 1
  | _ => 0

structure Fifo (queue : ScancodeQueue) : Prop where
  widx : queue.queue_widx.toNat = queue.delivered.length % 256
  ridx : queue.queue_ridx.toNat = (queue.consumed.length + ahead queue.consumer) % 256
  slot : ∀ slot, queue.consumer = .read slot ∨ queue.consumer = .readE0 slot →
    slot.toNat = queue.consumed.length % 256
  pending : (queue.consumer = .take ∨ ∃ slot, queue.consumer = .read slot) →
    queue.consumed.length < queue.delivered.length
  ring : Machine.RingHolds 256 queue.scancode_queue queue.delivered queue.consumed.length
  in_order : queue.consumed <+: queue.delivered
  room : queue.delivered.length < queue.consumed.length + 256

theorem initial_fifo : Fifo initial where
  widx := rfl
  ridx := rfl
  slot := by intro slot h; simp [initial] at h
  pending := by intro h; simp [initial] at h
  ring := fun k hk _ => absurd hk (Nat.not_lt_zero k)
  in_order := List.prefix_refl _
  room := by simp [initial]

theorem toNat_succ (index : UInt8) : (index + 1).toNat = (index.toNat + 1) % 256 := by
  rw [UInt8.toNat_add]
  rfl

theorem Fifo.hasNewInput_iff {queue : ScancodeQueue} (h : Fifo queue)
    (hidle : ahead queue.consumer = 0) :
    kbHasNewInput queue = true ↔ queue.consumed.length < queue.delivered.length := by
  have hr := h.ridx
  rw [hidle, Nat.add_zero] at hr
  unfold kbHasNewInput
  rw [bne_iff_ne, ne_eq, ← UInt8.toNat_inj, h.widx, hr]
  exact Machine.cell_ne_iff 256 _ _ h.in_order.length_le h.room

theorem Fifo.slot_ne_widx_iff {queue : ScancodeQueue} (h : Fifo queue) (slot : UInt8)
    (hslot : queue.consumer = .read slot ∨ queue.consumer = .readE0 slot) :
    slot ≠ queue.queue_widx ↔ queue.consumed.length < queue.delivered.length := by
  rw [ne_eq, ← UInt8.toNat_inj, h.widx, h.slot slot hslot]
  exact Machine.cell_ne_iff 256 _ _ h.in_order.length_le h.room

end Invariant

section Steps

theorem Fifo.interrupt {queue : ScancodeQueue} (h : Fifo queue) (scan_code : UInt8)
    (hroom : queue.delivered.length + 1 < queue.consumed.length + 256) :
    Fifo (keyboardInterruptHandler queue scan_code) := by
  have hw := h.widx
  constructor
  · simp only [keyboardInterruptHandler, List.length_append, List.length_singleton, toNat_succ]
    omega
  · exact h.ridx
  · exact h.slot
  · intro hpc
    have hp := h.pending hpc
    simp only [keyboardInterruptHandler, List.length_append, List.length_singleton]
    omega
  · simp only [keyboardInterruptHandler, hw]
    exact h.ring.push scan_code h.room
  · exact h.in_order.trans (List.prefix_append _ _)
  · simpa [keyboardInterruptHandler, Nat.add_assoc] using hroom

-- A step that leaves both queue and records alone keeps the invariant when the
-- new position does not claim a byte that is not there.
theorem Fifo.move {queue : ScancodeQueue} (h : Fifo queue) (interrupts : Bool)
    (consumer : Consumer) (hidle : ahead queue.consumer = 0) (hnext : ahead consumer = 0)
    (htake : consumer = .take → queue.consumed.length < queue.delivered.length) :
    Fifo { queue with interrupts := interrupts, consumer := consumer } where
  widx := h.widx
  ridx := by simpa only [hidle, hnext] using h.ridx
  slot := by
    rintro slot (hs | hs) <;> rw [show consumer = _ from hs] at hnext <;> cases hnext
  pending := by
    rintro (hs | ⟨slot, hs⟩)
    · exact htake hs
    · rw [show consumer = _ from hs] at hnext
      cases hnext
  ring := h.ring
  in_order := h.in_order
  room := h.room

theorem Fifo.advance {queue : ScancodeQueue} (h : Fifo queue) (consumer : Consumer)
    (hidle : ahead queue.consumer = 0)
    (hnext : consumer = .read queue.queue_ridx ∧
        queue.consumed.length < queue.delivered.length ∨
      consumer = .readE0 queue.queue_ridx) :
    Fifo { queue with queue_ridx := queue.queue_ridx + 1, consumer := consumer } := by
  have hr := h.ridx
  rw [hidle, Nat.add_zero] at hr
  have hahead : ahead consumer = 1 := by
    rcases hnext with ⟨rfl, -⟩ | rfl <;> rfl
  constructor
  · exact h.widx
  · simp only [toNat_succ, hahead]
    omega
  · rintro slot hs
    have he : slot = queue.queue_ridx := by
      rcases hnext with ⟨rfl, -⟩ | rfl <;> simpa [eq_comm] using hs
    rw [he]
    exact hr
  · rintro (hs | ⟨slot, hs⟩)
    · rcases hnext with ⟨rfl, -⟩ | rfl <;> simp at hs
    · rcases hnext with ⟨-, hlt⟩ | rfl
      · exact hlt
      · simp at hs
  · exact h.ring
  · exact h.in_order
  · exact h.room

-- The load after `queue_ridx++`, when its byte has arrived.
theorem Fifo.load {queue : ScancodeQueue} (h : Fifo queue) (slot : UInt8) (consumer : Consumer)
    (hslot : queue.consumer = .read slot ∨ queue.consumer = .readE0 slot)
    (hnext : ahead consumer = 0) (hne : consumer ≠ .take)
    (hlt : queue.consumed.length < queue.delivered.length) :
    Fifo { queue with
      consumed := queue.consumed ++ [queue.scancode_queue slot.toNat], consumer := consumer } := by
  have hahead : ahead queue.consumer = 1 := by
    rcases hslot with hs | hs <;> rw [hs] <;> rfl
  constructor
  · exact h.widx
  · have hr := h.ridx
    simpa only [List.length_append, List.length_singleton, hnext, hahead, Nat.add_zero] using hr
  · rintro other (hs | hs) <;> rw [show consumer = _ from hs] at hnext <;> cases hnext
  · rintro (hs | ⟨other, hs⟩)
    · exact absurd hs hne
    · rw [show consumer = _ from hs] at hnext
      cases hnext
  · simpa only [List.length_append, List.length_singleton] using h.ring.pop
  · simp only [h.slot slot hslot]
    exact h.ring.read_prefix h.in_order hlt
  · have hroom := h.room
    simp only [List.length_append, List.length_singleton]
    omega

theorem ahead_resume (caller : Caller) : ahead caller.resume = 0 := by
  cases caller <;> rfl

theorem resume_ne_take (caller : Caller) : caller.resume ≠ .take := by
  cases caller <;> simp [Caller.resume]

end Steps

section Runs

-- A transition of one of the two parties, with fewer than 256 bytes
-- outstanding after it.
def Transition (caller : Caller) (queue : ScancodeQueue) (event : Event)
    (next : ScancodeQueue) : Prop :=
  step caller queue event = some next ∧
    next.delivered.length < next.consumed.length + 256

def InOrder (_ : ScancodeQueue) (_ : Event) (next : ScancodeQueue) : Prop :=
  next.consumed <+: next.delivered

-- When `handleE0Key` loads the byte after the prefix, that byte has been queued.
def SecondByteQueued (queue : ScancodeQueue) (event : Event) (_ : ScancodeQueue) : Prop :=
  ∀ slot, event = .consumer → queue.consumer = .readE0 slot → slot ≠ queue.queue_widx

theorem transition_keeps_fifo (caller : Caller) (queue next : ScancodeQueue) (event : Event)
    (h : Fifo queue) (htrans : Transition caller queue event next)
    (hqueued : SecondByteQueued queue event next) : Fifo next := by
  obtain ⟨hstep, hroom⟩ := htrans
  cases event with
  | interrupt scan_code =>
      simp only [step] at hstep
      split at hstep
      · obtain rfl := Option.some.inj hstep
        apply h.interrupt
        simpa [keyboardInterruptHandler, Nat.add_assoc] using hroom
      · cases hstep
  | consumer =>
      obtain rfl := Option.some.inj hstep
      unfold consumerStep
      split
      case h_1 hpc =>
        split
        · exact h.move queue.interrupts _ (by rw [hpc]; rfl) (by cases caller <;> rfl)
            (by cases caller <;> simp)
        · exact h
      case h_2 hpc => exact h.move false .wait (by rw [hpc]; rfl) rfl (by simp)
      case h_3 hpc =>
        have hidle : ahead queue.consumer = 0 := by rw [hpc]; rfl
        split
        · rename_i hnew
          exact h.move queue.interrupts .take hidle rfl (fun _ => (h.hasNewInput_iff hidle).mp hnew)
        · exact h
      case h_4 hpc =>
        exact h.advance _ (by rw [hpc]; rfl) (Or.inl ⟨rfl, h.pending (Or.inl hpc)⟩)
      case h_5 slot hpc =>
        apply h.load slot _ (Or.inl hpc) _ _ (h.pending (Or.inr ⟨slot, hpc⟩))
        · split
          · rfl
          · exact ahead_resume caller
        · split
          · simp
          · exact resume_ne_take caller
      case h_6 hpc => exact h.advance _ (by rw [hpc]; rfl) (Or.inr rfl)
      case h_7 slot hpc =>
        exact h.load slot _ (Or.inr hpc) (ahead_resume caller) (resume_ne_take caller)
          ((h.slot_ne_widx_iff slot (Or.inr hpc)).mp (hqueued slot rfl hpc))
      case h_8 hpc => exact h.move true .poll (by rw [hpc]; rfl) rfl (by simp)

-- An early load makes the bytes consumed outnumber the bytes delivered.
theorem not_inOrder_of_early_load (caller : Caller) (queue next : ScancodeQueue) (slot : UInt8)
    (h : Fifo queue) (hstep : step caller queue .consumer = some next)
    (hpc : queue.consumer = .readE0 slot) (heq : slot = queue.queue_widx) :
    ¬next.consumed <+: next.delivered := by
  have hnot : ¬queue.consumed.length < queue.delivered.length := by
    rw [← h.slot_ne_widx_iff slot (Or.inr hpc), not_not]
    exact heq
  obtain rfl := Option.some.inj hstep
  intro htaken
  have hle := htaken.length_le
  simp only [consumerStep, hpc, List.length_append, List.length_singleton] at hle
  omega

-- For both callers and every interleaving, the bytes consumed are a prefix of
-- the bytes delivered throughout the run exactly when no second byte of an
-- extended key is loaded before it was queued.
theorem scancodes_in_order_iff (caller : Caller) (trace : List (Event × ScancodeQueue))
    (hrun : Machine.Along (Transition caller) initial trace) :
    Machine.Along InOrder initial trace ↔ Machine.Along SecondByteQueued initial trace := by
  apply Machine.along_iff Fifo _ _ initial_fifo hrun
  · intro queue event next h htrans hqueued
    exact transition_keeps_fifo caller queue next event h htrans hqueued
  · intro queue event next h htrans
    constructor
    · rintro hin slot rfl hpc heq
      exact not_inOrder_of_early_load caller queue next slot h htrans.1 hpc heq hin
    · intro hqueued
      exact (transition_keeps_fifo caller queue next event h htrans hqueued).in_order

-- The run that a list of events gives, as far as each event is possible.
def play (caller : Caller) : ScancodeQueue → List Event → List (Event × ScancodeQueue)
  | _, [] => []
  | queue, event :: rest =>
      match step caller queue event with
      | none => []
      | some next => (event, next) :: play caller next rest

-- The up arrow with both of its bytes queued before the consumer looks.
theorem scancodes_in_order_iff_up_arrow :
    Machine.Along InOrder initial (play .kbGetLine initial
      [.interrupt 0xE0, .interrupt 0x48, .consumer, .consumer, .consumer, .consumer, .consumer,
        .consumer]) := by
  apply (scancodes_in_order_iff .kbGetLine _ _).mpr
  · refine ⟨?_, ?_, ?_, ?_, ?_, ?_, ?_, ?_, trivial⟩ <;> intro slot he hs <;> cases he <;> cases hs
    decide
  · exact ⟨⟨rfl, by decide⟩, ⟨rfl, by decide⟩, ⟨rfl, by decide⟩, ⟨rfl, by decide⟩,
      ⟨rfl, by decide⟩, ⟨rfl, by decide⟩, ⟨rfl, by decide⟩, ⟨rfl, by decide⟩, trivial⟩

-- Its prefix alone: the consumer loads the stale cell after it, a byte that
-- never arrived, and leaves `queue_ridx` ahead of `queue_widx`.
theorem scancode_consumed_before_arrival :
    ∃ trace, Machine.Along (Transition .kbGetLine) initial trace ∧
      ¬Machine.Along InOrder initial trace := by
  refine ⟨play .kbGetLine initial [.interrupt 0xE0, .consumer, .consumer, .consumer, .consumer,
    .consumer, .consumer], ?_, ?_⟩
  · exact ⟨⟨rfl, by decide⟩, ⟨rfl, by decide⟩, ⟨rfl, by decide⟩, ⟨rfl, by decide⟩,
      ⟨rfl, by decide⟩, ⟨rfl, by decide⟩, ⟨rfl, by decide⟩, trivial⟩
  · rintro ⟨_, _, _, _, _, _, hlast, _⟩
    exact absurd hlast (by unfold InOrder; decide)

end Runs

end PalleyOS.Keyboard
