import PalleyOS.Keyboard.Input
import PalleyOS.Timer

namespace PalleyOS

open Machine Keyboard Timer

-- What each instruction does to the flag and to the responses still to come.
section Instructions

variable {α : Type} (t : Code)

def responses (t : Code) : Stream' UInt8 := t.memory.ports.responses

@[simp] theorem cli_flag : (cli t).interrupts = false := rfl

@[simp] theorem sti_flag : (sti t).interrupts = true := rfl

@[simp] theorem load_flag (f : Kernel → α) : (load f t).2.interrupts = t.interrupts :=
  Thread.read_interrupts f t

@[simp] theorem store_flag (f : Kernel → Kernel) : (store f t).interrupts = t.interrupts :=
  Thread.write_interrupts f t

@[simp] theorem outb_flag (port : UInt16) (value : UInt8) :
    (outb port value t).interrupts = t.interrupts := store_flag t _

@[simp] theorem inb_flag : (inb t).2.interrupts = t.interrupts := Thread.access_interrupts _ t

-- No handler uses up a response of the devices.
theorem responses_stable (r : Stream' UInt8) :
    Thread.Stable isr (fun kernel => kernel.ports.responses = r) := by
  intro interrupt kernel h
  cases interrupt <;> exact h

theorem interrupted_responses : responses (t.interrupted isr) = responses t :=
  (responses_stable (responses t)).interrupted t rfl

@[simp] theorem cli_responses : responses (cli t) = responses t := interrupted_responses t

@[simp] theorem sti_responses : responses (sti t) = responses t := interrupted_responses t

@[simp] theorem outb_responses (port : UInt16) (value : UInt8) :
    responses (outb port value t) = responses t := interrupted_responses t

theorem inb_value : (inb t).1 = (responses t).head := congrArg Stream'.head (interrupted_responses t)

theorem inb_responses : responses (inb t).2 = (responses t).tail :=
  congrArg Stream'.tail (interrupted_responses t)

end Instructions

section Timer

-- The early return leaves the interrupts off.
theorem initPITTimer_flag (t : Code) :
    (initPITTimer t).interrupts = true ↔ t.memory.pit.pit_initialized = false := by
  have hcli : (cli t).memory.pit.pit_initialized = t.memory.pit.pit_initialized :=
    (initialized_stable _).cli t rfl
  have hload := (load_initialized (cli t)).1
  rw [hcli] at hload
  unfold initPITTimer
  simp only [hload]
  cases t.memory.pit.pit_initialized with
  | true => simp
  | false => simp

theorem ensureInitialized_flag (t : Code) (h : t.interrupts = true) :
    (ensureInitialized t).interrupts = true := by
  obtain ⟨hvalue, hafter⟩ := load_initialized t
  unfold ensureInitialized
  simp only [hvalue]
  cases hinit : t.memory.pit.pit_initialized with
  | true => simpa using h
  | false => exact (initPITTimer_flag _).mpr (hafter.trans hinit)

theorem claimFrom_flag (remaining i : Nat) (t : Code) :
    (claimFrom remaining i t).2.interrupts = t.interrupts := by
  induction remaining generalizing i t with
  | zero => rfl
  | succ remaining ih =>
      rw [claimFrom]
      simp only
      split
      · simp [storePit]
      · rw [ih, load_flag]

-- The last round of the loop breaks out of it after `cli`.
theorem sleepLoop_flag (fuel : Nat) (t next : Code) (h : sleepLoop fuel t = some next) :
    next.interrupts = false := by
  induction fuel generalizing t with
  | zero => cases h
  | succ fuel ih =>
      rw [sleepLoop] at h
      simp only at h
      split at h
      · cases h
        simp
      · exact ih _ h

end Timer

section Ps2

-- One of the next `remaining` responses ends the wait of `ps2SendSubCommand`.
def Acknowledged (remaining : Nat) (r : Stream' UInt8) : Prop :=
  ∃ n < remaining, r.get n = ACK ∨ r.get n = ECHO

theorem acknowledged_succ (remaining : Nat) (r : Stream' UInt8) :
    Acknowledged (remaining + 1) r ↔
      (r.head = ACK ∨ r.head = ECHO) ∨ Acknowledged remaining r.tail := by
  constructor
  · rintro ⟨n, hn, hr⟩
    cases n with
    | zero => exact .inl hr
    | succ n => exact .inr ⟨n, by omega, hr⟩
  · rintro (hr | ⟨n, hn, hr⟩)
    · exact ⟨0, by omega, hr⟩
    · exact ⟨n + 1, by omega, hr⟩

-- The responses left after the wait.
def afterAck : Nat → Stream' UInt8 → Stream' UInt8
  | 0, r => r
  | remaining + 1, r =>
      if r.head = ACK ∨ r.head = ECHO then r.tail else afterAck remaining r.tail

theorem awaitAck_spec (remaining : Nat) (t : Code) :
    (awaitAck remaining t).2.interrupts = t.interrupts ∧
    responses (awaitAck remaining t).2 = afterAck remaining (responses t) ∧
    ((∃ ret, (awaitAck remaining t).1 = some ret ∧ (ret = ACK ∨ ret = ECHO)) ∧
        Acknowledged remaining (responses t) ∨
      (awaitAck remaining t).1 = none ∧ ¬Acknowledged remaining (responses t)) := by
  induction remaining generalizing t with
  | zero => exact ⟨rfl, rfl, .inr ⟨rfl, fun ⟨n, hn, _⟩ => absurd hn (Nat.not_lt_zero n)⟩⟩
  | succ remaining ih =>
      obtain ⟨hflag, hleft, hresult⟩ := ih (inb t).2
      rw [inb_flag] at hflag
      rw [inb_responses] at hleft hresult
      rw [acknowledged_succ, awaitAck, afterAck]
      simp only [inb_value]
      by_cases hack : (responses t).head = ACK ∨ (responses t).head = ECHO
      · simp only [if_pos hack]
        exact ⟨inb_flag t, inb_responses t, .inl ⟨⟨_, rfl, hack⟩, .inl hack⟩⟩
      · simp only [hack, false_or]
        exact ⟨hflag, hleft, hresult⟩

theorem awaitAnswer_spec (t : Code) (hoff : t.interrupts = false) :
    responses (awaitAnswer t).2 = afterAck 10 (responses t) ∧
    ((awaitAnswer t).2.interrupts = true ↔ Acknowledged 10 (responses t)) ∧
    ((awaitAnswer t).1 ≠ 1 ↔ Acknowledged 10 (responses t)) := by
  obtain ⟨hflag, hleft, hresult⟩ := awaitAck_spec 10 t
  unfold awaitAnswer
  generalize awaitAck 10 t = wait at hflag hleft hresult ⊢
  obtain ⟨answer, next⟩ := wait
  obtain ⟨⟨ret, hret, hvalue⟩, hack⟩ | ⟨hret, hack⟩ := hresult
  · simp only at hret hleft
    subst hret
    have hne : ret ≠ 1 := by rcases hvalue with rfl | rfl <;> decide
    exact ⟨(sti_responses next).trans hleft, ⟨fun _ => hack, fun _ => rfl⟩, fun _ => hack,
      fun _ => hne⟩
  · simp only at hret hleft hflag
    subst hret
    refine ⟨hleft, ⟨fun hon => ?_, fun h => absurd h hack⟩, fun h => absurd rfl h,
      fun h => absurd h hack⟩
    exact absurd (hon.symm.trans (hflag.trans hoff)) Bool.true_eq_false.mp

theorem ps2SendSubCommand_spec (command : UInt8) (subcommand : Int8) (t : Code) :
    responses (ps2SendSubCommand command subcommand t).2 = afterAck 10 (responses t) ∧
    ((ps2SendSubCommand command subcommand t).2.interrupts = true ↔
      Acknowledged 10 (responses t)) ∧
    ((ps2SendSubCommand command subcommand t).1 ≠ 1 ↔ Acknowledged 10 (responses t)) := by
  have hsent : ∀ s : Code, s.interrupts = false → responses s = responses t →
      responses (awaitAnswer s).2 = afterAck 10 (responses t) ∧
      ((awaitAnswer s).2.interrupts = true ↔ Acknowledged 10 (responses t)) ∧
      ((awaitAnswer s).1 ≠ 1 ↔ Acknowledged 10 (responses t)) := by
    intro s hoff hsame
    rw [← hsame]
    exact awaitAnswer_spec s hoff
  unfold ps2SendSubCommand
  split
  · exact hsent _ (by simp) (by simp)
  · exact hsent _ (by simp) (by simp)

theorem awaitKeyset_flag (remaining : Nat) (ret : UInt8) (t : Code) :
    (awaitKeyset remaining ret t).2.interrupts = t.interrupts := by
  induction remaining generalizing ret t with
  | zero => rfl
  | succ remaining ih =>
      rw [awaitKeyset]
      simp only
      split
      · exact inb_flag t
      · rw [ih, inb_flag]

theorem ps2GetKeyset_flag (t : Code) :
    (ps2GetKeyset t).2.interrupts = true ↔ Acknowledged 10 (responses t) := by
  rw [← (ps2SendSubCommand_spec SCAN_CODE 0 t).2.1]
  unfold ps2GetKeyset
  simp only
  split
  · rw [awaitKeyset_flag]
  · rfl

-- The responses left after a command that returns a byte.
def afterOutput : Nat → Stream' UInt8 → Stream' UInt8
  | 0, r => r
  | remaining + 1, r =>
      if r.head &&& 1 ≠ 0 then r.tail.tail else afterOutput remaining r.tail

theorem awaitOutput_responses (remaining : Nat) (t : Code) :
    responses (if (awaitOutput remaining t).1 then inb (awaitOutput remaining t).2
        else (0xff, (awaitOutput remaining t).2)).2 = afterOutput remaining (responses t) := by
  induction remaining generalizing t with
  | zero => rfl
  | succ remaining ih =>
      rw [awaitOutput, afterOutput]
      simp only [inb_value]
      split
      · exact (inb_responses _).trans (congrArg Stream'.tail (inb_responses t))
      · rw [ih, inb_responses]

theorem ps2SendCommand_responses (comm : UInt8) (t : Code) :
    responses (ps2SendCommand comm false t).2 = responses t ∧
    responses (ps2SendCommand comm true t).2 = afterOutput 10 (responses t) := by
  refine ⟨outb_responses t _ _, ?_⟩
  have hleft := awaitOutput_responses 10 (outb PS2_COMMAND comm t)
  rw [outb_responses] at hleft
  exact hleft

-- The responses left after `ps2Init`: a byte that is thrown away, the answers to
-- four commands of the controller and those to the reset.
def afterPs2Init (r : Stream' UInt8) : Stream' UInt8 :=
  afterAck 10 (afterOutput 10 (afterOutput 10 (afterOutput 10 (afterOutput 10 r.tail))))

theorem ps2Init_responses (t : Code) : responses (ps2Init t) = afterPs2Init (responses t) := by
  simp only [ps2Init, outb_responses, ps2SendDevCommand, (ps2SendSubCommand_spec _ _ _).1,
    (ps2SendCommand_responses _ _).1, (ps2SendCommand_responses _ _).2, inb_responses, afterPs2Init]

theorem kbInit_flag (t : Code) :
    (kbInit t).interrupts = true ↔ Acknowledged 10 (afterPs2Init (responses t)) := by
  have hleft := ps2Init_responses (cli t)
  rw [cli_responses] at hleft
  obtain ⟨-, hflag, hecho⟩ := ps2SendSubCommand_spec ECHO (-1) (ps2Init (cli t))
  rw [hleft] at hflag hecho
  unfold kbInit ps2SendDevCommand
  simp only
  split
  · rename_i hanswer
    exact ⟨fun _ => hecho.mp hanswer, fun _ => rfl⟩
  · exact hflag

end Ps2

section Input

variable (behind : List UInt8 → Nat → UInt8)

-- A key is only ever read between `cli` and `sti`.
theorem charLoop_flag (fuel : Nat) (key last : MappedKey) (t next : Code)
    (h : charLoop behind fuel key t = some (last, next))
    (hstart : (key.printable = false ∨ key.down_stroke = false) ∨ t.interrupts = true) :
    next.interrupts = true := by
  induction fuel generalizing key t with
  | zero => cases h
  | succ fuel ih =>
      rw [charLoop] at h
      simp only at h
      split at h
      · rename_i hmore
        split at h
        · split at h
          · cases h
          · exact ih _ _ h (.inr rfl)
        · exact ih _ _ h (.inl hmore)
      · rename_i hdone
        cases h
        exact hstart.resolve_left hdone

end Input

section Helpers

inductive Helper where
  | pitSleep (num_millis : UInt32)
  | initPITTimer
  | pitAddCounter
  | readPITCount
  | setPITCount (count : UInt16)
  | idt_add_isr (offset : UInt8) (func_ptr : UInt32) (desc_level gate_type : UInt8)
  | ps2SendSubCommand (command : UInt8) (subcommand : Int8)
  | ps2GetKeyset
  | kbInit
  | kbGetChar

variable (behind : List UInt8 → Nat → UInt8)

-- The machine when the helper returns, `none` while it still runs.
def Helper.run (fuel : Nat) : Helper → Code → Option Code
  | .pitSleep num_millis, t => Timer.pitSleep fuel num_millis t
  | .initPITTimer, t => some (Timer.initPITTimer t)
  | .pitAddCounter, t => some (Timer.pitAddCounter t).2
  | .readPITCount, t => some (Timer.readPITCount t).2
  | .setPITCount count, t => some (Timer.setPITCount count t)
  | .idt_add_isr offset func_ptr desc_level gate_type, t =>
      some (PalleyOS.idt_add_isr offset func_ptr desc_level gate_type t)
  | .ps2SendSubCommand command subcommand, t =>
      some (Keyboard.ps2SendSubCommand command subcommand t).2
  | .ps2GetKeyset, t => some (Keyboard.ps2GetKeyset t).2
  | .kbInit, t => some (Keyboard.kbInit t)
  | .kbGetChar, t => (Keyboard.kbGetChar behind fuel t).map Prod.snd

-- When a helper turns the interrupts on again, told from the machine it starts on.
def Helper.Restores : Helper → Kernel → Prop
  | .pitSleep _, _ => False
  | .initPITTimer, kernel => kernel.pit.pit_initialized = false
  | .ps2SendSubCommand _ _, kernel => Acknowledged 10 kernel.ports.responses
  | .ps2GetKeyset, kernel => Acknowledged 10 kernel.ports.responses
  | .kbInit, kernel => Acknowledged 10 (afterPs2Init kernel.ports.responses)
  | _, _ => True

theorem interrupts_enabled_iff (helper : Helper) (fuel : Nat) (t next : Code)
    (henabled : t.interrupts = true) (hreturn : helper.run behind fuel t = some next) :
    next.interrupts = true ↔ helper.Restores t.memory := by
  cases helper with
  | pitSleep num_millis =>
      have hoff := sleepLoop_flag fuel _ _ hreturn
      exact ⟨fun hon => Bool.false_ne_true (hoff.symm.trans hon), False.elim⟩
  | initPITTimer =>
      rw [← Option.some.inj hreturn]
      exact initPITTimer_flag t
  | pitAddCounter =>
      rw [← Option.some.inj hreturn]
      refine ⟨fun _ => trivial, fun _ => (claimFrom_flag _ _ _).trans ?_⟩
      exact ensureInitialized_flag t henabled
  | readPITCount =>
      rw [← Option.some.inj hreturn]
      exact ⟨fun _ => trivial, fun _ => rfl⟩
  | setPITCount count =>
      rw [← Option.some.inj hreturn]
      exact ⟨fun _ => trivial, fun _ => rfl⟩
  | idt_add_isr offset func_ptr desc_level gate_type =>
      rw [← Option.some.inj hreturn]
      exact ⟨fun _ => trivial, fun _ => rfl⟩
  | ps2SendSubCommand command subcommand =>
      rw [← Option.some.inj hreturn]
      exact (ps2SendSubCommand_spec command subcommand t).2.1
  | ps2GetKeyset =>
      rw [← Option.some.inj hreturn]
      exact ps2GetKeyset_flag t
  | kbInit =>
      rw [← Option.some.inj hreturn]
      exact kbInit_flag t
  | kbGetChar =>
      refine ⟨fun _ => trivial, fun _ => ?_⟩
      simp only [Helper.run, kbGetChar, Option.map_map, Option.map_eq_some_iff] at hreturn
      obtain ⟨⟨last, after⟩, hloop, rfl⟩ := hreturn
      exact charLoop_flag behind _ _ _ _ _ hloop (.inl (.inl rfl))

theorem interrupts_enabled_iff_booted :
    (ps2SendSubCommand SCAN_CODE 0 booted).2.interrupts = true ↔
      (Helper.ps2SendSubCommand SCAN_CODE 0).Restores booted.memory :=
  interrupts_enabled_iff (fun _ _ => 0) (.ps2SendSubCommand SCAN_CODE 0) 0 booted _ rfl rfl

-- Sleeping for no time at all.
theorem sleep_disables :
    ¬∀ (behind : List UInt8 → Nat → UInt8) (helper : Helper) (fuel : Nat) (t next : Code),
      t.interrupts = true → helper.run behind fuel t = some next → next.interrupts = true := by
  intro h
  have hreturn : (Helper.pitSleep 0).run (fun _ _ => 0) 1 booted = some (load
      (fun kernel => kernel.pit.sleep_counter) (cli (storePit (fun pit =>
        { pit with sleep_counter := (0 : UInt32).toInt32 }) booted))).2 := rfl
  exact absurd (h _ _ 1 booted _ rfl hreturn) Bool.false_ne_true

end Helpers

end PalleyOS
