import PalleyOS.Machine.I386
import Mathlib.Algebra.Group.Nat.Defs

namespace Machine

-- Hand-written i386 functions: blocks of instructions with a jump at the end of each.
namespace Assembly

inductive Reg where
  | eax | ecx | edx | ebx | esp | ebp | esi | edi
  deriving DecidableEq, Repr

-- `popfl` changes the flags of `writable` only. `cpuid` answers by the number in eax,
-- with eax, ebx, ecx and edx.
structure Implementation where
  writable : BitVec 32
  cpuid : UInt32 → UInt32 × UInt32 × UInt32 × UInt32

-- Of the arithmetic flags the programs here read, only carry and zero are kept up.
structure State extends Registers where
  eflags : BitVec 32
  memory : Memory
  outs : List (UInt16 × UInt8)

inductive Instruction where
  | push (r : Reg)
  | pop (r : Reg)
  | movImm (value : UInt32) (dst : Reg)
  | mov (src dst : Reg)
  | load (offset : UInt32) (base dst : Reg)
  | store (src : Reg) (offset : UInt32) (base : Reg)
  | loadAx (address : UInt32)
  | storeAx (address : UInt32)
  | storeAt (src : Reg) (address : UInt32)
  | movAl (value : UInt8)
  | movAhAl
  | outAl (port : UInt16)
  | cmp (value : UInt32) (r : Reg)
  | inc (r : Reg)
  | div (r : Reg)
  | mul (r : Reg)
  | shrd (count : Nat) (src dst : Reg)
  | shr (count : Nat) (r : Reg)
  | and (value : UInt32) (r : Reg)
  | xorTop (value : UInt32)
  | xorFromTop (r : Reg)
  | pushfl
  | popfl
  | cli
  | sti
  | cpuid
  deriving DecidableEq, Repr

inductive Cond where
  | below | belowEqual | aboveEqual
  deriving DecidableEq, Repr

-- A branch goes on behind itself when it is not taken.
inductive Jump (ι : Type) where
  | next (label : ι)
  | branch (cond : Cond) (taken next : ι)
  | ret
  deriving DecidableEq, Repr

structure Block (ι : Type) where
  code : List Instruction
  jump : Jump ι

namespace State

def get (s : State) : Reg → UInt32
  | .eax => s.eax
  | .ecx => s.ecx
  | .edx => s.edx
  | .ebx => s.ebx
  | .esp => s.esp
  | .ebp => s.ebp
  | .esi => s.esi
  | .edi => s.edi

def set (s : State) (value : UInt32) : Reg → State
  | .eax => { s with eax := value }
  | .ecx => { s with ecx := value }
  | .edx => { s with edx := value }
  | .ebx => { s with ebx := value }
  | .esp => { s with esp := value }
  | .ebp => { s with ebp := value }
  | .esi => { s with esi := value }
  | .edi => { s with edi := value }

def word (s : State) (a : UInt32) : UInt32 := UInt32.ofNat (load32 s.memory a.toNat)

def setWord (s : State) (a value : UInt32) : State :=
  { s with memory := store32 s.memory a.toNat value.toNat }

def push (s : State) (value : UInt32) : State :=
  { s.setWord (s.esp - 4) value with esp := s.esp - 4 }

def carry (s : State) : Bool := s.eflags.getLsbD 0

def zero (s : State) : Bool := s.eflags.getLsbD 6

def flag (i : Nat) (value : Bool) (eflags : BitVec 32) : BitVec 32 :=
  if value then eflags ||| BitVec.twoPow 32 i else eflags &&& ~~~(BitVec.twoPow 32 i)

def compare (s : State) (a b : UInt32) : State :=
  { s with eflags := flag 6 (a == b) (flag 0 (decide (a < b)) s.eflags) }

-- The flags of a bitwise operation.
def tested (s : State) (result : UInt32) : State :=
  { s with eflags := flag 6 (result == 0) (flag 0 false s.eflags) }

def holds (s : State) : Cond → Bool
  | .below => s.carry
  | .belowEqual => s.carry || s.zero
  | .aboveEqual => !s.carry

-- The result is `none` for a division error.
def step (processor : Implementation) (s : State) : Instruction → Option State
  | .push r => some (s.push (s.get r))
  | .pop r => some (set { s with esp := s.esp + 4 } (s.word s.esp) r)
  | .movImm value dst => some (s.set value dst)
  | .mov src dst => some (s.set (s.get src) dst)
  | .load offset base dst => some (s.set (s.word (s.get base + offset)) dst)
  | .store src offset base => some (s.setWord (s.get base + offset) (s.get src))
  | .loadAx address =>
      some { s with
        eax := UInt32.ofNat (s.eax.toNat / 65536 * 65536 + load16 s.memory address.toNat) }
  | .storeAx address =>
      some { s with memory := store16 s.memory address.toNat (s.eax.toNat % 65536) }
  | .storeAt src address => some (s.setWord address (s.get src))
  | .movAl value => some { s with eax := withAl s.eax value }
  | .movAhAl => some { s with eax := withAl s.eax (UInt8.ofNat (s.eax.toNat / 256)) }
  | .outAl port => some { s with outs := s.outs ++ [(port, al s.eax)] }
  | .cmp value r => some (s.compare (s.get r) value)
  | .inc r =>
      some { s.set (s.get r + 1) r with eflags := flag 6 (s.get r + 1 == 0) s.eflags }
  | .div r =>
      let dividend := s.edx.toNat * 4294967296 + s.eax.toNat
      let divisor := (s.get r).toNat
      if divisor = 0 ∨ 4294967296 ≤ dividend / divisor then none
      else
        some { s with
          eax := UInt32.ofNat (dividend / divisor), edx := UInt32.ofNat (dividend % divisor) }
  | .mul r =>
      let product := s.eax.toNat * (s.get r).toNat
      some { s with
        eax := UInt32.ofNat product, edx := UInt32.ofNat (product / 4294967296) }
  | .shrd count src dst =>
      some (s.set (UInt32.ofNat
        (((s.get src).toNat * 4294967296 + (s.get dst).toNat) / 2 ^ count)) dst)
  | .shr count r => some (s.set (UInt32.ofNat ((s.get r).toNat / 2 ^ count)) r)
  | .and value r => some ((s.tested (s.get r &&& value)).set (s.get r &&& value) r)
  | .xorTop value =>
      some ((s.tested (s.word s.esp ^^^ value)).setWord s.esp (s.word s.esp ^^^ value))
  | .xorFromTop r =>
      some ((s.tested (s.get r ^^^ s.word s.esp)).set (s.get r ^^^ s.word s.esp) r)
  | .pushfl => some (s.push ⟨s.eflags⟩)
  | .popfl =>
      some { s with
        esp := s.esp + 4
        eflags := s.eflags &&& ~~~processor.writable |||
          (s.word s.esp).toBitVec &&& processor.writable }
  | .cli => some { s with eflags := flag 9 false s.eflags }
  | .sti => some { s with eflags := flag 9 true s.eflags }
  | .cpuid =>
      let (eax, ebx, ecx, edx) := processor.cpuid s.eax
      some { s with eax := eax, ebx := ebx, ecx := ecx, edx := edx }

def steps (processor : Implementation) : List Instruction → State → Option State
  | [], s => some s
  | instr :: rest, s => (s.step processor instr).bind (steps processor rest)

end State

-- The run from a block until the return, `none` when it takes more than `fuel` blocks
-- or divides in error. The return address is not popped yet.
def run {ι : Type} (processor : Implementation) (program : ι → Block ι) : Nat → ι → State → Option State
  | 0, _, _ => none
  | fuel + 1, label, s =>
      (State.steps processor (program label).code s).bind fun s =>
        match (program label).jump with
        | .next label => run processor program fuel label s
        | .branch cond taken next =>
            run processor program fuel (if s.holds cond then taken else next) s
        | .ret => some s

section Flags

theorem flag_getLsbD (i j : Nat) (value : Bool) (eflags : BitVec 32) (hi : i < 32) :
    (State.flag i value eflags).getLsbD j = if j = i then value else eflags.getLsbD j := by
  unfold State.flag
  by_cases h : j = i
  · subst j
    cases value <;> simp [hi]
  · have h' : i ≠ j := Ne.symm h
    by_cases hj : j < 32
    · cases value with
      | false => simp [h, hj]
      | true => simp [h, h']
    · cases value <;> simp [h, BitVec.getLsbD_of_ge _ _ (Nat.le_of_not_lt hj)]

theorem compare_carry (s : State) (a b : UInt32) : (s.compare a b).carry = decide (a < b) := by
  unfold State.carry State.compare
  rw [flag_getLsbD 6 0 _ _ (by decide), if_neg (by decide), flag_getLsbD 0 0 _ _ (by decide),
    if_pos rfl]

theorem compare_zero (s : State) (a b : UInt32) : (s.compare a b).zero = (a == b) := by
  unfold State.zero State.compare
  rw [flag_getLsbD 6 6 _ _ (by decide), if_pos rfl]

theorem compare_belowEqual (s : State) (a b : UInt32) :
    (s.compare a b).holds .belowEqual = decide (a.toNat ≤ b.toNat) := by
  rw [State.holds, compare_carry, compare_zero]
  have hlt : a < b ↔ a.toNat < b.toNat := UInt32.lt_iff_toNat_lt
  have heq : a = b ↔ a.toNat = b.toNat := UInt32.toNat_inj.symm
  rw [Bool.eq_iff_iff]
  simp only [Bool.or_eq_true, decide_eq_true_eq, beq_iff_eq, hlt, heq]
  omega

theorem compare_aboveEqual (s : State) (a b : UInt32) :
    (s.compare a b).holds .aboveEqual = decide (b.toNat ≤ a.toNat) := by
  rw [State.holds, compare_carry]
  have hlt : a < b ↔ a.toNat < b.toNat := UInt32.lt_iff_toNat_lt
  rw [Bool.eq_iff_iff]
  simp only [Bool.not_eq_true', decide_eq_false_iff_not, decide_eq_true_eq, hlt]
  omega

end Flags

-- What the arithmetic of a function may change: three registers and the flags of its
-- results.
section Arithmetic

structure Arithmetic (s t : State) : Prop where
  ecx : t.ecx = s.ecx
  esp : t.esp = s.esp
  ebp : t.ebp = s.ebp
  esi : t.esi = s.esi
  edi : t.edi = s.edi
  memory : t.memory = s.memory
  outs : t.outs = s.outs
  eflags : ∀ i, i ≠ 0 → i ≠ 6 → t.eflags.getLsbD i = s.eflags.getLsbD i

theorem Arithmetic.refl (s : State) : Arithmetic s s :=
  ⟨rfl, rfl, rfl, rfl, rfl, rfl, rfl, fun _ _ _ => rfl⟩

theorem Arithmetic.trans {s t u : State} (h : Arithmetic s t) (h' : Arithmetic t u) :
    Arithmetic s u :=
  ⟨h'.ecx.trans h.ecx, h'.esp.trans h.esp, h'.ebp.trans h.ebp, h'.esi.trans h.esi,
    h'.edi.trans h.edi, h'.memory.trans h.memory, h'.outs.trans h.outs,
    fun i hc hz => (h'.eflags i hc hz).trans (h.eflags i hc hz)⟩

theorem Arithmetic.compare (s : State) (a b : UInt32) : Arithmetic s (s.compare a b) := by
  refine ⟨rfl, rfl, rfl, rfl, rfl, rfl, rfl, fun i hc hz => ?_⟩
  unfold State.compare
  rw [flag_getLsbD 6 i _ _ (by decide), if_neg hz, flag_getLsbD 0 i _ _ (by decide), if_neg hc]

theorem Arithmetic.inc (s : State) (processor : Implementation) :
    ∃ t, s.step processor (.inc .eax) = some t ∧ Arithmetic s t ∧ t.eax = s.eax + 1 := by
  refine ⟨_, rfl, ⟨rfl, rfl, rfl, rfl, rfl, rfl, rfl, fun i hc hz => ?_⟩, rfl⟩
  rw [flag_getLsbD 6 i _ _ (by decide), if_neg hz]

theorem step_div (processor : Implementation) (s : State) (hedx : s.edx = 0) (hebx : s.ebx ≠ 0) :
    s.step processor (.div .ebx) =
      some { s with eax := s.eax / s.ebx, edx := s.eax % s.ebx } := by
  have hzero : s.ebx.toNat ≠ 0 := fun h => hebx (UInt32.toNat_inj.mp h)
  have hsmall : s.eax.toNat / s.ebx.toNat < 4294967296 :=
    Nat.lt_of_le_of_lt (Nat.div_le_self _ _) s.eax.toNat_lt
  have hdividend : (0 : UInt32).toNat * 4294967296 + s.eax.toNat = s.eax.toNat := by simp
  have hq : UInt32.ofNat (s.eax.toNat / s.ebx.toNat) = s.eax / s.ebx := by
    rw [← UInt32.toNat_div, UInt32.ofNat_toNat]
  have hr : UInt32.ofNat (s.eax.toNat % s.ebx.toNat) = s.eax % s.ebx := by
    rw [← UInt32.toNat_mod, UInt32.ofNat_toNat]
  simp only [State.step, State.get, hedx, hdividend, hq, hr]
  rw [if_neg (by omega)]

-- A quotient without its remainder, which is compared.
theorem steps_quotient (processor : Implementation) (s : State) (divisor bound : UInt32)
    (hebx : s.ebx = divisor) (hdivisor : divisor ≠ 0) :
    ∃ t, State.steps processor [.movImm 0 .edx, .div .ebx, .cmp bound .edx] s = some t ∧
      Arithmetic s t ∧ t.eax = s.eax / divisor ∧ t.ebx = divisor ∧
      t.carry = decide (s.eax % divisor < bound) := by
  subst hebx
  have hdiv := step_div processor { s with edx := 0 } rfl hdivisor
  have hquotient : Arithmetic s { s with eax := s.eax / s.ebx, edx := s.eax % s.ebx } :=
    ⟨rfl, rfl, rfl, rfl, rfl, rfl, rfl, fun _ _ _ => rfl⟩
  refine ⟨_, ?_, hquotient.trans (.compare _ (s.eax % s.ebx) bound), rfl, rfl,
    compare_carry _ _ _⟩
  change (State.step processor { s with edx := 0 } (.div .ebx)).bind _ = _
  rw [hdiv]
  rfl

end Arithmetic

-- Variables and the stack, each where the others are not.
section Apart

-- The `n` bytes from `a` on and the `k` bytes from `b` on have none in common.
def Apart (a n b k : Nat) : Prop := ∀ i < n, Misses b k (a + i)

theorem Apart.symm {a n b k : Nat} (h : Apart a n b k) : Apart b k a n :=
  fun i hi j hj hsame => h j hj i hi hsame.symm

theorem Apart.mono {a n b k start : Nat} (h : Apart a n b k) (m : Nat) (hm : start + m ≤ n) :
    Apart (a + start) m b k := by
  intro i hi
  rw [Nat.add_assoc]
  exact h (start + i) (by omega)

theorem Apart.first {a n b k : Nat} (h : Apart a n b k) (m : Nat) (hm : m ≤ n) : Apart a m b k :=
  fun i hi => h i (by omega)

theorem Apart.mod {a a' n b k : Nat} (h : Apart a n b k) (ha : a % 4294967296 = a' % 4294967296) :
    Apart a' n b k := by
  intro i hi j hj
  have hne := h i hi j hj
  omega

theorem load32_store32_of_apart (m : Memory) {a b : Nat} (value : Nat) (h : Apart a 4 b 4) :
    load32 (store32 m b value) a = load32 m a :=
  load32_congr _ _ _ fun i hi => load8_store32_of_misses _ _ _ _ (h i hi)

-- What a store leaves of two memories differs where they did.
theorem load8_store8_congr (m m' : Memory) (a value x : Nat) (h : load8 m' x = load8 m x) :
    load8 (store8 m' a value) x = load8 (store8 m a value) x := by
  by_cases hx : x % 4294967296 = a % 4294967296
  · rw [load8_mod _ x a hx, load8_mod _ x a hx, load8_store8_self, load8_store8_self]
  · rw [load8_store8_of_ne _ _ _ _ hx, load8_store8_of_ne _ _ _ _ hx, h]

theorem load8_store32_congr (m m' : Memory) (a value x : Nat) (h : load8 m' x = load8 m x) :
    load8 (store32 m' a value) x = load8 (store32 m a value) x := by
  unfold store32 store16
  exact load8_store8_congr _ _ _ _ _ (load8_store8_congr _ _ _ _ _
    (load8_store8_congr _ _ _ _ _ (load8_store8_congr _ _ _ _ _ h)))

theorem load16_store32_of_apart (m : Memory) {a b : Nat} (value : Nat) (h : Apart a 2 b 4) :
    load16 (store32 m b value) a = load16 m a :=
  load16_congr _ _ _ fun i hi => load8_store32_of_misses _ _ _ _ (h i hi)

theorem holds_store32 {m : Memory} {sp a : Nat} {ws : List UInt32} (h : Holds m sp ws)
    (value : Nat) (hap : Apart sp (4 * ws.length) a 4) : Holds (store32 m a value) sp ws :=
  h.congr _ _ _ _ fun i hi => load8_store32_of_misses _ _ _ _ (hap i hi)

theorem holds_store16 {m : Memory} {sp a : Nat} {ws : List UInt32} (h : Holds m sp ws)
    (value : Nat) (hap : Apart sp (4 * ws.length) a 2) : Holds (store16 m a value) sp ws :=
  h.congr _ _ _ _ fun i hi => load8_store16_of_misses _ _ _ _ (hap i hi)

end Apart

section Stack

-- The words of `ws` are on the stack.
def State.Stacked (s : State) (ws : List UInt32) : Prop := Holds s.memory s.esp.toNat ws

theorem State.Stacked.push {s : State} {ws : List UInt32} (h : s.Stacked ws) (value : UInt32)
    (hlen : ws.length < 1000) : (s.push value).Stacked (value :: ws) :=
  Cpu.push_holds ⟨s.toRegisters, false, s.memory, []⟩ value ws hlen h

theorem esp_pop (esp : UInt32) : (esp + 4).toNat % 4294967296 = (esp.toNat + 4) % 4294967296 := by
  rw [UInt32.toNat_add]
  exact Nat.mod_mod _ _

theorem State.Stacked.pop {s : State} {w : UInt32} {ws : List UInt32} (h : s.Stacked (w :: ws)) :
    s.word s.esp = w ∧ State.Stacked { s with esp := s.esp + 4 } ws :=
  ⟨by rw [State.word, h.1, UInt32.ofNat_toNat], h.2.mod _ _ _ _ (esp_pop s.esp).symm⟩

theorem State.Stacked.setTop {s : State} {w : UInt32} {ws : List UInt32} (h : s.Stacked (w :: ws))
    (value : UInt32) (hlen : ws.length < 1000) :
    (s.setWord s.esp value).Stacked (value :: ws) := by
  have hpush := h.pop.2.push value hlen
  have hesp : s.esp + 4 - 4 = s.esp := UInt32.add_sub_cancel _ _
  simp only [State.Stacked, State.push, State.setWord, hesp] at hpush ⊢
  exact hpush

end Stack

theorem State.steps_cons {processor : Implementation} {instr : Instruction} {s t : State}
    (h : s.step processor instr = some t) (rest : List Instruction) :
    steps processor (instr :: rest) s = steps processor rest t := by
  rw [steps, h, Option.bind_some]

section Runs

variable {ι : Type} {processor : Implementation} {program : ι → Block ι}

-- From block `label` in state `s` the run comes to block `label'` in state `s'`.
def Reaches (processor : Implementation) (program : ι → Block ι) (label : ι) (s : State) (label' : ι)
    (s' : State) : Prop :=
  ∃ n, ∀ fuel, run processor program (n + fuel) label s = run processor program fuel label' s'

theorem Reaches.refl (label : ι) (s : State) : Reaches processor program label s label s :=
  ⟨0, fun fuel => by rw [Nat.zero_add]⟩

theorem Reaches.trans {l₁ l₂ l₃ : ι} {s₁ s₂ s₃ : State}
    (h₁ : Reaches processor program l₁ s₁ l₂ s₂) (h₂ : Reaches processor program l₂ s₂ l₃ s₃) :
    Reaches processor program l₁ s₁ l₃ s₃ := by
  obtain ⟨m, hm⟩ := h₁
  obtain ⟨n, hn⟩ := h₂
  exact ⟨m + n, fun fuel => by rw [Nat.add_assoc, hm, hn]⟩

theorem Reaches.next {label label' : ι} {s s' : State}
    (hsteps : State.steps processor (program label).code s = some s')
    (hjump : (program label).jump = .next label') : Reaches processor program label s label' s' := by
  refine ⟨1, fun fuel => ?_⟩
  rw [Nat.add_comm, run, hsteps, Option.bind_some, hjump]

theorem Reaches.branch {label taken next : ι} {cond : Cond} {s s' : State}
    (hsteps : State.steps processor (program label).code s = some s')
    (hjump : (program label).jump = .branch cond taken next) :
    Reaches processor program label s (if s'.holds cond then taken else next) s' := by
  refine ⟨1, fun fuel => ?_⟩
  rw [Nat.add_comm, run, hsteps, Option.bind_some, hjump]

theorem Reaches.returns {label last : ι} {s s' t : State}
    (h : Reaches processor program label s last s')
    (hsteps : State.steps processor (program last).code s' = some t)
    (hjump : (program last).jump = .ret) :
    ∃ bound, ∀ fuel ≥ bound, run processor program fuel label s = some t := by
  obtain ⟨n, hn⟩ := h
  refine ⟨n + 1, fun fuel hfuel => ?_⟩
  obtain ⟨extra, rfl⟩ := Nat.exists_eq_add_of_le hfuel
  rw [Nat.add_assoc, hn, Nat.add_comm, run, hsteps, Option.bind_some, hjump]

end Runs

end Assembly

end Machine
