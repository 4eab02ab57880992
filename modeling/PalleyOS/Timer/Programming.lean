import PalleyOS.Machine.Assembly

namespace PalleyOS.Timer

open Machine Assembly

-- The function of PIT.s that programs the timer for a requested frequency.
section Source

-- The addresses that the linker gives the variables.
structure Symbols where
  PIT_reload_value : UInt32
  IRQ0_frequency : UInt32
  IRQ0_ms : UInt32
  IRQ0_fraction_ms : UInt32

-- Every label of the function, and a name for what follows a branch that is not taken.
inductive Label where
  | init_PIT | notTooSlow | calculate | roundUp | l1 | roundUp'
  | gotReloadValue | roundUpFrequency | l3 | roundUpFrequency' | l4
  deriving DecidableEq

def init_PIT (symbols : Symbols) : Label → Block Label
  | .init_PIT =>
      { code :=
          [.push .ebp, .mov .esp .ebp, .push .ebx, .push .edx, .load 8 .ebp .ebx,
            .movImm 0x10000 .eax, .cmp 18 .ebx]
        jump := .branch .belowEqual .gotReloadValue .notTooSlow }
  | .notTooSlow =>
      { code := [.movImm 0x1 .eax, .cmp 1193181 .ebx]
        jump := .branch .aboveEqual .gotReloadValue .calculate }
  | .calculate =>
      { code := [.movImm 3579545 .eax, .movImm 0 .edx, .div .ebx, .cmp 1789772 .edx]
        jump := .branch .below .l1 .roundUp }
  | .roundUp => { code := [.inc .eax], jump := .next .l1 }
  | .l1 =>
      { code := [.movImm 3 .ebx, .movImm 0 .edx, .div .ebx, .cmp 1 .edx]
        jump := .branch .below .gotReloadValue .roundUp' }
  | .roundUp' => { code := [.inc .eax], jump := .next .gotReloadValue }
  | .gotReloadValue =>
      { code :=
          [.push .eax, .storeAx symbols.PIT_reload_value, .mov .eax .ebx,
            .movImm 3579545 .eax, .movImm 0 .edx, .div .ebx, .cmp 1789772 .edx]
        jump := .branch .below .l3 .roundUpFrequency }
  | .roundUpFrequency => { code := [.inc .eax], jump := .next .l3 }
  | .l3 =>
      { code := [.movImm 3 .ebx, .movImm 0 .edx, .div .ebx, .cmp 1 .edx]
        jump := .branch .below .l4 .roundUpFrequency' }
  | .roundUpFrequency' => { code := [.inc .eax], jump := .next .l4 }
  | .l4 =>
      { code :=
          [.storeAt .eax symbols.IRQ0_frequency, .pop .ebx, .movImm 0xDBB3A062 .eax, .mul .ebx,
            .shrd 10 .edx .eax, .shr 10 .edx, .storeAt .edx symbols.IRQ0_ms,
            .storeAt .eax symbols.IRQ0_fraction_ms, .pushfl, .cli, .movAl 0b00110100, .outAl 0x43,
            .loadAx symbols.PIT_reload_value, .outAl 0x40, .movAhAl, .outAl 0x40, .sti, .popfl,
            .pop .edx, .pop .ebx, .mov .ebp .esp, .pop .ebp]
        jump := .ret }

end Source

-- The two roundings of the function. The first one is made by a remainder that it
-- never has, the second one goes up for every remainder.
section Rounding

def third (n : Nat) : Nat := (n + 2) / 3

-- The count the timer is programmed with for a frequency.
def reloadFor (frequency : Nat) : Nat :=
  if frequency ≤ 18 then 65536
  else if 1193181 ≤ frequency then 1
  else third (3579545 / frequency)

def frequencyOf (reload : Nat) : Nat := third (3579545 / reload)

theorem third_toNat (n : UInt32) :
    third n.toNat = (n / 3).toNat + if n % 3 < 1 then 0 else 1 := by
  have hiff : n % 3 < 1 ↔ n.toNat % 3 < 1 := by rw [UInt32.lt_iff_toNat_lt, UInt32.toNat_mod]; rfl
  rw [UInt32.toNat_div]
  simp only [hiff]
  change (n.toNat + 2) / 3 = n.toNat / 3 + _
  split <;> omega

variable (processor : Implementation) (symbols : Symbols)

-- From a quotient to its third, through the block of `start` and perhaps that of `up`.
theorem third_reached (start up done : Label) (s : State)
    (hstart : init_PIT symbols start =
      { code := [.movImm 3 .ebx, .movImm 0 .edx, .div .ebx, .cmp 1 .edx]
        jump := .branch .below done up })
    (hup : init_PIT symbols up = { code := [.inc .eax], jump := .next done }) :
    ∃ t, Reaches processor (init_PIT symbols) start s done t ∧ Arithmetic s t ∧
      t.eax.toNat = third s.eax.toNat := by
  obtain ⟨u, hsteps, hsame, heax, -, hcarry⟩ :=
    steps_quotient processor { s with ebx := 3 } 3 1 rfl (by decide)
  have hthree : Arithmetic s { s with ebx := 3 } :=
    ⟨rfl, rfl, rfl, rfl, rfl, rfl, rfl, fun _ _ _ => rfl⟩
  have hfirst : Arithmetic s u := hthree.trans hsame
  have hmov : s.step processor (.movImm 3 .ebx) = some { s with ebx := 3 } := rfl
  have hcode : State.steps processor (init_PIT symbols start).code s = some u := by
    rw [hstart, State.steps_cons hmov, hsteps]
  have hbranch : (init_PIT symbols start).jump = .branch .below done up := by rw [hstart]
  have hreaches := Reaches.branch hcode hbranch
  dsimp only at heax hcarry
  rw [third_toNat]
  by_cases hrem : s.eax % 3 < 1
  · rw [if_pos (by rw [State.holds, hcarry]; exact decide_eq_true hrem)] at hreaches
    refine ⟨u, hreaches, hfirst, ?_⟩
    rw [if_pos hrem, heax, Nat.add_zero]
  · rw [if_neg (by rw [State.holds, hcarry]; simpa using hrem)] at hreaches
    obtain ⟨t, hinc, hlast, heax'⟩ := Arithmetic.inc u processor
    have hcode' : State.steps processor (init_PIT symbols up).code u = some t := by
      rw [hup, State.steps_cons hinc, State.steps]
    have hnext := Reaches.next hcode' (by rw [hup])
    refine ⟨t, hreaches.trans hnext, hfirst.trans hlast, ?_⟩
    have hlt := s.eax.toNat_lt
    have hthree : (3 : UInt32).toNat = 3 := rfl
    have hone : (1 : UInt32).toNat = 1 := rfl
    rw [if_neg hrem, heax', heax, UInt32.toNat_add, UInt32.toNat_div, hthree, hone]
    omega

theorem steps_clock_quotient (s : State) (hebx : s.ebx ≠ 0) (hsmall : s.ebx.toNat ≤ 1789772) :
    ∃ u, State.steps processor
        [.movImm 3579545 .eax, .movImm 0 .edx, .div .ebx, .cmp 1789772 .edx] s = some u ∧
      Arithmetic s u ∧ u.eax.toNat = 3579545 / s.ebx.toNat ∧ u.carry = true := by
  obtain ⟨u, hsteps, hsame, heax, -, hcarry⟩ :=
    steps_quotient processor { s with eax := 3579545 } s.ebx 1789772 rfl hebx
  have hdividend : Arithmetic s { s with eax := 3579545 } :=
    ⟨rfl, rfl, rfl, rfl, rfl, rfl, rfl, fun _ _ _ => rfl⟩
  have hmov : s.step processor (.movImm 3579545 .eax) = some { s with eax := 3579545 } := rfl
  have hclock : (3579545 : UInt32).toNat = 3579545 := rfl
  have hbound : (1789772 : UInt32).toNat = 1789772 := rfl
  have hpos : 0 < s.ebx.toNat := Nat.pos_of_ne_zero fun h => hebx (UInt32.toNat_inj.mp h)
  refine ⟨u, (State.steps_cons hmov _).trans hsteps, hdividend.trans hsame, ?_, ?_⟩
  · rw [heax, UInt32.toNat_div, hclock]
  · rw [hcarry, decide_eq_true_eq, UInt32.lt_iff_toNat_lt, UInt32.toNat_mod, hclock, hbound]
    exact Nat.lt_of_lt_of_le (Nat.mod_lt _ hpos) hsmall

-- The state behind the first instructions: three registers are saved and ebx is the
-- argument.
def entered (s : State) : State :=
  let s := s.push s.ebp
  let s := { s with ebp := s.esp }
  let s := s.push s.ebx
  let s := s.push s.edx
  { s with ebx := s.word (s.ebp + 8) }

theorem steps_entered (s : State) (rest : List Instruction) :
    State.steps processor
      (.push .ebp :: .mov .esp .ebp :: .push .ebx :: .push .edx :: .load 8 .ebp .ebx :: rest) s =
      State.steps processor rest (entered s) := by
  rw [State.steps_cons rfl, State.steps_cons rfl, State.steps_cons rfl, State.steps_cons rfl,
    State.steps_cons rfl]
  rfl

theorem reload_reached (s : State) :
    ∃ u, Reaches processor (init_PIT symbols) .init_PIT s .gotReloadValue u ∧
      Arithmetic (entered s) u ∧ u.eax.toNat = reloadFor (entered s).ebx.toNat := by
  generalize hv : entered s = v
  have hslow : Arithmetic v { v with eax := 0x10000 } :=
    ⟨rfl, rfl, rfl, rfl, rfl, rfl, rfl, fun _ _ _ => rfl⟩
  generalize hu₁ : State.compare { v with eax := 0x10000 } v.ebx 18 = u₁
  have hsame₁ : Arithmetic v u₁ := hu₁ ▸ hslow.trans (.compare _ _ _)
  have hebx₁ : u₁.ebx = v.ebx := hu₁ ▸ rfl
  have hcode₁ : State.steps processor (init_PIT symbols .init_PIT).code s = some u₁ := by
    rw [init_PIT, steps_entered, hv, State.steps_cons rfl, State.steps_cons rfl, ← hu₁]
    rfl
  have hreach₁ := Reaches.branch hcode₁ rfl
  rw [← hu₁, compare_belowEqual, hu₁] at hreach₁
  have heighteen : (18 : UInt32).toNat = 18 := rfl
  rw [heighteen] at hreach₁
  by_cases hlow : v.ebx.toNat ≤ 18
  · rw [if_pos (decide_eq_true hlow)] at hreach₁
    refine ⟨u₁, hreach₁, hsame₁, ?_⟩
    rw [reloadFor, if_pos hlow, ← hu₁]
    rfl
  rw [if_neg (by simpa using hlow)] at hreach₁
  have hfast : Arithmetic u₁ { u₁ with eax := 1 } :=
    ⟨rfl, rfl, rfl, rfl, rfl, rfl, rfl, fun _ _ _ => rfl⟩
  generalize hu₂ : State.compare { u₁ with eax := 1 } u₁.ebx 1193181 = u₂
  have hsame₂ : Arithmetic u₁ u₂ := hu₂ ▸ hfast.trans (.compare _ _ _)
  have hebx₂ : u₂.ebx = v.ebx := hu₂ ▸ hebx₁
  have hcode₂ : State.steps processor (init_PIT symbols .notTooSlow).code u₁ = some u₂ := by
    rw [init_PIT, State.steps_cons rfl, State.steps_cons rfl, ← hu₂]
    rfl
  have hreach₂ := Reaches.branch hcode₂ rfl
  rw [← hu₂, compare_aboveEqual, hu₂, hebx₁] at hreach₂
  have hlimit : (1193181 : UInt32).toNat = 1193181 := rfl
  rw [hlimit] at hreach₂
  by_cases hhigh : 1193181 ≤ v.ebx.toNat
  · rw [if_pos (decide_eq_true hhigh)] at hreach₂
    refine ⟨u₂, hreach₁.trans hreach₂, hsame₁.trans hsame₂, ?_⟩
    rw [reloadFor, if_neg hlow, if_pos hhigh, ← hu₂]
    rfl
  rw [if_neg (by simpa using hhigh)] at hreach₂
  have hnonzero : u₂.ebx ≠ 0 := by
    intro hzero
    rw [← hebx₂, hzero] at hlow
    exact hlow (by decide)
  obtain ⟨u₃, hcode₃, hsame₃, heax₃, hcarry⟩ :=
    steps_clock_quotient processor u₂ hnonzero (by rw [hebx₂]; omega)
  have hblock : State.steps processor (init_PIT symbols .calculate).code u₂ = some u₃ := hcode₃
  have hreach₃ := Reaches.branch hblock rfl
  rw [State.holds, if_pos hcarry] at hreach₃
  obtain ⟨t, hreach₄, hsame₄, heax₄⟩ :=
    third_reached processor symbols .l1 .roundUp' .gotReloadValue u₃
      rfl rfl
  refine ⟨t, ((hreach₁.trans hreach₂).trans hreach₃).trans hreach₄,
    ((hsame₁.trans hsame₂).trans hsame₃).trans hsame₄, ?_⟩
  rw [reloadFor, if_neg hlow, if_neg hhigh, heax₄, heax₃, hebx₂]

end Rounding

-- The second half of the function: the variables, the chip and the way back.
section Results

variable (processor : Implementation) (symbols : Symbols)

-- The time between two interrupts, in units of 2^-42 ms.
def product (reload : Nat) : Nat := 0xDBB3A062 * reload

theorem product_halves (reload : UInt32) :
    (UInt32.ofNat (product reload.toNat / 4294967296)).toNat * 4294967296 +
      (UInt32.ofNat (product reload.toNat)).toNat = product reload.toNat := by
  have hlt := reload.toNat_lt
  rw [UInt32.toNat_ofNat', UInt32.toNat_ofNat']
  unfold product
  omega

def measured (symbols : Symbols) (reload : UInt32) (s : State) : State :=
  { s with
    eax := UInt32.ofNat (product reload.toNat / 2 ^ 10)
    edx := UInt32.ofNat (product reload.toNat / 4294967296 / 2 ^ 10)
    ebx := reload
    esp := s.esp + 4
    memory :=
      store32 (store32 (store32 s.memory symbols.IRQ0_frequency.toNat s.eax.toNat)
        symbols.IRQ0_ms.toNat (UInt32.ofNat (product reload.toNat / 4294967296 / 2 ^ 10)).toNat)
        symbols.IRQ0_fraction_ms.toNat (UInt32.ofNat (product reload.toNat / 2 ^ 10)).toNat }

theorem steps_measured (s : State) (reload : UInt32) (ws : List UInt32)
    (h : s.Stacked (reload :: ws)) (hap : Apart s.esp.toNat 4 symbols.IRQ0_frequency.toNat 4)
    (rest : List Instruction) :
    State.steps processor
      (.storeAt .eax symbols.IRQ0_frequency :: .pop .ebx :: .movImm 0xDBB3A062 .eax :: .mul .ebx ::
        .shrd 10 .edx .eax :: .shr 10 .edx :: .storeAt .edx symbols.IRQ0_ms ::
        .storeAt .eax symbols.IRQ0_fraction_ms :: rest) s =
      State.steps processor rest (measured symbols reload s) := by
  have hword : (s.setWord symbols.IRQ0_frequency s.eax).word s.esp = reload := by
    have hload := load32_store32_of_apart s.memory s.eax.toNat hap
    rw [State.word, State.setWord, hload, h.1, UInt32.ofNat_toNat]
  have hpop : (s.setWord symbols.IRQ0_frequency s.eax).step processor (.pop .ebx) =
      some { s.setWord symbols.IRQ0_frequency s.eax with esp := s.esp + 4, ebx := reload } := by
    rw [← hword]
    rfl
  have hfactor : (0xDBB3A062 : UInt32).toNat = 0xDBB3A062 := rfl
  have hhalves := product_halves reload
  have hhigh : (UInt32.ofNat (product reload.toNat / 4294967296)).toNat =
      product reload.toNat / 4294967296 := by
    have hlt := reload.toNat_lt
    rw [UInt32.toNat_ofNat']
    unfold product
    omega
  rw [State.steps_cons rfl]
  simp only [State.get]
  rw [State.steps_cons hpop, State.steps_cons rfl, State.steps_cons rfl, State.steps_cons rfl,
    State.steps_cons rfl, State.steps_cons rfl, State.steps_cons rfl]
  simp only [State.get, State.set, State.setWord, hfactor]
  rw [show 0xDBB3A062 * reload.toNat = product reload.toNat from rfl, hhalves, hhigh]
  rfl

-- The bytes that set the rate: the control word, then the count.
def countBytes (reload : Nat) : List (UInt16 × UInt8) :=
  [(0x43, 0x34), (0x40, UInt8.ofNat reload), (0x40, UInt8.ofNat (reload / 256))]

theorem al_ofNat (high count : Nat) :
    al (UInt32.ofNat (high * 65536 + count)) = UInt8.ofNat count ∧
    UInt8.ofNat ((UInt32.ofNat (high * 65536 + count)).toNat / 256) = UInt8.ofNat (count / 256) := by
  unfold al
  rw [← UInt8.toNat_inj, ← UInt8.toNat_inj]
  simp only [UInt8.toNat_ofNat', UInt32.toNat_ofNat']
  omega

theorem steps_ported (s : State)
    (hap : Apart symbols.PIT_reload_value.toNat 2 (s.esp - 4).toNat 4) (rest : List Instruction) :
    ∃ eax, State.steps processor
      (.pushfl :: .cli :: .movAl 0b00110100 :: .outAl 0x43 :: .loadAx symbols.PIT_reload_value ::
        .outAl 0x40 :: .movAhAl :: .outAl 0x40 :: .sti :: rest) s =
      State.steps processor rest
        { s.push ⟨s.eflags⟩ with
          eax := eax
          eflags := State.flag 9 true (State.flag 9 false s.eflags)
          outs := s.outs ++ countBytes (load16 s.memory symbols.PIT_reload_value.toNat) } := by
  have hload : load16 (s.push ⟨s.eflags⟩).memory symbols.PIT_reload_value.toNat =
      load16 s.memory symbols.PIT_reload_value.toNat := load16_store32_of_apart s.memory _ hap
  obtain ⟨hlow, hhigh⟩ := al_ofNat ((withAl s.eax 0x34).toNat / 65536)
    (load16 s.memory symbols.PIT_reload_value.toNat)
  generalize hax : UInt32.ofNat ((withAl s.eax 0x34).toNat / 65536 * 65536 +
    load16 s.memory symbols.PIT_reload_value.toNat) = ax at hlow hhigh
  refine ⟨withAl ax (UInt8.ofNat (ax.toNat / 256)), ?_⟩
  rw [State.steps_cons rfl, State.steps_cons rfl, State.steps_cons rfl, State.steps_cons rfl,
    State.steps_cons rfl, State.steps_cons rfl, State.steps_cons rfl, State.steps_cons rfl,
    State.steps_cons rfl]
  have heax : (s.push ⟨s.eflags⟩).eax = s.eax := rfl
  have houts : (s.push ⟨s.eflags⟩).outs = s.outs := rfl
  have heflags : (s.push ⟨s.eflags⟩).eflags = s.eflags := rfl
  simp only [hload, heax, houts, heflags, hax, hlow, hhigh, al_withAl, List.append_assoc,
    List.cons_append, List.nil_append, countBytes]

theorem steps_restored (s : State) (flags edx ebx ebp : UInt32)
    (h : s.Stacked [flags, edx, ebx, ebp]) (hebp : s.ebp = s.esp + 12) :
    State.steps processor [.popfl, .pop .edx, .pop .ebx, .mov .ebp .esp, .pop .ebp] s =
      some { s with
        edx := edx, ebx := ebx, ebp := ebp, esp := s.esp + 16
        eflags := s.eflags &&& ~~~processor.writable ||| flags.toBitVec &&& processor.writable } := by
  obtain ⟨hflags, h₁⟩ := h.pop
  obtain ⟨hedx, h₂⟩ := h₁.pop
  obtain ⟨hebx, h₃⟩ := h₂.pop
  obtain ⟨hebp', -⟩ := h₃.pop
  have htop : s.esp + 4 + 4 + 4 = s.ebp := by
    rw [hebp, UInt32.add_assoc, UInt32.add_assoc]
    rfl
  have hbottom : s.ebp + 4 = s.esp + 16 := by
    rw [hebp, UInt32.add_assoc]
    rfl
  rw [State.steps_cons rfl, State.steps_cons rfl, State.steps_cons rfl, State.steps_cons rfl,
    State.steps_cons rfl]
  dsimp only [State.get, State.set, State.word] at hflags hedx hebx hebp' ⊢
  rw [htop] at hebp'
  simp only [hflags, hedx, hebx, hebp', hbottom, State.steps]

end Results

-- The whole function.
section Whole

variable {processor : Implementation} {symbols : Symbols}

-- Where the function stores: four words below the stack pointer and its variables.
def Symbols.regions (symbols : Symbols) (esp : UInt32) : List (Nat × Nat) :=
  [((esp - 16).toNat, 16), (symbols.PIT_reload_value.toNat, 2),
    (symbols.IRQ0_frequency.toNat, 4), (symbols.IRQ0_ms.toNat, 4),
    (symbols.IRQ0_fraction_ms.toNat, 4)]

def Symbols.Separate (symbols : Symbols) (esp : UInt32) : Prop :=
  (symbols.regions esp).Pairwise fun a b => Apart a.1 a.2 b.1 b.2

-- The state `t` in which a call from state `s` returns.
structure Programs (symbols : Symbols) (requested : Nat) (s t : State) : Prop where
  registers : t.toRegisters = { s.toRegisters with eax := t.eax }
  interrupts : t.eflags.getLsbD 9 = s.eflags.getLsbD 9
  outs : t.outs = s.outs ++ countBytes (reloadFor requested)
  PIT_reload_value :
    load16 t.memory symbols.PIT_reload_value.toNat = reloadFor requested % 65536
  IRQ0_frequency :
    load32 t.memory symbols.IRQ0_frequency.toNat = frequencyOf (reloadFor requested)
  IRQ0_time :
    load32 t.memory symbols.IRQ0_ms.toNat * 2 ^ 32 +
      load32 t.memory symbols.IRQ0_fraction_ms.toNat = product (reloadFor requested) / 2 ^ 10
  frame : ∀ x, (∀ region ∈ symbols.regions s.esp, Misses region.1 region.2 x) →
    load8 t.memory x = load8 s.memory x

theorem reloadFor_pos (frequency : Nat) : 0 < reloadFor frequency := by
  unfold reloadFor third
  split
  · decide
  · split
    · decide
    · next hhigh =>
        have hquotient : 1 ≤ 3579545 / frequency :=
          (Nat.one_le_div_iff (by omega)).mpr (by omega)
        omega

theorem reloadFor_le (frequency : Nat) : reloadFor frequency ≤ 65536 := by
  unfold reloadFor third
  split
  · decide
  · split
    · decide
    · next hlow _ =>
        have hquotient : 3579545 / frequency ≤ 3579545 / 19 :=
          Nat.div_le_div_left (by omega) (by decide)
        omega

theorem countBytes_mod (reload : Nat) : countBytes (reload % 65536) = countBytes reload := by
  have hlow : UInt8.ofNat (reload % 65536) = UInt8.ofNat reload := by
    rw [← UInt8.toNat_inj, UInt8.toNat_ofNat', UInt8.toNat_ofNat']
    omega
  have hhigh : UInt8.ofNat (reload % 65536 / 256) = UInt8.ofNat (reload / 256) := by
    rw [← UInt8.toNat_inj, UInt8.toNat_ofNat', UInt8.toNat_ofNat']
    omega
  rw [countBytes, countBytes, hlow, hhigh]

-- The argument is above the words that are saved.
theorem entered_ebx (s : State) : (entered s).ebx = s.word (s.esp + 4) := by
  have hplace : s.esp - 4 + 8 = s.esp + 4 := by
    rw [show (8 : UInt32) = 4 + 4 from rfl, ← UInt32.add_assoc, UInt32.sub_add_cancel]
  have hebx : (entered s).ebx = UInt32.ofNat (load32 (store32 (store32 (store32 s.memory
      (s.esp - 4).toNat s.ebp.toNat) (s.esp - 4 - 4).toNat s.ebx.toNat) (s.esp - 4 - 4 - 4).toNat
      s.edx.toNat) (s.esp - 4 + 8).toNat) := rfl
  have hfour : (4 : UInt32).toNat = 4 := rfl
  have habove : ∀ k < 3, Apart (s.esp + 4).toNat 4 (s.esp.toNat + 4294967292 - 4 * k) 4 := by
    intro k hk i hi j hj
    rw [UInt32.toNat_add, hfour]
    omega
  rw [hebx, hplace, load32_store32_of_apart, load32_store32_of_apart, load32_store32_of_apart]
  · rfl
  · refine (habove 0 (by decide)).symm.mod ?_ |>.symm
    rw [UInt32.toNat_sub, hfour]
    omega
  · refine (habove 1 (by decide)).symm.mod ?_ |>.symm
    rw [UInt32.toNat_sub, UInt32.toNat_sub, hfour]
    omega
  · refine (habove 2 (by decide)).symm.mod ?_ |>.symm
    rw [UInt32.toNat_sub, UInt32.toNat_sub, UInt32.toNat_sub, hfour]
    omega

theorem entered_kept (s : State) :
    (entered s).ecx = s.ecx ∧ (entered s).esi = s.esi ∧ (entered s).edi = s.edi ∧
      (entered s).ebp = s.esp - 4 ∧ (entered s).eflags = s.eflags ∧
      (entered s).outs = s.outs := by
  simp only [entered, State.push, State.setWord, and_self]

theorem entered_stacked (s : State) : (entered s).Stacked [s.edx, s.ebx, s.ebp] := by
  have hnone : s.Stacked [] := trivial
  have hebp : (s.push s.ebp).Stacked [s.ebp] :=
    hnone.push s.ebp (by decide)
  have hframe : State.Stacked { s.push s.ebp with ebp := (s.push s.ebp).esp } [s.ebp] := hebp
  have hebx := hframe.push s.ebx (by simp)
  have hedx := hebx.push s.edx (by simp)
  exact hedx

variable (processor symbols) in
-- From the block that has the reload value to the one that stores the results.
theorem frequency_reached (u : State) (hpos : 0 < u.eax.toNat) (hle : u.eax.toNat ≤ 65536) :
    ∃ y, Reaches processor (init_PIT symbols) .gotReloadValue u .l4 y ∧
      Arithmetic { u.push u.eax with
        memory := store16 (u.push u.eax).memory symbols.PIT_reload_value.toNat
          (u.eax.toNat % 65536) } y ∧
      y.eax.toNat = frequencyOf u.eax.toNat := by
  generalize hv : ({ u.push u.eax with
    memory := store16 (u.push u.eax).memory symbols.PIT_reload_value.toNat
      (u.eax.toNat % 65536) } : State) = v
  have heax : v.eax = u.eax := hv ▸ rfl
  have hmov : Arithmetic v { v with ebx := v.eax } :=
    ⟨rfl, rfl, rfl, rfl, rfl, rfl, rfl, fun _ _ _ => rfl⟩
  have hnonzero : v.eax ≠ 0 := by
    intro hzero
    rw [← heax, hzero] at hpos
    exact absurd hpos (by decide)
  obtain ⟨w, hsteps, hsame, heax', hcarry⟩ := steps_clock_quotient processor
    { v with ebx := v.eax } hnonzero (by change v.eax.toNat ≤ _; rw [heax]; omega)
  have hcode : State.steps processor (init_PIT symbols .gotReloadValue).code u = some w := by
    rw [init_PIT, State.steps_cons rfl, State.steps_cons rfl, State.steps_cons rfl, ← hsteps, ← hv]
    rfl
  have hreach := Reaches.branch hcode rfl
  rw [State.holds, if_pos hcarry] at hreach
  obtain ⟨y, hreach', hsame', heax''⟩ := third_reached processor symbols
    .l3 .roundUpFrequency' .l4 w rfl rfl
  refine ⟨y, hreach.trans hreach', (hmov.trans hsame).trans hsame', ?_⟩
  rw [heax'', heax', frequencyOf]
  change third (3579545 / v.eax.toNat) = _
  rw [heax]

variable (processor symbols) in
theorem results_reached (s : State) (requested : UInt32) (harg : s.word (s.esp + 4) = requested)
    (hsep : symbols.Separate s.esp) :
    ∃ u y, Reaches processor (init_PIT symbols) .init_PIT s .l4 y ∧
      Arithmetic (entered s) u ∧ u.eax.toNat = reloadFor requested.toNat ∧
      Arithmetic { u.push u.eax with
        memory := store16 (u.push u.eax).memory symbols.PIT_reload_value.toNat
          (u.eax.toNat % 65536) } y ∧
      y.eax.toNat = frequencyOf u.eax.toNat ∧ y.Stacked [u.eax, s.edx, s.ebx, s.ebp] ∧
      y.esp = s.esp - 16 := by
  obtain ⟨u, hreach, hsame, heax⟩ := reload_reached processor symbols s
  rw [entered_ebx, harg] at heax
  obtain ⟨y, hreach', hsame', heax'⟩ := frequency_reached processor
    symbols u (heax ▸ reloadFor_pos _) (heax ▸ reloadFor_le _)
  have hesp : y.esp = s.esp - 16 := by
    rw [hsame'.esp]
    change u.esp - 4 = _
    rw [hsame.esp]
    change s.esp - 4 - 4 - 4 - 4 = _
    rw [word_sub_sub, word_sub_sub, word_sub_sub]
    rfl
  have hsaved : u.Stacked [s.edx, s.ebx, s.ebp] := by
    have hentered := entered_stacked s
    rw [State.Stacked, ← hsame.memory, ← hsame.esp] at hentered
    exact hentered
  have hpushed := hsaved.push u.eax (by simp)
  refine ⟨u, y, hreach.trans hreach', hsame, heax, hsame', heax', ?_, hesp⟩
  simp only [Symbols.Separate, Symbols.regions, List.pairwise_cons, List.forall_mem_cons] at hsep
  rw [State.Stacked, hesp, hsame'.memory]
  have hesp' : (u.push u.eax).esp = s.esp - 16 := by
    rw [← hesp, hsame'.esp]
  rw [State.Stacked, hesp'] at hpushed
  exact holds_store16 hpushed _ hsep.1.1

variable (processor symbols) in
-- The last block: the flags and the registers are back, whatever the results.
theorem steps_l4 (y : State) (esp reload edx ebx ebp : UInt32) (hesp : y.esp = esp - 16)
    (hebp : y.ebp = esp - 4) (h : y.Stacked [reload, edx, ebx, ebp])
    (hsep : symbols.Separate esp) :
    ∃ t, State.steps processor (init_PIT symbols .l4).code y = some t ∧
      t.toRegisters = { y.toRegisters with
        eax := t.eax, edx := edx, ebx := ebx, ebp := ebp, esp := esp } ∧
      t.eflags = State.flag 9 true (State.flag 9 false y.eflags) &&& ~~~processor.writable |||
        y.eflags &&& processor.writable ∧
      t.outs = y.outs ++ countBytes
        (load16 (measured symbols reload y).memory symbols.PIT_reload_value.toNat) ∧
      t.memory = store32 (measured symbols reload y).memory (esp - 16).toNat y.eflags.toNat := by
  simp only [Symbols.Separate, Symbols.regions, List.pairwise_cons, List.forall_mem_cons] at hsep
  obtain ⟨⟨hreload, hfrequency, hms, hfraction, -⟩, -⟩ := hsep
  generalize hz : measured symbols reload y = z
  have hzesp : z.esp = esp - 16 + 4 := by rw [← hz, ← hesp]; rfl
  have htop : z.esp - 4 = esp - 16 := by rw [hzesp, UInt32.add_sub_cancel]
  have hfour : (4 : UInt32).toNat = 4 := rfl
  have hpopped : z.Stacked [edx, ebx, ebp] := by
    have hplace : ((esp - 16).toNat + 4) % 4294967296 = z.esp.toNat % 4294967296 := by
      rw [hzesp, UInt32.toNat_add, hfour]
      exact (Nat.mod_mod _ _).symm
    have hsaved := h.2
    rw [hesp] at hsaved
    have hafter := holds_store32 (holds_store32 (holds_store32 hsaved y.eax.toNat
      (hfrequency.mono 12 (by decide))) (UInt32.ofNat (product reload.toNat / 4294967296 /
        2 ^ 10)).toNat (hms.mono 12 (by decide))) (UInt32.ofNat (product reload.toNat / 2 ^ 10)).toNat
      (hfraction.mono 12 (by decide))
    have hmemory : z.memory = store32 (store32 (store32 y.memory symbols.IRQ0_frequency.toNat
        y.eax.toNat) symbols.IRQ0_ms.toNat (UInt32.ofNat (product reload.toNat / 4294967296 /
          2 ^ 10)).toNat) symbols.IRQ0_fraction_ms.toNat
        (UInt32.ofNat (product reload.toNat / 2 ^ 10)).toNat := by rw [← hz]; rfl
    rw [State.Stacked, hmemory]
    exact hafter.mod _ _ _ _ hplace
  have hpushed := hpopped.push ⟨z.eflags⟩ (by simp)
  have hap : Apart symbols.PIT_reload_value.toNat 2 (z.esp - 4).toNat 4 := by
    rw [htop]
    exact ((hreload.first 4 (by decide)).symm)
  obtain ⟨eax, hported⟩ := steps_ported processor symbols z hap
    [.popfl, .pop .edx, .pop .ebx, .mov .ebp .esp, .pop .ebp]
  have hframe : (z.push ⟨z.eflags⟩).ebp = (z.push ⟨z.eflags⟩).esp + 12 := by
    change z.ebp = z.esp - 4 + 12
    have hzebp : z.ebp = esp - 4 := by rw [← hz, ← hebp]; rfl
    rw [htop, hzebp, show (16 : UInt32) = 4 + 12 from rfl, ← word_sub_sub, UInt32.sub_add_cancel]
  have hrestored := steps_restored processor
    { z.push ⟨z.eflags⟩ with
      eax := eax
      eflags := State.flag 9 true (State.flag 9 false z.eflags)
      outs := z.outs ++ countBytes (load16 z.memory symbols.PIT_reload_value.toNat) }
    ⟨z.eflags⟩ edx ebx ebp hpushed hframe
  have hflags : z.eflags = y.eflags := by rw [← hz]; rfl
  have houts : z.outs = y.outs := by rw [← hz]; rfl
  have hback : z.esp - 4 + 16 = esp := by rw [htop, UInt32.sub_add_cancel]
  have hfirst : Apart y.esp.toNat 4 symbols.IRQ0_frequency.toNat 4 := by
    rw [hesp]
    exact hfrequency.first 4 (by decide)
  have hcode := steps_measured processor symbols y reload _ h hfirst
    (.pushfl :: .cli :: .movAl 0b00110100 :: .outAl 0x43 :: .loadAx symbols.PIT_reload_value ::
      .outAl 0x40 :: .movAhAl :: .outAl 0x40 :: .sti ::
        [.popfl, .pop .edx, .pop .ebx, .mov .ebp .esp, .pop .ebp])
  rw [hz, hported, hrestored] at hcode
  refine ⟨_, hcode, ?_, ?_, ?_, ?_⟩
  · have hothers : z.ecx = y.ecx ∧ z.esi = y.esi ∧ z.edi = y.edi := by
      rw [← hz]
      exact ⟨rfl, rfl, rfl⟩
    simp only [State.push, State.setWord, hothers, hback]
  · rw [← hflags]
  · rw [← houts]
  · rw [← hflags, ← htop]
    rfl

theorem time_halves (reload : UInt32) :
    (UInt32.ofNat (product reload.toNat / 4294967296 / 2 ^ 10)).toNat % 4294967296 * 2 ^ 32 +
      (UInt32.ofNat (product reload.toNat / 2 ^ 10)).toNat % 4294967296 =
        product reload.toNat / 2 ^ 10 := by
  have hlt := reload.toNat_lt
  have hproduct : product reload.toNat < 4294967296 * 4294967296 := by
    unfold product
    omega
  have hswap : product reload.toNat / 4294967296 / 2 ^ 10 =
      product reload.toNat / 2 ^ 10 / 4294967296 := by
    rw [Nat.div_div_eq_div_mul, Nat.div_div_eq_div_mul, Nat.mul_comm]
  rw [hswap, UInt32.toNat_ofNat', UInt32.toNat_ofNat']
  omega

-- What the variables hold once everything is stored.
theorem stored_variables (y : State) (esp reload : UInt32) (m : Memory) (flags : Nat)
    (hmemory : y.memory = store16 m symbols.PIT_reload_value.toNat (reload.toNat % 65536))
    (hsep : symbols.Separate esp) :
    let final := store32 (measured symbols reload y).memory (esp - 16).toNat flags
    load16 (measured symbols reload y).memory symbols.PIT_reload_value.toNat =
        reload.toNat % 65536 ∧
      load16 final symbols.PIT_reload_value.toNat = reload.toNat % 65536 ∧
      load32 final symbols.IRQ0_frequency.toNat = y.eax.toNat ∧
      load32 final symbols.IRQ0_ms.toNat * 2 ^ 32 + load32 final symbols.IRQ0_fraction_ms.toNat =
        product reload.toNat / 2 ^ 10 := by
  simp only [Symbols.Separate, Symbols.regions, List.pairwise_cons, List.forall_mem_cons] at hsep
  obtain ⟨⟨hreload, hfrequency, hms, hfraction, -⟩, ⟨hrf, hrm, hrp, -⟩, ⟨hfm, hfp, -⟩, ⟨hmp, -⟩, -⟩ :=
    hsep
  have hword : ∀ {a n : Nat}, Apart (esp - 16).toNat 16 a n → Apart a n (esp - 16).toNat 4 :=
    fun hap => (hap.first 4 (by decide)).symm
  have hvalue : load16 (measured symbols reload y).memory symbols.PIT_reload_value.toNat =
      reload.toNat % 65536 := by
    simp only [measured]
    rw [load16_store32_of_apart _ _ hrp, load16_store32_of_apart _ _ hrm,
      load16_store32_of_apart _ _ hrf, hmemory, load16_store16_self]
    omega
  refine ⟨hvalue, ?_, ?_, ?_⟩
  · rw [load16_store32_of_apart _ _ (hword hreload), hvalue]
  · rw [load32_store32_of_apart _ _ (hword hfrequency)]
    simp only [measured]
    rw [load32_store32_of_apart _ _ hfp, load32_store32_of_apart _ _ hfm, load32_store32_self]
    exact Nat.mod_eq_of_lt y.eax.toNat_lt
  · rw [load32_store32_of_apart _ _ (hword hms), load32_store32_of_apart _ _ (hword hfraction)]
    simp only [measured]
    rw [load32_store32_of_apart _ _ hmp, load32_store32_self, load32_store32_self]
    exact time_halves reload

-- The four words below the stack pointer are inside the first region.
theorem word_misses (esp : UInt32) (x k : Nat) (hk : k < 4) (hx : Misses (esp - 16).toNat 16 x) :
    Misses (esp.toNat + 4294967292 - 4 * k) 4 x := by
  have hsixteen : (16 : UInt32).toNat = 16 := rfl
  have hlt := esp.toNat_lt
  intro j hj
  have hne := hx (12 - 4 * k + j) (by omega)
  rw [UInt32.toNat_sub, hsixteen] at hne
  omega

theorem entered_frame (s : State) (reload : UInt32) (x : Nat)
    (hx : Misses (s.esp - 16).toNat 16 x) :
    load8 ((entered s).push reload).memory x = load8 s.memory x := by
  have hfour : (4 : UInt32).toNat = 4 := rfl
  have hmemory : ((entered s).push reload).memory = store32 (store32 (store32 (store32 s.memory
      (s.esp - 4).toNat s.ebp.toNat) (s.esp - 4 - 4).toNat s.ebx.toNat) (s.esp - 4 - 4 - 4).toNat
      s.edx.toNat) (s.esp - 4 - 4 - 4 - 4).toNat reload.toNat := rfl
  have hmisses : ∀ a k, k < 4 → a % 4294967296 = (s.esp.toNat + 4294967292 - 4 * k) % 4294967296 →
      Misses a 4 x := by
    intro a k hk ha j hj
    have hne := word_misses s.esp x k hk hx j hj
    omega
  rw [hmemory, load8_store32_of_misses _ _ _ _ (hmisses _ 3 (by decide) ?_),
    load8_store32_of_misses _ _ _ _ (hmisses _ 2 (by decide) ?_),
    load8_store32_of_misses _ _ _ _ (hmisses _ 1 (by decide) ?_),
    load8_store32_of_misses _ _ _ _ (hmisses _ 0 (by decide) ?_)] <;>
  · simp only [UInt32.toNat_sub, hfour]
    omega

theorem stored_frame (y s : State) (reload : UInt32) (flags : Nat)
    (hmemory : y.memory = store16 ((entered s).push reload).memory
      symbols.PIT_reload_value.toNat (reload.toNat % 65536)) (x : Nat)
    (hx : ∀ region ∈ symbols.regions s.esp, Misses region.1 region.2 x) :
    load8 (store32 (measured symbols reload y).memory (s.esp - 16).toNat flags) x =
      load8 s.memory x := by
  simp only [Symbols.regions, List.forall_mem_cons] at hx
  obtain ⟨hstack, hreload, hfrequency, hms, hfraction, -⟩ := hx
  have htop : Misses (s.esp - 16).toNat 4 x := fun i hi => hstack i (by omega)
  simp only [measured]
  rw [load8_store32_of_misses _ _ _ _ htop, load8_store32_of_misses _ _ _ _ hfraction,
    load8_store32_of_misses _ _ _ _ hms, load8_store32_of_misses _ _ _ _ hfrequency, hmemory,
    load8_store16_of_misses _ _ _ _ hreload, entered_frame s reload x hstack]

-- For every frequency, whatever the processor and the memory hold.
theorem init_PIT_programs (s : State) (requested : UInt32)
    (harg : s.word (s.esp + 4) = requested) (hsep : symbols.Separate s.esp)
    (hwritable : processor.writable.getLsbD 9 = true) :
    ∃ t, Programs symbols requested.toNat s t ∧ ∃ bound, ∀ fuel ≥ bound,
      run processor (init_PIT symbols) fuel .init_PIT s = some t := by
  obtain ⟨u, y, hreach, hsame, heax, hsame', heax', hstacked, hesp⟩ :=
    results_reached processor symbols s requested harg hsep
  obtain ⟨hecx₀, hesi₀, hedi₀, hebp₀, hflags, houts₀⟩ := entered_kept s
  have hebp : y.ebp = s.esp - 4 := by
    rw [hsame'.ebp, ← hebp₀]
    exact hsame.ebp
  have hecx : y.ecx = s.ecx := by
    rw [hsame'.ecx, ← hecx₀]
    exact hsame.ecx
  have hesi : y.esi = s.esi := by
    rw [hsame'.esi, ← hesi₀]
    exact hsame.esi
  have hedi : y.edi = s.edi := by
    rw [hsame'.edi, ← hedi₀]
    exact hsame.edi
  obtain ⟨t, hcode, hregisters, heflags, houts, hmemory⟩ := steps_l4 processor symbols y
    s.esp u.eax s.edx s.ebx s.ebp hesp hebp hstacked hsep
  obtain ⟨hvalue, hreload, hfrequency, htime⟩ := stored_variables y s.esp u.eax _ y.eflags.toNat
    hsame'.memory hsep
  rw [← hmemory] at hreload hfrequency htime
  rw [heax] at hvalue hreload htime heax'
  rw [heax'] at hfrequency
  refine ⟨t, ⟨?_, ?_, ?_, hreload, hfrequency, htime, ?_⟩, hreach.returns hcode rfl⟩
  · rw [hregisters]
    simp only [hecx, hesi, hedi]
  · have hkept : y.eflags.getLsbD 9 = s.eflags.getLsbD 9 := by
      rw [hsame'.eflags 9 (by decide) (by decide), ← hflags]
      exact hsame.eflags 9 (by decide) (by decide)
    rw [heflags, ← hkept, BitVec.getLsbD_or, BitVec.getLsbD_and, BitVec.getLsbD_and,
      BitVec.getLsbD_not, hwritable]
    simp
  · have hkept : y.outs = s.outs := by
      rw [hsame'.outs, ← houts₀]
      exact hsame.outs
    rw [houts, hkept, hvalue, countBytes_mod]
  · intro x hx
    have hpushed : (u.push u.eax).memory = ((entered s).push u.eax).memory := by
      simp only [State.push, State.setWord, hsame.memory, hsame.esp]
    rw [hmemory]
    exact stored_frame y s u.eax _ (hpushed ▸ hsame'.memory) x hx

def sampleSymbols : Symbols :=
  { PIT_reload_value := 0x100000
    IRQ0_frequency := 0x100004
    IRQ0_ms := 0x100008
    IRQ0_fraction_ms := 0x10000c }

-- A call for 1000 Hz with the interrupts off.
def sampleCall : State :=
  { eax := 1, ecx := 2, edx := 3, ebx := 4, esp := 0x8000, ebp := 6, esi := 7, edi := 8
    eflags := 2
    memory := fun a => if a = 0x8004 then 0xe8 else if a = 0x8005 then 3 else 0
    outs := [] }

def plainProcessor : Implementation := { writable := 0x200fff, cpuid := fun _ => (0, 0, 0, 0) }

theorem sample_separate : sampleSymbols.Separate sampleCall.esp := by
  unfold Symbols.Separate Symbols.regions Apart Misses
  decide

end Whole

end PalleyOS.Timer
