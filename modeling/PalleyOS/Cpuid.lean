import PalleyOS.Machine.Assembly
import Mathlib.Data.Nat.Digits.Lemmas

namespace PalleyOS.Cpuid

open Machine Assembly

-- The functions of the assembly file, up to their returns.
section Source

def isCpuidAvailable : List Instruction :=
  [.pushfl, .pushfl, .xorTop 0x00200000, .popfl, .pushfl, .pop .eax, .xorFromTop .eax, .popfl,
    .and 0x00200000 .eax]

def loadCpuVendorName : List Instruction :=
  [.push .ebp, .mov .esp .ebp, .push .edi, .push .ebx, .movImm 0 .eax, .cpuid, .load 8 .ebp .edi,
    .store .ebx 0 .edi, .store .edx 4 .edi, .store .ecx 8 .edi, .pop .edi, .pop .ebx,
    .mov .ebp .esp, .pop .ebp]

def cpuidLoadFeatures : List Instruction :=
  [.push .ebp, .mov .esp .ebp, .push .ebx, .movImm 1 .eax, .cpuid, .load 8 .ebp .ebx,
    .store .ecx 0 .ebx, .load 12 .ebp .ebx, .store .edx 0 .ebx, .pop .ebx, .mov .ebp .esp,
    .pop .ebp]

end Source

section Available

variable (processor : Implementation)

-- The flags after `popfl` takes a word, from flags that had arithmetic done to them.
theorem popped_getLsbD (eflags word : BitVec 32) (i : Nat) :
    (eflags &&& ~~~processor.writable ||| word &&& processor.writable).getLsbD i =
      if processor.writable.getLsbD i then word.getLsbD i else eflags.getLsbD i := by
  rw [BitVec.getLsbD_or, BitVec.getLsbD_and, BitVec.getLsbD_and, BitVec.getLsbD_not]
  by_cases hi : i < 32
  · cases processor.writable.getLsbD i <;> simp [hi]
  · simp [BitVec.getLsbD_of_ge _ _ (Nat.le_of_not_lt hi)]

theorem tested_getLsbD (s : State) (result : UInt32) (i : Nat) (hc : i ≠ 0) (hz : i ≠ 6) :
    (s.tested result).eflags.getLsbD i = s.eflags.getLsbD i := by
  unfold State.tested
  rw [flag_getLsbD 6 i _ _ (by decide), if_neg hz, flag_getLsbD 0 i _ _ (by decide), if_neg hc]

-- The flags that no arithmetic instruction computes.
def control (i : Nat) : Prop := i ∉ [0, 2, 4, 6, 7, 11]

theorem steps_popfl (s : State) (word : UInt32) (ws : List UInt32) (h : s.Stacked (word :: ws)) :
    s.step processor .popfl = some { s with
      esp := s.esp + 4
      eflags := s.eflags &&& ~~~processor.writable ||| word.toBitVec &&& processor.writable } := by
  rw [State.step, h.pop.1]

-- The flags on the stack are changed and come back as far as the processor lets them.
theorem steps_toggled (s : State) (F value : UInt32) (h : s.Stacked [F, F])
    (rest : List Instruction) :
    ∃ v : State, State.steps processor (.xorTop value :: .popfl :: .pushfl :: .pop .eax :: rest) s =
        State.steps processor rest v ∧
      v.toRegisters = { s.toRegisters with eax := ⟨v.eflags⟩, esp := s.esp + 4 } ∧
      (∀ i, i ≠ 0 → i ≠ 6 → v.eflags.getLsbD i = if processor.writable.getLsbD i then
        (F ^^^ value).toBitVec.getLsbD i else s.eflags.getLsbD i) ∧
      v.Stacked [F] ∧ v.outs = s.outs ∧
      ∀ x, Misses s.esp.toNat 4 x → load8 v.memory x = load8 s.memory x := by
  have hxor : s.step processor (.xorTop value) =
      some ((s.tested (F ^^^ value)).setWord s.esp (F ^^^ value)) := by
    rw [State.step, h.pop.1]
  have hinverted : ((s.tested (F ^^^ value)).setWord s.esp (F ^^^ value)).Stacked
      [F ^^^ value, F] :=
    State.Stacked.setTop (s := s.tested (F ^^^ value)) h _ (by simp)
  have hpopfl := steps_popfl processor _ _ _ hinverted
  have hbits := popped_getLsbD processor (s.tested (F ^^^ value)).eflags (F ^^^ value).toBitVec
  generalize hflags : (s.tested (F ^^^ value)).eflags &&& ~~~processor.writable |||
    (F ^^^ value).toBitVec &&& processor.writable = flags at hbits
  generalize hu : ({ (s.tested (F ^^^ value)).setWord s.esp (F ^^^ value) with
    esp := s.esp + 4, eflags := flags } : State) = u
  have hleft : u.Stacked [F] := hu ▸ hinverted.pop.2
  have hagain := hleft.push ⟨flags⟩ (by simp)
  have hback : (u.push ⟨flags⟩).esp + 4 = s.esp + 4 := by
    rw [← hu]
    exact UInt32.sub_add_cancel _ _
  have hpop : (u.push ⟨flags⟩).step processor (.pop .eax) = some
      { s with eax := ⟨flags⟩, eflags := flags, esp := s.esp + 4, memory := (u.push ⟨flags⟩).memory } := by
    rw [State.step, hagain.pop.1, hback, ← hu]
    rfl
  have hpopped : ((s.tested (F ^^^ value)).setWord s.esp (F ^^^ value)).step processor .popfl =
      some u := by
    rw [hpopfl, ← hu, ← hflags]
    rfl
  have hpushed : u.step processor .pushfl = some (u.push ⟨flags⟩) := by
    rw [← hu]
    rfl
  have hcode := (State.steps_cons hxor _).trans ((State.steps_cons hpopped _).trans
    ((State.steps_cons hpushed _).trans (State.steps_cons hpop rest)))
  refine ⟨_, hcode, rfl, fun i hc hz => ?_, ?_, rfl, fun x hx => ?_⟩
  · exact (hbits i).trans (by rw [tested_getLsbD s _ i hc hz])
  · have hword := hagain.pop.2
    rw [State.Stacked, hback] at hword
    exact hword
  · have hmemory : (u.push ⟨flags⟩).memory = store32 (store32 s.memory s.esp.toNat
        (F ^^^ value).toNat) (s.esp + 4 - 4).toNat flags.toNat := by
      rw [← hu]
      rfl
    change load8 (u.push ⟨flags⟩).memory x = _
    rw [hmemory, UInt32.add_sub_cancel, load8_store32_of_misses _ _ _ _ hx,
      load8_store32_of_misses _ _ _ _ hx]

-- The bit is changed exactly where the processor lets it.
theorem changed_and (F flags : UInt32) (hflags : ∀ i, i ≠ 0 → i ≠ 6 → flags.toBitVec.getLsbD i =
    if processor.writable.getLsbD i then (F ^^^ 0x00200000).toBitVec.getLsbD i
    else F.toBitVec.getLsbD i) :
    (flags ^^^ F) &&& 0x00200000 = if processor.writable.getLsbD 21 then 0x00200000 else 0 := by
  have hmask : (0x00200000 : UInt32).toBitVec = BitVec.twoPow 32 21 := by decide
  apply UInt32.toBitVec_inj.mp
  rw [apply_ite UInt32.toBitVec, UInt32.toBitVec_and, UInt32.toBitVec_xor, hmask]
  apply BitVec.eq_of_getLsbD_eq
  intro i hi
  rw [BitVec.getLsbD_and, BitVec.getLsbD_xor, BitVec.getLsbD_twoPow]
  by_cases h : i = 21
  · subst i
    rw [hflags 21 (by decide) (by decide), UInt32.toBitVec_xor, BitVec.getLsbD_xor, hmask,
      BitVec.getLsbD_twoPow]
    cases processor.writable.getLsbD 21 <;> simp
  · cases processor.writable.getLsbD 21 <;> simp [Ne.symm h]

-- What came back of the flags is compared with what was saved.
theorem steps_changed (v : State) (F value : UInt32) (h : v.Stacked [F]) :
    ∃ t, State.steps processor [.xorFromTop .eax, .popfl, .and value .eax] v = some t ∧
      t.toRegisters = { v.toRegisters with eax := (v.eax ^^^ F) &&& value, esp := v.esp + 4 } ∧
      (∀ i, i ≠ 0 → i ≠ 6 → t.eflags.getLsbD i =
        if processor.writable.getLsbD i then F.toBitVec.getLsbD i else v.eflags.getLsbD i) ∧
      t.outs = v.outs ∧ t.memory = v.memory := by
  have hxor : v.step processor (.xorFromTop .eax) =
      some ((v.tested (v.eax ^^^ F)).set (v.eax ^^^ F) .eax) := by
    rw [State.step, h.pop.1]
    rfl
  have hpopfl := steps_popfl processor ((v.tested (v.eax ^^^ F)).set (v.eax ^^^ F) .eax) F [] h
  have hand : ∀ w : State, w.eax = v.eax ^^^ F → w.step processor (.and value .eax) =
      some ((w.tested ((v.eax ^^^ F) &&& value)).set ((v.eax ^^^ F) &&& value) .eax) := by
    intro w hw
    rw [State.step, ← hw]
    rfl
  have hcode := (State.steps_cons hxor _).trans ((State.steps_cons hpopfl _).trans
    (State.steps_cons (hand _ rfl) []))
  refine ⟨_, hcode, rfl, fun i hc hz => ?_, rfl, rfl⟩
  have htested := tested_getLsbD v (v.eax ^^^ F) i hc hz
  refine (tested_getLsbD _ _ i hc hz).trans ?_
  rw [popped_getLsbD]
  exact congrArg _ htested

-- On every processor, and whatever the flags are.
theorem isCpuidAvailable_exact (s : State) :
    ∃ t, State.steps processor isCpuidAvailable s = some t ∧
      t.toRegisters = { s.toRegisters with
        eax := if processor.writable.getLsbD 21 then 0x00200000 else 0 } ∧
      (∀ i, control i → t.eflags.getLsbD i = s.eflags.getLsbD i) ∧ t.outs = s.outs ∧
      ∀ x, Misses (s.esp - 8).toNat 8 x → load8 t.memory x = load8 s.memory x := by
  have hnone : s.Stacked [] := trivial
  have hfirst := hnone.push ⟨s.eflags⟩ (by decide)
  have hsecond := hfirst.push ⟨s.eflags⟩ (by simp)
  obtain ⟨v, hsteps, hvregisters, hbits, hsaved, hvouts, hmemory⟩ := steps_toggled processor _
    ⟨s.eflags⟩ 0x00200000 hsecond [.xorFromTop .eax, .popfl, .and 0x00200000 .eax]
  obtain ⟨t, hchanged, hregisters, heflags, houts, hkept⟩ :=
    steps_changed processor v ⟨s.eflags⟩ 0x00200000 hsaved
  have heax : v.eax = ⟨v.eflags⟩ := congrArg Registers.eax hvregisters
  have hesp : v.esp = s.esp - 4 - 4 + 4 := congrArg Registers.esp hvregisters
  refine ⟨t, ?_, ?_, fun i hi => ?_, houts.trans hvouts, fun x hx => ?_⟩
  · rw [isCpuidAvailable, State.steps_cons rfl, State.steps_cons rfl, ← hchanged, ← hsteps]
    rfl
  · rw [hregisters, heax, changed_and processor ⟨s.eflags⟩ ⟨v.eflags⟩ hbits, hesp, hvregisters,
      UInt32.sub_add_cancel, UInt32.sub_add_cancel]
    rfl
  · have hi' : i ≠ 0 ∧ i ≠ 6 := by
      simp only [control, List.mem_cons] at hi
      omega
    rw [heflags i hi'.1 hi'.2, hbits i hi'.1 hi'.2]
    cases processor.writable.getLsbD i <;> rfl
  · have height : (8 : UInt32).toNat = 8 := rfl
    have hfour : (4 : UInt32).toNat = 4 := rfl
    have hlow : Misses (s.esp - 4 - 4).toNat 4 x := by
      intro j hj
      rw [word_sub_sub]
      exact hx j (by omega)
    have hhigh : Misses (s.esp - 4).toNat 4 x := by
      intro j hj
      have hne := hx (4 + j) (by omega)
      rw [UInt32.toNat_sub, height] at hne
      rw [UInt32.toNat_sub, hfour]
      omega
    rw [hkept, hmemory x hlow]
    exact (load8_store32_of_misses _ _ _ _ hlow).trans (load8_store32_of_misses _ _ _ _ hhigh)

end Available

-- What the two functions save below the stack pointer, and what lies around it.
section Frames

theorem first_slot (esp : UInt32) :
    (esp - 4).toNat = (esp.toNat + 4294967292 - 4 * 0) % 4294967296 := by
  have hfour : (4 : UInt32).toNat = 4 := rfl
  rw [UInt32.toNat_sub, hfour]
  omega

theorem second_slot (esp : UInt32) :
    (esp - 4 - 4).toNat = (esp.toNat + 4294967292 - 4 * 1) % 4294967296 := by
  rw [first_slot, first_slot]
  omega

theorem third_slot (esp : UInt32) :
    (esp - 4 - 4 - 4).toNat = (esp.toNat + 4294967292 - 4 * 2) % 4294967296 := by
  rw [first_slot, second_slot]
  omega

-- The arguments are above the words that are saved.
theorem above_apart {esp slot offset : UInt32} {k : Nat} (hk : k < 3) (hoffset : offset.toNat ≤ 8)
    (hslot : slot.toNat = (esp.toNat + 4294967292 - 4 * k) % 4294967296) :
    Apart (esp + offset).toNat 4 slot.toNat 4 := by
  intro i hi j hj
  rw [UInt32.toNat_add, hslot]
  omega

theorem slot_misses {esp slot : UInt32} {x k : Nat} (size : UInt32)
    (hx : Misses (esp - size).toNat size.toNat x) (hk : 4 * k + 4 ≤ size.toNat)
    (hslot : slot.toNat = (esp.toNat + 4294967292 - 4 * k) % 4294967296) :
    Misses slot.toNat 4 x := by
  have hesp := esp.toNat_lt
  have hsize := size.toNat_lt
  intro j hj
  have hne := hx (size.toNat - 4 * k - 4 + j) (by omega)
  rw [UInt32.toNat_sub] at hne
  rw [hslot]
  omega

-- A word is still there after another one is pushed below.
theorem word_push (s : State) (value a : UInt32) (h : Apart a.toNat 4 (s.esp - 4).toNat 4) :
    (s.push value).word a = s.word a :=
  congrArg UInt32.ofNat (load32_store32_of_apart _ _ h)

theorem part_apart {a : UInt32} {n b k : Nat} (offset : UInt32) (h : Apart a.toNat n b k) (m : Nat)
    (hm : offset.toNat + m ≤ n) : Apart (a + offset).toNat m b k := by
  refine (h.mono m hm).mod ?_
  rw [UInt32.toNat_add]
  exact (Nat.mod_mod _ _).symm

theorem part_misses {a : UInt32} {n x : Nat} (offset : UInt32) (h : Misses a.toNat n x) (m : Nat)
    (hm : offset.toNat + m ≤ n) : Misses (a + offset).toNat m x := by
  intro j hj
  have hne := h (offset.toNat + j) (by omega)
  rw [UInt32.toNat_add]
  omega

-- Three words one after another, that may go around the end of the address space.
theorem holds_three (m : Memory) (a first second third : UInt32) :
    Holds (store32 (store32 (store32 m a.toNat first.toNat) (a + 4).toNat second.toNat)
      (a + 8).toNat third.toNat) a.toNat [first, second, third] := by
  have hfour : (4 : UInt32).toNat = 4 := rfl
  have height : (8 : UInt32).toNat = 8 := rfl
  have h₀₁ : Apart a.toNat 4 (a + 4).toNat 4 := by
    intro i hi j hj
    rw [UInt32.toNat_add, hfour]
    omega
  have h₀₂ : Apart a.toNat 4 (a + 8).toNat 4 := by
    intro i hi j hj
    rw [UInt32.toNat_add, height]
    omega
  have h₁₂ : Apart (a + 4).toNat 4 (a + 8).toNat 4 := by
    intro i hi j hj
    rw [UInt32.toNat_add, UInt32.toNat_add, hfour, height]
    omega
  refine ⟨?_, ?_, ?_, trivial⟩
  · rw [load32_store32_of_apart _ _ h₀₂, load32_store32_of_apart _ _ h₀₁, load32_store32_self]
    exact Nat.mod_eq_of_lt first.toNat_lt
  · rw [load32_mod _ _ (a + 4).toNat (esp_pop a).symm, load32_store32_of_apart _ _ h₁₂,
      load32_store32_self]
    exact Nat.mod_eq_of_lt second.toNat_lt
  · have hplace : (a.toNat + 4 + 4) % 4294967296 = (a + 8).toNat % 4294967296 := by
      rw [UInt32.toNat_add, height]
      omega
    rw [load32_mod _ _ _ hplace, load32_store32_self]
    exact Nat.mod_eq_of_lt third.toNat_lt

-- The frame pointer is made after the old one is saved.
def framed (s : State) : State := { s.push s.ebp with ebp := s.esp - 4 }

theorem framed_stacked (s : State) : (framed s).Stacked [s.ebp] := by
  have hnone : s.Stacked [] := trivial
  exact hnone.push s.ebp (by decide)

theorem framed_word (s : State) (offset : UInt32) (hoffset : offset.toNat ≤ 8) :
    (framed s).word (s.esp + offset) = s.word (s.esp + offset) :=
  word_push s s.ebp _ (above_apart (by decide) hoffset (first_slot s.esp))

theorem frame_argument (esp offset : UInt32) : esp - 4 + (4 + offset) = esp + offset := by
  rw [← UInt32.add_assoc, UInt32.sub_add_cancel]

end Frames

section VendorName

variable (processor : Implementation)

-- The buffer is taken into edi: what comes back there is the caller's ebx.
structure VendorLoaded (s t : State) (buffer eax ebx ecx edx : UInt32) : Prop where
  registers : t.toRegisters = { s.toRegisters with
    eax := eax, ebx := s.edi, ecx := ecx, edx := edx, edi := s.ebx }
  words : Holds t.memory buffer.toNat [ebx, edx, ecx]
  eflags : t.eflags = s.eflags
  outs : t.outs = s.outs
  frame : ∀ x, Misses (s.esp - 12).toNat 12 x → Misses buffer.toNat 12 x →
    load8 t.memory x = load8 s.memory x

-- Both registers are saved.
def bothSaved (s : State) : State := ((framed s).push s.edi).push s.ebx

theorem bothSaved_esp (s : State) : (bothSaved s).esp = s.esp - 12 := by
  change s.esp - 4 - 4 - 4 = s.esp - 12
  rw [word_sub_sub, word_sub_sub]
  rfl

theorem bothSaved_stacked (s : State) : (bothSaved s).Stacked [s.ebx, s.edi, s.ebp] :=
  ((framed_stacked s).push s.edi (by simp)).push s.ebx (by simp)

theorem bothSaved_word (s : State) (offset : UInt32) (hoffset : offset.toNat ≤ 8) :
    (bothSaved s).word (s.esp + offset) = s.word (s.esp + offset) := by
  have hebx := word_push ((framed s).push s.edi) s.ebx _
    (above_apart (by decide) hoffset (third_slot s.esp))
  have hedi := word_push (framed s) s.edi _
    (above_apart (by decide) hoffset (second_slot s.esp))
  exact hebx.trans (hedi.trans (framed_word s offset hoffset))

theorem bothSaved_memory (s : State) (x : Nat) (hx : Misses (s.esp - 12).toNat 12 x) :
    load8 (bothSaved s).memory x = load8 s.memory x := by
  have hebx := load8_store32_of_misses ((framed s).push s.edi).memory _ s.ebx.toNat x
    (slot_misses 12 hx (by decide) (third_slot s.esp))
  have hedi := load8_store32_of_misses (framed s).memory _ s.edi.toNat x
    (slot_misses 12 hx (by decide) (second_slot s.esp))
  have hebp := load8_store32_of_misses s.memory _ s.ebp.toNat x
    (slot_misses 12 hx (by decide) (first_slot s.esp))
  exact hebx.trans (hedi.trans hebp)

-- The registers come back in the order they were pushed in.
theorem steps_swapped (u : State) (first second ebp : UInt32) (h : u.Stacked [first, second, ebp])
    (hebp : u.ebp = u.esp + 8) :
    State.steps processor [.pop .edi, .pop .ebx, .mov .ebp .esp, .pop .ebp] u =
      some { u with edi := first, ebx := second, ebp := ebp, esp := u.esp + 12 } := by
  obtain ⟨hedi, h₁⟩ := h.pop
  obtain ⟨hebx, h₂⟩ := h₁.pop
  obtain ⟨hebp', -⟩ := h₂.pop
  have htop : u.esp + 4 + 4 = u.ebp := by
    rw [hebp, UInt32.add_assoc]
    rfl
  have hbottom : u.ebp + 4 = u.esp + 12 := by
    rw [hebp, UInt32.add_assoc]
    rfl
  rw [State.steps_cons rfl, State.steps_cons rfl, State.steps_cons rfl, State.steps_cons rfl]
  dsimp only [State.get, State.set, State.word] at hedi hebx hebp' ⊢
  rw [htop] at hebp'
  simp only [hedi, hebx, hebp', hbottom, State.steps]

-- From the call until the registers are popped.
theorem steps_named (s : State) (buffer eax ebx ecx edx : UInt32)
    (harg : s.word (s.esp + 4) = buffer) (hcpuid : processor.cpuid 0 = (eax, ebx, ecx, edx)) :
    State.steps processor loadCpuVendorName s = State.steps processor
      [.pop .edi, .pop .ebx, .mov .ebp .esp, .pop .ebp] { bothSaved s with
        eax := eax, ebx := ebx, ecx := ecx, edx := edx, edi := buffer
        memory := store32 (store32 (store32 (bothSaved s).memory buffer.toNat ebx.toNat)
          (buffer + 4).toNat edx.toNat) (buffer + 8).toNat ecx.toNat } := by
  have hload : (bothSaved s).word ((bothSaved s).ebp + 8) = buffer :=
    (congrArg _ (frame_argument s.esp 4)).trans ((bothSaved_word s 4 (by decide)).trans harg)
  have hanswer : State.step processor { bothSaved s with eax := 0 } .cpuid =
      some { bothSaved s with eax := eax, ebx := ebx, ecx := ecx, edx := edx } := by
    rw [State.step, hcpuid]
  have hpointer : State.step processor
      { bothSaved s with eax := eax, ebx := ebx, ecx := ecx, edx := edx } (.load 8 .ebp .edi) =
        some { bothSaved s with
          eax := eax, ebx := ebx, ecx := ecx, edx := edx, edi := buffer } :=
    congrArg (fun w => some (State.mk { (bothSaved s).toRegisters with
      eax := eax, ebx := ebx, ecx := ecx, edx := edx, edi := w } (bothSaved s).eflags
        (bothSaved s).memory (bothSaved s).outs)) hload
  rw [loadCpuVendorName, State.steps_cons rfl, State.steps_cons rfl, State.steps_cons rfl,
    State.steps_cons rfl, State.steps_cons rfl]
  refine (State.steps_cons hanswer _).trans ?_
  refine (State.steps_cons hpointer _).trans ?_
  rw [State.steps_cons rfl, State.steps_cons rfl, State.steps_cons rfl]
  dsimp only [State.get, State.setWord]
  rw [UInt32.add_zero]

theorem loadCpuVendorName_exact (s : State) (buffer eax ebx ecx edx : UInt32)
    (harg : s.word (s.esp + 4) = buffer) (hcpuid : processor.cpuid 0 = (eax, ebx, ecx, edx))
    (hsep : Apart buffer.toNat 12 (s.esp - 12).toNat 12) :
    ∃ t, State.steps processor loadCpuVendorName s = some t ∧
      VendorLoaded s t buffer eax ebx ecx edx := by
  have hcode := steps_named processor s buffer eax ebx ecx edx harg hcpuid
  rw [← bothSaved_esp] at hsep
  have hkept := holds_store32 (holds_store32 (holds_store32 (bothSaved_stacked s) ebx.toNat
    (hsep.first 4 (by decide)).symm) edx.toNat
    (part_apart 4 hsep 4 (by decide)).symm) ecx.toNat
    (part_apart 8 hsep 4 (by decide)).symm
  have hebp : (bothSaved s).ebp = (bothSaved s).esp + 8 := by
    rw [bothSaved_esp, show (12 : UInt32) = 4 + 8 from rfl, ← word_sub_sub, UInt32.sub_add_cancel]
    rfl
  have hback : (bothSaved s).esp + 12 = s.esp := by
    rw [bothSaved_esp, UInt32.sub_add_cancel]
  refine ⟨_, hcode.trans (steps_swapped processor _ s.ebx s.edi s.ebp hkept hebp), ?_⟩
  refine ⟨?_, holds_three _ _ _ _ _, rfl, rfl, fun x hx hbuffer => ?_⟩
  · dsimp only
    rw [hback]
    rfl
  · have hfirst : Misses buffer.toNat 4 x := fun j hj => hbuffer j (by omega)
    dsimp only
    rw [load8_store32_of_misses _ _ _ _ (part_misses 8 hbuffer 4 (by decide)),
      load8_store32_of_misses _ _ _ _ (part_misses 4 hbuffer 4 (by decide)),
      load8_store32_of_misses _ _ _ _ hfirst, bothSaved_memory s x hx]

-- A buffer at 0x9000 for the first answer, two variables for the second.
def sampleCall : State :=
  { eax := 1, ecx := 2, edx := 3, ebx := 4, esp := 0x8000, ebp := 6, esi := 7, edi := 8
    eflags := 2
    memory := fun a => if a = 0x8005 then 0x90 else if a = 0x8008 then 0x10 else
      if a = 0x8009 then 0x90 else 0
    outs := [] }

def sampleProcessor : Implementation :=
  { writable := 0x200fff
    cpuid := fun leaf => if leaf = 0 then (13, 0x756e6547, 0x6c65746e, 0x49656e69) else
      (0x306a9, 0x10800, 0x7fbae3ff, 0xbfebfbff) }

theorem loadCpuVendorName_exact_sample :
    ∃ t, State.steps sampleProcessor loadCpuVendorName sampleCall = some t ∧
      VendorLoaded sampleCall t 0x9000 13 0x756e6547 0x6c65746e 0x49656e69 := by
  refine loadCpuVendorName_exact sampleProcessor sampleCall 0x9000 13 0x756e6547 0x6c65746e
    0x49656e69 (by decide) rfl ?_
  unfold Apart Misses
  decide

end VendorName

section Features

variable (processor : Implementation)

structure FeaturesLoaded (s t : State) (ecxPtr edxPtr eax ecx edx : UInt32) : Prop where
  registers : t.toRegisters = { s.toRegisters with eax := eax, ecx := ecx, edx := edx }
  ecx_features : load32 t.memory ecxPtr.toNat = ecx.toNat
  edx_features : load32 t.memory edxPtr.toNat = edx.toNat
  eflags : t.eflags = s.eflags
  outs : t.outs = s.outs
  frame : ∀ x, Misses (s.esp - 8).toNat 8 x → Misses ecxPtr.toNat 4 x → Misses edxPtr.toNat 4 x →
    load8 t.memory x = load8 s.memory x

def ebxSaved (s : State) : State := (framed s).push s.ebx

theorem ebxSaved_esp (s : State) : (ebxSaved s).esp = s.esp - 8 := word_sub_sub _ _ _

theorem ebxSaved_word (s : State) (offset : UInt32) (hoffset : offset.toNat ≤ 8) :
    (ebxSaved s).word (s.esp + offset) = s.word (s.esp + offset) :=
  (word_push (framed s) s.ebx _ (above_apart (by decide) hoffset (second_slot s.esp))).trans
    (framed_word s offset hoffset)

theorem ebxSaved_memory (s : State) (x : Nat) (hx : Misses (s.esp - 8).toNat 8 x) :
    load8 (ebxSaved s).memory x = load8 s.memory x := by
  have hebx := load8_store32_of_misses (framed s).memory _ s.ebx.toNat x
    (slot_misses 8 hx (by decide) (second_slot s.esp))
  have hebp := load8_store32_of_misses s.memory _ s.ebp.toNat x
    (slot_misses 8 hx (by decide) (first_slot s.esp))
  exact hebx.trans hebp

theorem steps_ebx_restored (u : State) (ebx ebp : UInt32) (h : u.Stacked [ebx, ebp])
    (hebp : u.ebp = u.esp + 4) :
    State.steps processor [.pop .ebx, .mov .ebp .esp, .pop .ebp] u =
      some { u with ebx := ebx, ebp := ebp, esp := u.esp + 8 } := by
  obtain ⟨hebx, h₁⟩ := h.pop
  obtain ⟨hebp', -⟩ := h₁.pop
  have hbottom : u.ebp + 4 = u.esp + 8 := by
    rw [hebp, UInt32.add_assoc]
    rfl
  rw [State.steps_cons rfl, State.steps_cons rfl, State.steps_cons rfl]
  dsimp only [State.get, State.set, State.word] at hebx hebp' ⊢
  rw [← hebp] at hebp'
  simp only [hebx, hebp', hbottom, State.steps]

-- What the frame leaves of the caller's memory stays so under a store of the function.
theorem ebxSaved_stored_word (s : State) (a value : UInt32) :
    load32 (store32 (ebxSaved s).memory a.toNat value.toNat) (s.esp + 8).toNat =
      load32 (store32 s.memory a.toNat value.toNat) (s.esp + 8).toNat := by
  apply load32_congr
  intro i hi
  refine load8_store32_congr _ _ _ _ _ (ebxSaved_memory s _ ?_)
  have height : (8 : UInt32).toNat = 8 := rfl
  intro j hj
  rw [UInt32.toNat_add, UInt32.toNat_sub, height]
  omega

-- The second pointer is read after the first store, which may change it.
theorem steps_features (s : State) (ecxPtr edxPtr eax ebx ecx edx : UInt32)
    (hfirst : s.word (s.esp + 4) = ecxPtr)
    (hcpuid : processor.cpuid 1 = (eax, ebx, ecx, edx))
    (hsecond : load32 (store32 s.memory ecxPtr.toNat ecx.toNat) (s.esp + 8).toNat =
      edxPtr.toNat) :
    State.steps processor cpuidLoadFeatures s = State.steps processor
      [.pop .ebx, .mov .ebp .esp, .pop .ebp] { ebxSaved s with
        eax := eax, ebx := edxPtr, ecx := ecx, edx := edx
        memory := store32 (store32 (ebxSaved s).memory ecxPtr.toNat ecx.toNat) edxPtr.toNat
          edx.toNat } := by
  have hanswer : State.step processor { ebxSaved s with eax := 1 } .cpuid =
      some { ebxSaved s with eax := eax, ebx := ebx, ecx := ecx, edx := edx } := by
    rw [State.step, hcpuid]
  have hword : (ebxSaved s).word ((ebxSaved s).ebp + 8) = ecxPtr :=
    (congrArg _ (frame_argument s.esp 4)).trans ((ebxSaved_word s 4 (by decide)).trans hfirst)
  have hpointer : State.step processor
      { ebxSaved s with eax := eax, ebx := ebx, ecx := ecx, edx := edx } (.load 8 .ebp .ebx) =
        some { ebxSaved s with eax := eax, ebx := ecxPtr, ecx := ecx, edx := edx } :=
    congrArg (fun w => some (State.mk { (ebxSaved s).toRegisters with
      eax := eax, ebx := w, ecx := ecx, edx := edx } (ebxSaved s).eflags (ebxSaved s).memory
        (ebxSaved s).outs)) hword
  have hword' : UInt32.ofNat (load32 (store32 (ebxSaved s).memory ecxPtr.toNat ecx.toNat)
      ((ebxSaved s).ebp + 12).toNat) = edxPtr := by
    have hplace : (ebxSaved s).ebp + 12 = s.esp + 8 := frame_argument s.esp 8
    rw [hplace, ebxSaved_stored_word, hsecond, UInt32.ofNat_toNat]
  have hpointer' : State.step processor { ebxSaved s with
      eax := eax, ebx := ecxPtr, ecx := ecx, edx := edx
      memory := store32 (ebxSaved s).memory ecxPtr.toNat ecx.toNat } (.load 12 .ebp .ebx) =
        some { ebxSaved s with
          eax := eax, ebx := edxPtr, ecx := ecx, edx := edx
          memory := store32 (ebxSaved s).memory ecxPtr.toNat ecx.toNat } :=
    congrArg (fun w => some (State.mk { (ebxSaved s).toRegisters with
      eax := eax, ebx := w, ecx := ecx, edx := edx } (ebxSaved s).eflags _ (ebxSaved s).outs)) hword'
  rw [cpuidLoadFeatures, State.steps_cons rfl, State.steps_cons rfl, State.steps_cons rfl,
    State.steps_cons rfl]
  refine (State.steps_cons hanswer _).trans ?_
  refine (State.steps_cons hpointer _).trans ?_
  rw [State.steps_cons rfl]
  dsimp only [State.get, State.setWord]
  rw [UInt32.add_zero]
  refine (State.steps_cons hpointer' _).trans ?_
  rw [State.steps_cons rfl]
  dsimp only [State.get, State.setWord]
  rw [UInt32.add_zero]

-- The second argument is what the first store leaves of it.
theorem cpuidLoadFeatures_exact (s : State) (ecxPtr edxPtr eax ebx ecx edx : UInt32)
    (hfirst : s.word (s.esp + 4) = ecxPtr)
    (hcpuid : processor.cpuid 1 = (eax, ebx, ecx, edx))
    (hsecond : load32 (store32 s.memory ecxPtr.toNat ecx.toNat) (s.esp + 8).toNat =
      edxPtr.toNat)
    (hecx : Apart (s.esp - 8).toNat 8 ecxPtr.toNat 4)
    (hedx : Apart (s.esp - 8).toNat 8 edxPtr.toNat 4)
    (hsep : Apart ecxPtr.toNat 4 edxPtr.toNat 4) :
    ∃ t, State.steps processor cpuidLoadFeatures s = some t ∧
      FeaturesLoaded s t ecxPtr edxPtr eax ecx edx := by
  have hcode := steps_features processor s ecxPtr edxPtr eax ebx ecx edx hfirst hcpuid hsecond
  have hsaved : (ebxSaved s).Stacked [s.ebx, s.ebp] := (framed_stacked s).push s.ebx (by simp)
  rw [← ebxSaved_esp] at hecx hedx
  have hkept := holds_store32 (holds_store32 hsaved ecx.toNat hecx) edx.toNat hedx
  have hebp : (ebxSaved s).ebp = (ebxSaved s).esp + 4 :=
    (UInt32.sub_add_cancel (s.esp - 4) 4).symm
  have hback : (ebxSaved s).esp + 8 = s.esp := by
    rw [ebxSaved_esp, UInt32.sub_add_cancel]
  refine ⟨_, hcode.trans (steps_ebx_restored processor _ s.ebx s.ebp hkept hebp), ?_⟩
  refine ⟨?_, ?_, ?_, rfl, rfl, fun x hx hxecx hxedx => ?_⟩
  · dsimp only
    rw [hback]
    rfl
  · dsimp only
    rw [load32_store32_of_apart _ _ hsep, load32_store32_self]
    exact Nat.mod_eq_of_lt ecx.toNat_lt
  · dsimp only
    rw [load32_store32_self]
    exact Nat.mod_eq_of_lt edx.toNat_lt
  · dsimp only
    rw [load8_store32_of_misses _ _ _ _ hxedx, load8_store32_of_misses _ _ _ _ hxecx,
      ebxSaved_memory s x hx]

theorem cpuidLoadFeatures_exact_sample :
    ∃ t, State.steps sampleProcessor cpuidLoadFeatures sampleCall = some t ∧
      FeaturesLoaded sampleCall t 0x9000 0x9010 0x306a9 0x7fbae3ff 0xbfebfbff := by
  refine cpuidLoadFeatures_exact sampleProcessor sampleCall 0x9000 0x9010 0x306a9 0x10800
    0x7fbae3ff 0xbfebfbff (by decide) rfl (by decide) ?_ ?_ ?_ <;>
  · unfold Apart Misses
    decide

end Features

section Fetch

theorem shifted_toNat (word : UInt32) : (word >>> 8).toNat = word.toNat / 256 := by
  rw [UInt32.toNat_shiftRight, Nat.shiftRight_eq_div_pow]
  rfl

theorem shifted_lt (word : UInt32) (h : 0 < word.toNat) : (word >>> 8).toNat < word.toNat := by
  rw [shifted_toNat]
  exact Nat.div_lt_self h (by decide)

-- One of the words goes to the name from `i` on, up to its last byte that is not zero. The
-- result is `none` for a store behind the name.
def storeChars (vendor_id : Vector UInt8 13) (i : Nat) (word : UInt32) :
    Option (Vector UInt8 13 × Nat) :=
  if 0 < word.toNat then
    if h : i < 13 then storeChars (vendor_id.set i (word &&& 0xff).toUInt8) (i + 1) (word >>> 8)
    else none
  else some (vendor_id, i)
termination_by word.toNat
decreasing_by
  exact shifted_lt word ‹_›

-- `buff` is what `loadCpuVendorName` stored.
def fetchCpuid (buff : Vector UInt32 3) (vendor_id : Vector UInt8 13) : Option (Vector UInt8 13) :=
  (storeChars vendor_id 0 buff[0]).bind fun (vendor_id, i) =>
    (storeChars vendor_id i buff[1]).bind fun (vendor_id, i) =>
      (storeChars vendor_id i buff[2]).map fun (vendor_id, _) => vendor_id.set 12 0

def chars (word : UInt32) : List UInt8 := (Nat.digits 256 word.toNat).map UInt8.ofNat

theorem chars_length_le (word : UInt32) : (chars word).length ≤ 4 := by
  rw [chars, List.length_map]
  exact (Nat.digits_length_le_iff (by decide) _).mpr word.toNat_lt

theorem chars_cons (word : UInt32) (h : 0 < word.toNat) :
    chars word = (word &&& 0xff).toUInt8 :: chars (word >>> 8) := by
  have hlow : (word &&& 0xff).toUInt8 = UInt8.ofNat (word.toNat % 256) := by
    apply UInt8.toNat_inj.mp
    rw [UInt32.toNat_toUInt8, UInt32.toNat_and, UInt8.toNat_ofNat']
    exact congrArg (· % 256) (Nat.and_two_pow_sub_one_eq_mod word.toNat 8)
  rw [chars, Nat.digits_def' (by decide) h, List.map_cons, ← shifted_toNat, ← hlow]
  rfl

-- The bytes of `cs` are stored, and behind them the name is the old one.
def Stored (old : Vector UInt8 13) (cs : List UInt8) (v : Vector UInt8 13) : Prop :=
  v.toList = cs ++ old.toList.drop cs.length

theorem Stored.set {old v : Vector UInt8 13} {cs : List UInt8} (h : Stored old cs v) (byte : UInt8)
    (hlt : cs.length < 13) : Stored old (cs ++ [byte]) (v.set cs.length byte) := by
  have hlen : cs.length < old.toList.length := by
    rw [Vector.length_toList]
    exact hlt
  rw [Stored, Vector.toList_set, h, List.set_append_right _ _ (Nat.le_refl _), Nat.sub_self,
    List.drop_eq_getElem_cons hlen, List.set_cons_zero, List.append_assoc, List.length_append]
  rfl

theorem storeChars_stored {old v : Vector UInt8 13} {cs : List UInt8} (h : Stored old cs v)
    (word : UInt32) (hlen : (cs ++ chars word).length ≤ 13) :
    ∃ v', storeChars v cs.length word = some (v', (cs ++ chars word).length) ∧
      Stored old (cs ++ chars word) v' := by
  generalize hi : cs.length = i
  fun_induction storeChars v i word generalizing cs with
  | case1 v i word hword hlt ih =>
      subst hi
      rw [chars_cons word hword, List.append_cons] at hlen ⊢
      exact ih (h.set _ hlt) hlen (by rw [List.length_append]; rfl)
  | case2 v i word hword hge =>
      rw [chars_cons word hword, List.length_append, List.length_cons] at hlen
      omega
  | case3 v i word hword =>
      have hnone : chars word = [] := by
        rw [chars, Nat.eq_zero_of_not_pos hword]
        rfl
      rw [hnone, List.append_nil, hi]
      exact ⟨v, rfl, h⟩

-- The bytes of the three words, as they are stored.
def name (buff : Vector UInt32 3) : List UInt8 := chars buff[0] ++ chars buff[1] ++ chars buff[2]

theorem name_length_le (buff : Vector UInt32 3) : (name buff).length ≤ 12 := by
  have h₀ := chars_length_le buff[0]
  have h₁ := chars_length_le buff[1]
  have h₂ := chars_length_le buff[2]
  simp only [name, List.length_append]
  omega

theorem storeChars_name (buff : Vector UInt32 3) (vendor_id : Vector UInt8 13) :
    ∃ v, fetchCpuid buff vendor_id = some (v.set 12 0) ∧ Stored vendor_id (name buff) v := by
  have hlen := name_length_le buff
  simp only [name, List.length_append] at hlen
  have hnone : Stored vendor_id [] vendor_id := by
    rw [Stored, List.length_nil, List.drop_zero, List.nil_append]
  obtain ⟨v₀, hstore₀, h₀⟩ := storeChars_stored hnone buff[0] (by
    rw [List.nil_append]
    omega)
  obtain ⟨v₁, hstore₁, h₁⟩ := storeChars_stored h₀ buff[1] (by
    simp only [List.nil_append, List.length_append]
    omega)
  obtain ⟨v₂, hstore₂, h₂⟩ := storeChars_stored h₁ buff[2] (by
    simp only [List.nil_append, List.length_append]
    omega)
  rw [List.nil_append] at hstore₀ hstore₁ hstore₂ h₂
  rw [List.length_nil] at hstore₀
  refine ⟨v₂, ?_, h₂⟩
  rw [fetchCpuid, hstore₀, Option.bind_some]
  dsimp only
  rw [hstore₁, Option.bind_some]
  dsimp only
  rw [hstore₂, Option.map_some]

theorem Stored.terminated {old v : Vector UInt8 13} {cs : List UInt8} (h : Stored old cs v)
    (hlen : cs.length ≤ 12) :
    (v.set 12 0).toList = cs ++ (old.toList.drop cs.length).take (12 - cs.length) ++ [0] := by
  have hsize : v.toList.length = 13 := Vector.length_toList
  rw [Vector.toList_set, List.set_eq_take_append_cons_drop, if_pos (by omega),
    List.drop_of_length_le (by omega), h, List.take_append, List.take_of_length_le hlen]

theorem Stored.same {old v : Vector UInt8 13} {cs rest : List UInt8} (h : Stored old cs v)
    (hold : old.toList = cs ++ rest) : v = old := by
  apply Vector.toList_inj.mp
  rw [h, hold, List.drop_left]

-- Whatever the processor answers, the name is the bytes of the answer and ends inside.
theorem fetchCpuid_exact (buff : Vector UInt32 3) (vendor_id : Vector UInt8 13) :
    ∃ v, fetchCpuid buff vendor_id = some v ∧
      v.toList = name buff ++ (vendor_id.toList.drop (name buff).length).take
        (12 - (name buff).length) ++ [0] ∧
      fetchCpuid buff v = some v := by
  obtain ⟨v, hfetch, hstored⟩ := storeChars_name buff vendor_id
  have hlist := hstored.terminated (name_length_le buff)
  refine ⟨v.set 12 0, hfetch, hlist, ?_⟩
  obtain ⟨again, hagain, hstored'⟩ := storeChars_name buff (v.set 12 0)
  rw [List.append_assoc] at hlist
  rw [hagain, hstored'.same hlist, Vector.set_set]

end Fetch

end PalleyOS.Cpuid
