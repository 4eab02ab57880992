import PalleyOS.Machine.Memory

namespace Machine

-- The part of the i386 that hand-written entry code uses: the general-purpose
-- registers, the stack in memory, the direction flag and byte port writes.
section I386

structure Registers where
  eax : UInt32
  ecx : UInt32
  edx : UInt32
  ebx : UInt32
  esp : UInt32
  ebp : UInt32
  esi : UInt32
  edi : UInt32
  deriving DecidableEq, Repr

structure Cpu extends Registers where
  direction : Bool
  memory : Memory
  outs : List (UInt8 × UInt8)

inductive Register where
  | eax | ecx | edx | ebx
  deriving DecidableEq, Repr

inductive Instr where
  | pushal
  | popal
  | cld
  | push (r : Register)
  | pop (r : Register)
  | movAl (value : UInt8)
  | outAl (port : UInt8)
  | addEsp (count : UInt32)
  | call
  deriving DecidableEq, Repr

def al (eax : UInt32) : UInt8 := UInt8.ofNat (eax.toNat % 256)

def withAl (eax : UInt32) (value : UInt8) : UInt32 :=
  UInt32.ofNat (eax.toNat / 256 * 256 + value.toNat)

namespace Cpu

def get (s : Cpu) : Register → UInt32
  | .eax => s.eax
  | .ecx => s.ecx
  | .edx => s.edx
  | .ebx => s.ebx

def set (s : Cpu) (value : UInt32) : Register → Cpu
  | .eax => { s with eax := value }
  | .ecx => { s with ecx := value }
  | .edx => { s with edx := value }
  | .ebx => { s with ebx := value }

def push (s : Cpu) (value : UInt32) : Cpu :=
  { s with
    esp := s.esp - 4
    memory := store32 s.memory (s.esp - 4).toNat value.toNat }

-- The word `offset` bytes above the stack pointer.
def stackWord (s : Cpu) (offset : Nat) : UInt32 :=
  UInt32.ofNat (load32 s.memory (s.esp.toNat + offset))

def pop (s : Cpu) (r : Register) : Cpu :=
  set { s with esp := s.esp + 4 } (s.stackWord 0) r

def pushal (s : Cpu) : Cpu :=
  (((((((s.push s.eax).push s.ecx).push s.edx).push s.ebx).push s.esp).push s.ebp).push
    s.esi).push s.edi

-- The stored stack pointer is skipped.
def popal (s : Cpu) : Cpu :=
  { s with
    edi := s.stackWord 0
    esi := s.stackWord 4
    ebp := s.stackWord 8
    ebx := s.stackWord 16
    edx := s.stackWord 20
    ecx := s.stackWord 24
    eax := s.stackWord 28
    esp := s.esp + 32 }

-- A callee is the change it makes between the call and its return. The return
-- address lies below the stack pointer of the caller, with all the callee's own.
def step (callee : Cpu → Cpu) (s : Cpu) : Instr → Cpu
  | .pushal => s.pushal
  | .popal => s.popal
  | .cld => { s with direction := false }
  | .push r => s.push (s.get r)
  | .pop r => s.pop r
  | .movAl value => { s with eax := withAl s.eax value }
  | .outAl port => { s with outs := s.outs ++ [(port, al s.eax)] }
  | .addEsp count => { s with esp := s.esp + count }
  | .call => callee s

def run (callee : Cpu → Cpu) (code : List Instr) (s : Cpu) : Cpu :=
  code.foldl (step callee) s

end Cpu

-- The words a block has saved on the stack when it makes its call.
def savedWords : List Instr → Nat
  | .pushal :: rest => 8 + savedWords rest
  | .push _ :: rest => 1 + savedWords rest
  | .cld :: rest => savedWords rest
  | _ => 0

-- The i386 calling convention for a callee with `args` argument words whose
-- caller keeps `frame` words on the stack. The callee may destroy eax, ecx and
-- edx, and the argument words are its own.
structure Cdecl (args frame : Nat) (s t : Cpu) : Prop where
  ebx : t.ebx = s.ebx
  esp : t.esp = s.esp
  ebp : t.ebp = s.ebp
  esi : t.esi = s.esi
  edi : t.edi = s.edi
  saved : ∀ i, 4 * args ≤ i → i < 4 * frame →
    load8 t.memory (s.esp.toNat + i) = load8 s.memory (s.esp.toNat + i)

theorem Cdecl.refl (args frame : Nat) (s : Cpu) : Cdecl args frame s s :=
  ⟨rfl, rfl, rfl, rfl, rfl, fun _ _ _ => rfl⟩

-- The words of `ws` lie on the stack from `sp` upwards, wrapping with the
-- address space.
def Holds (m : Memory) (sp : Nat) : List UInt32 → Prop
  | [] => True
  | w :: ws => load32 m sp = w.toNat ∧ Holds m (sp + 4) ws

theorem word_sub_sub (a b c : UInt32) : a - b - c = a - (b + c) := by
  rw [UInt32.sub_eq_add_neg, UInt32.sub_eq_add_neg, UInt32.sub_eq_add_neg, UInt32.neg_add,
    UInt32.add_assoc, UInt32.sub_eq_add_neg]

theorem Holds.mod (m : Memory) (sp sp' : Nat) (ws : List UInt32)
    (h : sp % 4294967296 = sp' % 4294967296) (hws : Holds m sp ws) : Holds m sp' ws := by
  induction ws generalizing sp sp' with
  | nil => trivial
  | cons w ws ih =>
      exact ⟨by rw [← load32_mod m sp sp' h]; exact hws.1, ih (sp + 4) (sp' + 4) (by omega) hws.2⟩

theorem Holds.congr (m m' : Memory) (sp : Nat) (ws : List UInt32)
    (h : ∀ i < 4 * ws.length, load8 m' (sp + i) = load8 m (sp + i)) (hws : Holds m sp ws) :
    Holds m' sp ws := by
  induction ws generalizing sp with
  | nil => trivial
  | cons w ws ih =>
      simp only [List.length_cons] at h
      refine ⟨?_, ih (sp + 4) (fun i hi => ?_) hws.2⟩
      · rw [load32_congr m m' sp (fun i hi => h i (by omega))]
        exact hws.1
      · rw [Nat.add_assoc]
        exact h (4 + i) (by omega)

-- What a convention-abiding callee leaves of the caller's words above its
-- arguments.
theorem Holds.of_cdecl {args frame : Nat} {s t : Cpu} (hc : Cdecl args frame s t)
    (ws : List UInt32) (hlen : args + ws.length ≤ frame)
    (hws : Holds s.memory (s.esp.toNat + 4 * args) ws) :
    Holds t.memory (t.esp.toNat + 4 * args) ws := by
  rw [hc.esp]
  refine Holds.congr s.memory t.memory _ ws (fun i hi => ?_) hws
  rw [Nat.add_assoc]
  exact hc.saved (4 * args + i) (by omega) (by omega)

theorem Cpu.push_holds (s : Cpu) (value : UInt32) (ws : List UInt32)
    (hlen : ws.length < 1000) (hws : Holds s.memory s.esp.toNat ws) :
    Holds (s.push value).memory (s.push value).esp.toNat (value :: ws) := by
  have hsp : (s.esp - 4).toNat = (s.esp.toNat + 4294967292) % 4294967296 := by
    rw [UInt32.toNat_sub]
    simp only [UInt32.reduceToNat]
    omega
  have hlt := s.esp.toNat_lt
  simp only [Cpu.push]
  refine ⟨?_, ?_⟩
  · rw [load32_store32_self]
    exact Nat.mod_eq_of_lt value.toNat_lt
  · refine Holds.mod _ s.esp.toNat _ ws (by omega) ?_
    refine Holds.congr s.memory _ _ ws (fun i hi => ?_) hws
    refine load8_store32_of_misses _ _ _ _ (fun j hj => ?_)
    omega

theorem Cpu.stackWord_of_load (s : Cpu) (offset : Nat) (w : UInt32)
    (h : load32 s.memory (s.esp.toNat + offset) = w.toNat) : s.stackWord offset = w := by
  unfold Cpu.stackWord
  rw [h]
  exact UInt32.ofNat_toNat

-- A byte whose word is unchanged has not to be told from the word: the argument
-- word of a callee is read back as it is.
theorem Cpu.stackWord_toNat (s : Cpu) (offset : Nat) :
    (s.stackWord offset).toNat = load32 s.memory (s.esp.toNat + offset) := by
  unfold Cpu.stackWord
  rw [UInt32.toNat_ofNat']
  exact Nat.mod_eq_of_lt (load32_lt _ _)

theorem Cpu.pushal_esp (s : Cpu) : s.pushal.esp = s.esp - 32 := by
  simp only [Cpu.pushal, Cpu.push]
  apply UInt32.toNat_inj.mp
  simp only [UInt32.toNat_sub, UInt32.reduceToNat]
  omega

theorem Cpu.pushal_holds_append (s : Cpu) (ws : List UInt32) (hlen : ws.length < 992)
    (hws : Holds s.memory s.esp.toNat ws) :
    Holds s.pushal.memory s.pushal.esp.toNat
      ([s.edi, s.esi, s.ebp, s.esp, s.ebx, s.edx, s.ecx, s.eax] ++ ws) := by
  have hax := s.push_holds s.eax ws (by omega) hws
  have hcx := Cpu.push_holds _ s.ecx _ (by simp only [List.length_cons]; omega) hax
  have hdx := Cpu.push_holds _ s.edx _ (by simp only [List.length_cons]; omega) hcx
  have hbx := Cpu.push_holds _ s.ebx _ (by simp only [List.length_cons]; omega) hdx
  have hsp := Cpu.push_holds _ s.esp _ (by simp only [List.length_cons]; omega) hbx
  have hbp := Cpu.push_holds _ s.ebp _ (by simp only [List.length_cons]; omega) hsp
  have hsi := Cpu.push_holds _ s.esi _ (by simp only [List.length_cons]; omega) hbp
  have hdi := Cpu.push_holds _ s.edi _ (by simp only [List.length_cons]; omega) hsi
  exact hdi

theorem Cpu.pushal_holds (s : Cpu) :
    Holds s.pushal.memory s.pushal.esp.toNat
      [s.edi, s.esi, s.ebp, s.esp, s.ebx, s.edx, s.ecx, s.eax] :=
  s.pushal_holds_append [] (by simp) trivial

-- What `popal` reads back, from the words the stack holds.
theorem Cpu.popal_registers (t : Cpu) (di si bp sp bx dx cx ax : UInt32)
    (h : Holds t.memory t.esp.toNat [di, si, bp, sp, bx, dx, cx, ax]) :
    t.popal.toRegisters =
      { eax := ax, ecx := cx, edx := dx, ebx := bx, esp := t.esp + 32, ebp := bp, esi := si,
        edi := di } := by
  simp only [Holds, Nat.add_assoc, Nat.reduceAdd] at h
  obtain ⟨h0, h1, h2, -, h4, h5, h6, h7, -⟩ := h
  simp only [Cpu.popal, stackWord_of_load t 0 di h0, stackWord_of_load t 4 si h1,
    stackWord_of_load t 8 bp h2, stackWord_of_load t 16 bx h4, stackWord_of_load t 20 dx h5,
    stackWord_of_load t 24 cx h6, stackWord_of_load t 28 ax h7]

-- Saving all registers around a call restores them, whatever the callee does
-- within the convention; only its argument word, which is the saved edi, is the
-- callee's to change.
theorem Cpu.popal_of_cdecl (s t : Cpu) (args : Nat) (hargs : args ≤ 1)
    (hc : Cdecl args 8 { s.pushal with direction := false } t) :
    t.popal.toRegisters =
      { s.toRegisters with edi := if args = 0 then s.edi else t.stackWord 0 } := by
  have hesp : t.esp + 32 = s.esp := by
    rw [hc.esp]
    simp only [Cpu.pushal_esp]
    exact UInt32.sub_add_cancel _ _
  have hall := s.pushal_holds
  by_cases h0 : args = 0
  · subst h0
    have ht := Holds.of_cdecl hc _ (by simp) hall
    rw [Nat.mul_zero, Nat.add_zero] at ht
    rw [Cpu.popal_registers t _ _ _ _ _ _ _ _ ht, hesp]
    simp
  · obtain rfl : args = 1 := by omega
    have ht := Holds.of_cdecl hc [s.esi, s.ebp, s.esp, s.ebx, s.edx, s.ecx, s.eax] (by simp) hall.2
    have hword := (t.stackWord_toNat 0).symm
    rw [Nat.add_zero] at hword
    rw [Cpu.popal_registers t (t.stackWord 0) _ _ _ _ _ _ _ ⟨hword, ht⟩, hesp]
    simp

theorem Cpu.pop_pop_registers (t : Cpu) (bx ax : UInt32)
    (h : Holds t.memory t.esp.toNat [bx, ax]) :
    ((t.pop .ebx).pop .eax).toRegisters =
      { t.toRegisters with ebx := bx, eax := ax, esp := t.esp + 8 } := by
  have hesp : t.esp + 4 + 4 = t.esp + 8 := UInt32.add_assoc _ _ _
  have hbx : t.stackWord 0 = bx := stackWord_of_load t 0 bx h.1
  have hax : (t.pop .ebx).stackWord 0 = ax := by
    refine stackWord_of_load _ 0 ax ?_
    rw [← h.2.1]
    refine load32_mod _ _ _ ?_
    simp only [Cpu.pop, Cpu.set, UInt32.toNat_add, UInt32.reduceToNat]
    omega
  rw [Cpu.pop, hax]
  simp only [Cpu.set, Cpu.pop, hbx, hesp]

-- Saving eax and ebx around a call restores them, ecx and edx are the callee's.
theorem Cpu.pop_pop_of_cdecl (s t : Cpu) (hc : Cdecl 0 2 ((s.push s.eax).push s.ebx) t) :
    ((t.pop .ebx).pop .eax).toRegisters = { s.toRegisters with ecx := t.ecx, edx := t.edx } := by
  have hsaved := Cpu.push_holds _ s.ebx _ (by simp) (s.push_holds s.eax [] (by simp) trivial)
  have hkept := Holds.of_cdecl hc _ (by simp) hsaved
  rw [Nat.mul_zero, Nat.add_zero] at hkept
  have hesp : s.esp - 4 - 4 + 8 = s.esp := by
    rw [word_sub_sub]
    exact UInt32.sub_add_cancel _ _
  rw [Cpu.pop_pop_registers t s.ebx s.eax hkept]
  simp only [hc.esp, hc.ebp, hc.esi, hc.edi, Cpu.push, hesp]

theorem al_withAl (eax : UInt32) (value : UInt8) : al (withAl eax value) = value := by
  have hv := value.toNat_lt
  unfold withAl al
  rw [← UInt8.toNat_inj, UInt8.toNat_ofNat', UInt32.toNat_ofNat']
  omega

theorem withAl_eq_iff (eax : UInt32) (value : UInt8) : withAl eax value = eax ↔ al eax = value := by
  have ha := eax.toNat_lt
  have hv := value.toNat_lt
  unfold withAl al
  rw [← UInt32.toNat_inj, ← UInt8.toNat_inj, UInt32.toNat_ofNat', UInt8.toNat_ofNat']
  omega

theorem withAl_withAl (eax : UInt32) (first second : UInt8) :
    withAl (withAl eax first) second = withAl eax second := by
  have ha := eax.toNat_lt
  have hf := first.toNat_lt
  have hs := second.toNat_lt
  unfold withAl
  rw [← UInt32.toNat_inj]
  simp only [UInt32.toNat_ofNat']
  omega

end I386

end Machine
