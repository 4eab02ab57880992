import PalleyOS.Stdio.Renderers

namespace PalleyOS.Stdio

open Machine

section Appended

variable {result : Nat} {s : Output}

-- Every other byte is left as it was.
theorem Output.append_frame (bytes : List UInt8) (s : Output) (x : Nat)
    (hx : ∀ k < bytes.length, x % 4294967296 ≠ (result + s.result_i + k) % 4294967296) :
    load8 (s.append result bytes).memory x = load8 s.memory x := by
  induction bytes generalizing s with
  | nil => rfl
  | cons byte bytes ih =>
      rw [List.length_cons] at hx
      have hfirst : x % 4294967296 ≠ (result + s.result_i) % 4294967296 := hx 0 (Nat.succ_pos _)
      rw [Output.append, ih]
      · exact load8_store8_of_ne _ _ _ _ hfirst
      · intro k hk
        have hrest := hx (k + 1) (Nat.succ_lt_succ hk)
        simp only [Output.put]
        omega

theorem Output.append_holds (bytes : List UInt8) (s : Output) (hlength : bytes.length < 4294967296) :
    HoldsBytes (s.append result bytes).memory (result + s.result_i) bytes := by
  induction bytes generalizing s with
  | nil => exact HoldsBytes.nil _ _
  | cons byte bytes ih =>
      rw [List.length_cons] at hlength
      intro i hi
      cases i with
      | zero =>
          rw [Output.append, Nat.add_zero, Output.append_frame bytes]
          · exact (load8_store8_self _ _ _).trans (Nat.mod_eq_of_lt (UInt8.toNat_lt byte))
          · intro k hk
            simp only [Output.put]
            omega
      | succ i =>
          have hrest := ih (s.put result byte.toNat) (by omega) i (Nat.lt_of_succ_lt_succ hi)
          rw [Output.append, List.getElem_cons_succ, ← hrest]
          refine load8_mod _ _ _ ?_
          simp only [Output.put]
          omega

end Appended

section Exact

-- `bytes` is put to the result at the index, as the exact numeral of `value` and
-- with no more than 32 cells of the digit buffer, where it is used at all. Besides
-- the numeral only the byte behind it may change.
structure Renders (base fuel : Nat) (value : Int) (result : Nat) (s s' : Output)
    (bytes : List UInt8) : Prop where
  exactly : ExactNumeral base value bytes
  appended : HoldsBytes s'.memory (result + s.result_i) bytes
  index : s'.result_i = (s.result_i + bytes.length) % 4294967296
  frame : ∀ x, (∀ k ≤ bytes.length, x % 4294967296 ≠ (result + s.result_i + k) % 4294967296) →
    load8 s'.memory x = load8 s.memory x
  cells : s'.buffer = s.buffer ∨
    ∃ count ≤ 32, digitLoop base fuel value.natAbs 0 s.buffer = some (count, s'.buffer) ∧
      ∀ k, count ≤ k → s'.buffer k = s.buffer k

theorem numeral_length_le_32 (base n : Nat) (hbase : 1 < base) (hn : n < 4294967296) :
    (numeral base n).length ≤ 32 :=
  numeral_length_le base n 32 hbase (by omega) (hn.trans_le (Nat.pow_le_pow_left hbase 32))

theorem Renders.of_append {base fuel n result : Nat} {value : Int} {bytes : List UInt8}
    {buffer : Nat → UInt8} {s : Output} (hbase : 1 < base) (hvalue : value.natAbs = n)
    (hn : n < 4294967296) (hexact : ExactNumeral base value bytes) (hne : bytes ≠ [])
    (hlength : bytes.length ≤ 33)
    (hloop : digitLoop base fuel n 0 s.buffer = some ((numeral base n).length, buffer))
    (hbeyond : ∀ k, (numeral base n).length ≤ k → buffer k = s.buffer k) :
    Renders base fuel value result s (({ s with buffer := buffer }).append result bytes) bytes where
  exactly := hexact
  appended := Output.append_holds bytes _ (by omega)
  index := Output.append_index result bytes _ hne
  frame x hx := Output.append_frame bytes _ x fun k hk => hx k (Nat.le_of_lt hk)
  cells := by
    rw [Output.append_buffer, hvalue]
    exact .inr ⟨_, numeral_length_le_32 base n hbase hn, hloop, hbeyond⟩

theorem renderDigits_renders (base : Nat) (digit : UInt8 → UInt8) (fuel result n : Nat) (s : Output)
    (hbase : 1 < base) (hsmall : base ≤ 16)
    (hdigit : ∀ d < base, digit (UInt8.ofNat d) = digitByte d) (hn : n < 4294967296)
    (hfuel : 32 ≤ fuel) :
    ∃ s' bytes, renderDigits base digit fuel result n s = some s' ∧
      Renders base fuel n result s s' bytes := by
  obtain ⟨buffer, hloop, hbeyond, hdone⟩ :=
    renderDigits_append base digit fuel result n s hbase hdigit hn hfuel
  have hlength := numeral_length_le_32 base n hbase hn
  exact ⟨_, numeral base n, hdone, .of_append hbase (Int.natAbs_natCast n) hn
    (exactNumeral_numeral base n hbase hsmall) (numeral_ne_nil base n) (by omega) hloop hbeyond⟩

theorem exactNumeral_signed (n : Int) : ExactNumeral 10 n (signed n) := by
  unfold signed
  by_cases hneg : n < 0
  · have hexact := exactNumeral_minus 10 n.natAbs (by omega) (by omega) (by omega)
    rw [show -(n.natAbs : Int) = n by omega] at hexact
    rw [if_pos hneg]
    exact hexact
  · have hexact := exactNumeral_numeral 10 n.natAbs (by omega) (by omega)
    rw [show (n.natAbs : Int) = n by omega] at hexact
    rw [if_neg hneg]
    exact hexact

theorem signed_length_le (n : Int) (hn : n.natAbs < 4294967296) :
    signed n ≠ [] ∧ (signed n).length ≤ 33 := by
  have hlength := numeral_length_le_32 10 n.natAbs (by omega) hn
  unfold signed
  split
  · exact ⟨List.cons_ne_nil _ _, by rw [List.length_cons]; omega⟩
  · exact ⟨numeral_ne_nil 10 n.natAbs, by omega⟩

theorem render_integer_renders (fuel result : Nat) (n : Int) (s : Output) (hlow : INT_MIN ≤ n)
    (hhigh : n < 2147483648) (hfuel : 32 ≤ fuel) :
    ∃ s' bytes, render_integer fuel result n s = some s' ∧
      Renders 10 fuel n result s s' bytes := by
  by_cases hmin : n = INT_MIN
  · subst hmin
    have heleven := signed_minimum_length
    refine ⟨_, signed INT_MIN, render_integer_minimum fuel result s, ?_⟩
    refine ⟨exactNumeral_signed INT_MIN, ?_, ?_, fun x hx => ?_, .inl ?_⟩
    · refine (Output.append_holds (signed INT_MIN) s (by omega)).congr fun i hi => ?_
      exact load8_store8_of_ne _ _ _ _ (by omega)
    · exact Output.append_index result _ s (signed_length_le INT_MIN (by decide)).1
    · have hbehind := hx (signed INT_MIN).length (Nat.le_refl _)
      rw [heleven] at hbehind
      rw [Output.store, load8_store8_of_ne _ _ _ _ hbehind]
      exact Output.append_frame _ s x fun k hk => hx k (Nat.le_of_lt hk)
    · exact Output.append_buffer result _ s
  · obtain ⟨buffer, hloop, hbeyond, hdone⟩ := render_integer_append fuel result n s
      (lt_of_le_of_ne hlow (Ne.symm hmin)) hhigh hfuel
    unfold INT_MIN at hlow
    have hsmall : n.natAbs < 4294967296 := by omega
    obtain ⟨hne, hlength⟩ := signed_length_le n hsmall
    exact ⟨_, signed n, hdone, .of_append (by omega) rfl hsmall (exactNumeral_signed n) hne hlength
      hloop hbeyond⟩

-- For every word, wherever the result and its index are.
theorem numerals_exact (fuel result : Nat) (word : UInt32) (s : Output) (hfuel : 32 ≤ fuel) :
    (∃ s' bytes, render_integer fuel result word.toInt32.toInt s = some s' ∧
      Renders 10 fuel word.toInt32.toInt result s s' bytes) ∧
    (∃ s' bytes, render_unsigned_integer fuel result word.toNat s = some s' ∧
      Renders 10 fuel word.toNat result s s' bytes) ∧
    (∃ s' bytes, render_hexadecimal fuel result word.toNat s = some s' ∧
      Renders 16 fuel word.toNat result s s' bytes) ∧
    (∃ s' bytes, render_binary fuel result word.toNat s = some s' ∧
      Renders 2 fuel word.toNat result s s' bytes) := by
  have hword := word.toNat_lt
  refine ⟨?_, ?_, ?_, ?_⟩
  · exact render_integer_renders fuel result _ s (Int32.le_toInt _) (Int32.toInt_lt _) hfuel
  · exact renderDigits_renders 10 decimalDigit fuel result _ s (by omega) (by omega)
      decimalDigit_eq hword hfuel
  · exact renderDigits_renders 16 _ fuel result _ s (by omega) (by omega) hexDigit_eq hword hfuel
  · exact renderDigits_renders 2 decimalDigit fuel result _ s (by omega) (by omega)
      (fun d hd => decimalDigit_eq d (by omega)) hword hfuel

-- At the end of the address space.
def lastByte : Output :=
  { memory := fun _ => 0, result_i := 4294967295, buffer := fun _ => 0, written := [] }

theorem numerals_exact_last_byte :
    (∃ s' bytes, render_integer 32 0 (0x80000000 : UInt32).toInt32.toInt lastByte = some s' ∧
      Renders 10 32 (0x80000000 : UInt32).toInt32.toInt 0 lastByte s' bytes) ∧
    (∃ s' bytes, render_unsigned_integer 32 0 (0x80000000 : UInt32).toNat lastByte = some s' ∧
      Renders 10 32 (0x80000000 : UInt32).toNat 0 lastByte s' bytes) ∧
    (∃ s' bytes, render_hexadecimal 32 0 (0x80000000 : UInt32).toNat lastByte = some s' ∧
      Renders 16 32 (0x80000000 : UInt32).toNat 0 lastByte s' bytes) ∧
    (∃ s' bytes, render_binary 32 0 (0x80000000 : UInt32).toNat lastByte = some s' ∧
      Renders 2 32 (0x80000000 : UInt32).toNat 0 lastByte s' bytes) :=
  numerals_exact 32 0 0x80000000 lastByte (by decide)

end Exact

end PalleyOS.Stdio
