import PalleyOS.Machine.Numerals
import PalleyOS.Stdio

namespace PalleyOS.Stdio

open Machine

-- `size` bytes from `result` on are the caller's buffer, and `initial` is the memory
-- before anything was stored.
variable (initial : Memory) (result size : Nat)

-- Address `x` lies outside of the buffer.
def Outside (x : Nat) : Prop := ∀ j < size, x % 4294967296 ≠ result + j

-- `out` is in the buffer and nothing was stored outside of it.
structure Contents (out : List UInt8) (m : Memory) : Prop where
  holds : HoldsBytes m result out
  frame : ∀ x, Outside result size x → load8 m x = load8 initial x

structure Rendered (out : List UInt8) (s : Output) : Prop where
  index : s.result_i = out.length
  contents : Contents initial result size out s.memory

variable {initial : Memory} {result size : Nat} {out : List UInt8}

section Stores

-- A store behind what is already there.
theorem Contents.scratch {m : Memory} (h : Contents initial result size out m)
    (hfits : result + size ≤ 4294967296) (hroom : out.length < size) (value : Nat) :
    Contents initial result size out (store8 m (result + out.length) value) := by
  refine ⟨h.holds.congr (fun i hi => load8_store8_of_ne _ _ _ _ (by omega)), fun x hx => ?_⟩
  have hout := hx out.length hroom
  rw [load8_store8_of_ne _ _ _ _ (by omega)]
  exact h.frame x hx

theorem Contents.snoc {m : Memory} (h : Contents initial result size out m)
    (hfits : result + size ≤ 4294967296) (hroom : out.length < size) (byte : UInt8) :
    Contents initial result size (out ++ [byte])
      (store8 m (result + out.length) byte.toNat) := by
  have hbehind := h.scratch hfits hroom byte.toNat
  refine ⟨hbehind.holds.snoc byte ?_, hbehind.frame⟩
  rw [load8_store8_self, Nat.mod_eq_of_lt (UInt8.toNat_lt byte)]

theorem Rendered.put {s : Output} (h : Rendered initial result size out s)
    (hfits : result + size ≤ 4294967296) (hroom : out.length < size)
    (hindex : out.length + 1 < 4294967296) (byte : UInt8) :
    Rendered initial result size (out ++ [byte]) (s.put result byte.toNat) := by
  have hnext : (s.result_i + 1) % 4294967296 = (out ++ [byte]).length := by
    rw [List.length_append, List.length_singleton, h.index]
    omega
  refine ⟨hnext, ?_⟩
  have hstore := h.contents.snoc hfits hroom byte
  rw [← h.index] at hstore
  exact hstore

end Stores

-- All that the renderers do to the result is to append bytes to it.
section Appending

def Output.append (result : Nat) : List UInt8 → Output → Output
  | [], s => s
  | byte :: bytes, s => Output.append result bytes (s.put result byte.toNat)

theorem Output.append_buffer (result : Nat) (bytes : List UInt8) (s : Output) :
    (s.append result bytes).buffer = s.buffer := by
  induction bytes generalizing s with
  | nil => rfl
  | cons byte bytes ih => exact ih _

theorem Output.append_index (result : Nat) (bytes : List UInt8) (s : Output) (hne : bytes ≠ []) :
    (s.append result bytes).result_i = (s.result_i + bytes.length) % 4294967296 := by
  induction bytes generalizing s with
  | nil => exact absurd rfl hne
  | cons byte bytes ih =>
      cases bytes with
      | nil => rfl
      | cons next bytes =>
          rw [Output.append, ih _ (List.cons_ne_nil _ _)]
          simp only [Output.put, List.length_cons]
          omega

theorem Output.append_written (result : Nat) (bytes : List UInt8) (s : Output) (a : Nat) :
    a ∈ (s.append result bytes).written ↔
      a ∈ s.written ∨ ∃ k < bytes.length, a = (result + s.result_i + k) % 4294967296 := by
  induction bytes generalizing s with
  | nil => simp [Output.append]
  | cons byte bytes ih =>
      rw [Output.append, ih]
      simp only [Output.put, Output.store, List.mem_cons, List.length_cons]
      constructor
      · rintro ((rfl | hold) | ⟨k, hk, rfl⟩)
        · exact .inr ⟨0, Nat.succ_pos _, rfl⟩
        · exact .inl hold
        · exact .inr ⟨k + 1, Nat.succ_lt_succ hk, by omega⟩
      · rintro (hold | ⟨k, hk, rfl⟩)
        · exact .inl (.inr hold)
        · cases k with
          | zero => exact .inl (.inl rfl)
          | succ k => exact .inr ⟨k, Nat.lt_of_succ_lt_succ hk, by omega⟩

theorem store_mod (a b value : Nat) (s : Output) (h : a % 4294967296 = b % 4294967296) :
    s.store a value = s.store b value := by
  unfold Output.store store8
  rw [h]

-- The copy of a literal appends it, leaves the index to the caller, and writes a
-- terminator behind it.
theorem kstrcpy_append (result : Nat) (src : List UInt8) (s : Output) (dest index : Nat)
    (hdest : dest % 4294967296 = (result + index) % 4294967296) :
    (kstrcpy dest src s).2 =
      { (({ s with result_i := index }).append result src).store (dest + src.length) 0 with
        result_i := s.result_i } := by
  induction src generalizing s dest index with
  | nil => rfl
  | cons byte src ih =>
      have hstored : { s.store dest byte.toNat with result_i := (index + 1) % 4294967296 } =
          ({ s with result_i := index }).put result byte.toNat :=
        congrArg (fun t : Output => { t with result_i := (index + 1) % 4294967296 })
          (store_mod dest (result + index) byte.toNat s hdest)
      have hrest := ih (s.store dest byte.toNat) (dest + 1) ((index + 1) % 4294967296) (by omega)
      rw [hstored, Nat.add_assoc, Nat.add_comm 1] at hrest
      exact hrest

end Appending

-- The cells written so far are those of `out` and, where `nul` is set, the one
-- behind them with a terminator.
section Filled

variable (initial result size)

structure Filled (out : List UInt8) (nul : Bool) (s : Output) : Prop where
  rendered : Rendered initial result size out s
  written : ∀ a, a ∈ s.written ↔ ∃ i < out.length + nul.toNat, a = result + i
  terminated : nul = true → load8 s.memory (result + out.length) = 0

theorem Filled.start (memory : Memory) (result size : Nat) (stack : Nat → UInt8) :
    Filled memory result size [] false
      { memory := memory, result_i := 0, buffer := stack, written := [] } :=
  ⟨⟨rfl, HoldsBytes.nil memory result, fun _ _ => rfl⟩, fun _ => by simp, nofun⟩

variable {initial result size}

theorem Filled.holds {s : Output} (h : Filled initial result size out true s) :
    HoldsBytes s.memory result (out ++ [0]) :=
  h.rendered.contents.holds.snoc 0 (h.terminated rfl)

-- The cell behind `out` is written once more or for the first time.
theorem Filled.written_cons {nul : Bool} {s : Output} (h : Filled initial result size out nul s)
    (a : Nat) :
    a ∈ (result + out.length) :: s.written ↔ ∃ i < out.length + 1, a = result + i := by
  have hnul := nul.toNat_le
  rw [List.mem_cons, h.written a]
  constructor
  · rintro (rfl | ⟨i, hi, rfl⟩)
    · exact ⟨out.length, Nat.lt_succ_self _, rfl⟩
    · exact ⟨i, by omega, rfl⟩
  · rintro ⟨i, hi, rfl⟩
    by_cases hlast : i = out.length
    · exact .inl (by rw [hlast])
    · exact .inr ⟨i, by omega, rfl⟩

theorem Filled.put {nul : Bool} {s : Output} (h : Filled initial result size out nul s)
    (hfits : result + size ≤ 4294967296) (hroom : out.length < size)
    (hindex : out.length + 1 < 4294967296) (byte : UInt8) :
    Filled initial result size (out ++ [byte]) false (s.put result byte.toNat) := by
  refine ⟨h.rendered.put hfits hroom hindex byte, fun a => ?_, nofun⟩
  have haddress : (result + s.result_i) % 4294967296 = result + out.length := by
    rw [h.rendered.index]
    omega
  rw [List.length_append, List.length_singleton, Bool.toNat_false, Nat.add_zero,
    ← h.written_cons a, ← haddress]
  rfl

theorem Filled.append {nul : Bool} {s : Output} (bytes : List UInt8)
    (h : Filled initial result size out nul s) (hfits : result + size ≤ 4294967296)
    (hroom : out.length + bytes.length ≤ size) (hindex : out.length + bytes.length < 4294967296) :
    Filled initial result size (out ++ bytes) (nul && bytes.isEmpty) (s.append result bytes) := by
  induction bytes generalizing out nul s with
  | nil =>
      rw [List.append_nil, List.isEmpty_nil, Bool.and_true]
      exact h
  | cons byte bytes ih =>
      rw [List.length_cons] at hroom hindex
      have hrest := ih (h.put hfits (by omega) (by omega) byte)
        (by rw [List.length_append, List.length_singleton]; omega)
        (by rw [List.length_append, List.length_singleton]; omega)
      rw [Bool.false_and, List.append_assoc] at hrest
      rw [List.isEmpty_cons, Bool.and_false]
      exact hrest

theorem Filled.terminate {nul : Bool} {s : Output} (h : Filled initial result size out nul s)
    (hfits : result + size ≤ 4294967296) (hroom : out.length < size) {a : Nat}
    (ha : a % 4294967296 = result + out.length) :
    Filled initial result size out true (s.store a 0) := by
  have hsame : s.store a 0 = s.store (result + out.length) 0 := store_mod _ _ _ _ (by omega)
  have haddress : (result + out.length) % 4294967296 = result + out.length :=
    Nat.mod_eq_of_lt (by omega)
  rw [hsame]
  refine ⟨⟨h.rendered.index, h.rendered.contents.scratch hfits hroom 0⟩, fun b => ?_, fun _ => ?_⟩
  · rw [Bool.toNat_true, ← h.written_cons b, Output.store, haddress]
  · exact load8_store8_self _ _ _

end Filled

section Digits

theorem digitLoop_spec (base : Nat) (hbase : 1 < base) (fuel iter i : Nat)
    (buffer : Nat → UInt8) (hfuel : 0 < fuel) (hiter : iter < base ^ fuel) :
    ∃ buffer', digitLoop base fuel iter i buffer =
        some (i + (digitList base iter).length, buffer') ∧
      (List.range (i + (digitList base iter).length)).map buffer' =
        (List.range i).map buffer ++ (digitList base iter).map UInt8.ofNat ∧
      ∀ k, i + (digitList base iter).length ≤ k → buffer' k = buffer k := by
  induction fuel generalizing iter i buffer with
  | zero => exact absurd hfuel (Nat.lt_irrefl 0)
  | succ fuel ih =>
      have hstored : (List.range (i + 1)).map
          (Function.update buffer i (UInt8.ofNat (iter % base))) =
          (List.range i).map buffer ++ [UInt8.ofNat (iter % base)] := by
        rw [List.range_succ, List.map_append, List.map_singleton, Function.update_self]
        congr 1
        refine List.map_congr_left (fun k hk => Function.update_of_ne ?_ _ _)
        exact Nat.ne_of_lt (List.mem_range.mp hk)
      have hkept (k : Nat) (hk : i + 1 ≤ k) :
          Function.update buffer i (UInt8.ofNat (iter % base)) k = buffer k :=
        Function.update_of_ne (by omega) _ _
      rw [digitLoop, digitList_eq base iter hbase]
      by_cases hlast : iter / base = 0
      · simp only [if_pos hlast]
        exact ⟨_, rfl, hstored, hkept⟩
      · have hquotient : iter / base < base ^ fuel := by
          rw [Nat.pow_succ] at hiter
          exact Nat.div_lt_of_lt_mul (Nat.mul_comm base _ ▸ hiter)
        have hmore : 0 < fuel := by
          cases fuel with
          | zero => exact absurd (Nat.lt_one_iff.mp hquotient) hlast
          | succ fuel => exact Nat.succ_pos fuel
        obtain ⟨buffer', hloop, hdigits, hbeyond⟩ := ih (iter / base) (i + 1)
          (Function.update buffer i (UInt8.ofNat (iter % base))) hmore hquotient
        have hlength : i + 1 + (digitList base (iter / base)).length =
            i + (iter % base :: digitList base (iter / base)).length := by
          rw [List.length_cons]
          omega
        rw [hlength] at hloop hdigits hbeyond
        simp only [if_neg hlast]
        refine ⟨buffer', hloop, ?_, fun k hk => ?_⟩
        · rw [hdigits, hstored, List.append_assoc]
          rfl
        · rw [List.length_cons] at hk hbeyond
          exact (hbeyond k hk).trans (hkept k (by omega))

theorem emitDigits_append (result : Nat) (digit : UInt8 → UInt8) (count : Nat) (s : Output) :
    emitDigits result digit count s =
      s.append result (((List.range count).map s.buffer).reverse.map digit) := by
  induction count generalizing s with
  | zero => rfl
  | succ j ih =>
      rw [emitDigits, ih, List.range_succ, List.map_append, List.map_singleton,
        List.reverse_append, List.reverse_singleton, List.map_append, List.map_singleton]
      rfl

-- The digit buffer after the loop is the only trace besides the numeral.
theorem renderDigits_append (base : Nat) (digit : UInt8 → UInt8) (fuel result n : Nat) (s : Output)
    (hbase : 1 < base) (hdigit : ∀ d < base, digit (UInt8.ofNat d) = digitByte d)
    (hn : n < 4294967296) (hfuel : 32 ≤ fuel) :
    ∃ buffer, digitLoop base fuel n 0 s.buffer = some ((numeral base n).length, buffer) ∧
      (∀ k, (numeral base n).length ≤ k → buffer k = s.buffer k) ∧
      renderDigits base digit fuel result n s =
        some (({ s with buffer := buffer }).append result (numeral base n)) := by
  have hpow : n < base ^ fuel :=
    calc n < 2 ^ 32 := hn
      _ ≤ base ^ 32 := Nat.pow_le_pow_left hbase 32
      _ ≤ base ^ fuel := Nat.pow_le_pow_right (by omega) hfuel
  obtain ⟨buffer, hloop, hdigits, hbeyond⟩ :=
    digitLoop_spec base hbase fuel n 0 s.buffer (by omega) hpow
  rw [Nat.zero_add] at hloop hdigits hbeyond
  have hlength : (numeral base n).length = (digitList base n).length := by
    rw [numeral, List.length_map, List.length_reverse]
  have hsame : (((List.range (digitList base n).length).map buffer).reverse.map digit) =
      numeral base n := by
    rw [hdigits, List.range_zero, List.map_nil, List.nil_append, ← List.map_reverse, List.map_map]
    refine List.map_congr_left (fun d hd => hdigit d ?_)
    exact digitList_lt base n hbase d (List.mem_reverse.mp hd)
  rw [hlength]
  refine ⟨buffer, hloop, hbeyond, ?_⟩
  have hemit := emitDigits_append result digit (digitList base n).length { s with buffer := buffer }
  rw [hsame] at hemit
  rw [renderDigits, hloop, Option.map_some]
  exact congrArg some hemit

theorem decimalDigit_eq : ∀ d < 10, decimalDigit (UInt8.ofNat d) = digitByte d := by decide

theorem hexDigit_eq : ∀ d < 16, hex_digits.getD (UInt8.ofNat d).toNat 0 = digitByte d := by decide

end Digits

section Arguments

def signed (n : Int) : List UInt8 :=
  if n < 0 then 45 :: numeral 10 n.natAbs else numeral 10 n.natAbs

theorem renderedMinimum_eq : renderedMinimum = signed INT_MIN := by
  simp [renderedMinimum, signed, INT_MIN, numeral, digitList, digitByte]

theorem signed_minimum_length : (signed INT_MIN).length = 11 := by
  rw [← renderedMinimum_eq]
  rfl

theorem render_integer_minimum (fuel result : Nat) (s : Output) :
    render_integer fuel result INT_MIN s =
      some ((s.append result (signed INT_MIN)).store (result + s.result_i + 11) 0) := by
  have hcopied := kstrcpy_append result renderedMinimum s (result + s.result_i) s.result_i rfl
  have hindex := Output.append_index result renderedMinimum s (List.cons_ne_nil _ _)
  rw [render_integer, if_pos rfl]
  simp only [hcopied]
  rw [← renderedMinimum_eq, ← hindex]
  rfl

theorem render_integer_append (fuel result : Nat) (n : Int) (s : Output) (hlow : INT_MIN < n)
    (hhigh : n < 2147483648) (hfuel : 32 ≤ fuel) :
    ∃ buffer, digitLoop 10 fuel n.natAbs 0 s.buffer =
        some ((numeral 10 n.natAbs).length, buffer) ∧
      (∀ k, (numeral 10 n.natAbs).length ≤ k → buffer k = s.buffer k) ∧
      render_integer fuel result n s =
        some (({ s with buffer := buffer }).append result (signed n)) := by
  unfold render_integer signed
  rw [if_neg (Int.ne_of_gt hlow)]
  unfold INT_MIN at hlow
  by_cases hneg : n < 0
  · have habs : (n * -1).toNat = n.natAbs := by omega
    rw [if_pos hneg, if_pos hneg, habs]
    exact renderDigits_append 10 decimalDigit fuel result n.natAbs (s.put result 45) (by omega)
      decimalDigit_eq (by omega) hfuel
  · have habs : n.toNat = n.natAbs := by omega
    rw [if_neg hneg, if_neg hneg, habs]
    exact renderDigits_append 10 decimalDigit fuel result n.natAbs s (by omega) decimalDigit_eq
      (by omega) hfuel

theorem render_string_append (fuel p : Nat) (bytes : List UInt8) (s : Output)
    (hstring : HoldsString initial p bytes)
    (hapart : ∀ i ≤ bytes.length, Outside result size (p + i)) (hfuel : bytes.length < fuel)
    (h : Rendered initial result size out s) (hfits : result + size ≤ 4294967296)
    (hroom : out.length + bytes.length ≤ size) (hindex : out.length + bytes.length < 4294967296) :
    render_string result fuel p s = some (s.append result bytes) := by
  induction bytes generalizing fuel p out s with
  | nil =>
      cases fuel with
      | zero => exact absurd hfuel (Nat.lt_irrefl 0)
      | succ fuel =>
          have hend : load8 s.memory p = 0 :=
            (h.contents.frame p (hapart 0 (Nat.le_refl 0))).trans hstring.terminated
          rw [render_string, if_pos hend]
          rfl
  | cons byte bytes ih =>
      rw [List.length_cons] at hfuel hroom hindex
      cases fuel with
      | zero => exact absurd hfuel (Nat.not_lt_zero _)
      | succ fuel =>
          obtain ⟨hbyte, hne⟩ := hstring.head
          have hread : load8 s.memory p = byte.toNat :=
            (h.contents.frame p (hapart 0 (Nat.zero_le _))).trans hbyte
          rw [render_string, hread, if_neg hne]
          refine ih fuel (p + 1) (s.put result byte.toNat) hstring.tail (fun i hi => ?_) (by omega)
            (h.put hfits (by omega) (by omega) byte)
            (by rw [List.length_append, List.length_singleton]; omega)
            (by rw [List.length_append, List.length_singleton]; omega)
          have hnext := hapart (i + 1) (by rw [List.length_cons]; omega)
          rw [Nat.add_assoc, Nat.add_comm 1]
          exact hnext

end Arguments

end PalleyOS.Stdio
