import PalleyOS.Stdio.Printing

namespace PalleyOS.Stdio

open Machine

-- The formatter once more, with what is written when the fuel is used up. The flag
-- tells whether the run is over.
section Recorded

def stringRun (result : Nat) : Nat → Nat → Output → Output × Bool
  | 0, _, s => (s, false)
  | fuel + 1, to_render, s =>
      if load8 s.memory to_render = 0 then (s, true)
      else stringRun result fuel (to_render + 1) (s.put result (load8 s.memory to_render))

-- A number is written as a whole or not at all.
def directiveRun (fuel result directive : Nat) (arg : UInt32) (s : Output) :
    Option (Output × Bool) :=
  if directive = 115 then some (stringRun result fuel arg.toNat s)
  else
    (renderDirective fuel result directive arg s).map
      (fun rendered => (rendered.getD s, rendered.isSome))

def formatRun (fuel result format : Nat) :
    Nat → Nat → Stream' UInt32 → Output → Output × Bool
  | 0, _, _, s => (s, false)
  | rounds + 1, format_i, args, s =>
      let c := load8 s.memory (format + format_i)
      let format_i := (format_i + 1) % 4294967296
      if c = 0 then (s.store (result + s.result_i) 0, true)
      else if c = 37 then
        match directiveRun fuel result (load8 s.memory (format + format_i)) args.head s with
        | none => (s, true)
        | some (s, false) => (s, false)
        | some (s, true) =>
            formatRun fuel result format rounds ((format_i + 1) % 4294967296) args.tail s
      else formatRun fuel result format rounds format_i args (s.put result c)

def kvsprintfRun (fuel result format : Nat) (args : Stream' UInt32) (memory : Memory)
    (stack : Nat → UInt8) : Output × Bool :=
  formatRun fuel result format fuel 0 args
    { memory := memory, result_i := 0, buffer := stack, written := [] }

-- What the run gives once it is over.
def ended (r : Output × Bool) : Option Output := if r.2 then some r.1 else none

theorem ended_eq_some {r : Output × Bool} {s : Output} (h : ended r = some s) : r = (s, true) := by
  obtain ⟨t, done⟩ := r
  cases done with
  | false => cases h
  | true => exact congrArg (·, true) (Option.some.inj h)

theorem stringRun_ended (result fuel to_render : Nat) (s : Output) :
    render_string result fuel to_render s = ended (stringRun result fuel to_render s) := by
  induction fuel generalizing to_render s with
  | zero => rfl
  | succ fuel ih =>
      rw [render_string, stringRun]
      by_cases hend : load8 s.memory to_render = 0
      · rw [if_pos hend, if_pos hend]
        rfl
      · rw [if_neg hend, if_neg hend, ih]

theorem directiveRun_ended (fuel result directive : Nat) (arg : UInt32) (s : Output) :
    renderDirective fuel result directive arg s =
      (directiveRun fuel result directive arg s).map ended := by
  unfold directiveRun
  by_cases hstring : directive = 115
  · subst hstring
    rw [if_pos rfl, Option.map_some, ← stringRun_ended]
    rfl
  · rw [if_neg hstring]
    cases renderDirective fuel result directive arg s with
    | none => rfl
    | some rendered => cases rendered <;> rfl

theorem formatRun_ended (fuel result format rounds format_i : Nat) (args : Stream' UInt32)
    (s : Output) :
    formatLoop fuel result format rounds format_i args s =
      ended (formatRun fuel result format rounds format_i args s) := by
  induction rounds generalizing format_i args s with
  | zero => rfl
  | succ rounds ih =>
      rw [formatLoop, formatRun]
      simp only [directiveRun_ended]
      split
      · rfl
      · split
        · generalize directiveRun fuel result _ args.head s = run
          obtain _ | ⟨u, _ | _⟩ := run
          · rfl
          · rfl
          · exact ih _ _ _
        · exact ih _ _ _

theorem kvsprintfRun_ended (fuel result format : Nat) (args : Stream' UInt32) (memory : Memory)
    (stack : Nat → UInt8) :
    kvsprintf fuel result format args memory stack =
      ended (kvsprintfRun fuel result format args memory stack) :=
  formatRun_ended fuel result format fuel 0 args _

end Recorded

-- Nothing that is written gets off the record, neither by later steps nor by more
-- fuel.
section Growing

def Grows (s s' : Output) : Prop := ∀ a ∈ s.written, a ∈ s'.written

theorem Grows.refl (s : Output) : Grows s s := fun _ h => h

theorem Grows.trans {s t u : Output} (h : Grows s t) (h' : Grows t u) : Grows s u :=
  fun a ha => h' a (h a ha)

theorem store_grows (a value : Nat) (s : Output) : Grows s (s.store a value) :=
  fun _ h => List.mem_cons_of_mem _ h

theorem put_grows (result value : Nat) (s : Output) : Grows s (s.put result value) :=
  fun _ h => List.mem_cons_of_mem _ h

theorem append_grows (result : Nat) (bytes : List UInt8) (s : Output) :
    Grows s (s.append result bytes) :=
  fun a ha => (Output.append_written result bytes s a).mpr (.inl ha)

theorem renderDigits_grows (base : Nat) (digit : UInt8 → UInt8) (fuel result n : Nat)
    (s s' : Output) (h : renderDigits base digit fuel result n s = some s') : Grows s s' := by
  obtain ⟨⟨count, buffer⟩, -, hdone⟩ := Option.map_eq_some_iff.mp h
  simp only [emitDigits_append] at hdone
  rw [← hdone]
  exact append_grows result _ { s with buffer := buffer }

theorem render_integer_grows (fuel result : Nat) (n : Int) (s s' : Output)
    (h : render_integer fuel result n s = some s') : Grows s s' := by
  by_cases hmin : n = INT_MIN
  · rw [hmin, render_integer_minimum] at h
    rw [← Option.some.inj h]
    exact (append_grows result _ s).trans (store_grows _ _ _)
  · rw [render_integer, if_neg hmin] at h
    by_cases hneg : n < 0
    · rw [if_pos hneg] at h
      exact (put_grows result 45 s).trans (renderDigits_grows 10 _ fuel result _ _ s' h)
    · rw [if_neg hneg] at h
      exact renderDigits_grows 10 decimalDigit fuel result _ s s' h

theorem stringRun_grows (result fuel to_render : Nat) (s : Output) :
    Grows s (stringRun result fuel to_render s).1 := by
  induction fuel generalizing to_render s with
  | zero => exact .refl s
  | succ fuel ih =>
      rw [stringRun]
      split
      · exact .refl s
      · exact (put_grows result _ s).trans (ih _ _)

theorem renderDirective_eq_none_iff (fuel result letter : Nat) (arg : UInt32) (s : Output) :
    renderDirective fuel result letter arg s = none ↔
      ∀ directive : Directive, letter ≠ directive.letter.toNat := by
  refine ⟨fun hnone directive hletter => ?_, renderDirective_unknown fuel result letter arg s⟩
  rw [hletter] at hnone
  cases directive <;> cases hnone

theorem known_of_some {fuel result letter : Nat} {arg : UInt32} {s : Output}
    {rendered : Option Output} (h : renderDirective fuel result letter arg s = some rendered) :
    ∃ directive : Directive, letter = directive.letter.toNat := by
  by_contra hunknown
  have hnone := (renderDirective_eq_none_iff fuel result letter arg s).mpr
    (fun directive hletter => hunknown ⟨directive, hletter⟩)
  rw [h] at hnone
  cases hnone

theorem renderDirective_grows (fuel result letter : Nat) (arg : UInt32) (s u : Output)
    (hstring : letter ≠ 115) (h : renderDirective fuel result letter arg s = some (some u)) :
    Grows s u := by
  obtain ⟨directive, rfl⟩ := known_of_some h
  cases directive with
  | d => exact render_integer_grows fuel result _ s u (Option.some.inj h)
  | u => exact renderDigits_grows 10 decimalDigit fuel result _ s u (Option.some.inj h)
  | x => exact renderDigits_grows 16 _ fuel result _ s u (Option.some.inj h)
  | b => exact renderDigits_grows 2 decimalDigit fuel result _ s u (Option.some.inj h)
  | s => exact absurd rfl hstring
  | c =>
      rw [← Option.some.inj (Option.some.inj h)]
      exact put_grows result _ s

theorem directiveRun_grows (fuel result letter : Nat) (arg : UInt32) (s : Output)
    (r : Output × Bool) (h : directiveRun fuel result letter arg s = some r) : Grows s r.1 := by
  unfold directiveRun at h
  by_cases hstring : letter = 115
  · rw [if_pos hstring] at h
    rw [← Option.some.inj h]
    exact stringRun_grows result fuel arg.toNat s
  · rw [if_neg hstring] at h
    obtain ⟨rendered, hrendered, rfl⟩ := Option.map_eq_some_iff.mp h
    cases rendered with
    | none => exact .refl s
    | some u => exact renderDirective_grows fuel result letter arg s u hstring hrendered

theorem formatRun_grows (fuel result format rounds format_i : Nat) (args : Stream' UInt32)
    (s : Output) : Grows s (formatRun fuel result format rounds format_i args s).1 := by
  induction rounds generalizing format_i args s with
  | zero => exact .refl s
  | succ rounds ih =>
      rw [formatRun]
      split
      · exact store_grows _ _ s
      · split
        · split
          · exact .refl s
          · next u hrun => exact directiveRun_grows fuel result _ args.head s (u, false) hrun
          · next u hrun =>
              exact (directiveRun_grows fuel result _ args.head s (u, true) hrun).trans (ih _ _ _)
        · exact (put_grows result _ s).trans (ih _ _ _)

-- `r'` has more fuel than `r`.
structure Extends (r r' : Output × Bool) : Prop where
  finished : r.2 = true → r' = r
  grows : Grows r.1 r'.1

theorem Extends.refl (r : Output × Bool) : Extends r r := ⟨fun _ => rfl, .refl r.1⟩

variable {fuel fuel' : Nat}

theorem digitLoop_mono (hle : fuel ≤ fuel') (base iter i : Nat) (buffer : Nat → UInt8)
    (r : Nat × (Nat → UInt8)) (h : digitLoop base fuel iter i buffer = some r) :
    digitLoop base fuel' iter i buffer = some r := by
  induction fuel generalizing fuel' iter i buffer with
  | zero => cases h
  | succ fuel ih =>
      cases fuel' with
      | zero => exact absurd hle (Nat.not_succ_le_zero fuel)
      | succ fuel' =>
          rw [digitLoop] at h ⊢
          by_cases hlast : iter / base = 0
          · simp only [if_pos hlast] at h ⊢
            exact h
          · simp only [if_neg hlast] at h ⊢
            exact ih (Nat.le_of_succ_le_succ hle) _ _ _ h

theorem renderDigits_mono (hle : fuel ≤ fuel') (base : Nat) (digit : UInt8 → UInt8) (result n : Nat)
    (s u : Output) (h : renderDigits base digit fuel result n s = some u) :
    renderDigits base digit fuel' result n s = some u := by
  obtain ⟨r, hloop, hdone⟩ := Option.map_eq_some_iff.mp h
  exact Option.map_eq_some_iff.mpr ⟨r, digitLoop_mono hle base n 0 s.buffer r hloop, hdone⟩

theorem render_integer_mono (hle : fuel ≤ fuel') (result : Nat) (n : Int) (s u : Output)
    (h : render_integer fuel result n s = some u) : render_integer fuel' result n s = some u := by
  unfold render_integer at h ⊢
  by_cases hmin : n = INT_MIN
  · rw [if_pos hmin] at h ⊢
    exact h
  · rw [if_neg hmin] at h ⊢
    by_cases hneg : n < 0
    · rw [if_pos hneg] at h ⊢
      exact renderDigits_mono hle 10 _ result _ _ u h
    · rw [if_neg hneg] at h ⊢
      exact renderDigits_mono hle 10 _ result _ s u h

theorem renderDirective_mono (hle : fuel ≤ fuel') (result letter : Nat) (arg : UInt32)
    (s u : Output) (hstring : letter ≠ 115)
    (h : renderDirective fuel result letter arg s = some (some u)) :
    renderDirective fuel' result letter arg s = some (some u) := by
  obtain ⟨directive, rfl⟩ := known_of_some h
  cases directive with
  | d => exact congrArg some (render_integer_mono hle result _ s u (Option.some.inj h))
  | u => exact congrArg some (renderDigits_mono hle 10 _ result _ s u (Option.some.inj h))
  | x => exact congrArg some (renderDigits_mono hle 16 _ result _ s u (Option.some.inj h))
  | b => exact congrArg some (renderDigits_mono hle 2 _ result _ s u (Option.some.inj h))
  | s => exact absurd rfl hstring
  | c => exact h

theorem stringRun_mono (hle : fuel ≤ fuel') (result to_render : Nat) (s : Output) :
    Extends (stringRun result fuel to_render s) (stringRun result fuel' to_render s) := by
  induction fuel generalizing fuel' to_render s with
  | zero => exact ⟨nofun, stringRun_grows result fuel' to_render s⟩
  | succ fuel ih =>
      cases fuel' with
      | zero => exact absurd hle (Nat.not_succ_le_zero fuel)
      | succ fuel' =>
          rw [stringRun, stringRun]
          split
          · exact .refl _
          · exact ih (Nat.le_of_succ_le_succ hle) _ _

theorem directiveRun_mono (hle : fuel ≤ fuel') (result letter : Nat) (arg : UInt32) (s : Output) :
    (directiveRun fuel result letter arg s = none ∧
      directiveRun fuel' result letter arg s = none) ∨
    ∃ r r', directiveRun fuel result letter arg s = some r ∧
      directiveRun fuel' result letter arg s = some r' ∧ Extends r r' := by
  unfold directiveRun
  by_cases hstring : letter = 115
  · rw [if_pos hstring, if_pos hstring]
    exact .inr ⟨_, _, rfl, rfl, stringRun_mono hle result arg.toNat s⟩
  · rw [if_neg hstring, if_neg hstring]
    cases hless : renderDirective fuel result letter arg s with
    | none =>
        have hunknown := (renderDirective_eq_none_iff fuel result letter arg s).mp hless
        rw [renderDirective_unknown fuel' result letter arg s hunknown]
        exact .inl ⟨rfl, rfl⟩
    | some rendered =>
        right
        cases rendered with
        | some u =>
            rw [renderDirective_mono hle result letter arg s u hstring hless]
            exact ⟨_, _, rfl, rfl, .refl _⟩
        | none =>
            obtain ⟨directive, hletter⟩ := known_of_some hless
            cases hmore : renderDirective fuel' result letter arg s with
            | none =>
                exact absurd hletter
                  ((renderDirective_eq_none_iff fuel' result letter arg s).mp hmore directive)
            | some rendered' =>
                refine ⟨_, _, rfl, rfl, nofun, ?_⟩
                cases rendered' with
                | none => exact .refl s
                | some u => exact renderDirective_grows fuel' result letter arg s u hstring hmore

theorem formatRun_mono (hle : fuel ≤ fuel') (result format rounds rounds' format_i : Nat)
    (args : Stream' UInt32) (s : Output) (hrounds : rounds ≤ rounds') :
    Extends (formatRun fuel result format rounds format_i args s)
      (formatRun fuel' result format rounds' format_i args s) := by
  induction rounds generalizing rounds' format_i args s with
  | zero => exact ⟨nofun, formatRun_grows fuel' result format rounds' format_i args s⟩
  | succ rounds ih =>
      cases rounds' with
      | zero => exact absurd hrounds (Nat.not_succ_le_zero rounds)
      | succ rounds' =>
          have hrest := Nat.le_of_succ_le_succ hrounds
          rw [formatRun, formatRun]
          split
          · exact .refl _
          · split
            · rcases directiveRun_mono hle result
                (load8 s.memory (format + (format_i + 1) % 4294967296)) args.head s with
                ⟨hless, hmore⟩ | ⟨⟨u, done⟩, r', hless, hmore, hextends⟩
              · rw [hless, hmore]
                exact .refl _
              · rw [hless, hmore]
                cases done with
                | true =>
                    rw [hextends.finished rfl]
                    exact ih rounds' _ _ _ hrest
                | false =>
                    obtain ⟨u', done'⟩ := r'
                    refine ⟨nofun, hextends.grows.trans ?_⟩
                    cases done' with
                    | false => exact .refl u'
                    | true => exact formatRun_grows fuel' result format rounds' _ _ u'
            · exact ih rounds' _ _ _ hrest

theorem kvsprintfRun_mono (hle : fuel ≤ fuel') (result format : Nat) (args : Stream' UInt32)
    (memory : Memory) (stack : Nat → UInt8) :
    Extends (kvsprintfRun fuel result format args memory stack)
      (kvsprintfRun fuel' result format args memory stack) :=
  formatRun_mono hle result format fuel fuel' 0 args _ hle

end Growing

section Overflow

variable {initial : Memory} {result size : Nat} {out : List UInt8}

-- Something is written outside of the `size` bytes from `result` on.
def Overflows (result size : Nat) (s : Output) : Prop :=
  ∃ a ∈ s.written, ∀ i < size, a ≠ result + i

theorem Overflows.grows {s s' : Output} (h : Overflows result size s) (hgrows : Grows s s') :
    Overflows result size s' := by
  obtain ⟨a, ha, hout⟩ := h
  exact ⟨a, hgrows a ha, hout⟩

-- The first byte behind.
theorem store_overflows (hsize : size < 4294967296) (s : Output) (a value : Nat)
    (ha : a % 4294967296 = (result + size) % 4294967296) :
    Overflows result size (s.store a value) := by
  refine ⟨a % 4294967296, List.mem_cons_self .., fun i hi => ?_⟩
  omega

theorem Rendered.put_overflows {s : Output} (h : Rendered initial result size out s)
    (hsize : size < 4294967296) (hfull : out.length = size) (byte : UInt8) :
    Overflows result size (s.put result byte.toNat) := by
  refine store_overflows hsize s _ byte.toNat ?_
  rw [h.index, hfull]

theorem append_overflows (hsize : size < 4294967296) (bytes : List UInt8) (s : Output)
    (hindex : s.result_i ≤ size) (hlong : size < s.result_i + bytes.length) :
    Overflows result size (s.append result bytes) := by
  refine ⟨(result + size) % 4294967296, ?_, fun i hi => by omega⟩
  refine (Output.append_written result bytes s _).mpr (.inr ⟨size - s.result_i, by omega, ?_⟩)
  congr 1
  omega

theorem stringRun_overflows (hfits : result + size ≤ 4294967296) (hsize : size < 4294967296)
    (fuel p : Nat) (bytes : List UInt8) (s : Output)
    (hread : ReadString initial result size p bytes) (h : Rendered initial result size out s)
    (hindex : out.length ≤ size) (hlong : size < out.length + bytes.length)
    (hfuel : bytes.length < fuel) : Overflows result size (stringRun result fuel p s).1 := by
  induction bytes generalizing fuel p out s with
  | nil =>
      rw [List.length_nil] at hlong
      omega
  | cons byte bytes ih =>
      rw [List.length_cons] at hlong hfuel
      cases fuel with
      | zero => exact absurd hfuel (Nat.not_lt_zero _)
      | succ fuel =>
          obtain ⟨hbyte, hne⟩ := h.reads hread
          rw [stringRun, hbyte, if_neg hne]
          by_cases hfull : out.length = size
          · exact (h.put_overflows hsize hfull byte).grows (stringRun_grows result fuel (p + 1) _)
          · refine ih fuel (p + 1) (s.put result byte.toNat) hread.next
              (h.put hfits (by omega) (by omega) byte) ?_ ?_ (by omega)
            · rw [List.length_append, List.length_singleton]
              omega
            · rw [List.length_append, List.length_singleton]
              omega

theorem directiveRun_overflows (strings : UInt32 → List UInt8) (directive : Directive) (fuel : Nat)
    (arg : UInt32) (s : Output) (hfits : result + size ≤ 4294967296) (hsize : size < 4294967296)
    (hstring : directive = .s → ReadString initial result size arg.toNat (strings arg))
    (hfuel : 32 ≤ fuel) (hlong : (directive.rendering strings arg).length < fuel)
    (h : Rendered initial result size out s) (hindex : out.length ≤ size)
    (hover : size < out.length + (directive.rendering strings arg).length +
      (directive.minimum arg).toNat) :
    ∃ r, directiveRun fuel result directive.letter.toNat arg s = some r ∧
      Overflows result size r.1 := by
  by_cases hs : directive = .s
  · subst hs
    exact ⟨_, if_pos rfl, stringRun_overflows hfits hsize fuel arg.toNat (strings arg) s
      (hstring rfl) h hindex hover hlong⟩
  · have hletter : directive.letter.toNat ≠ 115 := by
      cases directive <;> first | exact absurd rfl hs | decide
    unfold directiveRun
    rw [if_neg hletter]
    cases hmin : directive.minimum arg with
    | true =>
        obtain ⟨rfl, harg⟩ := Directive.eq_of_minimum hmin
        have heleven := rendering_minimum_length strings harg
        rw [hmin, Bool.toNat_true, heleven] at hover
        rw [renderDirective_minimum strings fuel result arg s harg]
        refine ⟨_, rfl, ?_⟩
        by_cases hlast : out.length + 11 = size
        · refine store_overflows hsize _ _ 0 ?_
          rw [h.index]
          omega
        · have hdigits : Overflows result size
              (s.append result (Directive.d.rendering strings arg)) :=
            append_overflows hsize _ s (h.index.trans_le hindex) (by rw [h.index, heleven]; omega)
          exact hdigits.grows (store_grows _ _ _)
    | false =>
        rw [hmin, Bool.toNat_false, Nat.add_zero] at hover
        obtain ⟨buffer, hdone⟩ := renderDirective_append strings directive fuel result arg s hs hmin
          hfuel
        rw [hdone]
        exact ⟨_, rfl, append_overflows hsize _ { s with buffer := buffer }
          (h.index.trans_le hindex) (h.index.symm ▸ hover)⟩

theorem formatRun_overflows (strings : UInt32 → List UInt8) (fuel rounds format format_i : Nat)
    (text : List UInt8) (pieces : List Piece) (all : Bool) (args : Stream' UInt32) (nul : Bool)
    (s : Output) (hscans : Scans text pieces all) (hfits : result + size ≤ 4294967296)
    (hsize : size < 4294967296)
    (hunread : Unread initial result size strings format format_i text pieces args)
    (hfuel : 32 ≤ fuel) (hlong : (rendering strings pieces args).length < fuel)
    (hrounds : text.length < rounds) (h : Filled initial result size out nul s)
    (hroom : out.length ≤ size)
    (hover : size < out.length + (rendering strings pieces args).length +
      (all || minimumLast strings pieces args).toNat) :
    Overflows result size (formatRun fuel result format rounds format_i args s).1 := by
  induction hscans generalizing rounds format_i args out nul s with
  | nil =>
      rw [rendering, List.length_nil, Bool.true_or, Bool.toNat_true] at hover
      cases rounds with
      | zero => exact absurd hrounds (Nat.not_lt_zero _)
      | succ rounds =>
          rw [formatRun, h.rendered.readsEnd hunread.reads, if_pos rfl]
          refine store_overflows hsize s _ 0 ?_
          rw [h.rendered.index, show out.length = size by omega]
  | unknown rest _ =>
      rw [rendering, minimumLast, List.length_nil, Bool.false_or, Bool.toNat_false] at hover
      omega
  | literal byte rest pieces all hplain _ ih =>
      rw [List.length_cons] at hrounds
      rw [rendering, List.length_cons] at hlong hover
      rw [minimumLast] at hover
      cases rounds with
      | zero => exact absurd hrounds (Nat.not_lt_zero _)
      | succ rounds =>
          obtain ⟨hread, hne, hpercent, hnext⟩ := h.rendered.readsLiteral hunread hplain
          rw [formatRun]
          simp only [hread, if_neg hne, if_neg hpercent, hnext]
          by_cases hfull : out.length = size
          · exact (h.rendered.put_overflows hsize hfull byte).grows
              (formatRun_grows fuel result format rounds _ args _)
          · refine ih rounds (format_i + 1) args false (s.put result byte.toNat) hunread.literal
              (by omega) (by omega) (h.put hfits (by omega) (by omega) byte) ?_ ?_
            · rw [List.length_append, List.length_singleton]
              omega
            · rw [List.length_append, List.length_singleton]
              omega
  | directive directive rest pieces all _ ih =>
      rw [List.length_cons, List.length_cons] at hrounds
      rw [rendering, List.length_append] at hlong hover
      rw [minimumLast] at hover
      cases rounds with
      | zero => exact absurd hrounds (Nat.not_lt_zero _)
      | succ rounds =>
          obtain ⟨hpercent, hletter, hnext⟩ := h.rendered.readsDirective hunread
          have hnonzero : (37 : Nat) ≠ 0 := by omega
          rw [formatRun]
          simp only [hpercent, if_neg hnonzero, if_true, hletter, hnext]
          by_cases hfit : out.length + (directive.rendering strings args.head).length +
              (directive.minimum args.head).toNat ≤ size
          · obtain ⟨u, hone, hfilled⟩ := renderDirective_filled strings directive fuel args.head nul
              s hunread.strings.1 hfuel (by omega) h hfits hfit (by omega)
            rw [directiveRun_ended] at hone
            obtain ⟨r, hrun, hended⟩ := Option.map_eq_some_iff.mp hone
            rw [hrun, ended_eq_some hended]
            refine ih rounds (format_i + 2) args.tail _ u hunread.directive (by omega) (by omega)
              hfilled ?_ ?_
            · rw [List.length_append]
              omega
            · have hneeded := room_of_directive all (minimumLast strings pieces args.tail)
                (directive.minimum args.head) (rendering strings pieces args.tail)
              rw [List.length_append]
              omega
          · obtain ⟨⟨u, done⟩, hrun, hfirst⟩ := directiveRun_overflows strings directive fuel
              args.head s hfits hsize hunread.strings.1 hfuel (by omega) h.rendered hroom
              (Nat.not_le.mp hfit)
            rw [hrun]
            cases done with
            | false => exact hfirst
            | true => exact hfirst.grows (formatRun_grows fuel result format rounds _ _ u)

end Overflow

section Buffer

-- `char result[1024]` of `kvprintf`.
def RESULT_SIZE : Nat := 1024

-- The cells for what is printed and for the terminator, where one is written last.
def cellsNeeded (strings : UInt32 → List UInt8) (text : List UInt8) (args : Stream' UInt32) : Nat :=
  (rendering strings (scan text).1 args).length +
    ((scan text).2 || minimumLast strings (scan text).1 args).toNat

theorem kvprintf_overflows (memory : Memory) (stack : Nat → UInt8) (result format : Nat)
    (text : List UInt8) (args : Stream' UInt32) (strings : UInt32 → List UInt8)
    (hfits : result + RESULT_SIZE ≤ 4294967296)
    (hformat : ReadString memory result RESULT_SIZE format text)
    (hstrings : Strings (fun arg => ReadString memory result RESULT_SIZE arg.toNat (strings arg))
      (scan text).1 args)
    (hover : RESULT_SIZE < cellsNeeded strings text args) :
    ∃ fuel, Overflows result RESULT_SIZE
      (kvsprintfRun fuel result format args memory stack).1 := by
  have hlength := hformat.holds.length_lt
  refine ⟨text.length + (rendering strings (scan text).1 args).length + 33, ?_⟩
  exact formatRun_overflows strings _ _ format 0 text _ _ args false _ (scan_scans text) hfits
    (by decide) ⟨hformat, by omega, hstrings⟩ (by omega) (by omega) (by omega)
    (Filled.start memory result RESULT_SIZE stack) (Nat.zero_le _)
    (by rw [List.length_nil, Nat.zero_add]; exact hover)

-- Every write is inside of the array, at any time and however long the run takes,
-- exactly when what is to be written has room in it.
theorem kvprintf_stays_inside_iff (memory : Memory) (stack : Nat → UInt8) (result format : Nat)
    (text : List UInt8) (args : Stream' UInt32) (strings : UInt32 → List UInt8)
    (hfits : result + RESULT_SIZE ≤ 4294967296)
    (hformat : ReadString memory result RESULT_SIZE format text)
    (hstrings : Strings (fun arg => ReadString memory result RESULT_SIZE arg.toNat (strings arg))
      (scan text).1 args) :
    (∀ fuel, ∀ a ∈ (kvsprintfRun fuel result format args memory stack).1.written,
      ∃ i < RESULT_SIZE, a = result + i) ↔
    cellsNeeded strings text args ≤ RESULT_SIZE := by
  constructor
  · intro hinside
    by_contra hover
    obtain ⟨fuel, a, ha, hout⟩ := kvprintf_overflows memory stack result format text args strings
      hfits hformat hstrings (Nat.not_le.mp hover)
    obtain ⟨i, hi, hcell⟩ := hinside fuel a ha
    exact hout i hi hcell
  · intro hroom fuel a ha
    have hlength : (rendering strings (scan text).1 args).length < 4294967296 := by
      unfold cellsNeeded RESULT_SIZE at hroom
      omega
    obtain ⟨output, hdone, hfilled⟩ := kvsprintf_filled memory stack result RESULT_SIZE format
      (fuel + (text.length + (rendering strings (scan text).1 args).length + 33)) text _ _ args
      strings (scan_scans text) hfits hformat hstrings hroom hlength (Nat.le_add_left _ _)
    rw [kvsprintfRun_ended] at hdone
    have hmore := kvsprintfRun_mono (Nat.le_add_right fuel
      (text.length + (rendering strings (scan text).1 args).length + 33)) result format args memory
      stack
    have hlater := hmore.grows a ha
    rw [ended_eq_some hdone] at hlater
    obtain ⟨i, hi, hcell⟩ := (hfilled.written a).mp hlater
    exact ⟨i, hi.trans_le hroom, hcell⟩

-- The format "%s" at 16 and, at 4096, as many letters as the array has cells.
def longMemory : Memory := fun a =>
  if a = 16 then 37 else if a = 17 then 115 else if 4096 ≤ a ∧ a < 5120 then 97 else 0

def longArgs : Stream' UInt32 := fun _ => 4096

theorem longMemory_format : ReadString longMemory 8192 RESULT_SIZE 16 [37, 115] := by
  refine ⟨⟨?_, rfl, by simp⟩, fun i hi j hj => ?_⟩
  · unfold HoldsBytes
    decide
  · simp only [List.length_cons, List.length_nil] at hi
    omega

theorem longMemory_string :
    ReadString longMemory 8192 RESULT_SIZE 4096 (List.replicate RESULT_SIZE 97) := by
  refine ⟨⟨fun i hi => ?_, ?_, fun byte hbyte => ?_⟩, fun i hi j hj => ?_⟩
  · rw [List.length_replicate] at hi
    unfold RESULT_SIZE at hi
    rw [List.getElem_replicate, load8, longMemory, Nat.mod_eq_of_lt (by omega), if_neg (by omega),
      if_neg (by omega), if_pos (by omega)]
  · rw [List.length_replicate]
    rfl
  · rw [(List.mem_replicate.mp hbyte).2]
    decide
  · rw [List.length_replicate] at hi
    unfold RESULT_SIZE at hi
    omega

theorem longMemory_strings :
    Strings (fun arg => ReadString longMemory 8192 RESULT_SIZE arg.toNat
      ((fun _ => List.replicate RESULT_SIZE 97) arg)) (scan [37, 115]).1 longArgs :=
  ⟨fun _ => longMemory_string, trivial⟩

theorem longMemory_needs :
    RESULT_SIZE < cellsNeeded (fun _ => List.replicate RESULT_SIZE 97) [37, 115] longArgs := by
  have hscan : scan [37, 115] = ([.directive .s], true) := rfl
  simp [cellsNeeded, hscan, rendering, Directive.rendering]

theorem kvprintf_stays_inside_iff_long :
    (∀ fuel, ∀ a ∈ (kvsprintfRun fuel 8192 16 longArgs longMemory (fun _ => 0)).1.written,
      ∃ i < RESULT_SIZE, a = 8192 + i) ↔
    cellsNeeded (fun _ => List.replicate RESULT_SIZE 97) [37, 115] longArgs ≤ RESULT_SIZE :=
  kvprintf_stays_inside_iff longMemory (fun _ => 0) 8192 16 [37, 115] longArgs
    (fun _ => List.replicate RESULT_SIZE 97) (by decide) longMemory_format longMemory_strings

theorem long_string_overflows :
    ¬∀ (memory : Memory) (stack : Nat → UInt8) (result format : Nat) (text : List UInt8)
      (args : Stream' UInt32) (strings : UInt32 → List UInt8),
      result + RESULT_SIZE ≤ 4294967296 → ReadString memory result RESULT_SIZE format text →
      Strings (fun arg => ReadString memory result RESULT_SIZE arg.toNat (strings arg))
        (scan text).1 args →
      ∀ fuel, ∀ a ∈ (kvsprintfRun fuel result format args memory stack).1.written,
        ∃ i < RESULT_SIZE, a = result + i := by
  intro h
  obtain ⟨fuel, a, ha, hout⟩ := kvprintf_overflows longMemory (fun _ => 0) 8192 16 [37, 115] longArgs
    (fun _ => List.replicate RESULT_SIZE 97) (by decide) longMemory_format longMemory_strings
    longMemory_needs
  obtain ⟨i, hi, hcell⟩ := h longMemory (fun _ => 0) 8192 16 [37, 115] longArgs
    (fun _ => List.replicate RESULT_SIZE 97) (by decide) longMemory_format longMemory_strings fuel a ha
  exact hout i hi hcell

end Buffer

end PalleyOS.Stdio
