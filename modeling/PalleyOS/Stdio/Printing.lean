import PalleyOS.Stdio.Renderers

namespace PalleyOS.Stdio

open Machine

section Formats

inductive Directive where
  | d
  | u
  | x
  | b
  | s
  | c
  deriving DecidableEq

inductive Piece where
  | literal (byte : UInt8)
  | directive (directive : Directive)
  deriving DecidableEq

def Directive.letter : Directive → UInt8
  | .d => 100
  | .u => 117
  | .x => 120
  | .b => 98
  | .s => 115
  | .c => 99

def directiveOf (letter : UInt8) : Option Directive :=
  [.d, .u, .x, .b, .s, .c].find? (fun directive => directive.letter == letter)

-- The pieces of a format, `none` when one of its directives is not among the six.
def parse : List UInt8 → Option (List Piece)
  | [] => some []
  | [byte] => if byte = 37 then none else some [.literal byte]
  | byte :: letter :: rest =>
      if byte = 37 then
        (directiveOf letter).bind (fun directive =>
          (parse rest).map (fun pieces => .directive directive :: pieces))
      else (parse (letter :: rest)).map (fun pieces => .literal byte :: pieces)

-- The same as a relation, whose derivations follow the loop of `kvsprintf`.
inductive Spells : List UInt8 → List Piece → Prop where
  | nil : Spells [] []
  | literal (byte : UInt8) (rest : List UInt8) (pieces : List Piece) :
      byte ≠ 37 → Spells rest pieces → Spells (byte :: rest) (.literal byte :: pieces)
  | directive (directive : Directive) (rest : List UInt8) (pieces : List Piece) :
      Spells rest pieces →
      Spells (37 :: directive.letter :: rest) (.directive directive :: pieces)

theorem directiveOf_letter (directive : Directive) :
    directiveOf directive.letter = some directive := by
  cases directive <;> rfl

theorem letter_of_directiveOf (letter : UInt8) (directive : Directive)
    (h : directiveOf letter = some directive) : directive.letter = letter := by
  unfold directiveOf at h
  have hfound := List.find?_some h
  exact beq_iff_eq.mp hfound

theorem parse_spells (text : List UInt8) (pieces : List Piece) (h : parse text = some pieces) :
    Spells text pieces := by
  induction text using parse.induct generalizing pieces with
  | case1 =>
      cases h
      exact .nil
  | case2 =>
      rw [parse, if_pos rfl] at h
      cases h
  | case3 byte hplain =>
      rw [parse, if_neg hplain] at h
      cases h
      exact .literal byte [] [] hplain .nil
  | case4 letter rest ih =>
      rw [parse, if_pos rfl, Option.bind_eq_some_iff] at h
      obtain ⟨directive, hletter, h⟩ := h
      obtain ⟨others, hrest, rfl⟩ := Option.map_eq_some_iff.mp h
      rw [← letter_of_directiveOf letter directive hletter]
      exact .directive directive rest others (ih others hrest)
  | case5 byte letter rest hplain ih =>
      rw [parse, if_neg hplain] at h
      obtain ⟨others, hrest, rfl⟩ := Option.map_eq_some_iff.mp h
      exact .literal byte (letter :: rest) others hplain (ih others hrest)

theorem Spells.parse {text : List UInt8} {pieces : List Piece} (h : Spells text pieces) :
    parse text = some pieces := by
  induction h with
  | nil => rfl
  | literal byte rest pieces hplain _ ih =>
      cases rest with
      | nil =>
          cases ih
          rw [Stdio.parse, if_neg hplain]
      | cons letter rest => rw [Stdio.parse, if_neg hplain, ih, Option.map_some]
  | directive directive rest pieces _ ih =>
      rw [Stdio.parse, if_pos rfl, directiveOf_letter, Option.bind_some, ih, Option.map_some]

theorem Spells.append {first rest : List UInt8} {p q : List Piece} (hfirst : Spells first p)
    (hrest : Spells rest q) : Spells (first ++ rest) (p ++ q) := by
  induction hfirst with
  | nil => exact hrest
  | literal byte first p hplain _ ih => exact .literal byte (first ++ rest) (p ++ q) hplain ih
  | directive directive first p _ ih => exact .directive directive (first ++ rest) (p ++ q) ih

-- The pieces before the first directive that is not among the six, and whether
-- there is none.
def scan : List UInt8 → List Piece × Bool
  | [] => ([], true)
  | [byte] => if byte = 37 then ([], false) else ([.literal byte], true)
  | byte :: letter :: rest =>
      if byte = 37 then
        match directiveOf letter with
        | none => ([], false)
        | some directive => (.directive directive :: (scan rest).1, (scan rest).2)
      else (.literal byte :: (scan (letter :: rest)).1, (scan (letter :: rest)).2)

inductive Scans : List UInt8 → List Piece → Bool → Prop where
  | nil : Scans [] [] true
  | unknown (rest : List UInt8) :
      (∀ letter, rest.head? = some letter → directiveOf letter = none) → Scans (37 :: rest) [] false
  | literal (byte : UInt8) (rest : List UInt8) (pieces : List Piece) (all : Bool) :
      byte ≠ 37 → Scans rest pieces all → Scans (byte :: rest) (.literal byte :: pieces) all
  | directive (directive : Directive) (rest : List UInt8) (pieces : List Piece) (all : Bool) :
      Scans rest pieces all →
      Scans (37 :: directive.letter :: rest) (.directive directive :: pieces) all

theorem scan_scans (text : List UInt8) : Scans text (scan text).1 (scan text).2 := by
  induction text using scan.induct with
  | case1 => exact .nil
  | case2 =>
      rw [scan, if_pos rfl]
      exact .unknown [] nofun
  | case3 byte hplain =>
      rw [scan, if_neg hplain]
      exact .literal byte [] [] true hplain .nil
  | case4 letter rest hletter =>
      rw [scan, if_pos rfl, hletter]
      exact .unknown (letter :: rest) fun other hother => Option.some.inj hother ▸ hletter
  | case5 letter rest directive hletter ih =>
      rw [scan, if_pos rfl, hletter, ← letter_of_directiveOf letter directive hletter]
      exact .directive directive rest _ _ ih
  | case6 byte letter rest hplain ih =>
      rw [scan, if_neg hplain]
      exact .literal byte (letter :: rest) _ _ hplain ih

theorem Spells.scans {text : List UInt8} {pieces : List Piece} (h : Spells text pieces) :
    Scans text pieces true := by
  induction h with
  | nil => exact .nil
  | literal byte rest pieces hplain _ ih => exact .literal byte rest pieces true hplain ih
  | directive directive rest pieces _ ih => exact .directive directive rest pieces true ih

end Formats

-- What a format says about its arguments. `strings` gives the bytes of the string
-- that a word points to.
section Renderings

variable (strings : UInt32 → List UInt8)

def Directive.rendering : Directive → UInt32 → List UInt8
  | .d, arg => signed arg.toInt32.toInt
  | .u, arg => numeral 10 arg.toNat
  | .x, arg => numeral 16 arg.toNat
  | .b, arg => numeral 2 arg.toNat
  | .s, arg => strings arg
  | .c, arg => [UInt8.ofNat arg.toNat]

def rendering : List Piece → Stream' UInt32 → List UInt8
  | [], _ => []
  | .literal byte :: rest, args => byte :: rendering rest args
  | .directive directive :: rest, args =>
      directive.rendering strings args.head ++ rendering rest args.tail

-- The number of arguments that are used up.
def arguments : List Piece → Nat
  | [] => 0
  | .literal _ :: rest => arguments rest
  | .directive _ :: rest => arguments rest + 1

-- Every argument that is printed as a string has the property.
def Strings (P : UInt32 → Prop) : List Piece → Stream' UInt32 → Prop
  | [], _ => True
  | .literal _ :: rest, args => Strings P rest args
  | .directive directive :: rest, args =>
      (directive = .s → P args.head) ∧ Strings P rest args.tail

-- The one argument that is printed as a literal with its terminator.
def Directive.minimum (directive : Directive) (arg : UInt32) : Bool :=
  directive = .d ∧ arg.toInt32.toInt = INT_MIN

-- What prints last is a `%d` of `INT_MIN`.
def minimumLast : List Piece → Stream' UInt32 → Bool
  | [], _ => false
  | .literal _ :: rest, args => minimumLast rest args
  | .directive directive :: rest, args =>
      minimumLast rest args.tail ||
        (directive.minimum args.head && (rendering strings rest args.tail).isEmpty)

theorem rendering_append (p q : List Piece) (args : Stream' UInt32) :
    rendering strings (p ++ q) args =
      rendering strings p args ++ rendering strings q (args.drop (arguments p)) := by
  induction p generalizing args with
  | nil => rfl
  | cons piece rest ih =>
      cases piece with
      | literal byte => exact congrArg (byte :: ·) (ih args)
      | directive directive =>
          have htail : args.tail.drop (arguments rest) = args.drop (arguments rest + 1) :=
            (Stream'.drop_succ (arguments rest) args).symm
          rw [List.cons_append, rendering, ih, htail, rendering, List.append_assoc, arguments]

end Renderings

section Printing

variable {initial : Memory} {result size : Nat} {out : List UInt8}

-- The string at `p` is read where nothing is stored.
structure ReadString (initial : Memory) (result size p : Nat) (bytes : List UInt8) : Prop where
  holds : HoldsString initial p bytes
  apart : ∀ i ≤ bytes.length, Outside result size (p + i)

theorem ReadString.next {p : Nat} {byte : UInt8} {rest : List UInt8}
    (h : ReadString initial result size p (byte :: rest)) :
    ReadString initial result size (p + 1) rest := by
  refine ⟨h.holds.tail, fun i hi => ?_⟩
  have hafter := h.apart (i + 1) (by simpa using hi)
  rw [Nat.add_assoc, Nat.add_comm 1]
  exact hafter

-- What has been rendered so far is not in the way.
theorem Rendered.reads {s : Output} {p : Nat} {byte : UInt8} {rest : List UInt8}
    (h : Rendered initial result size out s)
    (hread : ReadString initial result size p (byte :: rest)) :
    load8 s.memory p = byte.toNat ∧ byte.toNat ≠ 0 := by
  obtain ⟨hbyte, hne⟩ := hread.holds.head
  exact ⟨(h.contents.frame p (hread.apart 0 (Nat.zero_le _))).trans hbyte, hne⟩

theorem Rendered.readsEnd {s : Output} {p : Nat} (h : Rendered initial result size out s)
    (hread : ReadString initial result size p []) : load8 s.memory p = 0 :=
  (h.contents.frame p (hread.apart 0 (Nat.le_refl 0))).trans hread.holds.terminated

-- What the loop still has to read: the text from `format_i` on and the strings that
-- its pieces print.
structure Unread (initial : Memory) (result size : Nat) (strings : UInt32 → List UInt8)
    (format format_i : Nat) (text : List UInt8) (pieces : List Piece) (args : Stream' UInt32) :
    Prop where
  reads : ReadString initial result size (format + format_i) text
  index : format_i + text.length < 4294967296
  strings : Strings (fun arg => ReadString initial result size arg.toNat (strings arg)) pieces args

section Unread

variable {strings : UInt32 → List UInt8} {format format_i : Nat} {rest : List UInt8}
  {pieces : List Piece} {args : Stream' UInt32} {s : Output}

theorem Unread.literal {byte : UInt8}
    (h : Unread initial result size strings format format_i (byte :: rest)
      (.literal byte :: pieces) args) :
    Unread initial result size strings format (format_i + 1) rest pieces args := by
  have hindex := h.index
  rw [List.length_cons] at hindex
  exact ⟨h.reads.next, by omega, h.strings⟩

theorem Unread.directive {directive : Directive}
    (h : Unread initial result size strings format format_i (37 :: directive.letter :: rest)
      (.directive directive :: pieces) args) :
    Unread initial result size strings format (format_i + 2) rest pieces args.tail := by
  have hindex := h.index
  rw [List.length_cons, List.length_cons] at hindex
  exact ⟨h.reads.next.next, by omega, h.strings.2⟩

-- The loop's reads of one piece, and its index behind it.
theorem Rendered.readsLiteral {byte : UInt8} (h : Rendered initial result size out s)
    (hunread : Unread initial result size strings format format_i (byte :: rest)
      (.literal byte :: pieces) args) (hplain : byte ≠ 37) :
    load8 s.memory (format + format_i) = byte.toNat ∧ byte.toNat ≠ 0 ∧ byte.toNat ≠ 37 ∧
    (format_i + 1) % 4294967296 = format_i + 1 := by
  obtain ⟨hread, hne⟩ := h.reads hunread.reads
  have hindex := hunread.index
  rw [List.length_cons] at hindex
  exact ⟨hread, hne, fun he => hplain (UInt8.toNat_inj.mp he), Nat.mod_eq_of_lt (by omega)⟩

theorem Rendered.readsDirective {directive : Directive} (h : Rendered initial result size out s)
    (hunread : Unread initial result size strings format format_i
      (37 :: directive.letter :: rest) (.directive directive :: pieces) args) :
    load8 s.memory (format + format_i) = 37 ∧
    load8 s.memory (format + (format_i + 1) % 4294967296) = directive.letter.toNat ∧
    ((format_i + 1) % 4294967296 + 1) % 4294967296 = format_i + 2 := by
  have hindex := hunread.index
  rw [List.length_cons, List.length_cons] at hindex
  have hnext : (format_i + 1) % 4294967296 = format_i + 1 := Nat.mod_eq_of_lt (by omega)
  rw [hnext]
  exact ⟨(h.reads hunread.reads).1, (h.reads hunread.reads.next).1, Nat.mod_eq_of_lt (by omega)⟩

-- Behind a '%' that no directive follows, the terminator of the format included.
theorem Rendered.readsUnknown (h : Rendered initial result size out s)
    (hunread : Unread initial result size strings format format_i (37 :: rest) [] args)
    (hletter : ∀ letter, rest.head? = some letter → directiveOf letter = none) :
    load8 s.memory (format + format_i) = 37 ∧
    ∀ directive : Directive,
      load8 s.memory (format + (format_i + 1) % 4294967296) ≠ directive.letter.toNat := by
  have hindex := hunread.index
  rw [List.length_cons] at hindex
  refine ⟨(h.reads hunread.reads).1, fun directive hsame => ?_⟩
  rw [Nat.mod_eq_of_lt (by omega)] at hsame
  cases rest with
  | nil =>
      have hzero : load8 s.memory (format + (format_i + 1)) = 0 := h.readsEnd hunread.reads.next
      rw [hzero] at hsame
      revert hsame
      cases directive <;> decide
  | cons letter rest =>
      have hread : load8 s.memory (format + (format_i + 1)) = letter.toNat :=
        (h.reads hunread.reads.next).1
      rw [hread] at hsame
      have hknown := directiveOf_letter directive
      rw [← UInt8.toNat_inj.mp hsame, hletter letter rfl] at hknown
      cases hknown

end Unread

theorem Filled.buffer {nul : Bool} {s : Output} (h : Filled initial result size out nul s)
    (buffer : Nat → UInt8) : Filled initial result size out nul { s with buffer := buffer } :=
  ⟨⟨h.rendered.index, h.rendered.contents⟩, h.written, h.terminated⟩

theorem Directive.eq_of_minimum {directive : Directive} {arg : UInt32}
    (h : directive.minimum arg = true) : directive = .d ∧ arg.toInt32.toInt = INT_MIN :=
  of_decide_eq_true h

theorem rendering_minimum_length (strings : UInt32 → List UInt8) {arg : UInt32}
    (h : arg.toInt32.toInt = INT_MIN) : (Directive.d.rendering strings arg).length = 11 := by
  rw [Directive.rendering, h]
  exact signed_minimum_length

theorem renderDirective_minimum (strings : UInt32 → List UInt8) (fuel result : Nat) (arg : UInt32)
    (s : Output) (h : arg.toInt32.toInt = INT_MIN) :
    renderDirective fuel result Directive.d.letter.toNat arg s =
      some (some ((s.append result (Directive.d.rendering strings arg)).store
        (result + s.result_i + 11) 0)) := by
  rw [Directive.rendering, h, ← render_integer_minimum fuel, ← h]
  rfl

theorem renderDirective_append (strings : UInt32 → List UInt8) (directive : Directive)
    (fuel result : Nat) (arg : UInt32) (s : Output) (hstring : directive ≠ .s)
    (hmin : directive.minimum arg = false) (hfuel : 32 ≤ fuel) :
    ∃ buffer, renderDirective fuel result directive.letter.toNat arg s =
      some (some (({ s with buffer := buffer }).append result (directive.rendering strings arg))) := by
  have harg := arg.toNat_lt
  cases directive with
  | d =>
      have hne : arg.toInt32.toInt ≠ INT_MIN := fun h => of_decide_eq_false hmin ⟨rfl, h⟩
      have hlow : INT_MIN ≤ arg.toInt32.toInt := Int32.le_toInt _
      obtain ⟨buffer, -, -, hdone⟩ := render_integer_append fuel result arg.toInt32.toInt s
        (lt_of_le_of_ne hlow hne.symm) (Int32.toInt_lt _) hfuel
      exact ⟨buffer, congrArg some hdone⟩
  | u =>
      obtain ⟨buffer, -, -, hdone⟩ := renderDigits_append 10 decimalDigit fuel result arg.toNat s
        (by omega) decimalDigit_eq harg hfuel
      exact ⟨buffer, congrArg some hdone⟩
  | x =>
      obtain ⟨buffer, -, -, hdone⟩ := renderDigits_append 16 (fun d => hex_digits.getD d.toNat 0)
        fuel result arg.toNat s (by omega) hexDigit_eq harg hfuel
      exact ⟨buffer, congrArg some hdone⟩
  | b =>
      obtain ⟨buffer, -, -, hdone⟩ := renderDigits_append 2 decimalDigit fuel result arg.toNat s
        (by omega) (fun d hd => decimalDigit_eq d (by omega)) harg hfuel
      exact ⟨buffer, congrArg some hdone⟩
  | s => exact absurd rfl hstring
  | c =>
      refine ⟨s.buffer, ?_⟩
      rw [Directive.rendering, Output.append, UInt8.toNat_ofNat']
      rfl

theorem renderDirective_unknown (fuel result letter : Nat) (arg : UInt32) (s : Output)
    (h : ∀ directive : Directive, letter ≠ directive.letter.toNat) :
    renderDirective fuel result letter arg s = none := by
  have hd : letter ≠ 100 := h .d
  have hu : letter ≠ 117 := h .u
  have hx : letter ≠ 120 := h .x
  have hb : letter ≠ 98 := h .b
  have hs : letter ≠ 115 := h .s
  have hc : letter ≠ 99 := h .c
  rw [renderDirective, if_neg hd, if_neg hu, if_neg hx, if_neg hb, if_neg hs, if_neg hc]

theorem renderDirective_filled (strings : UInt32 → List UInt8) (directive : Directive) (fuel : Nat)
    (arg : UInt32) (nul : Bool) (s : Output)
    (hstring : directive = .s → ReadString initial result size arg.toNat (strings arg))
    (hfuel : 32 ≤ fuel) (hlong : (directive.rendering strings arg).length < fuel)
    (h : Filled initial result size out nul s) (hfits : result + size ≤ 4294967296)
    (hroom : out.length + (directive.rendering strings arg).length +
      (directive.minimum arg).toNat ≤ size)
    (hindex : out.length + (directive.rendering strings arg).length < 4294967296) :
    ∃ s', renderDirective fuel result directive.letter.toNat arg s = some (some s') ∧
      Filled initial result size (out ++ directive.rendering strings arg)
        (directive.minimum arg || (nul && (directive.rendering strings arg).isEmpty)) s' := by
  cases hmin : directive.minimum arg with
  | true =>
      obtain ⟨rfl, harg⟩ := Directive.eq_of_minimum hmin
      rw [hmin, Bool.toNat_true] at hroom
      have heleven := rendering_minimum_length strings harg
      have hfilled := h.append (Directive.d.rendering strings arg) hfits (by omega) hindex
      refine ⟨_, renderDirective_minimum strings fuel result arg s harg, ?_⟩
      refine hfilled.terminate hfits (by rw [List.length_append]; omega) ?_
      rw [List.length_append, h.rendered.index]
      omega
  | false =>
      rw [hmin, Bool.toNat_false, Nat.add_zero] at hroom
      rw [Bool.false_or]
      by_cases hs : directive = .s
      · subst hs
        have hread := hstring rfl
        have hdone := render_string_append fuel arg.toNat (strings arg) s hread.holds hread.apart
          hlong h.rendered hfits hroom hindex
        exact ⟨_, congrArg some hdone, h.append (strings arg) hfits hroom hindex⟩
      · obtain ⟨buffer, hdone⟩ := renderDirective_append strings directive fuel result arg s hs hmin
          hfuel
        exact ⟨_, hdone, (h.buffer buffer).append _ hfits hroom hindex⟩

-- What is needed behind a directive, where `min` tells whether it is a `%d` of
-- `INT_MIN` and `last` is true of what comes after it.
theorem room_of_directive (all last min : Bool) (bytes : List UInt8) :
    bytes.length + (all || (last || (min && bytes.isEmpty))).toNat =
      max (bytes.length + (all || last).toNat) min.toNat := by
  cases all <;> cases last <;> cases min <;> cases bytes <;> simp

theorem terminated_append (all last min nul : Bool) (first rest : List UInt8) :
    (all || last || ((min || (nul && first.isEmpty)) && rest.isEmpty)) =
      (all || (last || (min && rest.isEmpty)) || (nul && (first ++ rest).isEmpty)) := by
  cases rest <;> cases first <;> cases all <;> cases last <;> cases min <;> cases nul <;> rfl

-- One round for each piece. `all` tells whether the loop gets to the end of the text.
theorem formatLoop_filled (strings : UInt32 → List UInt8) (fuel rounds format format_i : Nat)
    (text : List UInt8) (pieces : List Piece) (all : Bool) (args : Stream' UInt32) (nul : Bool)
    (s : Output) (hscans : Scans text pieces all)
    (hunread : Unread initial result size strings format format_i text pieces args)
    (hfuel : 32 ≤ fuel) (hlong : (rendering strings pieces args).length < fuel)
    (hrounds : text.length < rounds) (h : Filled initial result size out nul s)
    (hfits : result + size ≤ 4294967296)
    (hroom : out.length + (rendering strings pieces args).length +
      (all || minimumLast strings pieces args).toNat ≤ size)
    (hend : out.length + (rendering strings pieces args).length < 4294967296) :
    ∃ s', formatLoop fuel result format rounds format_i args s = some s' ∧
      Filled initial result size (out ++ rendering strings pieces args)
        (all || minimumLast strings pieces args ||
          (nul && (rendering strings pieces args).isEmpty)) s' := by
  induction hscans generalizing rounds format_i args out nul s with
  | nil =>
      cases rounds with
      | zero => exact absurd hrounds (Nat.not_lt_zero _)
      | succ rounds =>
          rw [formatLoop, h.rendered.readsEnd hunread.reads, if_pos rfl]
          rw [rendering, List.append_nil]
          refine ⟨_, rfl, h.terminate hfits hroom ?_⟩
          rw [h.rendered.index]
          exact Nat.mod_eq_of_lt (Nat.lt_of_lt_of_le (Nat.add_lt_add_left hroom result) hfits)
  | unknown rest hletter =>
      cases rounds with
      | zero => exact absurd hrounds (Nat.not_lt_zero _)
      | succ rounds =>
          obtain ⟨hpercent, hunknown⟩ := h.rendered.readsUnknown hunread hletter
          have hnonzero : (37 : Nat) ≠ 0 := by omega
          rw [formatLoop]
          simp only [hpercent, if_neg hnonzero, if_true,
            renderDirective_unknown fuel result _ args.head s hunknown]
          rw [rendering, List.append_nil, List.isEmpty_nil, Bool.and_true]
          exact ⟨s, rfl, h⟩
  | literal byte rest pieces all hplain _ ih =>
      rw [List.length_cons] at hrounds
      rw [rendering, List.length_cons] at hlong hroom hend
      rw [minimumLast] at hroom
      cases rounds with
      | zero => exact absurd hrounds (Nat.not_lt_zero _)
      | succ rounds =>
          obtain ⟨hread, hne, hpercent, hnext⟩ := h.rendered.readsLiteral hunread hplain
          rw [formatLoop]
          simp only [hread, if_neg hne, if_neg hpercent, hnext]
          obtain ⟨s', hdone, hfilled⟩ := ih rounds (format_i + 1) args false
            (s.put result byte.toNat) hunread.literal (by omega) (by omega)
            (h.put hfits (by omega) (by omega) byte)
            (by rw [List.length_append, List.length_singleton]; omega)
            (by rw [List.length_append, List.length_singleton]; omega)
          refine ⟨s', hdone, ?_⟩
          rw [List.append_assoc out, Bool.false_and] at hfilled
          rw [rendering, List.isEmpty_cons, Bool.and_false]
          exact hfilled
  | directive directive rest pieces all _ ih =>
      rw [List.length_cons, List.length_cons] at hrounds
      rw [rendering, List.length_append] at hlong hroom hend
      rw [minimumLast] at hroom
      cases rounds with
      | zero => exact absurd hrounds (Nat.not_lt_zero _)
      | succ rounds =>
          obtain ⟨hpercent, hletter, hnext⟩ := h.rendered.readsDirective hunread
          have hneeded := room_of_directive all (minimumLast strings pieces args.tail)
            (directive.minimum args.head) (rendering strings pieces args.tail)
          obtain ⟨u, hone, hfilled⟩ := renderDirective_filled strings directive fuel args.head nul s
            hunread.strings.1 hfuel (by omega) h hfits (by omega) (by omega)
          have hnonzero : (37 : Nat) ≠ 0 := by omega
          rw [formatLoop]
          simp only [hpercent, if_neg hnonzero, if_true, hletter, hone, hnext]
          obtain ⟨s', hdone, hrest⟩ := ih rounds (format_i + 2) args.tail _ u hunread.directive
            (by omega) (by omega) hfilled (by rw [List.length_append]; omega)
            (by rw [List.length_append]; omega)
          refine ⟨s', hdone, ?_⟩
          rw [List.append_assoc out, terminated_append] at hrest
          rw [rendering, minimumLast]
          exact hrest

theorem kvsprintf_filled (memory : Memory) (stack : Nat → UInt8) (result size format fuel : Nat)
    (text : List UInt8) (pieces : List Piece) (all : Bool) (args : Stream' UInt32)
    (strings : UInt32 → List UInt8) (hscans : Scans text pieces all)
    (hfits : result + size ≤ 4294967296) (hformat : ReadString memory result size format text)
    (hstrings : Strings (fun arg => ReadString memory result size arg.toNat (strings arg))
      pieces args)
    (hroom : (rendering strings pieces args).length +
      (all || minimumLast strings pieces args).toNat ≤ size)
    (hend : (rendering strings pieces args).length < 4294967296)
    (hfuel : text.length + (rendering strings pieces args).length + 33 ≤ fuel) :
    ∃ output, kvsprintf fuel result format args memory stack = some output ∧
      Filled memory result size (rendering strings pieces args)
        (all || minimumLast strings pieces args) output := by
  have hlength := hformat.holds.length_lt
  obtain ⟨output, hdone, hfilled⟩ := formatLoop_filled strings fuel fuel format 0 text pieces all
    args false _ hscans ⟨hformat, by omega, hstrings⟩ (by omega) (by omega) (by omega)
    (Filled.start memory result size stack) hfits (by rw [List.length_nil, Nat.zero_add]; exact hroom)
    (by rw [List.length_nil, Nat.zero_add]; exact hend)
  rw [List.nil_append, Bool.false_and, Bool.or_false] at hfilled
  exact ⟨output, hdone, hfilled⟩

-- The result holds the rendering and its terminator, nothing else is written, and
-- the rendering of two formats in a row is that of the one before that of the other.
theorem kvsprintf_exact (memory : Memory) (stack : Nat → UInt8) (result format : Nat)
    (text : List UInt8) (pieces : List Piece) (args : Stream' UInt32)
    (strings : UInt32 → List UInt8) (hparse : parse text = some pieces)
    (hfits : result + (rendering strings pieces args).length + 1 ≤ 4294967296)
    (hformat : ReadString memory result ((rendering strings pieces args).length + 1) format text)
    (hstrings : Strings (fun arg => ReadString memory result
      ((rendering strings pieces args).length + 1) arg.toNat (strings arg)) pieces args) :
    (∃ bound, ∀ fuel ≥ bound, ∃ output,
      kvsprintf fuel result format args memory stack = some output ∧
      HoldsBytes output.memory result (rendering strings pieces args ++ [0]) ∧
      ∀ x, Outside result ((rendering strings pieces args).length + 1) x →
        load8 output.memory x = load8 memory x) ∧
    ∀ first rest p q, text = first ++ rest → parse first = some p → parse rest = some q →
      rendering strings pieces args =
        rendering strings p args ++ rendering strings q (args.drop (arguments p)) := by
  refine ⟨⟨text.length + (rendering strings pieces args).length + 33, fun fuel hfuel => ?_⟩, ?_⟩
  · obtain ⟨output, hdone, hfilled⟩ := kvsprintf_filled memory stack result _ format fuel text pieces
      true args strings (parse_spells text pieces hparse).scans hfits hformat hstrings
      (Nat.le_refl _) (by omega) hfuel
    exact ⟨output, hdone, hfilled.holds, hfilled.rendered.contents.frame⟩
  · intro first rest p q htext hfirst hrest
    have happend := ((parse_spells first p hfirst).append (parse_spells rest q hrest)).parse
    rw [← htext, hparse] at happend
    rw [Option.some.inj happend]
    exact rendering_append strings p q args

-- The format "%d%s" at 16 and the string "a" at 21, printed with -5.
def sampleMemory : Memory := fun a => [37, 100, 37, 115, 0, 97, 0].getD (a - 16) 0

def sampleArgs : Stream' UInt32 := fun n => if n = 0 then 4294967291 else 21

theorem rendering_sample :
    rendering (fun _ => [97]) [.directive .d, .directive .s] sampleArgs = [45, 53, 97] := by
  have hvalue : (sampleArgs.head).toInt32.toInt = -5 := rfl
  simp [rendering, Directive.rendering, hvalue, signed, numeral, digitList, digitByte]

theorem kvsprintf_exact_sample :
    (∃ bound, ∀ fuel ≥ bound, ∃ output,
      kvsprintf fuel 64 16 sampleArgs sampleMemory (fun _ => 0) = some output ∧
      HoldsBytes output.memory 64
        (rendering (fun _ => [97]) [.directive .d, .directive .s] sampleArgs ++ [0]) ∧
      ∀ x, Outside 64 ((rendering (fun _ => [97]) [.directive .d, .directive .s]
          sampleArgs).length + 1) x →
        load8 output.memory x = load8 sampleMemory x) ∧
    ∀ first rest p q, [37, 100, 37, 115] = first ++ rest → parse first = some p →
      parse rest = some q →
      rendering (fun _ => [97]) [.directive .d, .directive .s] sampleArgs =
        rendering (fun _ => [97]) p sampleArgs ++
          rendering (fun _ => [97]) q (sampleArgs.drop (arguments p)) := by
  have hlength : (rendering (fun _ => [97]) [.directive .d, .directive .s] sampleArgs).length = 3 :=
    congrArg List.length rendering_sample
  apply kvsprintf_exact sampleMemory (fun _ => 0) 64 16 [37, 100, 37, 115]
    [.directive .d, .directive .s] sampleArgs (fun _ => [97]) rfl
  · rw [hlength]
    omega
  · rw [hlength]
    refine ⟨⟨?_, rfl, by simp⟩, fun i hi j hj => ?_⟩
    · unfold HoldsBytes
      decide
    · simp only [List.length_cons, List.length_nil] at hi
      omega
  · rw [hlength]
    refine ⟨nofun, fun _ => ⟨⟨?_, rfl, by simp⟩, fun i hi j hj => ?_⟩, trivial⟩
    · unfold HoldsBytes
      decide
    · have hpointer : (sampleArgs.tail.head).toNat = 21 := rfl
      rw [hpointer]
      simp only [List.length_cons, List.length_nil] at hi
      omega

end Printing

end PalleyOS.Stdio
