import PalleyOS.Shell

namespace PalleyOS.Shell

open Machine Keyboard

-- A session in which every key goes to the end of its line, in the characters of a
-- keyboard with two shifts and Caps Lock.
section Transcript

-- A key that moves the cursor or the view, or takes a character back.
def Moves (stroke : Stroke) : Prop :=
  stroke.release = false ∧
    stroke.code ∈ (if stroke.extended then [0x48, 0x4B, 0x4D, 0x50] else [0x0E] : List UInt8)

def Entry.Plain (entry : Entry) : Prop := ∀ stroke ∈ entry.body, ¬Moves stroke

def characterOf (shift : Bool) (stroke : Stroke) : UInt8 :=
  if shift then uppercase_scancode_set1.getD stroke.code.toNat 0
  else scancode_set1.getD stroke.code.toNat 0

-- The characters of the strokes behind the ones of `history`.
def textOf (history : List Stroke) : List Stroke → List UInt8
  | [] => []
  | stroke :: rest =>
      let history := history ++ [stroke]
      if stroke.Prints then characterOf (shiftHeld history) stroke :: textOf history rest
      else textOf history rest

def transcript (history : List Stroke) : List Entry → List UInt8
  | [] => []
  | entry :: rest =>
      let line := textOf history entry.strokes
      [62, 32] ++ line ++ ([10] ++ line ++ [10]) ++ transcript (history ++ entry.strokes) rest

end Transcript

section Writing

theorem tio_write_append (front back : List UInt8) (h : ∀ byte ∈ front, byte ≠ 0)
    (t : Tio.Terminal) :
    Tio.tio_write (front ++ back) t = Tio.tio_write back (Tio.tio_write front t) := by
  induction front generalizing t with
  | nil => rfl
  | cons byte rest ih =>
      rw [List.forall_mem_cons] at h
      have hrest := ih h.2 (Tio.tio_write_char_color byte .VGA_COLOR_WHITE t)
      simp only [Tio.tio_write, List.cons_append, Tio.tio_write_color, ne_eq, h.1, not_false_eq_true,
        if_true] at hrest ⊢
      exact hrest

theorem tio_write_simulates (bytes : List UInt8) (t : Tio.Terminal)
    (hrows : ∀ row, .view_row row ∈ (Tio.tio_write bytes (Tio.tio_init t)).log → row < 216) :
    Tio.Simulates (Tio.tio_write bytes (Tio.tio_init t))
      (Tio.Reference.initial.print bytes .VGA_COLOR_WHITE) := by
  have hcall := Tio.runs_eq [.write bytes] (Tio.tio_init t)
  rw [List.flatMap_singleton] at hcall
  change Tio.tio_write bytes (Tio.tio_init t) = _ at hcall
  have hprint : Tio.Reference.initial.print bytes .VGA_COLOR_WHITE = _ :=
    (Tio.Output.write bytes).print_eq Tio.Reference.initial
  rw [hcall] at hrows ⊢
  rw [hprint]
  refine Tio.steps_simulate _ _ _ ?_ (Tio.tio_init_sane t) (Tio.tio_init_simulates t) ?_
  · exact (Tio.Output.write bytes).printing
  · intro hreached
    exact absurd (hrows 216 hreached) (by decide)

end Writing

-- What the shifts say while no stroke is F12's.
section Shifts

theorem actsAs_covered (beyond mapped_code code : UInt8) (stroke : Stroke) (h : stroke.Covered) :
    actsAs beyond mapped_code code stroke = stroke.isPlain code := by
  have hother : stroke.isPlain F12 = false := by
    rw [Stroke.Covered, Stroke.Below] at h
    rw [Stroke.isPlain]
    cases hextended : stroke.extended with
    | true => rfl
    | false =>
        rw [if_neg (by rw [hextended]; exact Bool.false_ne_true)] at h
        have hne : stroke.code ≠ F12 := by
          rintro heq
          rw [heq] at h
          exact absurd h (by decide)
        simpa using hne
  rw [actsAs, hother, Bool.and_false, Bool.or_false]

theorem shiftHeld_covered (beyond : UInt8) (history : List Stroke)
    (h : ∀ stroke ∈ history, stroke.Covered) :
    shiftHeldWithF12 beyond history = shiftHeld history := by
  have hlast (mapped_code code : UInt8) :
      lastDown (actsAs beyond mapped_code code) history = lastDown (Stroke.isPlain code) history := by
    rw [lastDown, lastDown]
    congr 3
    exact List.filter_congr fun stroke hstroke =>
      actsAs_covered beyond mapped_code code stroke (h stroke hstroke)
  have hodd (mapped_code code : UInt8) :
      oddMakes (actsAs beyond mapped_code code) history = oddMakes (Stroke.isPlain code) history := by
    rw [oddMakes, oddMakes]
    congr 2
    apply List.countP_congr
    intro stroke hstroke
    rw [actsAs_covered beyond mapped_code code stroke (h stroke hstroke)]
  rw [shiftHeldWithF12, shiftHeld, hlast, hlast, hodd]

variable (behind : List UInt8 → Nat → UInt8)

theorem keyChar_eq (history : List Stroke) (h : ∀ stroke ∈ history, stroke.Covered)
    (stroke : Stroke) (hcovered : stroke.Covered) (hprints : stroke.Prints) :
    keyChar (stroke.key behind (statesAfter behind history fun _ => false)) =
      characterOf (shiftHeld (history ++ [stroke])) stroke := by
  have hall : ∀ other ∈ history ++ [stroke], other.Covered := by
    intro other hother
    rcases List.mem_append.mp hother with hold | hnew
    · exact h other hold
    · rw [List.mem_singleton.mp hnew]
      exact hcovered
  have hcapital := capitalized_held behind (history ++ [stroke])
    (fun other hother => covered_known (hall other hother)) history.length stroke
    (by rw [List.getElem?_append_right (Nat.le_refl _), Nat.sub_self]; rfl) hprints
  rw [List.take_left, List.take_of_length_le (by rw [List.length_append]; exact Nat.le_refl _),
    shiftHeld_covered _ _ hall] at hcapital
  obtain ⟨-, hcode, -⟩ := stroke.byte_spec hcovered.code_lt.1
  have hscancode : (stroke.key behind (statesAfter behind history fun _ => false)).scancode =
      stroke.code := by
    rw [Stroke.key, if_neg (by rw [hprints.1]; exact Bool.false_ne_true)]
    exact hcode
  rw [keyChar, hcapital, hscancode, characterOf]

end Shifts

section Typing

variable (behind : List UInt8 → Nat → UInt8)

structure AtEnd (r : Recorded) : Prop extends Whole r.toLine where
  at_end : r.index = r.size - 1

theorem special_moves : ∀ n < 120, special_keys_to_mapped.getD n 0 ∈
    [KEY_ARROW_LEFT, KEY_ARROW_RIGHT, KEY_ARROW_UP, KEY_ARROW_DOWN, KEY_BACKSPACE] →
    n ∈ [0x48, 0x4B, 0x4D, 0x50] := by decide

theorem set1_moves : ∀ n < 88, scancode_set1.getD n 0 = 63 → scancode_set1ToMapped.getD n 0 ∈
    [KEY_ARROW_LEFT, KEY_ARROW_RIGHT, KEY_ARROW_UP, KEY_ARROW_DOWN, KEY_BACKSPACE] →
    n = 0x0E := by decide

theorem mapped_code_moves (stroke : Stroke) (h : stroke.Covered) (hprints : ¬stroke.Prints)
    (hdown : stroke.release = false) (states : KeyStates)
    (hmapped : (stroke.key behind states).mapped_code ∈
      [KEY_ARROW_LEFT, KEY_ARROW_RIGHT, KEY_ARROW_UP, KEY_ARROW_DOWN, KEY_BACKSPACE]) :
    Moves stroke := by
  obtain ⟨-, hcode, -⟩ := stroke.byte_spec h.code_lt.1
  have hsame (n : Nat) (hn : n < 256) (hnat : stroke.code.toNat = n) :
      stroke.code = UInt8.ofNat n := by
    rw [← hnat, UInt8.ofNat_toNat]
  refine ⟨hdown, ?_⟩
  rw [Stroke.key] at hmapped
  rw [Stroke.Covered, Stroke.Below] at h
  cases hextended : stroke.extended with
  | true =>
      rw [hextended] at h hmapped
      simp only [if_true, e0Key, hcode, specialToMapped] at h hmapped ⊢
      rw [tableRead_inside behind special_keys_to_mapped stroke.code h] at hmapped
      have hmem := special_moves stroke.code.toNat h hmapped
      simp only [List.mem_cons, List.not_mem_nil, or_false] at hmem ⊢
      exact hmem.imp (hsame 0x48 (by decide)) (Or.imp (hsame 0x4B (by decide))
        (Or.imp (hsame 0x4D (by decide)) (hsame 0x50 (by decide))))
  | false =>
      rw [hextended] at h hmapped
      simp only [Bool.false_eq_true, if_false, plainKey, hcode, set1ToMapped] at h hmapped ⊢
      rw [tableRead_inside behind scancode_set1ToMapped stroke.code h] at hmapped
      have hunknown : scancode_set1.getD stroke.code.toNat 0 = 63 := by
        by_contra hcharacter
        exact hprints ⟨hextended, hdown, hcharacter⟩
      have hcode' := set1_moves stroke.code.toNat h hunknown hmapped
      exact List.mem_singleton.mpr (hsame 0x0E (by decide) hcode')

theorem processKey_idle (stroke : Stroke) (h : stroke.Covered) (hprints : ¬stroke.Prints)
    (hmoves : ¬Moves stroke) (states : KeyStates) (r : Recorded) :
    r.processKey (stroke.key behind states) = r := by
  have hinserts := (inserts_iff behind stroke h states).not.mpr hprints
  have hcodes := fun hdown => mt (mapped_code_moves behind stroke h hprints hdown states) hmoves
  obtain ⟨hpressed, -, -⟩ := stroke.byte_spec h.code_lt.1
  have hstroke : (stroke.key behind states).down_stroke = !stroke.release := by
    rw [Stroke.key]
    split <;> exact hpressed
  generalize stroke.key behind states = key at hinserts hcodes hstroke
  rw [Recorded.processKey]
  by_cases hup : key.down_stroke = false
  · rw [if_pos hup]
  · rw [if_neg hup]
    have hdown : stroke.release = false := by
      rw [hstroke, Bool.not_eq_false'] at hup
      exact Bool.eq_false_iff.mpr hup
    have hnone : key.printable = false :=
      Bool.eq_false_iff.mpr fun hprint => hinserts ⟨eq_true_of_ne_false hup, hprint⟩
    have hothers := hcodes hdown
    simp only [List.mem_cons, List.not_mem_nil, or_false, not_or] at hothers
    obtain ⟨hleft, hright, hhigher, hlower, hback⟩ := hothers
    rw [hnone, Bool.not_false, if_pos rfl, if_neg hleft, if_neg hright, if_neg hhigher,
      if_neg hlower, if_neg hback]

theorem processKey_types (key : MappedKey) (hinserts : Inserts key) (r : Recorded) (h : AtEnd r) :
    AtEnd (r.processKey key) ∧
      typed (r.processKey key).toLine = typed r.toLine ++ [keyChar key] ∧
      (r.processKey key).term = Tio.tio_write [keyChar key] r.term := by
  obtain ⟨hwhole, hedits⟩ := processKey_edits key r h.toWhole
  have hline : (r.processKey key).toLine = insertChar (keyChar key) r.toLine := by
    rw [processKey_line key r h.toBounded, processKey, if_neg (by rw [hinserts.1]; decide),
      hinserts.2]
    rfl
  have hat := h.at_end
  have hlow := h.size_low
  obtain ⟨hsize, hindex⟩ := insertChar_size (keyChar key) r.toLine
  have hterm : (insertChar (keyChar key) r.toLine).term = Tio.tio_write [keyChar key] r.term := by
    change Tio.tio_write [keyChar key]
      (if r.index ≠ r.size - 1 then Tio.tio_shift_right r.term else r.term) = _
    rw [if_neg (not_not_intro hat)]
  refine ⟨⟨hwhole, ?_⟩, ?_, hline ▸ hterm⟩
  · rw [hline, hsize, hindex, hat]
    omega
  · have hlength := typed_length r.toLine
    rw [hedits.text, if_pos hinserts, hat, ← hlength, List.insertIdx_length_self]

theorem characterOf_ne_zero (history : List Stroke) (h : ∀ stroke ∈ history, stroke.Covered)
    (stroke : Stroke) (hcovered : stroke.Covered) (hprints : stroke.Prints) :
    characterOf (shiftHeld (history ++ [stroke])) stroke ≠ 0 := by
  rw [← keyChar_eq (fun _ _ => 0) history h stroke hcovered hprints]
  exact character_ne_zero _ stroke hcovered hprints _

theorem processAll_types (strokes history : List Stroke)
    (hhistory : ∀ stroke ∈ history, stroke.Covered)
    (hcovered : ∀ stroke ∈ strokes, stroke.Covered) (hplain : ∀ stroke ∈ strokes, ¬Moves stroke)
    (r : Recorded) (h : AtEnd r) :
    let final :=
      processAll (keysFrom behind strokes (statesAfter behind history fun _ => false)) r
    typed final.toLine = typed r.toLine ++ textOf history strokes ∧
      final.term = Tio.tio_write (textOf history strokes) r.term ∧
      ∀ byte ∈ textOf history strokes, byte ≠ 0 := by
  intro final
  induction strokes generalizing history r with
  | nil => exact ⟨(List.append_nil _).symm, rfl, nofun⟩
  | cons stroke rest ih =>
      rw [List.forall_mem_cons] at hcovered hplain
      have hlater : ∀ other ∈ history ++ [stroke], other.Covered := by
        intro other hother
        rcases List.mem_append.mp hother with hold | hnew
        · exact hhistory other hold
        · rw [List.mem_singleton.mp hnew]
          exact hcovered.1
      have hstates : stroke.after behind (statesAfter behind history fun _ => false) =
          statesAfter behind (history ++ [stroke]) fun _ => false := by
        rw [statesAfter_append]
        rfl
      have hfinal : final = processAll
          (keysFrom behind rest (statesAfter behind (history ++ [stroke]) fun _ => false))
          (r.processKey (stroke.key behind (statesAfter behind history fun _ => false))) := by
        rw [← hstates]
        rfl
      rw [hfinal, textOf]
      by_cases hprints : stroke.Prints
      · have hinserts := (inserts_iff behind stroke hcovered.1
          (statesAfter behind history fun _ => false)).mpr hprints
        obtain ⟨hend, htyped, hterm⟩ := processKey_types _ hinserts r h
        obtain ⟨htypedRest, htermRest, hno_nul⟩ :=
          ih (history ++ [stroke]) hlater hcovered.2 hplain.2 _ hend
        have hbyte := characterOf_ne_zero history hhistory stroke hcovered.1 hprints
        rw [keyChar_eq behind history hhistory stroke hcovered.1 hprints] at htyped hterm
        have hwrite := tio_write_append [characterOf (shiftHeld (history ++ [stroke])) stroke]
          (textOf (history ++ [stroke]) rest) (by simpa using hbyte) r.term
        rw [if_pos hprints, htypedRest, htermRest, htyped, hterm, List.append_assoc,
          List.singleton_append, ← hwrite]
        exact ⟨rfl, rfl, List.forall_mem_cons.mpr ⟨hbyte, hno_nul⟩⟩
      · rw [if_neg hprints, processKey_idle behind stroke hcovered.1 hprints hplain.1]
        exact ih (history ++ [stroke]) hlater hcovered.2 hplain.2 r h

-- The terminal of a session is that of its transcript, written in one piece.
theorem terminalAfter_transcript (entries : List Entry) (hplain : ∀ entry ∈ entries, entry.Plain)
    (history : List Stroke) (hhistory : ∀ stroke ∈ history, stroke.Covered) (t : Tio.Terminal) :
    terminalAfter behind entries (statesAfter behind history fun _ => false) t =
      Tio.tio_write (transcript history entries) t := by
  induction entries generalizing history t with
  | nil => rfl
  | cons entry rest ih =>
      rw [List.forall_mem_cons] at hplain
      have hstill : ∀ stroke ∈ entry.strokes, ¬Moves stroke := by
        intro stroke hstroke
        rcases List.mem_append.mp hstroke with hbody | hlast
        · exact hplain.1 stroke hbody
        · rw [List.mem_singleton.mp hlast]
          rcases entry.ends with hend | hend <;> rw [hend] <;>
            simp [Moves, enterMake, keypadZeroMake]
      have hlater : ∀ stroke ∈ history ++ entry.strokes, stroke.Covered := by
        intro stroke hstroke
        exact (List.mem_append.mp hstroke).elim (hhistory stroke) (entry.all_covered stroke)
      obtain ⟨htyped, hterm, hno_nul⟩ := processAll_types behind entry.strokes history hhistory
        entry.all_covered hstill (start (Tio.tio_write [62, 32] t)) ⟨start_whole _, rfl⟩
      have hstates : statesAfter behind entry.strokes (statesAfter behind history fun _ => false) =
          statesAfter behind (history ++ entry.strokes) fun _ => false :=
        (statesAfter_append behind history entry.strokes _).symm
      have hround : roundTerminal behind entry (statesAfter behind history fun _ => false) t =
          Tio.tio_write ([10] ++ textOf history entry.strokes ++ [10])
            (Tio.tio_write (textOf history entry.strokes) (Tio.tio_write [62, 32] t)) := by
        rw [roundTerminal, entered, hterm, htyped]
        rfl
      rw [terminalAfter, hround, hstates, ih hplain.2 _ hlater, transcript]
      generalize textOf history entry.strokes = line at hno_nul
      have hprompt : ∀ byte ∈ ([62, 32] : List UInt8), byte ≠ 0 := by simp
      have hnewline : ∀ byte ∈ ([10] : List UInt8), byte ≠ 0 := by simp
      have hshown : ∀ byte ∈ [62, 32] ++ line, byte ≠ 0 := by
        rw [List.forall_mem_append]
        exact ⟨hprompt, hno_nul⟩
      have hechoed : ∀ byte ∈ [10] ++ line ++ [10], byte ≠ 0 := by
        rw [List.forall_mem_append, List.forall_mem_append]
        exact ⟨⟨hnewline, hno_nul⟩, hnewline⟩
      have hwhole : ∀ byte ∈ [62, 32] ++ line ++ ([10] ++ line ++ [10]), byte ≠ 0 :=
        List.forall_mem_append.mpr ⟨hshown, hechoed⟩
      rw [tio_write_append _ _ hwhole, tio_write_append _ _ hshown,
        tio_write_append [62, 32] line hprompt]

-- The session from the start of the terminal: what it shows is the transcript, and that
-- is up to the loss of the oldest page what a reader sees of it.
theorem session_shows_transcript (memory : Memory) (places : Places) (area size : Nat)
    (h : Placed memory area size places) (entries : List Entry)
    (hplain : ∀ entry ∈ entries, entry.Plain) (t : Tio.Terminal) (rest : List UInt8)
    (lefts : List Leftovers) (hcount : lefts.length = entries.length) :
    ∀ fuel ≥ 2052, ∃ final,
      rounds behind fuel places lefts
          { memory := memory
            terminal := Tio.tio_init t
            key_states := fun _ => false
            scancodes := (strokesOf entries).flatMap Stroke.encode ++ rest } = some final ∧
      final.scancodes = rest ∧
      final.terminal = Tio.tio_write (transcript [] entries) (Tio.tio_init t) ∧
      ((∀ row, .view_row row ∈ final.terminal.log → row < 216) →
        Tio.Simulates final.terminal
          (Tio.Reference.initial.print (transcript [] entries) .VGA_COLOR_WHITE)) := by
  intro fuel hfuel
  obtain ⟨m', hrounds, -⟩ := rounds_run behind entries places lefts hcount
    { memory := memory
      terminal := Tio.tio_init t
      key_states := fun _ => false
      scancodes := (strokesOf entries).flatMap Stroke.encode ++ rest } rest h rfl fuel hfuel
  have hterminal : terminalAfter behind entries (fun _ => false) (Tio.tio_init t) =
      Tio.tio_write (transcript [] entries) (Tio.tio_init t) := by
    apply terminalAfter_transcript behind entries hplain [] _ (Tio.tio_init t)
    simp
  refine ⟨_, hrounds, rfl, hterminal, fun hrows => ?_⟩
  dsimp only at hrows ⊢
  rw [hterminal] at hrows ⊢
  exact tio_write_simulates _ t hrows

theorem letterEntry_plain : letterEntry.Plain := by
  simp [Entry.Plain, letterEntry, Moves, letterMake]

theorem session_shows_transcript_letter :
    ∃ final,
      rounds (fun _ _ => 0) 2052 samplePlaces [noLeftovers]
          { memory := sampleBytes
            terminal := Tio.tio_init Tio.emptyTerminal
            key_states := fun _ => false
            scancodes := [0x1E, 0x52] } = some final ∧
      final.scancodes = [] ∧
      final.terminal = Tio.tio_write [62, 32, 97, 48, 10, 97, 48, 10]
        (Tio.tio_init Tio.emptyTerminal) ∧
      ((∀ row, .view_row row ∈ final.terminal.log → row < 216) →
        Tio.Simulates final.terminal
          (Tio.Reference.initial.print [62, 32, 97, 48, 10, 97, 48, 10] .VGA_COLOR_WHITE)) := by
  have hplain : ∀ entry ∈ [letterEntry], entry.Plain := by
    intro entry hentry
    rw [List.mem_singleton.mp hentry]
    exact letterEntry_plain
  exact session_shows_transcript (fun _ _ => 0) sampleBytes samplePlaces 64 1024 samplePlaced
    [letterEntry] hplain Tio.emptyTerminal [] [noLeftovers] rfl 2052 (Nat.le_refl _)

end Typing

end PalleyOS.Shell
