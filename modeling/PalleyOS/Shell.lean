import PalleyOS.Console
import PalleyOS.Kstdlib
import PalleyOS.Keyboard.Buffer

namespace PalleyOS.Shell

open Machine Keyboard

-- The loop of `kShellStart`, with the keyboard up.
section Source

-- `scancodes` are the bytes that the keyboard has yet to send.
structure Session where
  memory : Memory
  terminal : Tio.Terminal
  key_states : KeyStates
  scancodes : List UInt8

-- Where the buffer, the two formats and the array of `kvprintf` are.
structure Places where
  buffer : Nat
  prompt : Nat
  echo : Nat
  result : Nat

-- What the two calls of `kprintf` in a round find behind their arguments and in the
-- arrays of the renderers.
structure Leftovers where
  prompt_args : Stream' UInt32
  prompt_stack : Nat → UInt8
  echo_args : Stream' UInt32
  echo_stack : Nat → UInt8

variable (behind : List UInt8 → Nat → UInt8)

-- The loop of `kbGetLine` with all that it leaves, `none` when it still waits after the
-- last byte. Where `handleE0Key` reads the next cell at once, the byte behind 0xE0 is
-- taken to be there. The one character that `kprintf` renders for each key does not show
-- in memory: its frame is apart from all that the shell keeps.
def lineLoop :
    List UInt8 → Bool → KeyStates → Recorded → Option (Recorded × KeyStates × List UInt8)
  | [], _, _, _ => none
  | code :: rest, extended, states, line =>
      if extended then
        let key := e0Key behind code
        let states := e0States behind code states
        if Ends key then some (line.processKey key, states, rest)
        else lineLoop rest false states (line.processKey key)
      else if code = 0xE0 then lineLoop rest true states line
      else
        let key := plainKey behind code states
        let states := plainStates behind code states
        if Ends key then some (line.processKey key, states, rest)
        else lineLoop rest false states (line.processKey key)

def bufferAt (buffer : Nat) (m : Memory) : Nat → UInt8 := fun i => UInt8.ofNat (load8 m (buffer + i))

def writeBack (buffer : Nat) (bytes : Nat → UInt8) (m : Memory) : Memory := fun x =>
  if sub32 x buffer < 512 then bytes (sub32 x buffer) else m x

instance (r : Recorded) : Decidable (Within r) :=
  inferInstanceAs (Decidable (∀ a ∈ r.accesses, 0 ≤ a.index ∧ a.index < 512))

-- `none` as well when an access leaves the buffer.
def kbGetLine (buffer : Nat) (s : Session) : Option Session :=
  (lineLoop behind s.scancodes false s.key_states
    { start s.terminal with buffer := bufferAt buffer s.memory }).bind
      fun (line, key_states, scancodes) =>
    if Within line then
      some
        { memory := writeBack buffer line.buffer s.memory
          terminal := line.term
          key_states := key_states
          scancodes := scancodes }
    else none

def round (fuel : Nat) (places : Places) (left : Leftovers) (s : Session) : Option Session :=
  (Console.kvprintf fuel places.result places.prompt left.prompt_args left.prompt_stack
    ⟨s.memory, s.terminal⟩).bind fun console =>
  (kbGetLine behind places.buffer
    { s with
      memory := Kstdlib.kmemset places.buffer 0 512 console.memory
      terminal := console.terminal }).bind fun s =>
  (Console.kvprintf fuel places.result places.echo
    (Stream'.cons (UInt32.ofNat places.buffer) left.echo_args) left.echo_stack
    ⟨s.memory, s.terminal⟩).map fun console =>
  { s with memory := console.memory, terminal := console.terminal }

def rounds (fuel : Nat) (places : Places) : List Leftovers → Session → Option Session
  | [], s => some s
  | left :: rest, s => (round behind fuel places left s).bind (rounds fuel places rest)

end Source

instance (stroke : Stroke) : Decidable stroke.Prints :=
  inferInstanceAs (Decidable (stroke.extended = false ∧ stroke.release = false ∧
    scancode_set1.getD stroke.code.toNat 0 ≠ 63))

-- A line as it is typed: no stroke before the last one ends it, and it fits into the
-- buffer.
structure Entry where
  body : List Stroke
  last : Stroke
  covered : ∀ stroke ∈ body, stroke.Covered
  goes_on : ∀ stroke ∈ body, stroke ≠ enterMake ∧ stroke ≠ keypadZeroMake
  ends : last = enterMake ∨ last = keypadZeroMake
  short : (body ++ [last]).countP (fun stroke => decide stroke.Prints) < 512

def Entry.strokes (entry : Entry) : List Stroke := entry.body ++ [entry.last]

section Lines

variable (behind : List UInt8 → Nat → UInt8)

def keysFrom : List Stroke → KeyStates → List MappedKey
  | [], _ => []
  | stroke :: rest, states =>
      stroke.key behind states :: keysFrom rest (stroke.after behind states)

def processAll (keys : List MappedKey) (r : Recorded) : Recorded :=
  keys.foldl (fun r key => r.processKey key) r

-- It is the loop on the line alone.
theorem lineLoop_getLineLoop (codes : List UInt8) (extended : Bool) (states : KeyStates)
    (line : Recorded) (h : Whole line.toLine) :
    (lineLoop behind codes extended states line).map (fun (line, _, rest) => (line.toLine, rest)) =
      getLineLoop behind codes extended states line.toLine := by
  have hkey (key : MappedKey) := processKey_line key line h.toBounded
  have hwhole (key : MappedKey) := (processKey_edits key line h).1
  induction codes generalizing extended states line with
  | nil => rfl
  | cons code rest ih =>
      have hrest (key : MappedKey) (extended : Bool) (states : KeyStates) :=
        ih extended states (line.processKey key) (hwhole key)
          (fun next => processKey_line next _ (hwhole key).toBounded)
          (fun next => (processKey_edits next _ (hwhole key)).1)
      simp only [hkey] at hrest
      rw [lineLoop, getLineLoop]
      cases extended with
      | true =>
          simp only [if_true, ← hrest]
          split
          · rw [Option.map_some, hkey]
          · rfl
      | false =>
          simp only [Bool.false_eq_true, if_false, ← hrest]
          split
          · exact ih true states line h hkey hwhole
          · split
            · rw [Option.map_some, hkey]
            · rfl

theorem lineLoop_stroke (stroke : Stroke) (hclear : stroke.Clear) (rest : List UInt8)
    (states : KeyStates) (line : Recorded) :
    lineLoop behind (stroke.encode ++ rest) false states line =
      if Ends (stroke.key behind states) then
        some (line.processKey (stroke.key behind states), stroke.after behind states, rest)
      else lineLoop behind rest false (stroke.after behind states)
        (line.processKey (stroke.key behind states)) := by
  rw [Stroke.encode, Stroke.key, Stroke.after]
  cases hextended : stroke.extended with
  | true => simp [lineLoop]
  | false =>
      have hplain : stroke.byte ≠ 0xE0 := hclear.resolve_left (by simp [hextended])
      simp [lineLoop, hplain]

theorem Entry.last_covered (entry : Entry) : entry.last.Covered := by
  rcases entry.ends with h | h <;> rw [h]
  · exact show 0x1C < 88 by decide
  · exact show 0x52 < 88 by decide

theorem lineLoop_strokes (body : List Stroke) (last : Stroke)
    (hcovered : ∀ stroke ∈ body, stroke.Covered)
    (hbody : ∀ stroke ∈ body, stroke ≠ enterMake ∧ stroke ≠ keypadZeroMake)
    (hlast : last.Covered) (hends : last = enterMake ∨ last = keypadZeroMake)
    (rest : List UInt8) (states : KeyStates) (line : Recorded) :
    lineLoop behind ((body ++ [last]).flatMap Stroke.encode ++ rest) false states line =
      some (processAll (keysFrom behind (body ++ [last]) states) line,
        statesAfter behind (body ++ [last]) states, rest) := by
  induction body generalizing states line with
  | nil =>
      rw [List.nil_append, List.flatMap_singleton, lineLoop_stroke behind last hlast.code_lt.2,
        if_pos ((ends_iff behind last hlast states).mpr hends)]
      rfl
  | cons stroke body ih =>
      rw [List.forall_mem_cons] at hcovered hbody
      have hgoes : ¬Ends (stroke.key behind states) := by
        rw [ends_iff behind stroke hcovered.1, not_or]
        exact hbody.1
      rw [List.cons_append, List.flatMap_cons, List.append_assoc,
        lineLoop_stroke behind stroke hcovered.1.code_lt.2, if_neg hgoes,
        ih hcovered.2 hbody.2]
      rfl

end Lines

-- What is in the buffer when Enter goes down.
section Buffer

variable (behind : List UInt8 → Nat → UInt8)

theorem covered_known {stroke : Stroke} (h : stroke.Covered) : stroke.Known := by
  rw [Stroke.Covered, Stroke.Below] at h
  rw [Stroke.Known, Stroke.Below]
  split at h
  · rwa [if_pos ‹_›]
  · rw [if_neg ‹_›]
    exact Nat.lt_trans h (by decide)

theorem inserts_iff (stroke : Stroke) (h : stroke.Covered) (states : KeyStates) :
    Inserts (stroke.key behind states) ↔ stroke.Prints := by
  rw [← (key_prints_iff behind stroke (covered_known h) states).1, Inserts]
  exact and_comm

theorem countP_keysFrom (strokes : List Stroke) (h : ∀ stroke ∈ strokes, stroke.Covered)
    (states : KeyStates) :
    (keysFrom behind strokes states).countP (fun key => decide (Inserts key)) =
      strokes.countP (fun stroke => decide stroke.Prints) := by
  induction strokes generalizing states with
  | nil => rfl
  | cons stroke rest ih =>
      rw [List.forall_mem_cons] at h
      rw [keysFrom, List.countP_cons, List.countP_cons, ih h.2]
      simp only [inserts_iff behind stroke h.1]

theorem processAll_whole (keys : List MappedKey) (r : Recorded) (h : Whole r.toLine) :
    Whole (processAll keys r).toLine := by
  induction keys generalizing r with
  | nil => exact h
  | cons key rest ih => exact ih _ (processKey_edits key r h).1

theorem processAll_within (keys : List MappedKey) (r : Recorded) (h : Whole r.toLine)
    (hwithin : Within r)
    (hfew : r.size + keys.countP (fun key => decide (Inserts key)) ≤ 512) :
    Within (processAll keys r) ∧ (processAll keys r).size ≤ 512 := by
  induction keys generalizing r with
  | nil =>
      rw [List.countP_nil, Int.ofNat_zero, Int.add_zero] at hfew
      exact ⟨hwithin, hfew⟩
  | cons key rest ih =>
      have hsize := processKey_size key r h.toBounded
      rw [List.countP_cons] at hfew
      have hfits : Fits r key r := by
        intro hinserts
        rw [if_pos (decide_eq_true hinserts)] at hfew
        omega
      have hnext := (within_iff key r h.toBounded (by omega) hwithin r).mpr hfits
      have hroom : (r.processKey key).size +
          rest.countP (fun key => decide (Inserts key)) ≤ 512 := by
        by_cases hinserts : Inserts key
        · rw [if_pos hinserts] at hsize
          rw [if_pos (decide_eq_true hinserts)] at hfew
          omega
        · rw [if_neg hinserts] at hsize
          rw [if_neg (by simpa using hinserts)] at hfew
          split at hsize <;> omega
      exact ih _ (processKey_edits key r h).1 hnext hroom

theorem character_ne_zero (stroke : Stroke) (h : stroke.Covered) (hprints : stroke.Prints)
    (states : KeyStates) : keyChar (stroke.key behind states) ≠ 0 := by
  obtain ⟨hlow, -⟩ := h.code_lt
  obtain ⟨-, hcode, -⟩ := stroke.byte_spec hlow
  obtain ⟨hplain, -, hcharacter⟩ := hprints
  have hscancode : (stroke.key behind states).scancode = stroke.code := by
    rw [Stroke.key, if_neg (by rw [hplain]; exact Bool.false_ne_true)]
    exact hcode
  rw [Stroke.Covered, Stroke.Below, if_neg (by rw [hplain]; exact Bool.false_ne_true)] at h
  have hrange : stroke.code.toNat < scancode_set1.length := Nat.lt_trans h (by decide)
  rw [List.getD_eq_getElem _ _ hrange] at hcharacter
  refine (keyChar_prints _ _ ?_ hcharacter).1
  rw [hscancode, List.getElem?_eq_getElem hrange]

theorem no_nul_processAll (keys : List MappedKey) (r : Recorded) (h : Whole r.toLine)
    (hkeys : ∀ key ∈ keys, Inserts key → keyChar key ≠ 0)
    (htyped : ∀ byte ∈ typed r.toLine, byte ≠ 0) :
    ∀ byte ∈ typed (processAll keys r).toLine, byte ≠ 0 := by
  induction keys generalizing r with
  | nil => exact htyped
  | cons key rest ih =>
      rw [List.forall_mem_cons] at hkeys
      obtain ⟨hwhole, hedits⟩ := processKey_edits key r h
      refine ih _ hwhole hkeys.2 ?_
      rw [hedits.text]
      have hindex : r.index.toNat ≤ (typed r.toLine).length := by
        have hhigh := h.index_high
        rw [typed_length]
        omega
      intro byte hbyte
      by_cases hinserts : Inserts key
      · rw [if_pos hinserts, List.mem_insertIdx hindex] at hbyte
        rcases hbyte with rfl | hold
        · exact hkeys.1 hinserts
        · exact htyped byte hold
      · rw [if_neg hinserts] at hbyte
        split at hbyte
        · exact htyped byte (List.mem_of_mem_eraseIdx hbyte)
        · exact htyped byte hbyte

theorem mem_keysFrom (strokes : List Stroke) (states : KeyStates) (key : MappedKey)
    (h : key ∈ keysFrom behind strokes states) :
    ∃ stroke ∈ strokes, ∃ states', key = stroke.key behind states' := by
  induction strokes generalizing states with
  | nil => cases h
  | cons stroke rest ih =>
      rcases List.mem_cons.mp h with rfl | hrest
      · exact ⟨stroke, List.mem_cons_self .., states, rfl⟩
      · obtain ⟨other, hother, found⟩ := ih _ hrest
        exact ⟨other, List.mem_cons_of_mem _ hother, found⟩

-- What is in the buffer behind the terminator makes no difference.
structure SameText (r r' : Recorded) : Prop where
  index : r'.index = r.index
  size : r'.size = r.size
  term : r'.term = r.term
  text : typed r'.toLine = typed r.toLine

-- The fields that a key changes without a look at the buffer.
def outline (line : Line) : Int × Int × Tio.Terminal := (line.index, line.size, line.term)

theorem arrowLeft_outline (line : Line) (bytes : Nat → UInt8) :
    outline (arrowLeft { line with buffer := bytes }) = outline (arrowLeft line) := by
  unfold arrowLeft
  cases hmoved : (tio_try_cursor_dec 2 line.term).1 <;> simp [outline, hmoved]

theorem arrowRight_outline (line : Line) (bytes : Nat → UInt8) :
    outline (arrowRight { line with buffer := bytes }) = outline (arrowRight line) := rfl

theorem backspace_outline (line : Line) (bytes : Nat → UInt8) :
    outline (backspace { line with buffer := bytes }) = outline (backspace line) := by
  unfold backspace
  by_cases hstart : line.index ≤ 0
  · rw [if_pos hstart, if_pos hstart]
    rfl
  · rw [if_neg hstart, if_neg hstart]
    rfl

theorem processKey_outline (key : MappedKey) (line : Line) (bytes : Nat → UInt8) :
    outline (processKey key { line with buffer := bytes }) = outline (processKey key line) := by
  unfold processKey
  split
  · rfl
  · split
    · split
      · exact arrowLeft_outline line bytes
      · split
        · exact arrowRight_outline line bytes
        · split
          · rfl
          · split
            · rfl
            · split
              · exact backspace_outline line bytes
              · rfl
    · rfl

theorem SameText.processKey {r r' : Recorded} (h : SameText r r') (key : MappedKey)
    (hr : Whole r.toLine) (hr' : Whole r'.toLine) :
    SameText (r.processKey key) (r'.processKey key) := by
  have houtline := processKey_outline key r.toLine r'.buffer
  have hline : r'.toLine = { r.toLine with buffer := r'.buffer } := by
    obtain ⟨⟨buffer, index, size, term⟩, accesses⟩ := r'
    obtain ⟨rfl, rfl, rfl, -⟩ := h
    rfl
  rw [← hline, ← processKey_line key r hr.toBounded, ← processKey_line key r' hr'.toBounded]
    at houtline
  simp only [outline, Prod.mk.injEq] at houtline
  obtain ⟨hindex, hsize, hterm⟩ := houtline
  refine ⟨hindex, hsize, hterm, ?_⟩
  have hdeletes : Deletes key r'.toLine ↔ Deletes key r.toLine := by
    rw [Deletes, Deletes, h.index]
  rw [(processKey_edits key r hr).2.text, (processKey_edits key r' hr').2.text, h.text, h.index]
  simp only [hdeletes]

theorem SameText.processAll {r r' : Recorded} (h : SameText r r') (keys : List MappedKey)
    (hr : Whole r.toLine) (hr' : Whole r'.toLine) :
    SameText (processAll keys r) (processAll keys r') := by
  induction keys generalizing r r' with
  | nil => exact h
  | cons key rest ih =>
      exact ih (h.processKey key hr hr') (processKey_edits key r hr).1 (processKey_edits key r' hr').1

-- The buffer after the line, on whatever there was behind its first byte.
def entered (entry : Entry) (states : KeyStates) (r : Recorded) : Recorded :=
  processAll (keysFrom behind entry.strokes states) r

theorem Entry.all_covered (entry : Entry) : ∀ stroke ∈ entry.strokes, stroke.Covered := by
  intro stroke hstroke
  rcases List.mem_append.mp hstroke with hbody | hlast
  · exact entry.covered stroke hbody
  · rw [List.mem_singleton.mp hlast]
    exact entry.last_covered

structure Enters (r : Recorded) : Prop extends Whole r.toLine where
  within : Within r
  size_high : r.size ≤ 512
  no_nul : ∀ byte ∈ typed r.toLine, byte ≠ 0

theorem entered_enters (entry : Entry) (states : KeyStates) (term : Tio.Terminal)
    (bytes : Nat → UInt8) (hzero : bytes 0 = 0) :
    Enters (entered behind entry states { start term with buffer := bytes }) := by
  have hwhole : Whole ({ start term with buffer := bytes } : Recorded).toLine :=
    ⟨⟨Int.le_refl 1, Int.le_refl 0, Int.le_refl 0⟩, hzero⟩
  have hcount := countP_keysFrom behind entry.strokes entry.all_covered states
  have hshort := entry.short
  have hsize : (({ start term with buffer := bytes } : Recorded).size) = 1 := rfl
  obtain ⟨hwithin, hhigh⟩ := processAll_within (keysFrom behind entry.strokes states) _ hwhole
    (fun a ha => by cases ha) (by rw [hsize, hcount, Entry.strokes]; omega)
  refine ⟨processAll_whole _ _ hwhole, hwithin, hhigh, no_nul_processAll _ _ hwhole ?_ nofun⟩
  intro key hkey hinserts
  obtain ⟨stroke, hstroke, states', rfl⟩ := mem_keysFrom behind _ _ _ hkey
  have hcovered := entry.all_covered stroke hstroke
  exact character_ne_zero behind stroke hcovered
    ((inserts_iff behind stroke hcovered states').mp hinserts) states'

end Buffer

-- What stays where it is while the stack and the buffer change.
section Places

variable {m m' : Memory} {places : Places} {area size : Nat}

structure Placed (m : Memory) (area size : Nat) (places : Places) : Prop where
  fits : area + size ≤ 4294967296
  above : area ≤ places.result
  below : places.result + 1024 ≤ area + size
  buffer_fits : places.buffer + 512 ≤ 4294967296
  buffer_apart : ∀ i < 512, Stdio.Outside area size (places.buffer + i)
  prompt : Stdio.ReadString m area size places.prompt [62, 32]
  prompt_apart : ∀ i ≤ 2, Stdio.Outside places.buffer 512 (places.prompt + i)
  echo : Stdio.ReadString m area size places.echo [10, 37, 115, 10]
  echo_apart : ∀ i ≤ 4, Stdio.Outside places.buffer 512 (places.echo + i)

def Keeps (area size : Nat) (places : Places) (m m' : Memory) : Prop :=
  ∀ x, Stdio.Outside area size x → Stdio.Outside places.buffer 512 x → load8 m' x = load8 m x

theorem Keeps.trans {m'' : Memory} (h : Keeps area size places m m')
    (h' : Keeps area size places m' m'') : Keeps area size places m m'' :=
  fun x hx hx' => (h' x hx hx').trans (h x hx hx')

theorem Placed.congr (h : Placed m area size places) (hkeeps : Keeps area size places m m') :
    Placed m' area size places where
  fits := h.fits
  above := h.above
  below := h.below
  buffer_fits := h.buffer_fits
  buffer_apart := h.buffer_apart
  prompt := ⟨h.prompt.holds.congr fun i hi =>
    hkeeps _ (h.prompt.apart i hi) (h.prompt_apart i hi), h.prompt.apart⟩
  prompt_apart := h.prompt_apart
  echo := ⟨h.echo.holds.congr fun i hi =>
    hkeeps _ (h.echo.apart i hi) (h.echo_apart i hi), h.echo.apart⟩
  echo_apart := h.echo_apart

theorem cleared (h : Placed m area size places) :
    (∀ i < 512, bufferAt places.buffer (Kstdlib.kmemset places.buffer 0 512 m) i = 0) ∧
      Keeps area size places m (Kstdlib.kmemset places.buffer 0 512 m) := by
  have hfilled : Filled m places.buffer 512 0 (Kstdlib.kmemset places.buffer 0 512 m) :=
    Kstdlib.kmemset_filled 512 (Filled.zero m places.buffer 0)
  refine ⟨fun i hi => ?_, fun x _ hx => hfilled.outside x fun i hi => ?_⟩
  · rw [bufferAt, hfilled.inside i hi]
    rfl
  · have hne := hx i hi
    have hfits := h.buffer_fits
    omega

theorem load8_writeBack_inside (h : Placed m area size places) (bytes : Nat → UInt8)
    (m' : Memory) (i : Nat) (hi : i < 512) :
    load8 (writeBack places.buffer bytes m') (places.buffer + i) = (bytes i).toNat := by
  have hfits := h.buffer_fits
  have hplace : sub32 ((places.buffer + i) % 4294967296) places.buffer = i := by
    unfold sub32
    omega
  rw [load8, writeBack, hplace, if_pos hi]

theorem writeBack_keeps (h : Placed m area size places) (bytes : Nat → UInt8) (m' : Memory) :
    Keeps area size places m' (writeBack places.buffer bytes m') := by
  intro x _ hx
  have hfits := h.buffer_fits
  have hout : ¬sub32 (x % 4294967296) places.buffer < 512 := by
    intro hin
    have hne := hx _ hin
    unfold sub32 at hne hin
    omega
  rw [load8, writeBack, if_neg hout]
  rfl

-- The line is the string that `%s` reads.
theorem entered_string (h : Placed m area size places) {r : Recorded} (hr : Enters r)
    (m' : Memory) :
    Stdio.ReadString (writeBack places.buffer r.buffer m') area size places.buffer
      (typed r.toLine) := by
  have hlow := hr.size_low
  have hhigh := hr.size_high
  have hlength := typed_length r.toLine
  refine ⟨⟨fun i hi => ?_, ?_, hr.no_nul⟩, fun i hi => h.buffer_apart i (by omega)⟩
  · rw [load8_writeBack_inside h _ _ i (by omega)]
    simp [typed]
  · rw [load8_writeBack_inside h _ _ _ (by omega), hlength, hr.terminated]
    rfl

end Places

section Rounds

variable (behind : List UInt8 → Nat → UInt8) {area size : Nat}

def promptPrint (places : Places) (left : Leftovers) : Console.Print :=
  { result := places.result
    format := places.prompt
    args := left.prompt_args
    stack := left.prompt_stack
    text := [62, 32]
    pieces := [.literal 62, .literal 32]
    strings := fun _ => [] }

def echoPrint (places : Places) (left : Leftovers) (line : List UInt8) : Console.Print :=
  { result := places.result
    format := places.echo
    args := Stream'.cons (UInt32.ofNat places.buffer) left.echo_args
    stack := left.echo_stack
    text := [10, 37, 115, 10]
    pieces := [.literal 10, .directive .s, .literal 10]
    strings := fun _ => line }

theorem promptPrint_ready {m : Memory} {places : Places} (h : Placed m area size places)
    (left : Leftovers) : (promptPrint places left).Ready m area size :=
  ⟨rfl, h.above, h.below, show 2 < 1024 by decide, h.prompt, trivial⟩

theorem echoPrint_rendering (places : Places) (left : Leftovers) (line : List UInt8) :
    (echoPrint places left line).rendering = [10] ++ line ++ [10] := rfl

theorem echoPrint_ready {m : Memory} {places : Places} (h : Placed m area size places)
    (left : Leftovers) (line : List UInt8) (hlength : line.length < 512)
    (hline : Stdio.ReadString m area size places.buffer line) :
    (echoPrint places left line).Ready m area size := by
  have hfits := h.buffer_fits
  have harg : (UInt32.ofNat places.buffer).toNat = places.buffer := by
    rw [UInt32.toNat_ofNat', Nat.mod_eq_of_lt (by omega)]
  refine ⟨rfl, h.above, h.below, ?_, h.echo, ⟨fun _ => ?_, trivial⟩⟩
  · simp only [echoPrint_rendering, List.length_append, List.length_singleton]
    omega
  · change Stdio.ReadString m area size (UInt32.ofNat places.buffer).toNat line
    rw [harg]
    exact hline

theorem takeWhile_no_nul (bytes : List UInt8) (h : ∀ byte ∈ bytes, byte ≠ 0) :
    bytes.takeWhile (· ≠ 0) = bytes := by
  rw [List.takeWhile_eq_self_iff]
  intro byte hbyte
  exact decide_eq_true (h byte hbyte)

-- The terminal after a round.
def roundTerminal (entry : Entry) (states : KeyStates) (t : Tio.Terminal) : Tio.Terminal :=
  let r := entered behind entry states (start (Tio.tio_write [62, 32] t))
  Tio.tio_write ([10] ++ typed r.toLine ++ [10]) r.term

theorem kbGetLine_entered (entry : Entry) (places : Places) (s : Session) (rest : List UInt8)
    (hcodes : s.scancodes = entry.strokes.flatMap Stroke.encode ++ rest)
    (hzero : bufferAt places.buffer s.memory 0 = 0) :
    kbGetLine behind places.buffer s =
      let r := entered behind entry s.key_states
        { start s.terminal with buffer := bufferAt places.buffer s.memory }
      some
        { memory := writeBack places.buffer r.buffer s.memory
          terminal := r.term
          key_states := statesAfter behind entry.strokes s.key_states
          scancodes := rest } := by
  have henters := entered_enters behind entry s.key_states s.terminal _ hzero
  rw [kbGetLine, hcodes, Entry.strokes, lineLoop_strokes behind entry.body entry.last entry.covered
    entry.goes_on entry.last_covered entry.ends, Option.bind_some]
  exact if_pos henters.within

-- The line of a round.
def lineOf (entry : Entry) (states : KeyStates) (t : Tio.Terminal) : List UInt8 :=
  typed (entered behind entry states (start (Tio.tio_write [62, 32] t))).toLine

-- One round, from wherever the last one has left everything.
theorem round_prints (entry : Entry) (places : Places) (left : Leftovers) (s : Session)
    (rest : List UInt8) (h : Placed s.memory area size places)
    (hcodes : s.scancodes = entry.strokes.flatMap Stroke.encode ++ rest) (fuel : Nat)
    (hfuel : 2052 ≤ fuel) :
    ∃ m', round behind fuel places left s = some
        { memory := m'
          terminal := roundTerminal behind entry s.key_states s.terminal
          key_states := statesAfter behind entry.strokes s.key_states
          scancodes := rest } ∧
      HoldsString m' places.buffer (lineOf behind entry s.key_states s.terminal) ∧
      Keeps area size places s.memory m' := by
  obtain ⟨m₁, hprompt, hsame₁⟩ := Console.kvprintf_prints fuel area size (promptPrint places left)
    ⟨s.memory, s.terminal⟩ h.fits (promptPrint_ready h left) (by
      change 2 + 2048 ≤ fuel
      omega)
  have hkeeps₁ : Keeps area size places s.memory m₁ := fun x hx _ => hsame₁ x hx
  obtain ⟨hzero, hkeeps₂⟩ := cleared (h.congr hkeeps₁)
  generalize hm₂ : Kstdlib.kmemset places.buffer 0 512 m₁ = m₂ at hzero hkeeps₂
  have hplaced₂ := (h.congr hkeeps₁).congr hkeeps₂
  generalize ht₁ : Tio.tio_write [62, 32] s.terminal = t₁
  have hline := kbGetLine_entered behind entry places { s with memory := m₂, terminal := t₁ } rest
    hcodes (hzero 0 (by decide))
  have henters := entered_enters behind entry s.key_states t₁ _ (hzero 0 (by decide))
  have hstart : SameText (start t₁) { start t₁ with buffer := bufferAt places.buffer m₂ } :=
    ⟨rfl, rfl, rfl, rfl⟩
  have hsame := hstart.processAll (keysFrom behind entry.strokes s.key_states) (start_whole t₁)
    ⟨⟨Int.le_refl 1, Int.le_refl 0, Int.le_refl 0⟩, hzero 0 (by decide)⟩
  generalize hr : entered behind entry s.key_states
    { start t₁ with buffer := bufferAt places.buffer m₂ } = r at hline henters
  change SameText (entered behind entry s.key_states (start t₁)) (entered behind entry s.key_states
    { start t₁ with buffer := bufferAt places.buffer m₂ }) at hsame
  rw [hr] at hsame
  have hkeeps₃ := writeBack_keeps hplaced₂ r.buffer m₂
  have hstring := entered_string hplaced₂ henters m₂
  have hshort : (typed r.toLine).length < 512 := by
    have hhigh := henters.size_high
    rw [typed_length]
    omega
  obtain ⟨m₄, hecho, hsame₄⟩ := Console.kvprintf_prints fuel area size
    (echoPrint places left (typed r.toLine)) ⟨writeBack places.buffer r.buffer m₂, r.term⟩ h.fits
    (echoPrint_ready (hplaced₂.congr hkeeps₃) left _ hshort hstring) (by
      change 4 + 2048 ≤ fuel
      omega)
  refine ⟨m₄, ?_, ?_, ?_⟩
  · have hno_nul : ∀ byte ∈ [10] ++ typed r.toLine ++ [10], byte ≠ 0 := by
      intro byte hbyte
      simp only [List.mem_append, List.mem_singleton] at hbyte
      rcases hbyte with (rfl | hline) | rfl
      · decide
      · exact henters.no_nul byte hline
      · decide
    have hterminal : Tio.tio_write ((echoPrint places left (typed r.toLine)).rendering.takeWhile
        (· ≠ 0)) r.term = roundTerminal behind entry s.key_states s.terminal := by
      rw [echoPrint_rendering, takeWhile_no_nul _ hno_nul, hsame.text, hsame.term, roundTerminal,
        ht₁]
    have hprompted : Console.kvprintf fuel places.result places.prompt left.prompt_args
        left.prompt_stack ⟨s.memory, s.terminal⟩ = some ⟨m₁, t₁⟩ := by
      rw [← ht₁]
      exact hprompt
    have hechoed : Console.kvprintf fuel places.result places.echo
        (Stream'.cons (UInt32.ofNat places.buffer) left.echo_args) left.echo_stack
        ⟨writeBack places.buffer r.buffer m₂, r.term⟩ =
          some ⟨m₄, roundTerminal behind entry s.key_states s.terminal⟩ := by
      rw [← hterminal]
      exact hecho
    rw [round, hprompted, Option.bind_some, hm₂, hline, Option.bind_some, hechoed]
    rfl
  · rw [lineOf, ht₁, ← hsame.text]
    exact hstring.holds.congr fun i hi => hsame₄ _ (hstring.apart i hi)
  · exact (hkeeps₁.trans hkeeps₂).trans (hkeeps₃.trans fun x hx _ => hsame₄ x hx)

-- The terminal and the keys after some lines.
def terminalAfter : List Entry → KeyStates → Tio.Terminal → Tio.Terminal
  | [], _, t => t
  | entry :: rest, states, t =>
      terminalAfter rest (statesAfter behind entry.strokes states)
        (roundTerminal behind entry states t)

def strokesOf (entries : List Entry) : List Stroke := entries.flatMap Entry.strokes

theorem statesAfter_append (front back : List Stroke) (states : KeyStates) :
    statesAfter behind (front ++ back) states =
      statesAfter behind back (statesAfter behind front states) := List.foldl_append

theorem strokesOf_cons (entry : Entry) (entries : List Entry) :
    strokesOf (entry :: entries) = entry.strokes ++ strokesOf entries := List.flatMap_cons

theorem encode_cons (entry : Entry) (entries : List Entry) (rest : List UInt8) :
    (strokesOf (entry :: entries)).flatMap Stroke.encode ++ rest =
      entry.strokes.flatMap Stroke.encode ++
        ((strokesOf entries).flatMap Stroke.encode ++ rest) := by
  rw [strokesOf_cons, List.flatMap_append, List.append_assoc]

theorem rounds_run (entries : List Entry) (places : Places) (lefts : List Leftovers)
    (hcount : lefts.length = entries.length) (s : Session) (rest : List UInt8)
    (h : Placed s.memory area size places)
    (hcodes : s.scancodes = (strokesOf entries).flatMap Stroke.encode ++ rest) (fuel : Nat)
    (hfuel : 2052 ≤ fuel) :
    ∃ m', rounds behind fuel places lefts s = some
        { memory := m'
          terminal := terminalAfter behind entries s.key_states s.terminal
          key_states := statesAfter behind (strokesOf entries) s.key_states
          scancodes := rest } ∧
      Keeps area size places s.memory m' := by
  induction entries generalizing lefts s with
  | nil =>
      obtain rfl := List.length_eq_zero_iff.mp hcount
      obtain ⟨memory, terminal, key_states, scancodes⟩ := s
      obtain rfl : scancodes = rest := hcodes
      exact ⟨memory, rfl, fun _ _ _ => rfl⟩
  | cons entry entries ih =>
      obtain ⟨left, lefts, rfl⟩ := List.exists_cons_of_length_eq_add_one hcount
      obtain ⟨m₁, hround, -, hkeeps⟩ := round_prints behind entry places left s _ h
        (hcodes.trans (encode_cons entry entries rest)) fuel hfuel
      obtain ⟨m₂, hrounds, hkeeps'⟩ := ih lefts (Nat.succ.inj hcount)
        { memory := m₁
          terminal := roundTerminal behind entry s.key_states s.terminal
          key_states := statesAfter behind entry.strokes s.key_states
          scancodes := (strokesOf entries).flatMap Stroke.encode ++ rest } (h.congr hkeeps) rfl
      refine ⟨m₂, ?_, hkeeps.trans hkeeps'⟩
      rw [rounds, hround, Option.bind_some, hrounds, terminalAfter, strokesOf_cons,
        statesAfter_append]

theorem rounds_append (fuel : Nat) (places : Places) (front back : List Leftovers) (s : Session) :
    rounds behind fuel places (front ++ back) s =
      (rounds behind fuel places front s).bind (rounds behind fuel places back) := by
  induction front generalizing s with
  | nil => rfl
  | cons left front ih =>
      rw [List.cons_append, rounds, rounds]
      cases round behind fuel places left s with
      | none => rfl
      | some t => exact ih t

-- After any lines comes one more round. It ends, takes the bytes of its line and no
-- others, prints the line back as it was edited and leaves it in the buffer, and
-- nothing but the stack and the buffer has changed since the start.
theorem lines_are_printed_back (s : Session) (places : Places)
    (h : Placed s.memory area size places) (entries : List Entry) (last : Entry)
    (rest : List UInt8)
    (hcodes : s.scancodes = (strokesOf (entries ++ [last])).flatMap Stroke.encode ++ rest)
    (lefts : List Leftovers) (left : Leftovers) (hcount : lefts.length = entries.length) :
    let states := statesAfter behind (strokesOf entries) s.key_states
    let terminal := terminalAfter behind entries s.key_states s.terminal
    ∀ fuel ≥ 2052, ∃ m', rounds behind fuel places (lefts ++ [left]) s =
        some
          { memory := m'
            terminal := roundTerminal behind last states terminal
            key_states := statesAfter behind last.strokes states
            scancodes := rest } ∧
      HoldsString m' places.buffer (lineOf behind last states terminal) ∧
      Keeps area size places s.memory m' := by
  intro states terminal fuel hfuel
  have hsplit : s.scancodes = (strokesOf entries).flatMap Stroke.encode ++
      (last.strokes.flatMap Stroke.encode ++ rest) := by
    rw [hcodes, strokesOf, List.flatMap_append, List.flatMap_append, List.flatMap_singleton,
      List.append_assoc]
    rfl
  obtain ⟨m₁, hrounds, hkeeps⟩ :=
    rounds_run behind entries places lefts hcount s _ h hsplit fuel hfuel
  obtain ⟨m₂, hround, hstring, hkeeps'⟩ := round_prints behind last places left
    { memory := m₁
      terminal := terminal
      key_states := states
      scancodes := last.strokes.flatMap Stroke.encode ++ rest } rest (h.congr hkeeps) rfl fuel hfuel
  refine ⟨m₂, ?_, hstring, hkeeps.trans hkeeps'⟩
  rw [rounds_append, hrounds, Option.bind_some, rounds, hround]
  rfl

-- The word "a", the keypad's 0 for its end, and then an empty line.
def letterEntry : Entry :=
  { body := [letterMake]
    last := keypadZeroMake
    covered := by simp [Stroke.Covered, Stroke.Below, letterMake]
    goes_on := by simp [letterMake, enterMake, keypadZeroMake]
    ends := .inr rfl
    short := by decide }

def emptyEntry : Entry :=
  { body := []
    last := enterMake
    covered := nofun
    goes_on := nofun
    ends := .inl rfl
    short := by decide }

def samplePlaces : Places := { buffer := 2048, prompt := 16, echo := 20, result := 64 }

def sampleBytes : Memory := fun x => [62, 32, 0, 0, 10, 37, 115, 10, 0].getD (x - 16) 0

theorem sampleBytes_prompt : Stdio.ReadString sampleBytes 64 1024 16 [62, 32] := by
  refine ⟨⟨?_, rfl, by simp⟩, fun i hi j _ => ?_⟩
  · unfold HoldsBytes
    decide
  · have hlow : i ≤ 2 := hi
    omega

theorem sampleBytes_echo : Stdio.ReadString sampleBytes 64 1024 20 [10, 37, 115, 10] := by
  refine ⟨⟨?_, rfl, by simp⟩, fun i hi j _ => ?_⟩
  · unfold HoldsBytes
    decide
  · have hlow : i ≤ 4 := hi
    omega

theorem samplePlaced : Placed sampleBytes 64 1024 samplePlaces where
  fits := by decide
  above := by decide
  below := by decide
  buffer_fits := by decide
  buffer_apart := by
    intro i hi j hj
    change (2048 + i) % 4294967296 ≠ 64 + j
    omega
  prompt := sampleBytes_prompt
  prompt_apart := by
    intro i hi j hj
    change (16 + i) % 4294967296 ≠ 2048 + j
    omega
  echo := sampleBytes_echo
  echo_apart := by
    intro i hi j hj
    change (20 + i) % 4294967296 ≠ 2048 + j
    omega

def noLeftovers : Leftovers :=
  { prompt_args := Stream'.const 0
    prompt_stack := fun _ => 0
    echo_args := Stream'.const 0
    echo_stack := fun _ => 0 }

def sampleSession : Session :=
  { memory := sampleBytes
    terminal := Tio.emptyTerminal
    key_states := fun _ => false
    scancodes := [0x1E, 0x52, 0x1C] }

theorem lines_are_printed_back_sample :
    let behind := fun (_ : List UInt8) (_ : Nat) => (0 : UInt8)
    let states := statesAfter behind (strokesOf [letterEntry]) sampleSession.key_states
    let terminal :=
      terminalAfter behind [letterEntry] sampleSession.key_states sampleSession.terminal
    ∃ m', rounds behind 2052 samplePlaces [noLeftovers, noLeftovers] sampleSession =
        some
          { memory := m'
            terminal := roundTerminal behind emptyEntry states terminal
            key_states := statesAfter behind emptyEntry.strokes states
            scancodes := [] } ∧
      HoldsString m' samplePlaces.buffer (lineOf behind emptyEntry states terminal) ∧
      Keeps 64 1024 samplePlaces sampleSession.memory m' :=
  lines_are_printed_back (fun _ _ => 0) sampleSession samplePlaces samplePlaced [letterEntry]
    emptyEntry [] rfl [noLeftovers] noLeftovers rfl 2052 (Nat.le_refl _)

end Rounds

end PalleyOS.Shell
