import PalleyOS.Keyboard.Line
import PalleyOS.Tio.Coherence
import PalleyOS.Machine.Shift

namespace PalleyOS.Keyboard

open Machine Tio

-- The terminal while the cursor stays on one row of the screen.
section Row

def charOf (entry : Vga_Entry) : UInt8 := entry.toUInt8

def screenRow (s : Terminal) : Nat := (s.cursor.y * 80).toNat

structure OnRow (s : Terminal) : Prop extends Roams s where
  on_screen : s.cursor.on_screen = true
  y_high : s.cursor.y ≤ 22
  inside : 0 ≤ s.term_view.row + s.cursor.y

theorem OnRow.of_fields {s t : Terminal} (hs : OnRow s) (hpages : t.num_pages = s.num_pages)
    (hview : t.term_view = s.term_view) (hcursor : t.cursor = s.cursor) : OnRow t := by
  refine ⟨hs.toRoams.of_fields hpages hview hcursor, ?_, ?_, ?_⟩
  · rw [hcursor]
    exact hs.on_screen
  · rw [hcursor]
    exact hs.y_high
  · rw [hview, hcursor]
    exact hs.inside

theorem OnRow.setX {s : Terminal} (hs : OnRow s) (x : Int) (hlow : 0 ≤ x) (hhigh : x < 80) :
    OnRow (setX x s) :=
  ⟨⟨⟨hs.sized, hs.row_low, hs.row_high, hlow, hhigh, hs.y_low⟩, hs.visible⟩, hs.on_screen,
    hs.y_high, hs.inside⟩

theorem OnRow.move {s t : Terminal} (hs : OnRow s) (x : Int) (hlow : 0 ≤ x) (hhigh : x < 80)
    (hpages : t.num_pages = s.num_pages) (hview : t.term_view = s.term_view)
    (hcursor : t.cursor = { s.cursor with x := x }) : OnRow t :=
  (hs.setX x hlow hhigh).of_fields hpages hview hcursor

end Row

-- What the two shifts and the copy of a backspace do to the cursor's row.
section Cells

end Cells

-- The buffer beside the row.
section Text

theorem moveDown_shifts : ShiftsDown (fun buffer => buffer) moveDown :=
  ⟨fun _ _ => rfl, fun _ _ _ => ⟨_, rfl, rfl⟩⟩

theorem moveUp_shifts : ShiftsUp (fun buffer => buffer) moveUp :=
  ⟨fun _ _ => rfl, fun _ _ _ => ⟨_, rfl, rfl⟩⟩

-- What the `k`-th cell after the prompt should show.
def text (line : Line) (k : Nat) : UInt8 :=
  if (k : Int) < line.size - 1 then line.buffer k else 32

theorem text_insertChar (line : Line) (i n : Nat) (hindex : line.index = i)
    (hsize : line.size = n + 1) (hle : i ≤ n) (c : UInt8) (k : Nat) :
    text (insertChar c line) k =
      if k < i then text line k else if k = i then c else text line (k - 1) := by
  have hbuffer : (insertChar c line).buffer = Function.update
      (Function.update (if i = n then line.buffer else moveUp (n + 1 - i) (n + 1) line.buffer) i c)
      (n + 1) 0 := by
    have hrounds : ((n : Int) + 1 - i).toNat = n + 1 - i := by omega
    have hnext : ((n : Int) + 1 + 1 - 1).toNat = n + 1 := by omega
    have hstart : ((n : Int) + 1).toNat = n + 1 := by omega
    simp only [insertChar, hindex, hsize, hrounds, hnext, hstart, Int.toNat_natCast]
    by_cases hend : i = n
    · rw [if_pos hend, if_neg (by omega)]
    · rw [if_neg hend, if_pos (by omega)]
  have hsize' : (insertChar c line).size = n + 2 := by
    simp only [insertChar, hsize]
    omega
  unfold text
  rw [hsize', hsize, hbuffer]
  by_cases hlast : (k : Int) < n + 2 - 1
  · rw [if_pos hlast, Function.update_of_ne (by omega)]
    by_cases hat : k = i
    · rw [hat, Function.update_self, if_neg (Nat.lt_irrefl i), if_pos rfl]
    · rw [Function.update_of_ne hat]
      by_cases hend : i = n
      · rw [if_pos hend, if_pos (by omega), if_pos (by omega)]
      · rw [if_neg hend, moveUp_shifts.apply _ _ _ _ (by omega)]
        by_cases hbefore : k < i
        · rw [if_pos hbefore, if_neg (by omega), if_pos (by omega)]
        · rw [if_neg hbefore, if_neg hat, if_pos ⟨by omega, by omega⟩, if_pos (by omega)]
  · rw [if_neg hlast, if_neg (by omega), if_neg (by omega), if_neg (by omega)]

theorem text_backspace (line : Line) (i n : Nat) (hindex : line.index = i)
    (hsize : line.size = n + 1) (hpos : 0 < i) (hle : i ≤ n) (k : Nat) :
    text (backspace line) k = if k + 1 < i then text line k else text line (k + 1) := by
  have hinner : ¬line.index ≤ 0 := by omega
  have hrounds : ((n : Int) + 1 - i).toNat = n + 1 - i := by omega
  have hstart : ((i : Int) - 1).toNat = i - 1 := by omega
  have hshrunk : ¬(n : Int) + 1 - 1 < 1 := by omega
  have hlast : ((n : Int) + 1 - 1 - 1).toNat = n - 1 := by omega
  have hbuffer : (backspace line).buffer = Function.update
      (if i = n then line.buffer else moveDown (n + 1 - i) (i - 1) line.buffer) (n - 1) 0 := by
    unfold backspace
    rw [if_neg hinner]
    simp only [hindex, hsize, hrounds, hstart, if_neg hshrunk, hlast]
    by_cases hend : i = n
    · rw [if_pos hend, if_neg (by omega)]
    · rw [if_neg hend, if_pos (by omega)]
  have hsize' : (backspace line).size = n := by
    unfold backspace
    rw [if_neg hinner]
    simp only [hsize, if_neg hshrunk]
    omega
  unfold text
  rw [hsize', hsize, hbuffer]
  by_cases hin : (k : Int) < n - 1
  · rw [if_pos hin, Function.update_of_ne (by omega)]
    by_cases hend : i = n
    · rw [if_pos hend, if_pos (by omega), if_pos (by omega)]
    · rw [if_neg hend, moveDown_shifts.apply]
      by_cases hbefore : k + 1 < i
      · rw [if_pos hbefore, if_neg (by omega), if_pos (by omega)]
      · rw [if_neg hbefore, if_pos ⟨by omega, by omega⟩, if_pos (by omega)]
  · rw [if_neg hin, if_neg (by omega), if_neg (by omega)]

end Text

section Steps

-- The cells after the prompt on the screen.
def Shows (line : Line) : Prop :=
  ∀ k < 78, charOf (line.term.platform_vb (screenRow line.term + (2 + k))) = text line k

end Steps

-- Printing brings the cursor back to the screen.
section Prompt

end Prompt

section Runs

theorem characters_print : ∀ n < 90, scancode_set1.getD n 0 ≠ 63 →
    (scancode_set1.getD n 0 ≠ 0 ∧ scancode_set1.getD n 0 ≠ 10 ∧ scancode_set1.getD n 0 ≠ 13) ∧
    (uppercase_scancode_set1.getD n 0 ≠ 0 ∧ uppercase_scancode_set1.getD n 0 ≠ 10 ∧
      uppercase_scancode_set1.getD n 0 ≠ 13) := by decide

theorem keyChar_prints (key : MappedKey) (c : UInt8)
    (hc : scancode_set1[key.scancode.toNat]? = some c) (hne : c ≠ 63) :
    keyChar key ≠ 0 ∧ keyChar key ≠ 10 ∧ keyChar key ≠ 13 := by
  obtain ⟨hlt, -⟩ := List.getElem?_eq_some_iff.mp hc
  have hget : scancode_set1.getD key.scancode.toNat 0 = c := by
    rw [List.getD_eq_getElem?_getD, hc]
    rfl
  obtain ⟨hlower, hupper⟩ := characters_print key.scancode.toNat hlt (by rw [hget]; exact hne)
  unfold keyChar
  split
  · exact hupper
  · exact hlower

def Backspaces (key : MappedKey) : Prop :=
  key.down_stroke = true ∧ key.printable = false ∧ key.mapped_code = KEY_BACKSPACE

-- The line right after the prompt.
def atPrompt (t : Terminal) : Line :=
  { buffer := fun _ => 0, index := 0, size := 1, term := tio_write [62, 32] t }

theorem atPrompt_roams (t : Terminal) (ht : Roams t) : Roams (atPrompt t).term := by
  have hfirst := putEntry_roams (create_vga_entry 62 .VGA_COLOR_WHITE) t ht
  exact putEntry_roams (create_vga_entry 32 .VGA_COLOR_WHITE) _ hfirst

theorem mem_of_processed (keys : List MappedKey) (key : MappedKey) (h : key ∈ processed keys) :
    key ∈ keys := by
  induction keys with
  | nil => exact h
  | cons first rest ih =>
      rw [processed] at h
      split at h
      · rw [List.mem_singleton.mp h]
        exact List.mem_cons_self ..
      · rcases List.mem_cons.mp h with rfl | hrest
        · exact List.mem_cons_self ..
        · exact List.mem_cons_of_mem _ (ih hrest)

-- One letter and one backspace on a blank screen.
def letterA : MappedKey :=
  { mapped_code := 0x61, scancode := 30, e0_key := false, printable := true, down_stroke := true
    capitalized := false }

end Runs

end PalleyOS.Keyboard
