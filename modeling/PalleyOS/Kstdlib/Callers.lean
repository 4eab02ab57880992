import PalleyOS.Kstdlib
import PalleyOS.SknyFS.Lemmas
import PalleyOS.Stdio

namespace PalleyOS.Kstdlib

open Machine

-- The file system calls `kmemset` and `kstrncpy` on an array of its own, the renderer of
-- integers `kstrcpy` on a literal. Their models of these do what the ones on memory do.
section Arrays

-- The bytes of an array that starts at `a`.
def Shows (m : Memory) (a size : Nat) (bytes : Nat → UInt8) : Prop :=
  ∀ k < size, load8 m (a + k) = (bytes k).toNat

variable {m : Memory} {a size dest src : Nat} {bytes : Nat → UInt8}

theorem Shows.store (h : Shows m a size bytes) (hsize : size ≤ 4294967296) {i : Nat}
    (hi : i < size) (value : UInt8) :
    Shows (store8 m (a + i) value.toNat) a size (Function.update bytes i value) := by
  intro k hk
  by_cases hself : k = i
  · subst k
    rw [load8_store8_self, Function.update_self, Nat.mod_eq_of_lt value.toNat_lt]
  · rw [load8_store8_of_ne _ _ _ _ (by omega), Function.update_of_ne hself]
    exact h k hk

-- A store into the array leaves what is apart from it.
theorem Shows.frame (h : Shows m a size bytes) {length i : Nat}
    (hapart : ∀ k < size, Misses dest length (a + k)) (hi : i < length) (value : Nat) :
    Shows (store8 m (dest + i) value) a size bytes := by
  intro k hk
  rw [load8_store8_of_ne _ _ _ _ (hapart k hk i hi)]
  exact h k hk

theorem kmemset_shows (h : Shows m dest size bytes) (hsize : size ≤ 4294967296) (value : UInt8)
    (num : Nat) :
    Shows (kmemset dest value.toNat num m) dest size (SknyFS.kmemset bytes value num) := by
  have hfilled := kmemset_filled num (Filled.zero m dest value.toNat)
  rw [Nat.zero_add, Nat.add_zero] at hfilled
  intro k hk
  by_cases hin : k < num
  · rw [hfilled.inside k hin, SknyFS.kmemset, if_pos hin, Nat.mod_eq_of_lt value.toNat_lt]
  · rw [SknyFS.kmemset, if_neg hin, ← h k hk]
    apply hfilled.outside
    intro i hi
    omega

variable {name : SknyFS.CString}

-- The induction is on what the bound still allows, with as much of the name written.
theorem kstrncpyFrom_shows {max : Nat} (hmax : 0 < max) (hsize : max ≤ size)
    (hfit : size ≤ 4294967296)
    (hapart : ∀ k < name.bytes.length + 1, Misses dest size (src + k)) (steps num_written : Nat)
    (hsteps : num_written + steps = max - 1) (hwritten : num_written ≤ name.bytes.length)
    (hname : Shows m src (name.bytes.length + 1) name.load) (h : Shows m dest size bytes)
    {fuel : Nat} (hfuel : steps < fuel) :
    ∃ n m', kstrncpyFrom max fuel (dest + num_written) (src + num_written) num_written m =
        some (n, m') ∧
      Shows m' dest size (SknyFS.kstrncpyFrom name.load max steps num_written bytes) := by
  have hlimit : sub32 max 1 = max - 1 := by
    unfold sub32
    omega
  induction steps generalizing num_written m bytes fuel with
  | zero =>
      obtain ⟨fuel, rfl⟩ := Nat.exists_eq_add_one_of_ne_zero (Nat.ne_zero_of_lt hfuel)
      rw [kstrncpyFrom, hlimit, if_neg (by omega)]
      exact ⟨_, _, rfl, h.store hfit (by omega) 0⟩
  | succ steps ih =>
      obtain ⟨fuel, rfl⟩ := Nat.exists_eq_add_one_of_ne_zero (Nat.ne_zero_of_lt hfuel)
      have hread := hname num_written (by omega)
      rw [kstrncpyFrom, hlimit, hread, SknyFS.kstrncpyFrom]
      by_cases hmore : name.load num_written ≠ 0
      · have hbyte : (name.load num_written).toNat ≠ 0 := fun hzero =>
          hmore (UInt8.toNat_inj.mp hzero)
        have hlength := (SknyFS.load_ne_zero_iff name num_written).mp hmore
        have hname' := hname.frame hapart (show num_written < size by omega)
          (name.load num_written).toNat
        have hstored := h.store hfit (show num_written < size by omega) (name.load num_written)
        rw [if_pos ⟨hbyte, by omega⟩, if_pos ⟨hmore, by omega⟩, Nat.mod_eq_of_lt (by omega),
          Nat.add_assoc dest, Nat.add_assoc src]
        exact ih (num_written + 1) (by omega) hlength hname' hstored (by omega)
      · have hend : name.load num_written = 0 := not_not.mp hmore
        rw [if_neg (fun hgoes => hgoes.1 (by rw [hend]; rfl)), if_neg (fun hgoes => hmore hgoes.1)]
        exact ⟨_, _, rfl, h.store hfit (by omega) 0⟩

-- The name field of a new record, set to zeros and filled on the stack.
theorem newMetadata_shows (stack : SknyFS.Buffer) (available_chunk : Nat)
    (hapart : ∀ k < name.bytes.length + 1, Misses dest SknyFS.NAME_SIZE (src + k))
    (hname : Shows m src (name.bytes.length + 1) name.load)
    (h : Shows m dest SknyFS.NAME_SIZE stack) {fuel : Nat} (hfuel : SknyFS.NAME_SIZE ≤ fuel) :
    ∃ n m', kstrncpy fuel dest src SknyFS.NAME_SIZE (kmemset dest 0 SknyFS.NAME_SIZE m) =
        some (n, m') ∧
      Shows m' dest SknyFS.NAME_SIZE (SknyFS.newMetadata stack name available_chunk).name := by
  have hfilled := kmemset_filled SknyFS.NAME_SIZE (Filled.zero m dest 0)
  rw [Nat.zero_add, Nat.add_zero] at hfilled
  have hname' : Shows (kmemset dest 0 SknyFS.NAME_SIZE m) src (name.bytes.length + 1) name.load :=
    fun k hk => (hfilled.outside _ (hapart k hk)).trans (hname k hk)
  have hzeros := kmemset_shows h (by decide) 0 SknyFS.NAME_SIZE
  have hrounds : SknyFS.NAME_SIZE - 1 < fuel := Nat.lt_of_lt_of_le (by decide) hfuel
  exact kstrncpyFrom_shows (by decide) (Nat.le_refl _) (by decide) hapart
    (SknyFS.NAME_SIZE - 1) 0 (by decide) (Nat.zero_le _) hname' hzeros hrounds

end Arrays

section Literals

variable {dest src : Nat} {literal : List UInt8}

-- The memory and the count are those of a copy from where the literal lies.
theorem kstrcpy_memory (num_written : Nat) (s : Stdio.Output)
    (hliteral : HoldsString s.memory src literal)
    (hapart : ∀ i ≤ literal.length, Misses dest literal.length (src + i))
    (hcount : num_written + literal.length < 4294967296) {fuel : Nat}
    (hfuel : literal.length < fuel) :
    kstrcpyFrom fuel dest src num_written s.memory =
      some (num_written + (Stdio.kstrcpy dest literal s).1,
        (Stdio.kstrcpy dest literal s).2.memory) := by
  induction literal generalizing dest src num_written s fuel with
  | nil =>
      obtain ⟨fuel, rfl⟩ := Nat.exists_eq_add_one_of_ne_zero (Nat.ne_zero_of_lt hfuel)
      have hend : load8 s.memory src = 0 := hliteral.terminated
      rw [kstrcpyFrom, if_neg (not_not_intro hend)]
      rfl
  | cons c literal ih =>
      obtain ⟨fuel, rfl⟩ := Nat.exists_eq_add_one_of_ne_zero (Nat.ne_zero_of_lt hfuel)
      obtain ⟨hbyte, hnonzero⟩ := hliteral.head
      rw [List.length_cons] at hapart hcount hfuel
      have hrest : HoldsString (s.store dest c.toNat).memory (src + 1) literal := by
        apply hliteral.tail.congr
        intro i hi
        have hmiss := hapart (1 + i) (by omega) 0 (Nat.succ_pos _)
        rw [← Nat.add_assoc, Nat.add_zero] at hmiss
        exact load8_store8_of_ne _ _ _ _ hmiss
      have hfurther : ∀ i ≤ literal.length, Misses (dest + 1) literal.length (src + 1 + i) := by
        intro i hi j hj
        have hmiss := hapart (1 + i) (by omega) (1 + j) (by omega)
        rwa [← Nat.add_assoc, ← Nat.add_assoc] at hmiss
      rw [kstrcpyFrom, hbyte, if_pos hnonzero, Nat.mod_eq_of_lt (by omega)]
      refine (ih (num_written + 1) (s.store dest c.toNat) hrest hfurther (by omega)
        (by omega)).trans ?_
      rw [Nat.add_assoc, Nat.add_comm 1]
      rfl

end Literals

end PalleyOS.Kstdlib
