import PalleyOS.Machine.Strings

namespace Machine

-- Bytes copied one after the other, upwards, over ranges that may overlap and wrap.
section Copying

-- With the destination `sub32 dest src` bytes above the source, every byte that
-- comes after as many is read from what was written.
structure Copied (m : Memory) (dest src n : Nat) (m' : Memory) : Prop where
  inside : ∀ i < n, load8 m' (dest + i) = load8 m (src + i % sub32 dest src)
  outside : ∀ x, Misses dest n x → load8 m' x = load8 m x

variable {m m' : Memory} {dest src n : Nat}

theorem Copied.zero (m : Memory) (dest src : Nat) : Copied m dest src 0 m :=
  ⟨fun i hi => absurd hi (Nat.not_lt_zero i), fun _ _ => rfl⟩

-- The next byte that is read.
theorem Copied.next (h : Copied m dest src n m') (hn : n < 4294967296) :
    load8 m' (src + n) = load8 m (src + n % sub32 dest src) := by
  generalize hlag : sub32 dest src = lag
  have hlag' := hlag
  unfold sub32 at hlag'
  by_cases hwritten : 0 < lag ∧ lag ≤ n
  · have hback : load8 m' (src + n) = load8 m' (dest + (n - lag)) :=
      load8_mod _ _ _ (by omega)
    rw [hback, h.inside (n - lag) (by omega), hlag, ← Nat.mod_eq_sub_mod hwritten.2]
  · have hmiss : Misses dest n (src + n) := by
      intro i hi
      omega
    rw [h.outside _ hmiss]
    by_cases hzero : lag = 0
    · rw [hzero, Nat.mod_zero]
    · rw [Nat.mod_eq_of_lt (by omega)]

theorem Misses.append_left {a x k : Nat} (h : Misses a (n + k) x) : Misses a n x :=
  fun i hi => h i (by omega)

theorem Misses.last {a x : Nat} (h : Misses a (n + 1) x) :
    x % 4294967296 ≠ (a + n) % 4294967296 := h n (Nat.lt_succ_self n)

-- One store behind the bytes that are in place.
theorem Copied.store (h : Copied m dest src n m') (hn : n < 4294967296) (value : Nat) :
    (∀ i < n, load8 (store8 m' (dest + n) value) (dest + i) =
      load8 m (src + i % sub32 dest src)) ∧
    ∀ x, Misses dest (n + 1) x → load8 (store8 m' (dest + n) value) x = load8 m x := by
  refine ⟨fun i hi => ?_, fun x hx => ?_⟩
  · rw [load8_store8_of_ne _ _ _ _ (by omega), h.inside i hi]
  · rw [load8_store8_of_ne _ _ _ _ hx.last, h.outside x hx.append_left]

theorem Copied.step (h : Copied m dest src n m') (hn : n < 4294967296) :
    Copied m dest src (n + 1) (store8 m' (dest + n) (load8 m' (src + n))) := by
  obtain ⟨hinside, houtside⟩ := h.store hn (load8 m' (src + n))
  refine ⟨fun i hi => ?_, houtside⟩
  by_cases hlast : i = n
  · subst i
    rw [load8_store8_self, h.next hn, Nat.mod_eq_of_lt (load8_lt _ _)]
  · exact hinside i (by omega)

-- Bytes that do not overlap, or that move down, arrive as they were.
theorem Copied.holds {bytes : List UInt8} (h : Copied m dest src bytes.length m')
    (hbytes : HoldsBytes m src bytes)
    (hfar : sub32 dest src = 0 ∨ bytes.length ≤ sub32 dest src) : HoldsBytes m' dest bytes := by
  intro i hi
  rw [h.inside i hi]
  rcases hfar with hzero | hlong
  · rw [hzero, Nat.mod_zero]
    exact hbytes i hi
  · rw [Nat.mod_eq_of_lt (by omega)]
    exact hbytes i hi

-- Once every address is written, no byte of the old memory is left.
theorem Copied.everywhere (h : Copied m dest src 4294967296 m') (x : Nat) :
    ∃ i < 4294967296, load8 m' x = load8 m (src + i % sub32 dest src) := by
  have hlt : sub32 x dest < 4294967296 := Nat.mod_lt _ (by decide)
  refine ⟨sub32 x dest, hlt, ?_⟩
  rw [← h.inside _ hlt]
  apply load8_mod
  unfold sub32
  omega

end Copying

-- One byte stored over and over.
section Filling

structure Filled (m : Memory) (dest n value : Nat) (m' : Memory) : Prop where
  inside : ∀ i < n, load8 m' (dest + i) = value % 256
  outside : ∀ x, Misses dest n x → load8 m' x = load8 m x

variable {m m' : Memory} {dest n value : Nat}

theorem Filled.zero (m : Memory) (dest value : Nat) : Filled m dest 0 value m :=
  ⟨fun i hi => absurd hi (Nat.not_lt_zero i), fun _ _ => rfl⟩

theorem Filled.step (h : Filled m dest n value m') :
    Filled m dest (n + 1) value (store8 m' (dest + n) value) := by
  refine ⟨fun i hi => ?_, fun x hx => ?_⟩
  · by_cases hlast : (dest + i) % 4294967296 = (dest + n) % 4294967296
    · rw [load8_mod _ _ _ hlast, load8_store8_self]
    · have hne : i ≠ n := fun he => hlast (by rw [he])
      rw [load8_store8_of_ne _ _ _ _ hlast, h.inside i (by omega)]
  · rw [load8_store8_of_ne _ _ _ _ hx.last, h.outside x hx.append_left]

end Filling

end Machine
