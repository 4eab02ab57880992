import Mathlib.Logic.Function.Basic

namespace Machine

-- The byte-addressed memory of a 32-bit machine. Addresses wrap, wider
-- accesses are little-endian and need no alignment.
section Memory

-- Subtraction of 32-bit words.
def sub32 (a b : Nat) : Nat := (a + (4294967296 - b % 4294967296)) % 4294967296

abbrev Memory := Nat → UInt8

def load8 (m : Memory) (a : Nat) : Nat := (m (a % 4294967296)).toNat

def load16 (m : Memory) (a : Nat) : Nat := load8 m a + 256 * load8 m (a + 1)

def load32 (m : Memory) (a : Nat) : Nat := load16 m a + 65536 * load16 m (a + 2)

def store8 (m : Memory) (a value : Nat) : Memory :=
  Function.update m (a % 4294967296) (UInt8.ofNat value)

def store16 (m : Memory) (a value : Nat) : Memory :=
  store8 (store8 m a value) (a + 1) (value / 256)

def store32 (m : Memory) (a value : Nat) : Memory :=
  store16 (store16 m a value) (a + 2) (value / 65536)

theorem sub32_of_le (a b : Nat) (hb : b ≤ a) (ha : a < 4294967296) : sub32 a b = a - b := by
  unfold sub32
  omega

theorem load8_mod (m : Memory) (a b : Nat) (h : a % 4294967296 = b % 4294967296) :
    load8 m a = load8 m b := by
  unfold load8
  rw [h]

theorem load32_mod (m : Memory) (a b : Nat) (h : a % 4294967296 = b % 4294967296) :
    load32 m a = load32 m b := by
  have h0 := load8_mod m a b h
  have h1 := load8_mod m (a + 1) (b + 1) (by omega)
  have h2 := load8_mod m (a + 2) (b + 2) (by omega)
  have h3 := load8_mod m (a + 2 + 1) (b + 2 + 1) (by omega)
  simp only [load32, load16, h0, h1, h2, h3]

theorem load8_lt (m : Memory) (a : Nat) : load8 m a < 256 := UInt8.toNat_lt _

theorem store8_self (m : Memory) (a value : Nat) (ha : a < 4294967296) :
    store8 m a value a = UInt8.ofNat value := by
  unfold store8
  rw [Nat.mod_eq_of_lt ha, Function.update_self]

theorem store8_of_ne (m : Memory) (a value x : Nat) (ha : a < 4294967296) (hx : x ≠ a) :
    store8 m a value x = m x := by
  unfold store8
  rw [Nat.mod_eq_of_lt ha, Function.update_of_ne hx]

theorem store16_low (m : Memory) (a value : Nat) (ha : a + 1 < 4294967296) :
    store16 m a value a = UInt8.ofNat value := by
  unfold store16
  rw [store8_of_ne _ _ _ _ ha (by omega), store8_self _ _ _ (by omega)]

theorem store16_high (m : Memory) (a value : Nat) (ha : a + 1 < 4294967296) :
    store16 m a value (a + 1) = UInt8.ofNat (value / 256) := store8_self _ _ _ ha

theorem store16_of_ne (m : Memory) (a value x : Nat) (ha : a + 1 < 4294967296) (hx : x ≠ a)
    (hx' : x ≠ a + 1) : store16 m a value x = m x := by
  unfold store16
  rw [store8_of_ne _ _ _ _ ha hx', store8_of_ne _ _ _ _ (by omega) hx]

theorem load32_lt (m : Memory) (a : Nat) : load32 m a < 4294967296 := by
  have h0 := load8_lt m a
  have h1 := load8_lt m (a + 1)
  have h2 := load8_lt m (a + 2)
  have h3 := load8_lt m (a + 2 + 1)
  simp only [load32, load16]
  omega

theorem load8_store8_self (m : Memory) (a value : Nat) :
    load8 (store8 m a value) a = value % 256 := by
  unfold load8 store8
  rw [Function.update_self]
  exact UInt8.toNat_ofNat'

theorem load8_store8_of_ne (m : Memory) (a value x : Nat)
    (hx : x % 4294967296 ≠ a % 4294967296) : load8 (store8 m a value) x = load8 m x := by
  unfold load8 store8
  rw [Function.update_of_ne hx]

-- A write of `n` bytes from `a` on misses the byte at `x`.
def Misses (a n x : Nat) : Prop := ∀ i < n, x % 4294967296 ≠ (a + i) % 4294967296

theorem load8_store16_of_misses (m : Memory) (a value x : Nat) (hx : Misses a 2 x) :
    load8 (store16 m a value) x = load8 m x := by
  have hlow := hx 0 (by omega)
  rw [Nat.add_zero] at hlow
  unfold store16
  rw [load8_store8_of_ne _ _ _ _ (hx 1 (by omega)), load8_store8_of_ne _ _ _ _ hlow]

theorem load8_store32_of_misses (m : Memory) (a value x : Nat) (hx : Misses a 4 x) :
    load8 (store32 m a value) x = load8 m x := by
  unfold store32
  rw [load8_store16_of_misses _ _ _ _ (fun i hi => by
      rw [Nat.add_assoc]; exact hx (2 + i) (by omega)),
    load8_store16_of_misses _ _ _ _ (fun i hi => hx i (by omega))]

theorem load16_store16_self (m : Memory) (a value : Nat) :
    load16 (store16 m a value) a = value % 65536 := by
  have hlow : load8 (store16 m a value) a = value % 256 := by
    unfold store16
    rw [load8_store8_of_ne _ _ _ _ (by omega), load8_store8_self]
  have hhigh : load8 (store16 m a value) (a + 1) = value / 256 % 256 := load8_store8_self _ _ _
  unfold load16
  rw [hlow, hhigh]
  omega

-- Loads depend on the bytes they read only.
theorem load16_congr (m m' : Memory) (a : Nat)
    (h : ∀ i < 2, load8 m' (a + i) = load8 m (a + i)) : load16 m' a = load16 m a := by
  have h0 := h 0 (by omega)
  have h1 := h 1 (by omega)
  simp only [Nat.add_zero] at h0
  simp only [load16, h0, h1]

theorem load32_congr (m m' : Memory) (a : Nat)
    (h : ∀ i < 4, load8 m' (a + i) = load8 m (a + i)) : load32 m' a = load32 m a := by
  have hlow := load16_congr m m' a (fun i hi => h i (by omega))
  have hhigh := load16_congr m m' (a + 2) (fun i hi => by
    rw [Nat.add_assoc]; exact h (2 + i) (by omega))
  simp only [load32, hlow, hhigh]

theorem load32_store32_self (m : Memory) (a value : Nat) :
    load32 (store32 m a value) a = value % 4294967296 := by
  have hlow : load16 (store32 m a value) a = value % 65536 := by
    unfold store32
    rw [load16_congr (store16 m a value) _ a (fun i hi =>
      load8_store16_of_misses _ _ _ _ (fun j hj => by omega)), load16_store16_self]
  have hhigh : load16 (store32 m a value) (a + 2) = value / 65536 % 65536 :=
    load16_store16_self _ _ _
  unfold load32
  rw [hlow, hhigh]
  omega

end Memory

end Machine
