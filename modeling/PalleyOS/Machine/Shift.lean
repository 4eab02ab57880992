import Mathlib.Logic.Function.Basic

namespace Machine

-- Loops over a state with cells that move each cell by one place.
section Shift

variable {σ β : Type*} (cells : σ → Nat → β) (loop : Nat → Nat → σ → σ)

structure ShiftsDown : Prop where
  zero : ∀ i s, loop 0 i s = s
  succ : ∀ remaining i s, ∃ t, cells t = Function.update (cells s) i (cells s (i + 1)) ∧
    loop (remaining + 1) i s = loop remaining (i + 1) t

structure ShiftsUp : Prop where
  zero : ∀ i s, loop 0 i s = s
  succ : ∀ remaining i s, ∃ t, cells t = Function.update (cells s) i (cells s (i - 1)) ∧
    loop (remaining + 1) i s = loop remaining (i - 1) t

variable {cells loop}

-- Each round reads a cell that no round before it wrote.
theorem ShiftsDown.apply (h : ShiftsDown cells loop) (remaining i : Nat) (s : σ) (k : Nat) :
    cells (loop remaining i s) k =
      if i ≤ k ∧ k < i + remaining then cells s (k + 1) else cells s k := by
  induction remaining generalizing i s with
  | zero => rw [h.zero, if_neg (by omega)]
  | succ remaining ih =>
      obtain ⟨t, ht, hloop⟩ := h.succ remaining i s
      rw [hloop, ih, ht]
      by_cases hhigher : i + 1 ≤ k ∧ k < i + 1 + remaining
      · rw [if_pos hhigher, if_pos ⟨by omega, by omega⟩, Function.update_of_ne (by omega)]
      · rw [if_neg hhigher]
        by_cases hk : k = i
        · rw [hk, Function.update_self, if_pos ⟨by omega, by omega⟩]
        · rw [Function.update_of_ne hk, if_neg (fun hin => hhigher ⟨by omega, by omega⟩)]

theorem ShiftsUp.apply (h : ShiftsUp cells loop) (remaining i : Nat) (s : σ) (k : Nat)
    (hroom : remaining ≤ i) :
    cells (loop remaining i s) k =
      if i < k + remaining ∧ k ≤ i then cells s (k - 1) else cells s k := by
  induction remaining generalizing i s with
  | zero => rw [h.zero, if_neg (by omega)]
  | succ remaining ih =>
      obtain ⟨t, ht, hloop⟩ := h.succ remaining i s
      rw [hloop, ih _ _ (by omega), ht]
      by_cases hlower : i - 1 < k + remaining ∧ k ≤ i - 1
      · rw [if_pos hlower, if_pos ⟨by omega, by omega⟩, Function.update_of_ne (by omega)]
      · rw [if_neg hlower]
        by_cases hk : k = i
        · rw [hk, Function.update_self, if_pos ⟨by omega, by omega⟩]
        · rw [Function.update_of_ne hk, if_neg (fun hin => hlower ⟨by omega, by omega⟩)]

end Shift

end Machine
