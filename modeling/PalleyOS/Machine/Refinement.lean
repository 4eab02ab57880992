import Mathlib.Data.List.Basic

namespace Machine

section Refinement

variable {σ τ ι ο : Type*}

-- What a system answers to the calls of a list, and the state they leave.
def answers (call : ι → σ → σ × ο) : σ → List ι → List ο
  | _, [] => []
  | s, op :: ops => (call op s).2 :: answers call (call op s).1 ops

def finalState (call : ι → σ → σ × ο) (s : σ) (ops : List ι) : σ :=
  ops.foldl (fun s op => (call op s).1) s

-- An allowed call on related states has one answer and leaves related states.
def Refines (R : σ → τ → Prop) (allowed : ι → Prop) (call : ι → σ → σ × ο)
    (spec : ι → τ → τ × ο) : Prop :=
  ∀ op s t, allowed op → R s t → (call op s).2 = (spec op t).2 ∧ R (call op s).1 (spec op t).1

theorem finalState_append (call : ι → σ → σ × ο) (s : σ) (ops more : List ι) :
    finalState call s (ops ++ more) = finalState call (finalState call s ops) more :=
  List.foldl_append

theorem answers_map {κ : Type*} (call : ι → σ → σ × ο) (f : κ → ι) (s : σ) (ops : List κ) :
    answers (fun op => call (f op)) s ops = answers call s (ops.map f) := by
  induction ops generalizing s with
  | nil => rfl
  | cons op ops ih =>
      rw [answers, ih]
      rfl

-- What every call keeps holds after any list of calls.
theorem finalState_invariant (call : ι → σ → σ × ο) (Inv : σ → Prop) (s : σ) (ops : List ι)
    (hkeep : ∀ op ∈ ops, ∀ s, Inv s → Inv (call op s).1) (hs : Inv s) :
    Inv (finalState call s ops) := by
  induction ops generalizing s with
  | nil => exact hs
  | cons op ops ih =>
      exact ih (call op s).1 (fun other hother => hkeep other (List.mem_cons_of_mem op hother))
        (hkeep op List.mem_cons_self s hs)

theorem Refines.answers_eq {R : σ → τ → Prop} {allowed : ι → Prop} {call : ι → σ → σ × ο}
    {spec : ι → τ → τ × ο} (h : Refines R allowed call spec) {s : σ} {t : τ} (hst : R s t)
    (ops : List ι) (hops : ∀ op ∈ ops, allowed op) :
    answers call s ops = answers spec t ops ∧
      R (finalState call s ops) (finalState spec t ops) := by
  induction ops generalizing s t with
  | nil => exact ⟨rfl, hst⟩
  | cons op ops ih =>
      obtain ⟨hfirst, hnext⟩ := h op s t (hops op List.mem_cons_self) hst
      obtain ⟨hanswers, hafter⟩ :=
        ih hnext (fun other hother => hops other (List.mem_cons_of_mem op hother))
      exact ⟨by rw [answers, answers, hfirst, hanswers], hafter⟩

end Refinement

end Machine
