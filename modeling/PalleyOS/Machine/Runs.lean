import Mathlib.Logic.Basic
import Mathlib.Data.List.Basic

namespace Machine

section Runs

variable {σ ι : Type*}

-- A trace lists the labels of a run, each with the state it leads to.
-- `Along R s trace` says that `R` relates every state of the run that starts
-- in `s` to the next one.
def Along (R : σ → ι → σ → Prop) : σ → List (ι × σ) → Prop
  | _, [] => True
  | s, (label, next) :: rest => R s label next ∧ Along R next rest

def lastState : σ → List (ι × σ) → σ
  | s, [] => s
  | _, (_, next) :: rest => lastState next rest

@[simp] theorem along_nil (R : σ → ι → σ → Prop) (s : σ) : Along R s [] := trivial

@[simp] theorem along_cons (R : σ → ι → σ → Prop) (s next : σ) (label : ι)
    (rest : List (ι × σ)) :
    Along R s ((label, next) :: rest) ↔ R s label next ∧ Along R next rest := Iff.rfl

theorem Along.mono {R R' : σ → ι → σ → Prop} {s : σ} {trace : List (ι × σ)}
    (hr : ∀ s label next, R s label next → R' s label next) (h : Along R s trace) :
    Along R' s trace := by
  induction trace generalizing s with
  | nil => trivial
  | cons entry rest ih => exact ⟨hr _ _ _ h.1, ih h.2⟩

-- An invariant kept by every step that meets the condition holds at both ends
-- of every step of a run whose steps all meet it.
theorem Along.invariant {step ok : σ → ι → σ → Prop} (Inv : σ → Prop) {s : σ}
    {trace : List (ι × σ)}
    (hkeep : ∀ s label next, Inv s → step s label next → ok s label next → Inv next)
    (hs : Inv s) (hrun : Along step s trace) (hok : Along ok s trace) :
    Along (fun s label next => Inv s ∧ step s label next ∧ ok s label next ∧ Inv next) s trace := by
  induction trace generalizing s with
  | nil => trivial
  | cons entry rest ih =>
      have hnext := hkeep _ _ _ hs hrun.1 hok.1
      exact ⟨⟨hs, hrun.1, hok.1, hnext⟩, ih hnext hrun.2 hok.2⟩

theorem Along.lastState {step ok : σ → ι → σ → Prop} (Inv : σ → Prop) {s : σ}
    {trace : List (ι × σ)}
    (hkeep : ∀ s label next, Inv s → step s label next → ok s label next → Inv next)
    (hs : Inv s) (hrun : Along step s trace) (hok : Along ok s trace) :
    Inv (lastState s trace) := by
  induction trace generalizing s with
  | nil => exact hs
  | cons entry rest ih => exact ih (hkeep _ _ _ hs hrun.1 hok.1) hrun.2 hok.2

-- Where a property and a condition agree on every step from an invariant state,
-- and the condition keeps the invariant, they agree on whole runs. A step that
-- breaks the condition breaks the property there, so what follows is irrelevant.
theorem along_iff {step P C : σ → ι → σ → Prop} (Inv : σ → Prop) {s : σ}
    {trace : List (ι × σ)}
    (hkeep : ∀ s label next, Inv s → step s label next → C s label next → Inv next)
    (hiff : ∀ s label next, Inv s → step s label next → (P s label next ↔ C s label next))
    (hs : Inv s) (hrun : Along step s trace) : Along P s trace ↔ Along C s trace := by
  induction trace generalizing s with
  | nil => exact Iff.rfl
  | cons entry rest ih =>
      have he := hiff _ _ _ hs hrun.1
      constructor
      · intro h
        have hc := he.mp h.1
        exact ⟨hc, (ih (hkeep _ _ _ hs hrun.1 hc) hrun.2).mp h.2⟩
      · intro h
        exact ⟨he.mpr h.1, (ih (hkeep _ _ _ hs hrun.1 h.1) hrun.2).mpr h.2⟩

-- The run of a deterministic system on a list of labels.
def traceOf (next : ι → σ → σ) : σ → List ι → List (ι × σ)
  | _, [] => []
  | s, label :: rest => (label, next label s) :: traceOf next (next label s) rest

theorem along_traceOf (next : ι → σ → σ) (s : σ) (labels : List ι) :
    Along (fun s label t => t = next label s) s (traceOf next s labels) := by
  induction labels generalizing s with
  | nil => trivial
  | cons label rest ih => exact ⟨rfl, ih (next label s)⟩

-- Steps that are known one by one, of labels that are known one by one.
theorem Along.with_labels {next : ι → σ → σ} {R : σ → ι → σ → Prop} (P : ι → Prop) {s : σ}
    {labels : List ι} (hlabels : ∀ label ∈ labels, P label)
    (h : Along R s (traceOf next s labels)) :
    Along (fun s label t => t = next label s ∧ P label ∧ R s label t) s
      (traceOf next s labels) := by
  induction labels generalizing s with
  | nil => trivial
  | cons label rest ih =>
      refine ⟨⟨rfl, hlabels label (List.mem_cons_self ..), h.1⟩, ?_⟩
      exact ih (fun other hother => hlabels other (List.mem_cons_of_mem _ hother)) h.2

theorem along_traceOf_append (R : σ → ι → σ → Prop) (next : ι → σ → σ) (s : σ)
    (labels more : List ι) :
    Along R s (traceOf next s (labels ++ more)) ↔
      Along R s (traceOf next s labels) ∧
      Along R (labels.foldl (fun s label => next label s) s)
        (traceOf next (labels.foldl (fun s label => next label s) s) more) := by
  induction labels generalizing s with
  | nil => exact (and_iff_right trivial).symm
  | cons label rest ih =>
      have htail := ih (next label s)
      rw [List.cons_append, traceOf, along_cons, htail, traceOf, along_cons, and_assoc]
      rfl

theorem lastState_traceOf (next : ι → σ → σ) (s : σ) (labels : List ι) :
    lastState s (traceOf next s labels) = labels.foldl (fun s label => next label s) s := by
  induction labels generalizing s with
  | nil => rfl
  | cons label rest ih => exact ih (next label s)

end Runs

end Machine
