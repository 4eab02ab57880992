import Mathlib.Data.List.Basic

namespace Machine

section Linked

variable {α ν : Type*}

-- `node a v b` says that the record at address `a` holds `v` and links to `b`.
-- `Segment node a vs c` says that the links lead from `a` through records that
-- hold `vs` to `c`.
def Segment (node : α → ν → α → Prop) : α → List ν → α → Prop
  | a, [], c => a = c
  | a, v :: vs, c => ∃ b, node a v b ∧ Segment node b vs c

@[simp] theorem segment_nil (node : α → ν → α → Prop) (a c : α) :
    Segment node a [] c ↔ a = c := Iff.rfl

@[simp] theorem segment_cons (node : α → ν → α → Prop) (a c : α) (v : ν) (vs : List ν) :
    Segment node a (v :: vs) c ↔ ∃ b, node a v b ∧ Segment node b vs c := Iff.rfl

theorem segment_append (node : α → ν → α → Prop) (a c : α) (front back : List ν) :
    Segment node a (front ++ back) c ↔ ∃ b, Segment node a front b ∧ Segment node b back c := by
  induction front generalizing a with
  | nil => simp
  | cons v vs ih =>
      simp only [List.cons_append, segment_cons, ih]
      constructor
      · rintro ⟨b, hv, d, hvs, hback⟩
        exact ⟨d, ⟨b, hv, hvs⟩, hback⟩
      · rintro ⟨d, ⟨b, hv, hvs⟩, hback⟩
        exact ⟨b, hv, d, hvs, hback⟩

theorem Segment.mono {node node' : α → ν → α → Prop} {a c : α} {vs : List ν}
    (h : Segment node a vs c) (hkeep : ∀ a v b, v ∈ vs → node a v b → node' a v b) :
    Segment node' a vs c := by
  induction vs generalizing a with
  | nil => exact h
  | cons v vs ih =>
      obtain ⟨b, hv, hvs⟩ := h
      exact ⟨b, hkeep a v b List.mem_cons_self hv,
        ih hvs (fun a w b hw => hkeep a w b (List.mem_cons_of_mem _ hw))⟩

-- A middle part is replaced by any records that lead to the same place.
theorem Segment.replace {node node' : α → ν → α → Prop} {a b c d : α}
    {front middle back : List ν} (hfront : Segment node a front b)
    (hmiddle : Segment node' b middle c) (hback : Segment node c back d)
    (hkeep : ∀ a v b, v ∈ front ∨ v ∈ back → node a v b → node' a v b) :
    Segment node' a (front ++ (middle ++ back)) d := by
  rw [segment_append]
  refine ⟨b, hfront.mono (fun a v b hv => hkeep a v b (.inl hv)), ?_⟩
  rw [segment_append]
  exact ⟨c, hmiddle, hback.mono (fun a v b hv => hkeep a v b (.inr hv))⟩

end Linked

end Machine
