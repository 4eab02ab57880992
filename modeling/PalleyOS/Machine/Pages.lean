import PalleyOS.Machine.Refinement
import Mathlib.Logic.Function.Basic

namespace Machine

-- A pool that gives out the first candidate not in use.
section Pool

variable {α : Type*} [DecidableEq α]

-- What such a pool gives out, one after the other.
def handOut : List α → (α → Bool) → List α
  | [], _ => []
  | x :: rest, used =>
      if used x then handOut rest used
      else x :: handOut rest (fun y => decide (y = x) || used y)

theorem head?_handOut (candidates : List α) (used : α → Bool) :
    (handOut candidates used).head? = candidates.find? (fun x => !used x) := by
  induction candidates with
  | nil => rfl
  | cons x rest ih =>
      rw [handOut, List.find?_cons]
      cases hused : used x with
      | true => exact ih
      | false => rfl

-- Once the first one is in use, the rest is still to come.
theorem handOut_of_cons (candidates : List α) (used : α → Bool) (x : α) (more : List α)
    (h : handOut candidates used = x :: more) :
    handOut candidates (fun y => decide (y = x) || used y) = more := by
  induction candidates with
  | nil => cases h
  | cons y rest ih =>
      rw [handOut] at h ⊢
      cases hused : used y with
      | true =>
          rw [hused, if_pos rfl] at h
          rw [Bool.or_true, if_pos rfl]
          exact ih h
      | false =>
          rw [hused, if_neg Bool.false_ne_true] at h
          obtain ⟨rfl, rfl⟩ := List.cons.inj h
          rw [decide_eq_true rfl, Bool.true_or, if_pos rfl]

theorem mem_handOut (candidates : List α) (used : α → Bool) (x : α)
    (h : x ∈ handOut candidates used) : x ∈ candidates ∧ used x = false := by
  induction candidates generalizing used with
  | nil => cases h
  | cons y rest ih =>
      rw [handOut] at h
      cases hused : used y with
      | true =>
          rw [hused, if_pos rfl] at h
          obtain ⟨hmem, hfree⟩ := ih used h
          exact ⟨List.mem_cons_of_mem y hmem, hfree⟩
      | false =>
          rw [hused, if_neg Bool.false_ne_true] at h
          rcases List.mem_cons.mp h with rfl | h
          · exact ⟨List.mem_cons_self, hused⟩
          · obtain ⟨hmem, hfree⟩ := ih _ h
            exact ⟨List.mem_cons_of_mem y hmem, (Bool.or_eq_false_iff.mp hfree).2⟩

end Pool

-- Memory in pages, each of which gets storage of its own at its first access,
-- as long as there is some.
section Pages

variable {ι κ β : Type*} [DecidableEq ι]

structure Pages (ι κ β : Type*) where
  page : ι → Option (κ → β)
  fresh : List (κ → β)

inductive Access (ι κ β : Type*) where
  | load (i : ι) (k : κ)
  | store (i : ι) (k : κ) (b : β)

-- `none` is an access without storage left.
def Pages.reach (i : ι) (m : Pages ι κ β) : Option (Pages ι κ β × (κ → β)) :=
  match m.page i with
  | some content => some (m, content)
  | none =>
      match m.fresh with
      | [] => none
      | content :: fresh =>
          some ({ page := Function.update m.page i (some content), fresh := fresh }, content)

theorem Pages.reach_page {m m' : Pages ι κ β} {i : ι} {content : κ → β}
    (h : m.reach i = some (m', content)) :
    m'.page i = some content ∧ ∀ j c, m.page j = some c → m'.page j = some c := by
  unfold Pages.reach at h
  cases hpage : m.page i with
  | some c =>
      rw [hpage] at h
      obtain ⟨rfl, rfl⟩ := Prod.mk.inj (Option.some.inj h)
      exact ⟨hpage, fun _ _ hj => hj⟩
  | none =>
      rw [hpage] at h
      cases hfresh : m.fresh with
      | nil =>
          rw [hfresh] at h
          cases h
      | cons c fresh =>
          rw [hfresh] at h
          obtain ⟨rfl, rfl⟩ := Prod.mk.inj (Option.some.inj h)
          refine ⟨Function.update_self .., fun j d hj => ?_⟩
          have hne : j ≠ i := by
            rintro rfl
            rw [hpage] at hj
            cases hj
          exact (Function.update_of_ne hne ..).trans hj

variable [DecidableEq κ]

-- After an access without storage the machine stands still.
def Pages.access : Access ι κ β → Option (Pages ι κ β) → Option (Pages ι κ β) × Option β
  | _, none => (none, none)
  | .load i k, some m =>
      match m.reach i with
      | none => (none, none)
      | some (m, content) => (some m, some (content k))
  | .store i k b, some m =>
      match m.reach i with
      | none => (none, none)
      | some (m, content) =>
          (some { m with
            page := Function.update m.page i (some (Function.update content k b)) }, some b)

-- A running machine holds `b` at that place.
def Pages.Holds (i : ι) (k : κ) (b : β) (s : Option (Pages ι κ β)) : Prop :=
  ∀ m, s = some m → ∃ content, m.page i = some content ∧ content k = b

theorem Pages.holds_store (i : ι) (k : κ) (b : β) (s : Option (Pages ι κ β)) :
    Pages.Holds i k b (Pages.access (.store i k b) s).1 := by
  intro m hm
  cases s with
  | none => cases hm
  | some m₀ =>
      rw [Pages.access] at hm
      cases hreach : m₀.reach i with
      | none =>
          rw [hreach] at hm
          cases hm
      | some reached =>
          rw [hreach] at hm
          obtain rfl := Option.some.inj hm
          exact ⟨_, Function.update_self .., Function.update_self ..⟩

-- No other store reaches that place.
theorem Pages.Holds.access {i : ι} {k : κ} {b : β} {s : Option (Pages ι κ β)}
    (h : Pages.Holds i k b s) (op : Access ι κ β) (hop : ∀ c, op ≠ .store i k c) :
    Pages.Holds i k b (Pages.access op s).1 := by
  intro m hm
  cases s with
  | none =>
      rw [Pages.access] at hm
      cases hm
  | some m₀ =>
      obtain ⟨content, hpage, hb⟩ := h m₀ rfl
      cases op with
      | load j l =>
          rw [Pages.access] at hm
          cases hreach : m₀.reach j with
          | none =>
              rw [hreach] at hm
              cases hm
          | some reached =>
              rw [hreach] at hm
              obtain rfl := Option.some.inj hm
              exact ⟨content, (Pages.reach_page hreach).2 i content hpage, hb⟩
      | store j l c =>
          rw [Pages.access] at hm
          cases hreach : m₀.reach j with
          | none =>
              rw [hreach] at hm
              cases hm
          | some reached =>
              rw [hreach] at hm
              obtain rfl := Option.some.inj hm
              obtain ⟨hself, hkept⟩ := Pages.reach_page hreach
              by_cases hj : i = j
              · subst j
                have hcontent : reached.2 = content :=
                  Option.some.inj (hself.symm.trans (hkept i content hpage))
                have hl : k ≠ l := by
                  rintro rfl
                  exact hop c rfl
                refine ⟨_, Function.update_self .., ?_⟩
                rw [Function.update_of_ne hl, hcontent, hb]
              · refine ⟨content, ?_, hb⟩
                exact (Function.update_of_ne hj ..).trans (hkept i content hpage)

theorem Pages.Holds.load {i : ι} {k : κ} {b : β} {s : Option (Pages ι κ β)}
    (h : Pages.Holds i k b s) :
    (Pages.access (.load i k) s).2 = none ∨ (Pages.access (.load i k) s).2 = some b := by
  cases s with
  | none => exact .inl rfl
  | some m =>
      obtain ⟨content, hpage, hb⟩ := h m rfl
      rw [Pages.access, Pages.reach, hpage]
      exact .inr (congrArg some hb)

end Pages

end Machine
