import Mathlib.Data.List.Basic

/-! Loops that take items one by one until one of them has an outcome. The first such
item decides, those before it have none, and what comes after it is never looked at. -/

namespace RulesSystemtest.Library

variable {α β γ : Type*} {f : α → Option β} {otherwise b : β} {l : List α} {x : α}

/-- The outcome of the first item that has one, or `otherwise` when the items run out. -/
def firstOutcome (f : α → Option β) (otherwise : β) : List α → β
  | [] => otherwise
  | x :: l => (f x).getD (firstOutcome f otherwise l)

theorem firstOutcome_cons_some (h : f x = some b) (l : List α) : firstOutcome f otherwise (x :: l) = b := by
  rw [firstOutcome, h, Option.getD_some]

theorem firstOutcome_cons_none (h : f x = none) (l : List α) :
    firstOutcome f otherwise (x :: l) = firstOutcome f otherwise l := by
  rw [firstOutcome, h, Option.getD_none]

theorem firstOutcome_append {before : List α} (h : ∀ y ∈ before, f y = none) (l : List α) :
    firstOutcome f otherwise (before ++ l) = firstOutcome f otherwise l := by
  induction before with
  | nil => rfl
  | cons y before ih =>
    rw [List.forall_mem_cons] at h
    rw [List.cons_append, firstOutcome_cons_none h.1, ih h.2]

/-- An outcome other than the last resort comes from an item, and the items before it have none. -/
theorem firstOutcome_eq_iff (hb : b ≠ otherwise) : firstOutcome f otherwise l = b ↔
    ∃ before x after, l = before ++ x :: after ∧ (∀ y ∈ before, f y = none) ∧ f x = some b := by
  constructor
  · intro h
    induction l with
    | nil => exact absurd h.symm hb
    | cons x l ih =>
      cases hx : f x with
      | some c =>
        rw [firstOutcome_cons_some hx] at h
        exact ⟨[], x, l, rfl, List.forall_mem_nil _, hx.trans (congrArg some h)⟩
      | none =>
        rw [firstOutcome_cons_none hx] at h
        obtain ⟨before, y, after, rfl, hbefore, hy⟩ := ih h
        exact ⟨x :: before, y, after, rfl, List.forall_mem_cons.2 ⟨hx, hbefore⟩, hy⟩
  · rintro ⟨before, x, after, rfl, hbefore, hx⟩
    rw [firstOutcome_append hbefore, firstOutcome_cons_some hx]

/-- What follows an item with an outcome does not matter. -/
theorem firstOutcome_append_cons (hx : (f x).isSome) (before after after' : List α) :
    firstOutcome f otherwise (before ++ x :: after) = firstOutcome f otherwise (before ++ x :: after') := by
  obtain ⟨b, hb⟩ := Option.isSome_iff_exists.1 hx
  induction before with
  | nil => rw [List.nil_append, List.nil_append, firstOutcome_cons_some hb, firstOutcome_cons_some hb]
  | cons y before ih => rw [List.cons_append, List.cons_append, firstOutcome, firstOutcome, ih]

theorem firstOutcome_map (g : γ → α) (l : List γ) :
    firstOutcome f otherwise (l.map g) = firstOutcome (fun x => f (g x)) otherwise l := by
  induction l with
  | nil => rfl
  | cons x l ih => rw [List.map_cons, firstOutcome, firstOutcome, ih]

/-- Where a test tells the items that have an outcome, the first one that passes decides. -/
theorem firstOutcome_find {p : α → Bool} {g : α → β} (h : ∀ x, f x = if p x then some (g x) else none) (l : List α) :
    firstOutcome f otherwise l = ((l.find? p).map g).getD otherwise := by
  induction l with
  | nil => rfl
  | cons x l ih =>
    by_cases hp : p x = true
    · rw [firstOutcome_cons_some ((h x).trans (if_pos hp)), List.find?_cons_of_pos hp, Option.map_some,
        Option.getD_some]
    · rw [firstOutcome_cons_none ((h x).trans (if_neg hp)), List.find?_cons_of_neg hp, ih]

end RulesSystemtest.Library
