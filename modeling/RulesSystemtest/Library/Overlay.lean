import Mathlib.Data.List.Basic
import Mathlib.Data.List.Pairwise
import Mathlib.Data.List.Perm.Basic

/-! Layers of partial maps where the last layer that sets a key decides its value.
Every layer keeps its own values, and the order of the layers does not matter, exactly
when no two of them set one key to different values. -/

namespace RulesSystemtest.Library

variable {α β κ ν : Type*} {f : α → κ → Option ν} {l m : List α} {k : κ}

/-- The layers `f x` for `x` in the list, a later one over an earlier one. -/
def overlay (f : α → κ → Option ν) : List α → κ → Option ν
  | [], _ => none
  | x :: l, k => (overlay f l k).or (f x k)

/-- Two layers set no key to different values. -/
def Agree (f : α → κ → Option ν) (x y : α) : Prop := ∀ k u v, f x k = some u → f y k = some v → u = v

theorem Agree.symm {x y : α} (h : Agree f x y) : Agree f y x := fun k u v hu hv => (h k v u hv hu).symm

theorem Agree.refl (x : α) : Agree f x x := fun _ _ _ hu hv => Option.some.inj (hu.symm.trans hv)

instance : Std.Symm (Agree f) := ⟨fun _ _ => Agree.symm⟩

/-- Layers that agree pairwise agree in any list of them. -/
theorem agree_of_pairwise (h : m.Pairwise (Agree f)) (hl : l.Perm m) : ∀ x ∈ l, ∀ y ∈ l, Agree f x y := by
  intro x hx y hy
  exact h.forall_of_forall (fun z _ => Agree.refl z) (hl.subset hx) (hl.subset hy)

theorem overlay_append (l m : List α) (k : κ) : overlay f (l ++ m) k = (overlay f m k).or (overlay f l k) := by
  induction l with
  | nil => simp [overlay]
  | cons x l ih => rw [List.cons_append, overlay, ih, overlay, Option.or_assoc]

theorem overlay_flatMap (g : β → List α) (l : List β) (k : κ) :
    overlay f (l.flatMap g) k = overlay (fun x => overlay f (g x)) l k := by
  induction l with
  | nil => rfl
  | cons x l ih => rw [List.flatMap_cons, overlay_append, ih, overlay]

theorem overlay_map (g : β → α) (l : List β) (k : κ) : overlay f (l.map g) k = overlay (fun x => f (g x)) l k := by
  induction l with
  | nil => rfl
  | cons x l ih => rw [List.map_cons, overlay, ih, overlay]

theorem overlay_congr {g : β → κ → Option ν} {m : List β} (h : List.Forall₂ (fun x y => f x k = g y k) l m) :
    overlay f l k = overlay g m k := by
  induction h with
  | nil => rfl
  | cons hxy _ ih => rw [overlay, ih, hxy, overlay]

/-- A fold whose steps set what each layer sets shows the layers, over what it showed before. -/
theorem overlay_foldl {σ : Type*} (look : σ → κ → Option ν) {step : σ → α → σ}
    (hstep : ∀ s x k, look (step s x) k = (f x k).or (look s k)) (s : σ) (l : List α) (k : κ) :
    look (l.foldl step s) k = (overlay f l k).or (look s k) := by
  induction l generalizing s with
  | nil => rw [List.foldl_nil, overlay, Option.none_or]
  | cons x l ih => rw [List.foldl_cons, ih, hstep, overlay, Option.or_assoc]

theorem exists_of_overlay {v : ν} (h : overlay f l k = some v) : ∃ x ∈ l, f x k = some v := by
  induction l with
  | nil => cases h
  | cons x l ih =>
    rw [overlay, Option.or_eq_some_iff] at h
    rcases h with h | ⟨-, h⟩
    · obtain ⟨y, hy, hv⟩ := ih h
      exact ⟨y, List.mem_cons_of_mem _ hy, hv⟩
    · exact ⟨x, List.mem_cons_self, h⟩

theorem overlay_isSome {x : α} {v : ν} (hx : x ∈ l) (hv : f x k = some v) : ∃ u, overlay f l k = some u := by
  induction l with
  | nil => cases hx
  | cons y l ih =>
    cases hl : overlay f l k with
    | some u => exact ⟨u, by rw [overlay, hl, Option.some_or]⟩
    | none =>
      rcases List.mem_cons.1 hx with rfl | hx
      · exact ⟨v, by rw [overlay, hl, Option.none_or, hv]⟩
      · obtain ⟨u, hu⟩ := ih hx
        rw [hl] at hu
        cases hu

/-- No layer's value is overwritten by another one, exactly when all layers agree. -/
theorem overlay_keeps_iff : (∀ x ∈ l, ∀ k v, f x k = some v → overlay f l k = some v) ↔
    ∀ x ∈ l, ∀ y ∈ l, Agree f x y := by
  constructor
  · intro h x hx y hy k u v hu hv
    exact Option.some.inj ((h x hx k u hu).symm.trans (h y hy k v hv))
  · intro h x hx k v hv
    obtain ⟨u, hu⟩ := overlay_isSome hx hv
    obtain ⟨y, hy, hyu⟩ := exists_of_overlay hu
    rw [hu, h y hy x hx k u v hyu hv]

/-- Where the layers agree, the value of a key is the one that any of them sets. -/
theorem overlay_eq_some_iff (h : ∀ x ∈ l, ∀ y ∈ l, Agree f x y) {v : ν} :
    overlay f l k = some v ↔ ∃ x ∈ l, f x k = some v := by
  refine ⟨exists_of_overlay, ?_⟩
  rintro ⟨x, hx, hv⟩
  exact overlay_keeps_iff.2 h x hx k v hv

/-- Layers whose conflict is settled by their order can be put in either order. -/
theorem overlay_last_two {x y : α} {u v : ν} (hu : f x k = some u) (hv : f y k = some v) (l : List α) :
    overlay f (l ++ [x, y]) k = some v ∧ overlay f (l ++ [y, x]) k = some u := by
  simp [overlay_append, overlay, hu, hv]

/-- The order of the layers does not matter exactly when they agree pairwise. -/
theorem overlay_perm_iff :
    (∀ l l' : List α, l.Perm m → l'.Perm m → ∀ k, overlay f l k = overlay f l' k) ↔ m.Pairwise (Agree f) := by
  constructor
  · intro h
    rw [List.pairwise_iff_forall_sublist]
    intro x y hsub k u v hu hv
    obtain ⟨rest, hrest⟩ := hsub.exists_perm_append
    have hxy : (rest ++ [x, y]).Perm m := (List.perm_append_comm.trans hrest.symm)
    have hyx : (rest ++ [y, x]).Perm m := ((List.Perm.swap x y []).append_left rest).trans hxy
    obtain ⟨hlast, hlast'⟩ := overlay_last_two hu hv rest
    have hsame := h _ _ hxy hyx k
    rw [hlast, hlast'] at hsame
    exact (Option.some.inj hsame).symm
  · intro h l l' hl hl' k
    refine Option.ext fun v => ?_
    rw [overlay_eq_some_iff (agree_of_pairwise h hl), overlay_eq_some_iff (agree_of_pairwise h hl')]
    simp only [hl.mem_iff, hl'.mem_iff]

end RulesSystemtest.Library
