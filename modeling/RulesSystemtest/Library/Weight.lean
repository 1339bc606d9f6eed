import Mathlib
import RulesSystemtest.Library.Machine

/-! Weights. The values of a finite map weigh what they weigh together, and one entry is
put in, changed or taken out at the difference. A machine whose steps are paid for out of
the weight of its state makes no more of them than it was given. -/

namespace RulesSystemtest.Library

/-! ### Finite maps -/

section Finmap

variable {κ ν : Type*} {f : ν → ℕ}

/-- The weight of all values. -/
def weight (f : ν → ℕ) (m : Finmap fun _ : κ => ν) : ℕ := (m.entries.map fun x => f x.2).sum

/-- The weight of a value that may be there. -/
def weightOf (f : ν → ℕ) (v : Option ν) : ℕ := (v.map f).getD 0

variable [DecidableEq κ]

theorem weight_insert_of_notMem {m : Finmap fun _ : κ => ν} {k : κ} (hk : k ∉ m) (v : ν) :
    weight f (m.insert k v) = f v + weight f m := by
  rw [weight, Finmap.entries_insert_of_notMem hk, Multiset.map_cons, Multiset.sum_cons, weight]

theorem insert_erase {m : Finmap fun _ : κ => ν} {k : κ} {v : ν} (hk : m.lookup k = some v) :
    (m.erase k).insert k v = m := by
  apply Finmap.ext_lookup
  intro k'
  by_cases hk' : k' = k
  · rw [hk', Finmap.lookup_insert, hk]
  · rw [Finmap.lookup_insert_of_ne _ hk', Finmap.lookup_erase_ne hk']

theorem weight_erase {m : Finmap fun _ : κ => ν} {k : κ} {v : ν} (hk : m.lookup k = some v) :
    weight f m = f v + weight f (m.erase k) := by
  have hput := weight_insert_of_notMem (f := f) (Finmap.notMem_erase_self (a := k) (s := m)) v
  rwa [insert_erase hk] at hput

theorem weight_insert (m : Finmap fun _ : κ => ν) (k : κ) (v : ν) :
    weightOf f (m.lookup k) + weight f (m.insert k v) = weight f m + f v := by
  cases hk : m.lookup k with
  | none =>
    have hput := weight_insert_of_notMem (f := f) (Finmap.lookup_eq_none.1 hk) v
    rw [weightOf, Option.map_none, Option.getD_none]
    omega
  | some v' =>
    have hput := weight_insert_of_notMem (f := f) (Finmap.notMem_erase_self (a := k) (s := m)) v
    rw [← Finmap.insert_insert (b := v'), insert_erase hk] at hput
    have hout := weight_erase (f := f) hk
    rw [weightOf, Option.map_some, Option.getD_some]
    omega

end Finmap

/-! ### Machines -/

variable {σ ε ο : Type*} {M : Machine σ ε ο} {h : List (Transition σ ε ο)} {s : σ}

/-- If every step that counts is paid for out of the weight of the state and of what is
given with the steps, then a run has no more of them than it was given. -/
theorem Machine.Run.paid {A : List (Transition σ ε ο) → Prop} (hA : Hereditary A) {μ : σ → ℕ}
    {counts : Transition σ ε ο → Bool} {given : Transition σ ε ο → ℕ} (hinit : ∀ s, M.init s → μ s = 0)
    (hstep : ∀ h s e o s', M.Run h s → A (⟨s, e, o, s'⟩ :: h) → M.step s e = some (o, s') →
      (if counts ⟨s, e, o, s'⟩ then 1 else 0) + μ s' ≤ μ s + given ⟨s, e, o, s'⟩)
    (hr : M.Run h s) : A h → h.countP counts + μ s ≤ (h.map given).sum := by
  refine Run.invariant hA (I := fun h s => h.countP counts + μ s ≤ (h.map given).sum) ?_ ?_ hr
  · intro s hs
    rw [hinit s hs]
    exact le_refl 0
  · intro h s e o s' hr ha hI hst
    have hpaid := hstep h s e o s' hr ha hst
    rw [List.countP_cons, List.map_cons, List.sum_cons]
    omega

/-- If some step makes the state lighter as long as it is not done, then it gets done, in
as many steps as it weighs. -/
theorem Machine.Run.exists_done {A : List (Transition σ ε ο) → σ → Prop} {P : Transition σ ε ο → Prop} {μ : σ → ℕ}
    {done : σ → Prop} (hstep : ∀ h s, M.Run h s → A h s → ¬ done s → ∃ e o s', M.step s e = some (o, s') ∧
      A (⟨s, e, o, s'⟩ :: h) s' ∧ P ⟨s, e, o, s'⟩ ∧ μ s' < μ s)
    (hr : M.Run h s) (ha : A h s) :
    ∃ u s', M.Run (u ++ h) s' ∧ done s' ∧ A (u ++ h) s' ∧ (∀ t ∈ u, P t) ∧ u.length + μ s' ≤ μ s := by
  induction hn : μ s using Nat.strong_induction_on generalizing h s with
  | _ n ih =>
    subst hn
    by_cases hd : done s
    · exact ⟨[], s, hr, hd, ha, by simp, by simp⟩
    obtain ⟨e, o, s', hst, ha', hP, hlt⟩ := hstep h s hr ha hd
    obtain ⟨u, s'', hr', hd', ha'', hall, hlen⟩ := ih (μ s') hlt (.step hr hst) ha' rfl
    refine ⟨u ++ [⟨s, e, o, s'⟩], s'', ?_, hd', ?_, ?_, ?_⟩
    · simpa using hr'
    · simpa using ha''
    · intro t ht
      rcases List.mem_append.1 ht with ht | ht
      · exact hall t ht
      · exact List.mem_singleton.1 ht ▸ hP
    · simp only [List.length_append, List.length_singleton]
      omega

end RulesSystemtest.Library
