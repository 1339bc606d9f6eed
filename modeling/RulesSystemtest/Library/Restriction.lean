import Mathlib.Logic.Function.Basic

/-! Restrictions of partial maps. Under renamed keys the second map holds what a
predicate keeps of the first one. Changes at one key, on one side or on both, and
changes of the predicate there, preserve the relation. -/

namespace RulesSystemtest.Library

variable {κ κ' ν : Type*}

def Restricts (ρ : κ → κ') (p : κ → ν → Bool) (m : κ → Option ν) (m' : κ' → Option ν) : Prop :=
  ∀ k, m' (ρ k) = (m k).filter (p k)

theorem filter_kept {p : ν → Bool} {x : Option ν} (h : ∀ v, x = some v → p v = true) : x.filter p = x := by
  cases x with
  | none => rfl
  | some v => rw [Option.filter_some, if_pos (h v rfl)]

theorem filter_dropped {p : ν → Bool} {x : Option ν} (h : ∀ v, x = some v → p v = false) :
    x.filter p = none := by
  cases x with
  | none => rfl
  | some v => rw [Option.filter_some, h v rfl, if_neg Bool.false_ne_true]

namespace Restricts

variable {ρ : κ → κ'} {p q : κ → ν → Bool} {m n : κ → Option ν} {m' n' : κ' → Option ν} {x : κ}

/-- Where the predicate keeps every value, both maps agree. -/
theorem agrees (h : Restricts ρ p m m') {k : κ} (hp : ∀ v, m k = some v → p k v = true) :
    m' (ρ k) = m k := (h k).trans (filter_kept hp)

theorem absent (h : Restricts ρ p m m') {k : κ} (hk : m k = none) : m' (ρ k) = none := by
  rw [h k, hk, Option.filter_none]

/-- A change of a key none of whose values is kept is not seen. -/
theorem unseen (h : Restricts ρ p m m') (hn : ∀ k, k ≠ x → n k = m k)
    (hold : ∀ v, m x = some v → p x v = false) (hnew : ∀ v, n x = some v → p x v = false) :
    Restricts ρ p n m' := by
  intro k
  by_cases hk : k = x
  · subst hk
    rw [h k, filter_dropped hold, filter_dropped hnew]
  · rw [h k, hn k hk]

/-- A change of a key made on both sides. -/
theorem change (h : Restricts ρ p m m') (hρ : Function.Injective ρ) (hn : ∀ k, k ≠ x → n k = m k)
    (hn' : ∀ k', k' ≠ ρ x → n' k' = m' k') (hq : ∀ k, k ≠ x → q k = p k)
    (h₀ : n' (ρ x) = (n x).filter (q x)) : Restricts ρ q n n' := by
  intro k
  by_cases hk : k = x
  · subst hk
    exact h₀
  · rw [hn' _ (fun he => hk (hρ he)), h k, hn k hk, hq k hk]

end Restricts

end RulesSystemtest.Library
