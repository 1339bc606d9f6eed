import Mathlib.Logic.Function.Basic

/-! Exclusive ownership: each owner owns at most one resource, and no resource
has two owners. Acquiring a free resource, dropping one and handing one over
keep ownership exclusive. An owner may also have stakes in many resources; no two
owners share one as long as stakes shrink, are handed over, or are new. -/

namespace RulesSystemtest.Library

variable {ω κ : Type*}

def Exclusive (owns : ω → Option κ) : Prop :=
  ∀ o o' k, owns o = some k → owns o' = some k → o = o'

namespace Exclusive

variable {owns : ω → Option κ}

/-- Owning less keeps ownership exclusive. -/
theorem of_le {owns' : ω → Option κ} (h : Exclusive owns) (hle : ∀ o k, owns' o = some k → owns o = some k) :
    Exclusive owns' :=
  fun o o' k ho ho' => h o o' k (hle o k ho) (hle o' k ho')

variable [DecidableEq ω]

theorem drop (h : Exclusive owns) (o : ω) : Exclusive (Function.update owns o none) := by
  refine h.of_le fun o' k ho' => ?_
  by_cases he : o' = o
  · subst he
    simp at ho'
  · rwa [Function.update_of_ne he] at ho'

theorem acquire (h : Exclusive owns) {k : κ} (hk : ∀ o, owns o ≠ some k) (o : ω) :
    Exclusive (Function.update owns o (some k)) := by
  intro a b l ha hb
  by_cases hao : a = o <;> by_cases hbo : b = o
  · rw [hao, hbo]
  · subst hao
    rw [Function.update_self, Option.some.injEq] at ha
    subst ha
    exact absurd (by rwa [Function.update_of_ne hbo] at hb) (hk b)
  · subst hbo
    rw [Function.update_self, Option.some.injEq] at hb
    subst hb
    exact absurd (by rwa [Function.update_of_ne hao] at ha) (hk a)
  · rw [Function.update_of_ne hao] at ha
    rw [Function.update_of_ne hbo] at hb
    exact h a b l ha hb

/-- After `o` drops its resource nobody owns it, so it can be handed over. -/
theorem handOver (h : Exclusive owns) {o : ω} {k : κ} (ho : owns o = some k) (o' : ω) :
    Exclusive (Function.update (Function.update owns o none) o' (some k)) := by
  refine (h.drop o).acquire (fun a ha => ?_) o'
  by_cases hao : a = o
  · subst hao
    simp at ha
  · rw [Function.update_of_ne hao] at ha
    exact hao (h a o k ha ho)

end Exclusive

/-! ### Stakes -/

/-- No two owners have a stake in the same resource. -/
def Apart (stake : ω → κ → Prop) : Prop := ∀ o o' k, stake o k → stake o' k → o = o'

namespace Apart

variable {stake stake' : ω → κ → Prop}

theorem of_le (h : Apart stake) (hle : ∀ o k, stake' o k → stake o k) : Apart stake' :=
  fun o o' k ho ho' => h o o' k (hle o k ho) (hle o' k ho')

/-- What `b` has now is what `a` had, who has nothing any more. -/
theorem handOver (h : Apart stake) {a b : ω}
    (hmove : ∀ o k, stake' o k → o = b ∧ stake a k ∨ o ≠ a ∧ stake o k) : Apart stake' := by
  intro o o' k ho ho'
  rcases hmove o k ho with ⟨rfl, hk⟩ | ⟨hne, hk⟩
  · rcases hmove o' k ho' with ⟨rfl, -⟩ | ⟨hne', hk'⟩
    · rfl
    · exact absurd (h _ _ k hk' hk) hne'
  · rcases hmove o' k ho' with ⟨rfl, hk'⟩ | ⟨-, hk'⟩
    · exact absurd (h _ _ k hk hk') hne
    · exact h o o' k hk hk'

/-- New stakes in what nobody had a stake in. -/
theorem add {fresh : ω → κ → Prop} (h : Apart stake) (hfresh : Apart fresh)
    (hfree : ∀ o k, fresh o k → ∀ o', ¬ stake o' k) (hadd : ∀ o k, stake' o k → stake o k ∨ fresh o k) :
    Apart stake' := by
  intro o o' k ho ho'
  rcases hadd o k ho with hk | hk <;> rcases hadd o' k ho' with hk' | hk'
  · exact h o o' k hk hk'
  · exact absurd hk (hfree o' k hk' o)
  · exact absurd hk' (hfree o k hk o')
  · exact hfresh o o' k hk hk'

end Apart

end RulesSystemtest.Library
