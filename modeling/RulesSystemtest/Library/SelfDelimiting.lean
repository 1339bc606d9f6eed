import Mathlib.Data.List.Basic
import Mathlib.Logic.Function.Basic

/-! Self-delimiting codes: a codeword is recognised from the front of any stream
that starts with it, so codewords can be concatenated without separators. -/

namespace RulesSystemtest.Library

variable {α β γ δ : Type*}

/-- Two streams that start with codewords and agree carry the same codeword and
the same rest. -/
def SelfDelimiting (code : α → List β) : Prop :=
  ∀ a b s t, code a ++ s = code b ++ t → a = b ∧ s = t

namespace SelfDelimiting

/-- A self-delimiting head followed by a payload whose code the head selects. -/
theorem dependent {head : α → List δ} (key : γ → α) (payload : γ → β) (body : β → List δ)
    (hh : SelfDelimiting head)
    (hb : ∀ c d s t, key c = key d → body (payload c) ++ s = body (payload d) ++ t → c = d ∧ s = t) :
    SelfDelimiting (fun c => head (key c) ++ body (payload c)) := by
  intro c d s t hst
  rw [List.append_assoc, List.append_assoc] at hst
  obtain ⟨hk, hst⟩ := hh _ _ _ _ hst
  exact hb c d s t hk hst

/-- Codewords of one length are self-delimiting when they are distinct. -/
theorem of_length {code : α → List β} {n : ℕ} (hn : ∀ a, (code a).length = n)
    (hi : Function.Injective code) : SelfDelimiting code := by
  intro a b s t hst
  obtain ⟨hab, hst⟩ := List.append_inj hst ((hn a).trans (hn b).symm)
  exact ⟨hi hab, hst⟩

/-- A list announced by its length. -/
theorem length_prefixed {code : ℕ → List β} (h : SelfDelimiting code) :
    SelfDelimiting (fun xs : List β => code xs.length ++ xs) := by
  refine dependent List.length id id h ?_
  intro xs ys s t hk hst
  exact List.append_inj hst hk

/-- A stream of nonempty codewords determines its list of messages. -/
theorem flatMap_injective {code : α → List β} (h : SelfDelimiting code) (hne : ∀ a, code a ≠ []) :
    Function.Injective (fun xs : List α => xs.flatMap code) := by
  intro xs ys hys
  dsimp only at hys
  induction xs generalizing ys with
  | nil =>
    cases ys with
    | nil => rfl
    | cons y ys => exact absurd (List.append_eq_nil_iff.1 hys.symm).1 (hne y)
  | cons x xs ih =>
    cases ys with
    | nil => exact absurd (List.append_eq_nil_iff.1 hys).1 (hne x)
    | cons y ys =>
      obtain ⟨rfl, hrest⟩ := h x y _ _ hys
      rw [ih hrest]

end SelfDelimiting

end RulesSystemtest.Library
