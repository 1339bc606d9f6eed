import RulesSystemtest.Library.SelfDelimiting

/-! Texts split at the first occurrence of a separator. Joining a word with a text by
the separator can be undone exactly when the word has no separator in it, so such words
are self-delimiting when one follows them. -/

namespace RulesSystemtest.Library

variable {α : Type*} [DecidableEq α] {sep : α} {s k v : List α}

/-- What comes before the first separator, and what comes after it. -/
def splitFirst (sep : α) : List α → Option (List α × List α)
  | [] => none
  | c :: cs => if c = sep then some ([], cs) else (splitFirst sep cs).map fun kv => (c :: kv.1, kv.2)

theorem splitFirst_append (hk : sep ∉ k) (v : List α) : splitFirst sep (k ++ sep :: v) = some (k, v) := by
  induction k with
  | nil => exact if_pos rfl
  | cons c k ih =>
    rw [List.mem_cons, not_or] at hk
    rw [List.cons_append, splitFirst, if_neg (Ne.symm hk.1), ih hk.2]
    rfl

theorem splitFirst_eq_some_iff : splitFirst sep s = some (k, v) ↔ s = k ++ sep :: v ∧ sep ∉ k := by
  constructor
  · intro h
    induction s generalizing k with
    | nil => cases h
    | cons c s ih =>
      unfold splitFirst at h
      split at h
      · next hc =>
        cases h
        exact ⟨by rw [hc]; rfl, List.not_mem_nil⟩
      · next hc =>
        obtain ⟨⟨k', v'⟩, hsplit, heq⟩ := Option.map_eq_some_iff.1 h
        cases heq
        obtain ⟨rfl, hk⟩ := ih hsplit
        refine ⟨rfl, ?_⟩
        rw [List.mem_cons, not_or]
        exact ⟨Ne.symm hc, hk⟩
  · rintro ⟨rfl, hk⟩
    exact splitFirst_append hk v

/-- Words that do not contain the separator, each followed by one. -/
theorem SelfDelimiting.terminated (sep : α) :
    SelfDelimiting fun k : { k : List α // sep ∉ k } => k.1 ++ [sep] := by
  rintro ⟨k, hk⟩ ⟨k', hk'⟩ s t hst
  simp only [List.append_assoc, List.singleton_append] at hst
  have hsplit := splitFirst_append hk s
  rw [hst, splitFirst_append hk' t] at hsplit
  cases hsplit
  exact ⟨rfl, rfl⟩

end RulesSystemtest.Library
