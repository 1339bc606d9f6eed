import Mathlib.Data.List.Dedup
import Mathlib.Data.List.Perm.Basic

/-! Requests whose order and repetition do not matter. An operation that commutes
with itself and absorbs its repetitions leaves, from any state, what the set of its
requests determines. -/

namespace RulesSystemtest.Library

variable {σ α : Type*} {f : σ → α → σ} [RightCommutative f]

/-- A request that is still to come may as well have been served before. -/
theorem foldl_absorb (idem : ∀ s a, f (f s a) a = f s a) {a : α} {l : List α} (ha : a ∈ l) (s : σ) :
    l.foldl f (f s a) = l.foldl f s := by
  induction l generalizing s with
  | nil => cases ha
  | cons b l ih =>
    rw [List.foldl_cons, List.foldl_cons]
    rcases List.mem_cons.1 ha with rfl | ha
    · rw [idem]
    · have hcomm : f (f s a) b = f (f s b) a := RightCommutative.right_comm s a b
      rw [hcomm, ih ha]

theorem foldl_dedup [DecidableEq α] (idem : ∀ s a, f (f s a) a = f s a) (l : List α) (s : σ) :
    l.dedup.foldl f s = l.foldl f s := by
  induction l generalizing s with
  | nil => rfl
  | cons a l ih =>
    by_cases ha : a ∈ l
    · rw [List.dedup_cons_of_mem ha, ih, List.foldl_cons, foldl_absorb idem ha]
    · rw [List.dedup_cons_of_notMem ha, List.foldl_cons, List.foldl_cons, ih]

/-- Two lists with the same members have the same effect. -/
theorem foldl_eq_of_mem_iff [DecidableEq α] (idem : ∀ s a, f (f s a) a = f s a) {l l' : List α}
    (hmem : ∀ a, a ∈ l ↔ a ∈ l') (s : σ) : l.foldl f s = l'.foldl f s := by
  have hperm : l.dedup.Perm l'.dedup := by
    refine (List.perm_ext_iff_of_nodup l.nodup_dedup l'.nodup_dedup).2 fun a => ?_
    rw [List.mem_dedup, List.mem_dedup, hmem]
  rw [← foldl_dedup idem l, ← foldl_dedup idem l', hperm.foldl_eq]

end RulesSystemtest.Library
