import Mathlib.Data.List.Basic
import Mathlib.Data.List.Nodup
import Mathlib.Data.List.Count
import Mathlib.Data.Finset.Card

/-! Ledgers of grants and releases. An entry grants an id together with what it
stands for, or releases an id, known or not. What is held is what was granted and
not released since; the ledger lists its entries latest first. -/

namespace RulesSystemtest.Library.Ledger

inductive Entry (ι γ : Type*) where
  | grant (i : ι) (g : γ)
  | release (i : ι)

variable {ι γ : Type*}

/-- The ids ever granted. -/
def issued : List (Entry ι γ) → List ι
  | [] => []
  | .grant i _ :: es => i :: issued es
  | .release _ :: es => issued es

/-- The ids ever released. -/
def released : List (Entry ι γ) → List ι
  | [] => []
  | .grant _ _ :: es => released es
  | .release i :: es => i :: released es

theorem issued_append (es fs : List (Entry ι γ)) : issued (es ++ fs) = issued es ++ issued fs := by
  induction es with
  | nil => rfl
  | cons e es ih => cases e <;> simp [issued, ih]

variable [DecidableEq ι]

def held : List (Entry ι γ) → List (ι × γ)
  | [] => []
  | .grant i g :: es => (i, g) :: held es
  | .release i :: es => (held es).filter fun p => p.1 ≠ i

theorem mem_held_release {i j : ι} {g : γ} {es : List (Entry ι γ)} :
    (i, g) ∈ held (.release j :: es) ↔ (i, g) ∈ held es ∧ i ≠ j := by
  simp [held]

/-- Held ids are those with a grant that no later entry releases. -/
theorem mem_held_iff {i : ι} {g : γ} {es : List (Entry ι γ)} :
    (i, g) ∈ held es ↔ ∃ newer older, es = newer ++ .grant i g :: older ∧ .release i ∉ newer := by
  induction es with
  | nil => simp [held]
  | cons e es ih =>
    have hlater : (∃ newer older, e :: es = newer ++ .grant i g :: older ∧ .release i ∉ newer) ↔
        e = .grant i g ∨ e ≠ .release i ∧ (i, g) ∈ held es := by
      constructor
      · rintro ⟨newer, older, he, hn⟩
        cases newer with
        | nil => exact .inl (List.cons.inj he).1
        | cons e' newer =>
          obtain ⟨rfl, rfl⟩ := List.cons.inj he
          rw [List.mem_cons, not_or] at hn
          exact .inr ⟨fun h => hn.1 h.symm, ih.2 ⟨newer, older, rfl, hn.2⟩⟩
      · rintro (rfl | ⟨he, hh⟩)
        · exact ⟨[], es, rfl, by simp⟩
        · obtain ⟨newer, older, rfl, hn⟩ := ih.1 hh
          exact ⟨e :: newer, older, rfl, by simp [hn, he.symm]⟩
    rw [hlater]
    cases e with
    | grant j g' =>
      have hg : (i, g) = (j, g') ↔ Entry.grant j g' = Entry.grant i g := by
        simp only [Prod.mk.injEq, Entry.grant.injEq, eq_comm]
      simp [held, hg]
    | release j =>
      rw [mem_held_release]
      simp [and_comm, eq_comm]

theorem mem_issued_of_mem_held {i : ι} {g : γ} {es : List (Entry ι γ)} (h : (i, g) ∈ held es) :
    i ∈ issued es := by
  obtain ⟨newer, older, rfl, -⟩ := mem_held_iff.1 h
  rw [issued_append]
  exact List.mem_append_right _ List.mem_cons_self

/-- Under distinct ids, each held id has one holder. -/
theorem held_nodup {es : List (Entry ι γ)} (hd : (issued es).Nodup) :
    ((held es).map Prod.fst).Nodup := by
  induction es with
  | nil => exact List.nodup_nil
  | cons e es ih =>
    cases e with
    | grant i g =>
      obtain ⟨hi, hd⟩ := List.nodup_cons.1 hd
      refine List.nodup_cons.2 ⟨fun hm => ?_, ih hd⟩
      obtain ⟨⟨j, g'⟩, hj, rfl⟩ := List.mem_map.1 hm
      exact hi (mem_issued_of_mem_held hj)
    | release i => exact (ih hd).sublist (List.filter_sublist.map _)

/-- Under distinct ids, an id that was granted and is not held stays so. -/
theorem not_held_append {i : ι} {newer older : List (Entry ι γ)} (hd : (issued (newer ++ older)).Nodup)
    (hi : i ∈ issued older) (hn : ∀ g, (i, g) ∉ held older) (g : γ) : (i, g) ∉ held (newer ++ older) := by
  induction newer with
  | nil => exact hn g
  | cons e newer ih =>
    cases e with
    | grant j g' =>
      obtain ⟨hj, hd⟩ := List.nodup_cons.1 hd
      have hij : i ≠ j := by
        rintro rfl
        have : i ∈ issued (newer ++ older) := by rw [issued_append]; exact List.mem_append_right _ hi
        exact hj this
      intro hh
      rcases List.mem_cons.1 hh with he | hh
      · exact hij (congrArg Prod.fst he)
      · exact ih hd hh
    | release j => exact fun hh => ih hd (mem_held_release.1 hh).1

/-- Under distinct ids, a released id is never held again. -/
theorem not_held_of_released {i : ι} {g : γ} {newer mid older : List (Entry ι γ)}
    (hd : (issued (newer ++ .release i :: (mid ++ .grant i g :: older))).Nodup) (g' : γ) :
    (i, g') ∉ held (newer ++ .release i :: (mid ++ .grant i g :: older)) := by
  refine not_held_append hd ?_ (fun g'' hh => (mem_held_release.1 hh).2 rfl) g'
  rw [issued, issued_append]
  exact List.mem_append_right _ List.mem_cons_self

/-! ### Load -/

/-- How many held grants satisfy `p`. -/
def load (p : γ → Bool) (es : List (Entry ι γ)) : ℕ := (held es).countP fun q => p q.2

theorem load_grant (p : γ → Bool) (i : ι) (g : γ) (es : List (Entry ι γ)) :
    load p (.grant i g :: es) = load p es + if p g then 1 else 0 := by
  simp [load, held, List.countP_cons]

theorem held_release_of_not_held {i : ι} {es : List (Entry ι γ)} (h : ∀ g, (i, g) ∉ held es) :
    held (.release i :: es) = held es := by
  refine List.filter_eq_self.2 ?_
  rintro ⟨j, g⟩ hj
  have : j ≠ i := fun he => h g (he ▸ hj)
  simpa using this

theorem load_release_le (p : γ → Bool) (i : ι) (es : List (Entry ι γ)) :
    load p (.release i :: es) ≤ load p es := List.filter_sublist.countP_le

/-- Releasing a held id takes its grant, and no other, off the load. -/
theorem load_release {p : γ → Bool} {i : ι} {g : γ} {es : List (Entry ι γ)} (hd : (issued es).Nodup)
    (h : (i, g) ∈ held es) : load p es = load p (.release i :: es) + if p g then 1 else 0 := by
  have split : ∀ xs : List (ι × γ), (xs.map Prod.fst).Nodup → (i, g) ∈ xs →
      xs.countP (fun q => p q.2) =
        (xs.filter fun q => q.1 ≠ i).countP (fun q => p q.2) + if p g then 1 else 0 := by
    intro xs hn hm
    induction xs with
    | nil => cases hm
    | cons x xs ih =>
      obtain ⟨hx, hn⟩ := List.nodup_cons.1 hn
      rcases List.mem_cons.1 hm with rfl | hm
      · have hrest : (xs.filter fun q => q.1 ≠ i) = xs := by
          refine List.filter_eq_self.2 fun q hq => ?_
          have : q.1 ≠ i := fun he => hx (List.mem_map.2 ⟨q, hq, he⟩)
          simpa using this
        rw [List.filter_cons_of_neg (by simp), hrest, List.countP_cons]
      · have hne : x.1 ≠ i := fun he => hx (List.mem_map.2 ⟨(i, g), hm, he.symm⟩)
        rw [List.filter_cons_of_pos (by simpa using hne), List.countP_cons, List.countP_cons, ih hn hm]
        omega
  exact split _ (held_nodup hd) h

/-! ### Ledgers that release what is held -/

/-- Every release is of an id that is held then. -/
def Proper : List (Entry ι γ) → Prop
  | [] => True
  | .grant _ _ :: es => Proper es
  | .release i :: es => (∃ g, (i, g) ∈ held es) ∧ Proper es

/-- Without one id, the others are held as before. -/
theorem perm_held_release {i : ι} {g : γ} {es : List (Entry ι γ)} (hd : (issued es).Nodup) (h : (i, g) ∈ held es) :
    ((held es).map Prod.fst).Perm (i :: (held (.release i :: es)).map Prod.fst) := by
  refine (List.perm_ext_iff_of_nodup (held_nodup hd) (List.nodup_cons.2 ⟨?_, ?_⟩)).2 fun j => ?_
  · rintro hi
    obtain ⟨⟨j, g'⟩, hj, rfl⟩ := List.mem_map.1 hi
    exact (mem_held_release.1 hj).2 rfl
  · have hrelease : (issued (.release i :: es)).Nodup := hd
    exact held_nodup hrelease
  · rw [List.mem_cons, List.mem_map, List.mem_map]
    constructor
    · rintro ⟨⟨j, g'⟩, hj, rfl⟩
      by_cases hji : j = i
      · exact .inl hji
      · exact .inr ⟨(j, g'), mem_held_release.2 ⟨hj, hji⟩, rfl⟩
    · rintro (rfl | ⟨⟨j, g'⟩, hj, rfl⟩)
      · exact ⟨_, h, rfl⟩
      · exact ⟨_, (mem_held_release.1 hj).1, rfl⟩

/-- What was granted is what was released and what is held, each once. -/
theorem issued_perm {es : List (Entry ι γ)} (hd : (issued es).Nodup) (hp : Proper es) :
    (issued es).Perm (released es ++ (held es).map Prod.fst) := by
  induction es with
  | nil => exact .refl _
  | cons e es ih =>
    cases e with
    | grant i g => exact ((ih (List.nodup_cons.1 hd).2 hp).cons i).trans List.perm_middle.symm
    | release i =>
      obtain ⟨⟨g, hg⟩, hp⟩ := hp
      have hd : (issued es).Nodup := hd
      have hheld := (perm_held_release hd hg).append_left (released es)
      exact ((ih hd hp).trans hheld).trans List.perm_middle

theorem released_nodup {es : List (Entry ι γ)} (hd : (issued es).Nodup) (hp : Proper es) : (released es).Nodup :=
  (List.nodup_append.1 ((issued_perm hd hp).nodup hd)).1

/-- Distinct held ids of one kind are no more than its load. -/
theorem card_le_load {p : γ → Bool} {es : List (Entry ι γ)} {κ : Type*} {s : Finset κ} {id : κ → ι}
    (hid : Set.InjOn id s) (hs : ∀ k ∈ s, ∃ g, (id k, g) ∈ held es ∧ p g = true) : s.card ≤ load p es := by
  have hsub : s.image id ⊆ (((held es).filter fun q => p q.2).map Prod.fst).toFinset := by
    intro i hi
    obtain ⟨k, hk, rfl⟩ := Finset.mem_image.1 hi
    obtain ⟨g, hg, hp⟩ := hs k hk
    exact List.mem_toFinset.2 (List.mem_map.2 ⟨(id k, g), List.mem_filter.2 ⟨hg, hp⟩, rfl⟩)
  calc s.card = (s.image id).card := (Finset.card_image_of_injOn hid).symm
    _ ≤ _ := Finset.card_le_card hsub
    _ ≤ (((held es).filter fun q => p q.2).map Prod.fst).length := List.toFinset_card_le _
    _ = load p es := by rw [List.length_map, load, List.countP_eq_length_filter]

end RulesSystemtest.Library.Ledger
