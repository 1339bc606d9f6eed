import Mathlib.Data.List.Basic

/-! Deterministic labelled machines and the histories of their runs. A machine
accepts a label or refuses it, and answers an accepted label with an observation.
A history lists the transitions of a run, latest first, so that the earlier part
of a run is the tail of its history. Rules: invariants under a hereditary
assumption, safety properties that hold throughout a run exactly when a condition
on its steps does, and projections of a run onto some of its transitions. -/

namespace RulesSystemtest.Library

/-- Nondeterminism lives in the labels: a label carries every draw and every
answer of the environment that its step uses. -/
structure Machine (σ ε ο : Type*) where
  init : σ → Prop
  step : σ → ε → Option (ο × σ)

structure Transition (σ ε ο : Type*) where
  pre : σ
  event : ε
  obs : ο
  post : σ

variable {σ ε ο σ' ε' ο' : Type*}

namespace Machine

inductive Run (M : Machine σ ε ο) : List (Transition σ ε ο) → σ → Prop where
  | init {s : σ} : M.init s → Run M [] s
  | step {h : List (Transition σ ε ο)} {s s' : σ} {e : ε} {o : ο} :
      Run M h s → M.step s e = some (o, s') → Run M (⟨s, e, o, s'⟩ :: h) s'

end Machine

/-! ### Assumptions and properties of histories -/

/-- An assumption on whole runs that their earlier parts inherit. -/
def Hereditary (A : List (Transition σ ε ο) → Prop) : Prop := ∀ t h, A (t :: h) → A h

/-- Every transition of the history meets `C`, which may look at the past. -/
def Along (C : List (Transition σ ε ο) → Transition σ ε ο → Prop) :
    List (Transition σ ε ο) → Prop
  | [] => True
  | t :: h => C h t ∧ Along C h

instance Along.decidable {C : List (Transition σ ε ο) → Transition σ ε ο → Prop} [∀ h t, Decidable (C h t)] :
    ∀ h, Decidable (Along C h)
  | [] => .isTrue trivial
  | _ :: h => @instDecidableAnd _ _ _ (Along.decidable h)

theorem Along.imp {C C' : List (Transition σ ε ο) → Transition σ ε ο → Prop} (h : ∀ u t, C u t → C' u t) :
    ∀ {us}, Along C us → Along C' us
  | [], _ => trivial
  | _ :: _, hC => ⟨h _ _ hC.1, hC.2.imp h⟩

theorem along_append {C : List (Transition σ ε ο) → Transition σ ε ο → Prop} {u h : List (Transition σ ε ο)} :
    Along C (u ++ h) → Along C h := by
  induction u with
  | nil => exact id
  | cons t u ih => exact fun hC => ih hC.2

/-- `P` holds in the state reached and in every state the run went through. -/
def Throughout (P : List (Transition σ ε ο) → σ → Prop) : List (Transition σ ε ο) → σ → Prop
  | [], s => P [] s
  | t :: h, s => P (t :: h) s ∧ Throughout P h t.pre

theorem hereditary_true : Hereditary (fun _ : List (Transition σ ε ο) => True) := fun _ _ _ => trivial

theorem hereditary_along (C : List (Transition σ ε ο) → Transition σ ε ο → Prop) :
    Hereditary (Along C) := fun _ _ h => h.2

theorem Hereditary.and {A B : List (Transition σ ε ο) → Prop} (hA : Hereditary A)
    (hB : Hereditary B) : Hereditary (fun h => A h ∧ B h) :=
  fun t h hAB => ⟨hA t h hAB.1, hB t h hAB.2⟩

namespace Machine

variable {M : Machine σ ε ο} {h : List (Transition σ ε ο)} {s : σ}

/-- Invariant rule: `I` holds at the start, and each step keeps it in runs that
satisfy the assumption. -/
theorem Run.invariant {A : List (Transition σ ε ο) → Prop} (hA : Hereditary A)
    {I : List (Transition σ ε ο) → σ → Prop} (init : ∀ s, M.init s → I [] s)
    (keep : ∀ h s e o s', M.Run h s → A (⟨s, e, o, s'⟩ :: h) → I h s →
      M.step s e = some (o, s') → I (⟨s, e, o, s'⟩ :: h) s')
    (hr : M.Run h s) : A h → I h s := by
  induction hr with
  | init hs => exact fun _ => init _ hs
  | step hr hst ih => exact fun ha => keep _ _ _ _ _ hr ha (ih (hA _ _ ha)) hst

/-- What every step of a run meets is met along every run. -/
theorem Run.along {A : List (Transition σ ε ο) → Prop} (hA : Hereditary A)
    {C : List (Transition σ ε ο) → Transition σ ε ο → Prop}
    (hC : ∀ h s e o s', M.Run h s → A (⟨s, e, o, s'⟩ :: h) → M.step s e = some (o, s') → C h ⟨s, e, o, s'⟩)
    (hr : M.Run h s) : A h → Along C h := by
  refine Run.invariant hA (I := fun h _ => Along C h) (fun _ _ => trivial) ?_ hr
  exact fun h s e o s' hr ha hI hst => ⟨hC h s e o s' hr ha hst, hI⟩

/-- What holds at the end of every run holds throughout every run. -/
theorem Run.throughout {A : List (Transition σ ε ο) → Prop} (hA : Hereditary A)
    {P : List (Transition σ ε ο) → σ → Prop} (hP : ∀ h s, M.Run h s → A h → P h s)
    (hr : M.Run h s) : A h → Throughout P h s := by
  induction hr with
  | init hs => exact fun ha => hP _ _ (.init hs) ha
  | step hr hst ih => exact fun ha => ⟨hP _ _ (.step hr hst) ha, ih (hA _ _ ha)⟩

/-- A property holds throughout a run exactly when every step meets a condition,
if an invariant of the runs whose steps meet it gives the property and the first
step that misses it breaks the property. -/
theorem Run.throughout_iff {A : List (Transition σ ε ο) → Prop} (hA : Hereditary A)
    {I P : List (Transition σ ε ο) → σ → Prop}
    {C : List (Transition σ ε ο) → Transition σ ε ο → Prop}
    (init : ∀ s, M.init s → I [] s)
    (keep : ∀ h s e o s', M.Run h s → A (⟨s, e, o, s'⟩ :: h) → I h s →
      M.step s e = some (o, s') → C h ⟨s, e, o, s'⟩ → I (⟨s, e, o, s'⟩ :: h) s')
    (sound : ∀ h s, M.Run h s → A h → I h s → P h s)
    (fails : ∀ h s e o s', M.Run h s → A (⟨s, e, o, s'⟩ :: h) → I h s →
      M.step s e = some (o, s') → P (⟨s, e, o, s'⟩ :: h) s' → C h ⟨s, e, o, s'⟩)
    (hr : M.Run h s) (ha : A h) : Throughout P h s ↔ Along C h := by
  have inv : ∀ {h s}, M.Run h s → A h ∧ Along C h → I h s := fun hr =>
    Run.invariant (hA.and (hereditary_along C)) init
      (fun h s e o s' hr ha hI hst => keep h s e o s' hr ha.1 hI hst ha.2.1) hr
  constructor
  · induction hr with
    | init _ => exact fun _ => trivial
    | step hr hst ih =>
      intro hP
      have hC := ih (hA _ _ ha) hP.2
      exact ⟨fails _ _ _ _ _ hr ha (inv hr ⟨hA _ _ ha, hC⟩) hst hP.1, hC⟩
  · intro hC
    exact Run.throughout (hA.and (hereditary_along C))
      (fun h s hr ha => sound h s hr ha.1 (inv hr ha)) hr ⟨ha, hC⟩

/-- Every transition of a history is a step from the state its own past reached. -/
theorem Run.mem (hr : M.Run h s) {t : Transition σ ε ο} (ht : t ∈ h) :
    M.step t.pre t.event = some (t.obs, t.post) := by
  induction hr with
  | init _ => cases ht
  | step hr hst ih =>
    rcases List.mem_cons.1 ht with rfl | ht
    · exact hst
    · exact ih ht

/-- The past of a transition is a run to the state it left. -/
theorem Run.before {newer older : List (Transition σ ε ο)} {t : Transition σ ε ο}
    (hr : M.Run (newer ++ t :: older) s) : M.Run older t.pre ∧ M.step t.pre t.event = some (t.obs, t.post) := by
  induction newer generalizing s with
  | nil =>
    cases hr with
    | step hr hst => exact ⟨hr, hst⟩
  | cons u newer ih =>
    cases hr with
    | step hr hst => exact ih hr

theorem Run.state_unique {s' : σ} (hinit : ∀ s s', M.init s → M.init s' → s = s') (hr : M.Run h s) (hr' : M.Run h s') :
    s = s' := by
  cases hr with
  | init hs =>
    cases hr' with
    | init hs' => exact hinit _ _ hs hs'
  | step _ _ =>
    cases hr' with
    | step _ _ => rfl

/-- A run that is over is the earlier part of no other. -/
theorem Run.eq_of_suffix {h' : List (Transition σ ε ο)} {s' : σ} (hinit : ∀ s s', M.init s → M.init s' → s = s')
    (hr : M.Run h s) (hr' : M.Run h' s') (hsuffix : h' <:+ h) (hover : ∀ e, M.step s' e = none) : h' = h := by
  obtain ⟨u, rfl⟩ := hsuffix
  rcases List.eq_nil_or_concat u with rfl | ⟨u, t, rfl⟩
  · rfl
  · rw [List.concat_append] at hr
    obtain ⟨hbefore, hst⟩ := hr.before
    rw [← hr'.state_unique hinit hbefore, hover] at hst
    cases hst

/-- Runs along which only one label at a time meets a condition are earlier parts of one
another. -/
theorem Run.comparable {h' : List (Transition σ ε ο)} {s' : σ}
    {C : List (Transition σ ε ο) → Transition σ ε ο → Prop} (hinit : ∀ s s', M.init s → M.init s' → s = s')
    (hone : ∀ h s e o s₁ e' o' s₂, M.step s e = some (o, s₁) → M.step s e' = some (o', s₂) →
      C h ⟨s, e, o, s₁⟩ → C h ⟨s, e', o', s₂⟩ → e = e')
    (hr : M.Run h s) (hr' : M.Run h' s') (hC : Along C h) (hC' : Along C h') : h <:+ h' ∨ h' <:+ h := by
  induction hr with
  | init _ => exact .inl List.nil_suffix
  | @step h s s₁ e o hr hst ih =>
    rcases ih hC.2 with ⟨u, rfl⟩ | hback
    · rcases List.eq_nil_or_concat u with rfl | ⟨u, t, rfl⟩
      · exact .inr (List.suffix_cons _ _)
      · -- the first step that the other run takes from here on
        rw [List.concat_append] at hr' hC'
        obtain ⟨hbefore, hst'⟩ := hr'.before
        obtain ⟨pre, e', o', s₂⟩ := t
        obtain rfl := hr.state_unique hinit hbefore
        obtain rfl := hone _ _ _ _ _ _ _ _ hst hst' hC.1 (along_append hC').1
        obtain ⟨rfl, rfl⟩ := Prod.mk.inj (Option.some.inj (hst.symm.trans hst'))
        exact .inl ⟨u, by simp⟩
    · exact .inr (hback.trans (List.suffix_cons _ _))

/-- Such runs are the same if both of them are over. -/
theorem Run.eq_of_over {h' : List (Transition σ ε ο)} {s' : σ}
    {C : List (Transition σ ε ο) → Transition σ ε ο → Prop} (hinit : ∀ s s', M.init s → M.init s' → s = s')
    (hone : ∀ h s e o s₁ e' o' s₂, M.step s e = some (o, s₁) → M.step s e' = some (o', s₂) →
      C h ⟨s, e, o, s₁⟩ → C h ⟨s, e', o', s₂⟩ → e = e')
    (hr : M.Run h s) (hr' : M.Run h' s') (hC : Along C h) (hC' : Along C h')
    (hover : ∀ e, M.step s e = none) (hover' : ∀ e, M.step s' e = none) : h = h' ∧ s = s' := by
  have hsame : h = h' := by
    rcases hr.comparable hinit hone hr' hC hC' with hsuffix | hsuffix
    · exact hr'.eq_of_suffix hinit hr hsuffix hover
    · exact (hr.eq_of_suffix hinit hr' hsuffix hover').symm
  subst hsame
  exact ⟨rfl, hr.state_unique hinit hr'⟩

/-- The run of a list of labels, in their order; a label that is refused is skipped. -/
def replay (M : Machine σ ε ο) : List (Transition σ ε ο) × σ → List ε → List (Transition σ ε ο) × σ
  | r, [] => r
  | r, e :: es =>
    match M.step r.2 e with
    | some (o, s) => replay M (⟨r.2, e, o, s⟩ :: r.1, s) es
    | none => replay M r es

theorem Run.replay {r : List (Transition σ ε ο) × σ} (hr : M.Run r.1 r.2) (es : List ε) :
    M.Run (M.replay r es).1 (M.replay r es).2 := by
  induction es generalizing r with
  | nil => exact hr
  | cons e es ih =>
    unfold Machine.replay
    split
    · next o s hst => exact ih (.step hr hst)
    · exact ih hr

end Machine

/-! ### Projections -/

/-- The transitions that `keep` selects, given their past. -/
def kept (keep : List (Transition σ ε ο) → Transition σ ε ο → Bool) :
    List (Transition σ ε ο) → List (Transition σ ε ο)
  | [] => []
  | t :: h => if keep h t then t :: kept keep h else kept keep h

/-- A run projects onto the kept transitions if a relation between the two machines
survives each deleted transition and is matched by a step of the second machine at
each kept one. -/
theorem Machine.Run.project {M : Machine σ ε ο} {N : Machine σ' ε' ο'}
    {A : List (Transition σ ε ο) → Prop} (hA : Hereditary A)
    {keep : List (Transition σ ε ο) → Transition σ ε ο → Bool}
    {R : List (Transition σ ε ο) → σ → σ' → Prop} {T : Transition σ ε ο → Transition σ' ε' ο' → Prop}
    (init : ∀ s, M.init s → ∃ u, N.init u ∧ R [] s u)
    (stay : ∀ h s e o s' u, M.Run h s → A (⟨s, e, o, s'⟩ :: h) → R h s u →
      M.step s e = some (o, s') → keep h ⟨s, e, o, s'⟩ = false → R (⟨s, e, o, s'⟩ :: h) s' u)
    (move : ∀ h s e o s' u, M.Run h s → A (⟨s, e, o, s'⟩ :: h) → R h s u →
      M.step s e = some (o, s') → keep h ⟨s, e, o, s'⟩ = true →
      ∃ f p u', N.step u f = some (p, u') ∧ T ⟨s, e, o, s'⟩ ⟨u, f, p, u'⟩ ∧ R (⟨s, e, o, s'⟩ :: h) s' u')
    {h : List (Transition σ ε ο)} {s : σ} (hr : M.Run h s) (ha : A h) :
    ∃ h' u, N.Run h' u ∧ R h s u ∧ List.Forall₂ T (kept keep h) h' := by
  induction hr with
  | init hs =>
    obtain ⟨u, hu, hR⟩ := init _ hs
    exact ⟨[], u, .init hu, hR, .nil⟩
  | @step h s s' e o hr hst ih =>
    obtain ⟨h', u, hr', hR, hh⟩ := ih (hA _ _ ha)
    unfold kept
    cases hk : keep h ⟨s, e, o, s'⟩ with
    | false => exact ⟨h', u, hr', stay _ _ _ _ _ _ hr ha hR hst hk, hh⟩
    | true =>
      obtain ⟨f, p, u', hst', hT, hR'⟩ := move _ _ _ _ _ _ hr ha hR hst hk
      exact ⟨_, u', .step hr' hst', hR', .cons hT hh⟩

end RulesSystemtest.Library
