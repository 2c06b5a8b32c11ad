import Mathlib.Data.List.Infix

/-!
# Runs of a partial step function

A system is a step function `step : σ → α → Option σ`: the action `a` takes `s` to `s'` when
`step s a = some s'` and is not enabled in `s` when `step s a = none`.  `exec` runs a list of
actions.

* `exec_inv`: what every step keeps holds after every run.
* `Throughout Q`: every state the run passes through satisfies `Q`.
* `Along P`: every step the run takes satisfies `P` (of the state before it and its action).
* `throughout_of_along`: an invariant kept by the steps that satisfy `P` holds throughout every
  run along `P`.
-/

namespace Runs

variable {σ α : Type*} (step : σ → α → Option σ)

/-- Run the actions in order; `none` if one of them is not enabled when its turn comes. -/
def exec : σ → List α → Option σ
  | s, [] => some s
  | s, a :: as => (step s a).bind fun s' => exec s' as

@[simp] theorem exec_nil (s : σ) : exec step s [] = some s := rfl

theorem exec_cons_iff (s t : σ) (a : α) (as : List α) :
    exec step s (a :: as) = some t ↔ ∃ s', step s a = some s' ∧ exec step s' as = some t := by
  simp [exec, Option.bind_eq_some_iff]

theorem exec_append_iff (s t : σ) (as bs : List α) :
    exec step s (as ++ bs) = some t ↔ ∃ s', exec step s as = some s' ∧ exec step s' bs = some t := by
  induction as generalizing s with
  | nil => simp
  | cons a as ih =>
    rw [List.cons_append, exec_cons_iff]
    constructor
    · rintro ⟨s1, h1, h2⟩
      obtain ⟨s2, h3, h4⟩ := (ih s1).1 h2
      exact ⟨s2, (exec_cons_iff step s s2 a as).2 ⟨s1, h1, h3⟩, h4⟩
    · rintro ⟨s2, h2, h4⟩
      obtain ⟨s1, h1, h3⟩ := (exec_cons_iff step s s2 a as).1 h2
      exact ⟨s1, h1, (ih s1).2 ⟨s2, h3, h4⟩⟩

/-- Two runs one after the other. -/
theorem exec_trans {s t u : σ} {as bs : List α} (h1 : exec step s as = some t)
    (h2 : exec step t bs = some u) : exec step s (as ++ bs) = some u :=
  (exec_append_iff step s u as bs).2 ⟨t, h1, h2⟩

theorem exec_concat_iff (s t : σ) (as : List α) (a : α) :
    exec step s (as ++ [a]) = some t ↔ ∃ s', exec step s as = some s' ∧ step s' a = some t := by
  rw [exec_append_iff]
  constructor
  · rintro ⟨s', h1, h2⟩
    obtain ⟨t', h3, h4⟩ := (exec_cons_iff step s' t a []).1 h2
    cases h4
    exact ⟨s', h1, h3⟩
  · rintro ⟨s', h1, h2⟩
    exact ⟨s', h1, (exec_cons_iff step s' t a []).2 ⟨t, h2, rfl⟩⟩

/-- **Invariant rule.**  What holds at the start and is kept by every step holds after every
run. -/
theorem exec_inv (I : σ → Prop) (hstep : ∀ s a s', I s → step s a = some s' → I s') {s t : σ}
    {as : List α} (h0 : I s) (h : exec step s as = some t) : I t := by
  induction as generalizing s with
  | nil => cases h; exact h0
  | cons a as ih =>
    obtain ⟨s', h1, h2⟩ := (exec_cons_iff step s t a as).1 h
    exact ih (hstep s a s' h0 h1) h2

/-! ## Properties of whole runs -/

/-- Every state the run passes through, the first and the last included, satisfies `Q`. -/
def Throughout (Q : σ → Prop) (s : σ) (as : List α) : Prop :=
  ∀ pre t, pre <+: as → exec step s pre = some t → Q t

/-- Every step the run takes satisfies `P`. -/
def Along (P : σ → α → Prop) (s : σ) (as : List α) : Prop :=
  ∀ pre a t t', pre ++ [a] <+: as → exec step s pre = some t → step t a = some t' → P t a

variable {step}

theorem Along.head {P : σ → α → Prop} {s s' : σ} {a : α} {as : List α}
    (h : Along step P s (a :: as)) (hs : step s a = some s') : P s a :=
  h [] a s s' (by simp) rfl hs

theorem Along.tail {P : σ → α → Prop} {s s' : σ} {a : α} {as : List α}
    (h : Along step P s (a :: as)) (hs : step s a = some s') : Along step P s' as := by
  intro pre b t t' hp ht hb
  refine h (a :: pre) b t t' ?_ ((exec_cons_iff step s t a pre).2 ⟨s', hs, ht⟩) hb
  simpa using hp

theorem Along.mono {P P' : σ → α → Prop} {s : σ} {as : List α} (h : Along step P s as)
    (hP : ∀ t a, P t a → P' t a) : Along step P' s as :=
  fun pre a t t' hp ht ha => hP t a (h pre a t t' hp ht ha)

theorem Along.nil {P : σ → α → Prop} {s : σ} : Along step P s [] := by
  intro pre a t t' hp
  simp at hp

/-- A condition on the actions alone. -/
theorem Along.of_forall {P : α → Prop} {s : σ} {as : List α} (h : ∀ a ∈ as, P a) :
    Along step (fun _ a => P a) s as :=
  fun pre a _ _ hp _ _ => h a (hp.subset (List.mem_append_right pre (List.mem_singleton_self a)))

theorem along_cons_iff {P : σ → α → Prop} {s : σ} {a : α} {as : List α} :
    Along step P s (a :: as) ↔ ∀ s', step s a = some s' → P s a ∧ Along step P s' as := by
  constructor
  · intro h s' hs
    exact ⟨h.head hs, h.tail hs⟩
  · intro h pre b t t' hp ht hb
    cases pre with
    | nil =>
      rw [List.nil_append, List.cons_prefix_cons] at hp
      obtain ⟨rfl, -⟩ := hp
      cases ht
      exact (h t' hb).1
    | cons c pre =>
      rw [List.cons_append, List.cons_prefix_cons] at hp
      obtain ⟨rfl, hp⟩ := hp
      obtain ⟨s', hs, ht⟩ := (exec_cons_iff step s t c pre).1 ht
      exact (h s' hs).2 pre b t t' hp ht hb

/-- One run after another. -/
theorem Along.append {P : σ → α → Prop} {s t : σ} {as bs : List α} (ha : Along step P s as)
    (ht : exec step s as = some t) (hb : Along step P t bs) : Along step P s (as ++ bs) := by
  induction as generalizing s with
  | nil => cases ht; exact hb
  | cons a as ih =>
    obtain ⟨s', hs, hrest⟩ := (exec_cons_iff step s t a as).1 ht
    refine along_cons_iff.2 fun s'' hs'' => ?_
    rw [hs] at hs''
    cases hs''
    exact ⟨ha.head hs, ih (ha.tail hs) hrest⟩

/-- Whether a run is along `P` can be decided by running it. -/
def decidableAlong {P : σ → α → Prop} [∀ s a, Decidable (P s a)] :
    ∀ (as : List α) (s : σ), Decidable (Along step P s as)
  | [], _ => isTrue Along.nil
  | a :: as, s =>
    match h : step s a with
    | none => isTrue (along_cons_iff.2 (by simp [h]))
    | some s' =>
      have := decidableAlong (P := P) as s'
      decidable_of_iff (P s a ∧ Along step P s' as) (by rw [along_cons_iff]; simp [h])

instance {P : σ → α → Prop} [∀ s a, Decidable (P s a)] (s : σ) (as : List α) :
    Decidable (Along step P s as) :=
  decidableAlong as s

/-- **Conditional invariant rule.**  An invariant kept by the steps that satisfy `P` holds
throughout every run along `P`. -/
theorem throughout_of_along (I : σ → Prop) {P : σ → α → Prop} {s : σ} {as : List α}
    (hstep : ∀ s a s', I s → P s a → step s a = some s' → I s') (h0 : I s)
    (h : Along step P s as) : Throughout step I s as := by
  intro pre t hpre ht
  induction as generalizing s pre with
  | nil =>
    rw [List.prefix_nil] at hpre
    subst hpre
    cases ht
    exact h0
  | cons a as ih =>
    cases pre with
    | nil => cases ht; exact h0
    | cons b pre =>
      obtain ⟨rfl, hp⟩ := List.cons_prefix_cons.1 hpre
      obtain ⟨s', h1, h2⟩ := (exec_cons_iff step s t b pre).1 ht
      exact ih (hstep s b s' h0 (h.head h1) h1) (h.tail h1) pre hp h2

theorem Throughout.mono {Q Q' : σ → Prop} {s : σ} {as : List α} (h : Throughout step Q s as)
    (hQ : ∀ t, Q t → Q' t) : Throughout step Q' s as :=
  fun pre t hp ht => hQ t (h pre t hp ht)

theorem Throughout.last {Q : σ → Prop} {s t : σ} {as : List α} (h : Throughout step Q s as)
    (ht : exec step s as = some t) : Q t :=
  h as t (List.prefix_refl as) ht

/-- The state after each step of a run is one of the states it passes through. -/
theorem Throughout.after {Q : σ → Prop} {s t t' : σ} {as pre : List α} {a : α}
    (h : Throughout step Q s as) (hp : pre ++ [a] <+: as) (ht : exec step s pre = some t)
    (ha : step t a = some t') : Q t' :=
  h (pre ++ [a]) t' hp ((exec_concat_iff step s t' pre a).2 ⟨t, ht, ha⟩)

/-- The state before each step of a run is one of the states it passes through. -/
theorem Throughout.before {Q : σ → Prop} {s t : σ} {as pre : List α} {a : α}
    (h : Throughout step Q s as) (hp : pre ++ [a] <+: as) (ht : exec step s pre = some t) : Q t :=
  h pre t ((List.prefix_append pre [a]).trans hp) ht

end Runs
