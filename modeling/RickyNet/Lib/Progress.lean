import Mathlib.Algebra.Ring.Nat
import RickyNet.Lib.Runs

/-!
# Progress of a partial step function

Some actions are the system's own, the others are what its surroundings do.  `Ranked` is a rank that
every own step lowers and no other step raises, as long as the steps satisfy `P`, and an own step that
can be taken wherever the system is not done.

* `ownSteps_le`: a run has no more own steps than the rank it starts with and what its actions add to it.
* `Ranked.bound`: where no action adds anything, no more than the rank.
* `Ranked.done`: with that many own steps it has got where it should.
* `Ranked.stuck`: it does not stop anywhere else.
* `Ranked.reach`: own steps alone lead there.

`total` is the rank of a system of several parts, each with a rank of its own.
-/

namespace Runs

variable {σ α : Type*} {step : σ → α → Option σ}

/-! ## Several parts -/

/-- The ranks of all parts together. -/
def total {π : Type*} (rank : π → Nat) (parts : List π) : Nat := (parts.map rank).sum

section
variable {π : Type*} {rank : π → Nat} {parts : List π}

theorem total_cons (x : π) (parts : List π) : total rank (x :: parts) = rank x + total rank parts := by
  unfold total
  rw [List.map_cons, List.sum_cons]

theorem total_zero (parts : List π) : total (fun _ => 0) parts = 0 := by
  induction parts with
  | nil => rfl
  | cons x parts ih => rw [total_cons, ih]

theorem total_append (parts new : List π) : total rank (parts ++ new) = total rank parts + total rank new := by
  unfold total
  rw [List.map_append, List.sum_append]

/-- One part moves. -/
theorem total_set (rank : π → Nat) {i : Nat} {x : π} (h : parts[i]? = some x) (y : π) :
    total rank (parts.set i y) + rank x = total rank parts + rank y := by
  unfold total
  induction parts generalizing i with
  | nil => cases h
  | cons z parts ih =>
    cases i with
    | zero =>
      cases h
      simp only [List.set_cons_zero, List.map_cons, List.sum_cons]
      omega
    | succ i =>
      have hrest := ih (i := i) (by simpa using h)
      simp only [List.set_cons_succ, List.map_cons, List.sum_cons]
      omega

/-- Parts that have one left or nothing. -/
theorem total_toNat (p : π → Bool) (parts : List π) :
    total (fun x => (p x).toNat) parts = parts.countP p := by
  induction parts with
  | nil => rfl
  | cons x parts ih =>
    rw [total_cons, ih, List.countP_cons]
    cases p x <;> simp [Nat.add_comm]

/-- No part has more than `n` left. -/
theorem total_le {n : Nat} (h : ∀ x ∈ parts, rank x ≤ n) : total rank parts ≤ n * parts.length := by
  unfold total
  induction parts with
  | nil => exact Nat.zero_le _
  | cons z parts ih =>
    have hz := h z List.mem_cons_self
    have hrest := ih fun x hx => h x (List.mem_cons_of_mem _ hx)
    simp only [List.map_cons, List.sum_cons, List.length_cons, Nat.mul_succ]
    omega

end

/-! ## Own steps -/

/-- The own steps of a run. -/
def ownSteps (step : σ → α → Option σ) (own : σ → α → Bool) : σ → List α → Nat
  | _, [] => 0
  | s, a :: as =>
    match step s a with
    | some s' => (if own s a then 1 else 0) + ownSteps step own s' as
    | none => 0

theorem ownSteps_cons {own : σ → α → Bool} {s s' : σ} {a : α} (h : step s a = some s') (as : List α) :
    ownSteps step own s (a :: as) = (if own s a then 1 else 0) + ownSteps step own s' as := by
  rw [ownSteps, h]

/-- Steps all of which are own. -/
theorem ownSteps_of_along {own : σ → α → Bool} {s t : σ} {as : List α} (h : exec step s as = some t)
    (hown : Along step (fun s a => own s a = true) s as) : ownSteps step own s as = as.length := by
  induction as generalizing s with
  | nil => rfl
  | cons a as ih =>
    obtain ⟨s', hs, ht⟩ := (exec_cons_iff step s t a as).mp h
    rw [ownSteps_cons hs, if_pos (hown.head hs), ih ht (hown.tail hs), List.length_cons]
    omega

/-- **Own steps with additions.**  Where an action may add to what is left, a run has no more own steps than
its rank and what its actions have added. -/
theorem ownSteps_le {own : σ → α → Bool} {P : σ → α → Prop} {I : σ → Prop} {rank : σ → Nat} (adds : α → Nat)
    (kept : ∀ s a s', I s → P s a → step s a = some s' → I s')
    (ranks : ∀ s a s', I s → P s a → step s a = some s' →
      (if own s a then 1 else 0) + rank s' ≤ rank s + adds a)
    {s t : σ} {as : List α} (hi : I s) (hp : Along step P s as) (ht : exec step s as = some t) :
    I t ∧ ownSteps step own s as + rank t ≤ rank s + total adds as := by
  induction as generalizing s with
  | nil =>
    cases ht
    exact ⟨hi, Nat.le_of_eq (Nat.zero_add _)⟩
  | cons a as ih =>
    obtain ⟨s', hs, hrest⟩ := (exec_cons_iff step s t a as).mp ht
    obtain ⟨hit, hle⟩ := ih (kept s a s' hi (hp.head hs) hs) (hp.tail hs) hrest
    have hrank := ranks s a s' hi (hp.head hs) hs
    rw [ownSteps_cons hs, total_cons]
    exact ⟨hit, by omega⟩

/-- A rank for the own steps. -/
structure Ranked (step : σ → α → Option σ) (own : σ → α → Bool) (P : σ → α → Prop) (I Done : σ → Prop)
    (rank : σ → Nat) : Prop where
  kept : ∀ s a s', I s → P s a → step s a = some s' → I s'
  drops : ∀ s a s', I s → P s a → step s a = some s' → own s a = true → rank s' < rank s
  stays : ∀ s a s', I s → P s a → step s a = some s' → own s a = false → rank s' ≤ rank s
  enabled : ∀ s, I s → ¬ Done s → ∃ a s', own s a = true ∧ P s a ∧ step s a = some s'

namespace Ranked

variable {own : σ → α → Bool} {P : σ → α → Prop} {I Done : σ → Prop} {rank : σ → Nat}

theorem of_step (kept : ∀ s a s', I s → P s a → step s a = some s' → I s')
    (ranks : ∀ s a s', I s → P s a → step s a = some s' →
      if own s a then rank s' < rank s else rank s' ≤ rank s)
    (enabled : ∀ s, I s → ¬ Done s → ∃ a s', own s a = true ∧ P s a ∧ step s a = some s') :
    Ranked step own P I Done rank where
  kept := kept
  drops := by
    intro s a s' hi hp hs ho
    have hrank := ranks s a s' hi hp hs
    rwa [if_pos ho] at hrank
  stays := by
    intro s a s' hi hp hs ho
    have hrank := ranks s a s' hi hp hs
    rwa [ho, if_neg Bool.false_ne_true] at hrank
  enabled := enabled

/-- One step. -/
theorem step_rank (h : Ranked step own P I Done rank) {s s' : σ} {a : α} (hi : I s) (hp : P s a)
    (hs : step s a = some s') : (if own s a then 1 else 0) + rank s' ≤ rank s := by
  cases ho : own s a with
  | true =>
    have hlt := h.drops s a s' hi hp hs ho
    rw [if_pos rfl]
    omega
  | false =>
    have hle := h.stays s a s' hi hp hs ho
    rw [if_neg Bool.false_ne_true]
    omega

/-- **A run has no more own steps than its rank.** -/
theorem bound (h : Ranked step own P I Done rank) {s t : σ} {as : List α} (hi : I s)
    (hp : Along step P s as) (ht : exec step s as = some t) :
    I t ∧ ownSteps step own s as + rank t ≤ rank s := by
  obtain ⟨hit, hle⟩ := ownSteps_le (fun _ => 0) h.kept (fun _ _ _ => h.step_rank) hi hp ht
  rw [total_zero] at hle
  exact ⟨hit, hle⟩

/-- **It does not stop half-way.** -/
theorem stuck (h : Ranked step own P I Done rank) {s : σ} (hi : I s)
    (hno : ∀ a s', own s a = true → P s a → step s a ≠ some s') : Done s := by
  by_contra hd
  obtain ⟨a, s', ho, hp, hs⟩ := h.enabled s hi hd
  exact hno a s' ho hp hs

/-- **With that many own steps it is done.** -/
theorem done (h : Ranked step own P I Done rank) {s t : σ} {as : List α} (hi : I s)
    (hp : Along step P s as) (ht : exec step s as = some t) (hn : rank s ≤ ownSteps step own s as) :
    Done t := by
  obtain ⟨hit, hle⟩ := h.bound hi hp ht
  refine h.stuck hit fun a s' ho hpa hs => ?_
  have hlt := h.drops t a s' hit hpa hs ho
  omega

/-- **Own steps lead to the end.** -/
theorem reach (h : Ranked step own P I Done rank) {s : σ} (hi : I s) :
    ∃ as t, exec step s as = some t ∧ Along step (fun s a => own s a = true ∧ P s a) s as ∧ Done t := by
  induction hr : rank s using Nat.strong_induction_on generalizing s with
  | _ n ih =>
    by_cases hd : Done s
    · exact ⟨[], s, rfl, Along.nil, hd⟩
    · obtain ⟨a, s', ho, hp, hs⟩ := h.enabled s hi hd
      have hlt := h.drops s a s' hi hp hs ho
      obtain ⟨as, t, ht, halong, hdone⟩ := ih (rank s') (hr ▸ hlt) (h.kept s a s' hi hp hs) rfl
      refine ⟨a :: as, t, (exec_cons_iff step s t a as).mpr ⟨s', hs, ht⟩, ?_, hdone⟩
      refine along_cons_iff.mpr fun s'' hs'' => ?_
      rw [hs] at hs''
      cases hs''
      exact ⟨⟨ho, hp⟩, halong⟩

end Ranked

end Runs
