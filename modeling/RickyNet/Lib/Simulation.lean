import RickyNet.Lib.Runs

/-!
# Simulation between two step functions

`Simulates` relates the states of two systems so that each step of the one is a run of the other,
`part a` being what the action `a` comes to there: nothing, one action, or several.

`Simulates.exec` carries the relation along a whole run; `Simulates.of_component` is the case of a system
with the other one as a component.
-/

namespace Runs

variable {σ τ α β : Type*} {step : σ → α → Option σ} {step' : τ → β → Option τ}

/-- Each step is a run of the other system. -/
structure Simulates (step : σ → α → Option σ) (step' : τ → β → Option τ) (part : α → List β)
    (R : σ → τ → Prop) : Prop where
  steps : ∀ s a s' t, R s t → step s a = some s' → ∃ t', exec step' t (part a) = some t' ∧ R s' t'

/-- An action that is one action of the other system. -/
theorem exec_seen {t t' : τ} {b : β} (h : step' t b = some t') : exec step' t [b] = some t' :=
  (exec_cons_iff step' t t' b []).2 ⟨t', h, rfl⟩

namespace Simulates

variable {part : α → List β} {R : σ → τ → Prop}

/-- **Every run is a run of the other system.** -/
theorem exec (h : Simulates step step' part R) {s s' : σ} {t : τ} {as : List α} (hr : R s t)
    (hs : exec step s as = some s') : ∃ t', Runs.exec step' t (as.flatMap part) = some t' ∧ R s' t' := by
  induction as generalizing s t with
  | nil =>
    cases hs
    exact ⟨t, rfl, hr⟩
  | cons a as ih =>
    obtain ⟨s1, h1, h2⟩ := (exec_cons_iff step s s' a as).1 hs
    obtain ⟨t1, h3, h4⟩ := h.steps s a s1 t hr h1
    obtain ⟨t', h5, h6⟩ := ih h4 h2
    exact ⟨t', by rw [List.flatMap_cons]; exact exec_trans step' h3 h5, h6⟩

end Simulates

/-- A component of a system, all of whose steps but its own leave it alone. -/
theorem Simulates.of_component {part : α → List β} (get : σ → τ)
    (h : ∀ s a s', step s a = some s' →
      (part a = [] ∧ get s' = get s) ∨ ∃ b, part a = [b] ∧ step' (get s) b = some (get s')) :
    Simulates step step' part fun s t => get s = t where
  steps := by
    rintro s a s' t rfl hs
    rcases h s a s' hs with ⟨h1, h2⟩ | ⟨b, h1, h2⟩
    · exact ⟨get s, by rw [h1]; rfl, h2⟩
    · exact ⟨get s', by rw [h1]; exact exec_seen h2, rfl⟩

end Runs
