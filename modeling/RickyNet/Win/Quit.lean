import RickyNet.Lib.Progress
import RickyNet.Win.Gui

/-!
# Quit

`TrayAction::Quit` sets `App::quit` and asks for a Close, which the next update lets through; without a tray
the window's own close button does the same.  `Leaving` says what keeps the process on its way out, whatever
is clicked meanwhile, and `untilExit` counts the steps of the UI thread, which never waits for a worker.
Tray actions that come in before the last update starts are still carried out (`Act.adds`).
-/

namespace RickyNet

/-- The steps of the UI thread that follow. -/
def Then.steps : Then → Nat
  | .tray todo => 11 + 5 * todo.length
  | .draw => 1

/-- The steps of the UI thread up to the end of the update, a click on the button included. -/
def Ui.steps : Ui → Nat
  | .idle => 0
  | .tray todo => 11 + 5 * todo.length
  | .quitStop todo => 12 + 5 * todo.length
  | .toggle k => 4 + k.steps
  | .disconnect k => 1 + k.steps
  | .startWorker k => 3 + k.steps
  | .setErrorText _ k => 2 + k.steps
  | .setErrorState k => 1 + k.steps
  | .closeCheck => 10
  | .closeStop => 9
  | .reap => 8
  | .draw => 7
  | .button _ _ => 6
  | .form => 1

def Then.beforeClose : Then → Bool
  | .tray _ => true
  | .draw => false

/-- A close request of this update has not been dealt with yet. -/
def Ui.beforeClose : Ui → Bool
  | .tray _ | .quitStop _ | .closeCheck | .closeStop => true
  | .toggle k | .disconnect k | .startWorker k | .setErrorText _ k | .setErrorState k => k.beforeClose
  | .idle | .reap | .draw | .button _ _ | .form => false

@[simp] theorem Then.resume_steps (k : Then) : k.resume.steps = k.steps := by
  cases k <;> rfl

@[simp] theorem Then.resume_beforeClose (k : Then) : k.resume.beforeClose = k.beforeClose := by
  cases k <;> rfl

namespace Gui

/-- A step of the UI thread. -/
def Act.ofUi : Act → Bool
  | .ui | .click | .exit => true
  | _ => false

/-- What a step may add to the UI thread's work. -/
def Act.adds : Act → Nat
  | .trayEvent _ => 5
  | _ => 0

/-- A close request is let through rather than turned into hiding the window. -/
def LetsClose (s : Gui) : Prop := s.app.quit = true ∨ s.app.tray = false

/-- A close request is there for the next update, or about to be sent. -/
def Requested (s : Gui) : Prop := s.closeNext = true ∨ ∃ todo, s.ui = .quitStop todo

/-- This update is the last one. -/
def last (s : Gui) : Bool := s.closing || (s.closeNow && s.ui.beforeClose)

/-- The process is on its way out. -/
structure Leaving (s : Gui) : Prop where
  lets : s.LetsClose
  goes : s.last = true ∨ s.Requested

/-- The steps of the UI thread up to its end. -/
def untilExit (s : Gui) : Nat :=
  if s.exited then 0
  else if s.last then s.ui.steps + 1
  else s.ui.steps + 13 + 5 * s.app.actions.length

/-- The update goes on, and with it whatever close request there is. -/
structure GoesOn (s s' : Gui) : Prop where
  exited : s'.exited = s.exited
  closing : s'.closing = s.closing
  closeNow : s'.closeNow = s.closeNow
  before : s'.ui.beforeClose = s.ui.beforeClose
  notStop : s'.ui ≠ .closeStop
  requested : s.Requested → s'.Requested
  quit : s'.app.quit = s.app.quit ∨ s'.app.quit = true ∧ ∃ todo, s'.ui = .quitStop todo
  tray : s'.app.tray = s.app.tray
  actions : s'.app.actions = s.app.actions
  steps : s'.ui.steps < s.ui.steps

/-- What a step of the UI thread inside an update does. -/
inductive UiMoves (s : Gui) : Gui → Prop
  | update (hui : s.ui = .idle) (hc : s.closing = false) :
      UiMoves s { s with
        app := { s.app with actions := [] }
        ui := .tray s.app.actions
        closeNow := s.closeNext
        closeNext := false }
  | lets (hui : s.ui = .closeCheck) (hn : s.closeNow = true) (hl : s.LetsClose) :
      UiMoves s { s with ui := .closeStop }
  /-- no close request, or one that hides the window -/
  | stays (hidden : Bool) (hui : s.ui = .closeCheck) (hn : s.closeNow = true → ¬ s.LetsClose) :
      UiMoves s { s with app := { s.app with hidden := hidden }, ui := .reap }
  | closes (hui : s.ui = .closeStop) :
      UiMoves s { s with shared := s.shared.requestStop, closing := true, ui := .reap }
  | goesOn (s' : Gui) (h : s.GoesOn s') : UiMoves s s'

/-- A step of the others leaves the UI thread where it is. -/
structure Beside (s : Gui) (a : Act) (s' : Gui) : Prop where
  exited : s'.exited = s.exited
  closing : s'.closing = s.closing
  closeNow : s'.closeNow = s.closeNow
  ui : s'.ui = s.ui
  next : s.closeNext = true → s'.closeNext = true
  quit : s'.app.quit = s.app.quit
  tray : s'.app.tray = s.app.tray
  actions : 5 * s'.app.actions.length ≤ 5 * s.app.actions.length + a.adds

variable {env : Nat → Outcomes} {s s' : Gui} {a : Act}

theorem reapWorker_fields (s : Gui) : s.reapWorker.actions = s.app.actions ∧
    s.reapWorker.quit = s.app.quit ∧ s.reapWorker.tray = s.app.tray := by
  unfold reapWorker
  split
  · split
    · exact ⟨rfl, rfl, rfl⟩
    · exact ⟨rfl, rfl, rfl⟩
  · exact ⟨rfl, rfl, rfl⟩

/-- The state changes, but nothing that a close goes by. -/
theorem GoesOn.of_same (hui : ∀ todo, s.ui ≠ .quitStop todo) (hex : s'.exited = s.exited)
    (hc : s'.closing = s.closing) (hn : s'.closeNow = s.closeNow) (hx : s'.closeNext = s.closeNext)
    (hb : s'.ui.beforeClose = s.ui.beforeClose) (hns : s'.ui ≠ .closeStop)
    (hq : s'.app.quit = s.app.quit) (ht : s'.app.tray = s.app.tray)
    (ha : s'.app.actions = s.app.actions) (hlt : s'.ui.steps < s.ui.steps) : s.GoesOn s' where
  exited := hex
  closing := hc
  closeNow := hn
  before := hb
  notStop := hns
  requested := by
    rintro (h | ⟨todo, h⟩)
    · exact Or.inl (hx.trans h)
    · exact absurd h (hui todo)
  quit := Or.inl hq
  tray := ht
  actions := ha
  steps := hlt

/-- `toggle_connection` comes back. -/
theorem GoesOn.of_resume {k : Then} (hui : s'.ui = k.resume) (hno : ∀ todo, s.ui ≠ .quitStop todo)
    (hex : s'.exited = s.exited) (hc : s'.closing = s.closing) (hn : s'.closeNow = s.closeNow)
    (hx : s'.closeNext = s.closeNext) (hb : k.beforeClose = s.ui.beforeClose)
    (hq : s'.app.quit = s.app.quit) (ht : s'.app.tray = s.app.tray)
    (ha : s'.app.actions = s.app.actions) (hlt : k.steps < s.ui.steps) : s.GoesOn s' := by
  refine .of_same hno hex hc hn hx ?_ ?_ hq ht ha ?_
  · rw [hui, k.resume_beforeClose, hb]
  · rw [hui]
    cases k <;> exact fun h => by cases h
  · rw [hui, k.resume_steps]
    exact hlt

theorem uiMoves_of_uiStep (h : s.uiStep env = some s') : s.UiMoves s' := by
  cases hui : s.ui with
  | idle =>
    simp only [uiStep, hui] at h
    split at h
    · cases h
    · next hc => cases h; exact .update hui (by simpa using hc)
  | tray todo =>
    cases todo with
    | nil =>
      simp only [uiStep, hui] at h
      cases h
      exact .goesOn _ (.of_same (by simp [hui]) rfl rfl rfl rfl (by simp [hui, Ui.beforeClose]) (by simp)
        rfl rfl rfl (by simp [hui, Ui.steps]))
    | cons a todo =>
      simp only [uiStep, hui] at h
      cases h
      cases a with
      | quit =>
        refine .goesOn _ ⟨rfl, rfl, rfl, by rw [hui]; rfl, ?_, ?_, Or.inr ⟨rfl, todo, rfl⟩, rfl, rfl, ?_⟩
        · exact fun h => by cases h
        · exact fun _ => Or.inr ⟨todo, rfl⟩
        · rw [hui]
          show 12 + 5 * todo.length < 11 + 5 * (todo.length + 1)
          omega
      | connectDisconnect =>
        refine .goesOn _ (.of_same (by simp [hui]) rfl rfl rfl rfl (by rw [hui]; rfl)
          (fun h => by cases h) rfl rfl rfl ?_)
        rw [hui]
        show 4 + (11 + 5 * todo.length) < 11 + 5 * (todo.length + 1)
        omega
      | _ =>
        refine .goesOn _ (.of_same (by simp [hui]) rfl rfl rfl rfl (by rw [hui]; rfl)
          (fun h => by cases h) rfl rfl rfl ?_)
        rw [hui]
        show 11 + 5 * todo.length < 11 + 5 * (todo.length + 1)
        omega
  | quitStop todo =>
    simp only [uiStep, hui] at h
    cases h
    refine .goesOn _ ⟨rfl, rfl, rfl, by rw [hui]; rfl, fun h => (by cases h), fun _ => Or.inl rfl,
      Or.inl rfl, rfl, rfl, ?_⟩
    rw [hui]
    show 11 + 5 * todo.length < 12 + 5 * todo.length
    omega
  | toggle k =>
    simp only [uiStep, hui] at h
    cases h
    have hno : ∀ todo, s.ui ≠ .quitStop todo := by simp [hui]
    split
    all_goals
      refine .goesOn _ (.of_same hno rfl rfl rfl rfl (by rw [hui]; rfl) (fun h => by cases h) rfl rfl rfl ?_)
      rw [hui]
      simp only [Ui.steps]
      omega
  | disconnect k =>
    simp only [uiStep, hui] at h
    cases h
    exact .goesOn _ (.of_resume rfl (by simp [hui]) rfl rfl rfl rfl (by rw [hui]; rfl) rfl rfl rfl
      (by rw [hui]; exact Nat.lt_add_of_pos_left Nat.zero_lt_one))
  | startWorker k =>
    have hno : ∀ todo, s.ui ≠ .quitStop todo := by simp [hui]
    have herr : ∀ msg, s.GoesOn { s with ui := .setErrorText msg k } := fun msg =>
      .of_same hno rfl rfl rfl rfl (by rw [hui]; rfl) (fun h => by cases h) rfl rfl rfl
        (by rw [hui]; simp only [Ui.steps]; omega)
    simp only [uiStep, hui] at h
    split at h
    · split at h
      · cases h
        exact .goesOn _ (.of_resume rfl hno rfl rfl rfl rfl (by rw [hui]; rfl) rfl rfl rfl
          (by rw [hui]; exact Nat.lt_add_of_pos_left (by decide)))
      · cases h
        exact .goesOn _ (herr _)
    · cases h
      exact .goesOn _ (herr _)
  | setErrorText msg k =>
    simp only [uiStep, hui] at h
    cases h
    exact .goesOn _ (.of_same (by simp [hui]) rfl rfl rfl rfl (by rw [hui]; rfl) (fun h => by cases h)
      rfl rfl rfl (by rw [hui]; simp only [Ui.steps]; omega))
  | setErrorState k =>
    simp only [uiStep, hui] at h
    cases h
    exact .goesOn _ (.of_resume rfl (by simp [hui]) rfl rfl rfl rfl (by rw [hui]; rfl) rfl rfl rfl
      (by rw [hui]; exact Nat.lt_add_of_pos_left Nat.zero_lt_one))
  | closeCheck =>
    simp only [uiStep, hui] at h
    split at h
    · next hn =>
      split at h
      · next hl => cases h; exact .lets hui hn hl
      · next hl => cases h; exact .stays true hui fun _ => hl
    · next hn => cases h; exact .stays s.app.hidden hui fun h => absurd h hn
  | closeStop =>
    simp only [uiStep, hui] at h
    cases h
    exact .closes hui
  | reap =>
    simp only [uiStep, hui] at h
    cases h
    obtain ⟨ha, hq, ht⟩ := s.reapWorker_fields
    exact .goesOn _ (.of_same (by simp [hui]) rfl rfl rfl rfl (by rw [hui]; rfl) (fun h => by cases h)
      hq ht ha (by rw [hui]; exact Nat.lt_succ_self 7))
  | _ =>
    simp only [uiStep, hui] at h
    cases h
    refine .goesOn _ (.of_same (by simp [hui]) rfl rfl rfl rfl (by rw [hui]; rfl) (fun h => by cases h)
      rfl rfl rfl ?_)
    rw [hui]
    simp only [Ui.steps, Nat.reduceLT]

theorem beside_of_step (ha : a.ofUi = false) (h : s.step env a = some s') : s.Beside a s' := by
  unfold step at h
  split at h
  · cases h
  cases a with
  | trayEvent e =>
    simp only at h
    split at h
    · cases h
      refine ⟨rfl, rfl, rfl, rfl, id, rfl, rfl, ?_⟩
      show 5 * (s.app.actions ++ [e]).length ≤ 5 * s.app.actions.length + 5
      rw [List.length_append]
      exact Nat.le_refl _
    · cases h
  | clickClose =>
    cases h
    exact ⟨rfl, rfl, rfl, rfl, fun _ => rfl, rfl, rfl, Nat.le_refl _⟩
  | edit transport phoneIp portStr =>
    simp only at h
    split at h
    · split at h
      · cases h
      · cases h
        exact ⟨rfl, rfl, rfl, rfl, id, rfl, rfl, Nat.le_refl _⟩
    · cases h
  | work i =>
    simp only at h
    (repeat' split at h) <;> cases h
    exact ⟨rfl, rfl, rfl, rfl, id, rfl, rfl, Nat.le_refl _⟩
  | pumpEnds i p =>
    simp only at h
    (repeat' split at h) <;> cases h
    exact ⟨rfl, rfl, rfl, rfl, id, rfl, rfl, Nat.le_refl _⟩
  | ui => cases ha
  | click => cases ha
  | exit => cases ha

/-! ## The way out -/

theorem GoesOn.last_eq (h : s.GoesOn s') : s'.last = s.last := by
  unfold last
  rw [h.closing, h.closeNow, h.before]

theorem GoesOn.leaving (h : s.GoesOn s') (hl : s.Leaving) : s'.Leaving := by
  refine ⟨?_, ?_⟩
  · rcases h.quit with hq | ⟨hq, -⟩
    · exact hl.lets.imp hq.trans h.tray.trans
    · exact Or.inl hq
  · exact hl.goes.imp h.last_eq.trans h.requested

theorem untilExit_last (h : s.last = true) (hex : s.exited = false) : s.untilExit = s.ui.steps + 1 := by
  unfold untilExit
  rw [hex, h]
  rfl

theorem untilExit_next (h : s.last = false) (hex : s.exited = false) :
    s.untilExit = s.ui.steps + 13 + 5 * s.app.actions.length := by
  unfold untilExit
  rw [hex, h]
  rfl

theorem GoesOn.untilExit_lt (h : s.GoesOn s') (hex : s.exited = false) : s'.untilExit < s.untilExit := by
  have hlt := h.steps
  have hex' := h.exited.trans hex
  cases hl : s.last with
  | true =>
    rw [untilExit_last hl hex, untilExit_last (h.last_eq.trans hl) hex']
    omega
  | false =>
    rw [untilExit_next hl hex, untilExit_next (h.last_eq.trans hl) hex', h.actions]
    omega

/-- **A step of an update** brings the process nearer to its end. -/
theorem leaving_uiStep (hl : s.Leaving) (hex : s.exited = false) (h : s.uiStep env = some s') :
    s'.Leaving ∧ s'.untilExit < s.untilExit := by
  cases uiMoves_of_uiStep h with
  | goesOn _ hg => exact ⟨hg.leaving hl, hg.untilExit_lt hex⟩
  | update hui hc =>
    have hlast : s.last = false := by simp [last, hc, hui, Ui.beforeClose]
    have hn : s.closeNext = true := by
      rcases hl.goes with h | h | ⟨todo, h⟩
      · rw [hlast] at h
        cases h
      · exact h
      · rw [hui] at h
        cases h
    have hlast' : last { s with
        app := { s.app with actions := [] }, ui := .tray s.app.actions, closeNow := s.closeNext,
        closeNext := false } = true := by simp [last, hn, Ui.beforeClose]
    refine ⟨⟨hl.lets, Or.inl hlast'⟩, ?_⟩
    rw [untilExit_next hlast hex, untilExit_last hlast' hex, hui]
    simp only [Ui.steps]
    omega
  | lets hui hn hlets =>
    have hlast : s.last = true := by simp [last, hn, hui, Ui.beforeClose]
    have hlast' : last { s with ui := .closeStop } = true := by simp [last, hn, Ui.beforeClose]
    refine ⟨⟨hl.lets, Or.inl hlast'⟩, ?_⟩
    rw [untilExit_last hlast hex, untilExit_last hlast' hex, hui]
    simp only [Ui.steps]
    omega
  | stays hidden hui hn =>
    have hnow : s.closeNow = false := by
      by_contra hne
      exact hn (by simpa using hne) hl.lets
    have hlast' : last { s with app := { s.app with hidden := hidden }, ui := .reap } = s.last := by
      simp [last, hnow]
    refine ⟨⟨hl.lets, ?_⟩, ?_⟩
    · rcases hl.goes with h | h | ⟨todo, h⟩
      · exact Or.inl (hlast'.trans h)
      · exact Or.inr (Or.inl h)
      · rw [hui] at h
        cases h
    · cases hlast : s.last with
      | true =>
        rw [untilExit_last hlast hex, untilExit_last (hlast'.trans hlast) hex, hui]
        simp only [Ui.steps]
        omega
      | false =>
        rw [untilExit_next hlast hex, untilExit_next (hlast'.trans hlast) hex, hui]
        simp only [Ui.steps]
        omega
  | closes hui =>
    have hlast' : last { s with shared := s.shared.requestStop, closing := true, ui := .reap } = true :=
      Bool.true_or _
    refine ⟨⟨hl.lets, Or.inl hlast'⟩, ?_⟩
    rw [untilExit_last hlast' hex]
    cases hlast : s.last with
    | true =>
      rw [untilExit_last hlast hex, hui]
      simp only [Ui.steps]
      omega
    | false =>
      rw [untilExit_next hlast hex, hui]
      simp only [Ui.steps]
      omega

theorem Beside.last_eq (h : s.Beside a s') : s'.last = s.last := by
  unfold last
  rw [h.closing, h.closeNow, h.ui]

theorem Beside.leaving (h : s.Beside a s') (hl : s.Leaving) : s'.Leaving := by
  refine ⟨hl.lets.imp h.quit.trans h.tray.trans, hl.goes.imp h.last_eq.trans ?_⟩
  exact Or.imp h.next fun ⟨todo, hui⟩ => ⟨todo, h.ui.trans hui⟩

theorem Beside.untilExit_le (h : s.Beside a s') (hex : s.exited = false) :
    s'.untilExit ≤ s.untilExit + a.adds := by
  have hacts := h.actions
  have hex' := h.exited.trans hex
  cases hl : s.last with
  | true =>
    rw [untilExit_last hl hex, untilExit_last (h.last_eq.trans hl) hex', h.ui]
    omega
  | false =>
    rw [untilExit_next hl hex, untilExit_next (h.last_eq.trans hl) hex', h.ui]
    omega

theorem step_running (h : s.step env a = some s') : s.exited = false := (moves_of_step h).1

theorem uiStep_of_step (h : s.step env .ui = some s') : s.uiStep env = some s' := by
  have hex := step_running h
  unfold step at h
  rwa [if_neg (by simp [hex])] at h

theorem goesOn_of_click (h : s.step env .click = some s') : s.GoesOn s' := by
  unfold step at h
  split at h
  · cases h
  simp only at h
  split at h
  · next state admin hui =>
    split at h
    · cases h
      exact .of_same (by simp [hui]) rfl rfl rfl rfl (by rw [hui]; rfl) (fun h => by cases h)
        rfl rfl rfl (by rw [hui]; exact Nat.lt_succ_self 5)
    · cases h
  · cases h

theorem closing_of_exit (h : s.step env .exit = some s') : s.closing = true := by
  unfold step at h
  split at h
  · cases h
  simp only at h
  split at h
  · split at h
    · next hc => exact hc
    · cases h
  · cases h

/-- **One step.**  The UI thread's own steps bring the process nearer to its end; nothing stops it, and only
a tray action adds to what it has to do. -/
theorem leaving_step (hl : s.Leaving) (h : s.step env a = some s') :
    s'.Leaving ∧ (if a.ofUi then 1 else 0) + s'.untilExit ≤ s.untilExit + a.adds := by
  have hex := step_running h
  cases ho : a.ofUi with
  | false =>
    have hb := beside_of_step ho h
    rw [if_neg Bool.false_ne_true, Nat.zero_add]
    exact ⟨hb.leaving hl, hb.untilExit_le hex⟩
  | true =>
    have hlower : s'.Leaving ∧ s'.untilExit < s.untilExit := by
      cases a with
      | ui => exact leaving_uiStep hl hex (uiStep_of_step h)
      | click => exact ⟨(goesOn_of_click h).leaving hl, (goesOn_of_click h).untilExit_lt hex⟩
      | exit =>
        have hlast : s.last = true := by simp [last, closing_of_exit h]
        obtain rfl := step_exit h
        refine ⟨⟨hl.lets, Or.inl hlast⟩, ?_⟩
        rw [untilExit_last hlast hex]
        exact Nat.succ_pos _
      | _ => cases ho
    refine ⟨hlower.1, ?_⟩
    rw [if_pos rfl]
    omega

/-- **A run.** -/
theorem leaving_run {t : Gui} {acts : List Act} (hl : s.Leaving) (h : Runs.exec (step env) s acts = some t) :
    t.Leaving ∧ Runs.ownSteps (step env) (fun _ a => a.ofUi) s acts + t.untilExit ≤
      s.untilExit + Runs.total Act.adds acts :=
  Runs.ownSteps_le Act.adds (P := fun _ _ => True) (fun _ _ _ hl _ h => (leaving_step hl h).1)
    (fun _ _ _ hl _ h => (leaving_step hl h).2) hl (fun _ _ _ _ _ _ _ => trivial) h

theorem uiStep_enabled (h : s.ui = .idle → s.closing = false) : ∃ s', s.uiStep env = some s' := by
  unfold uiStep
  split
  · next hui => exact ⟨_, if_neg (by simp [h hui])⟩
  all_goals
    (repeat' split) <;> exact ⟨_, rfl⟩

theorem ranked_leaving (env : Nat → Outcomes) :
    Runs.Ranked (step env) (fun _ a => a.ofUi) (fun _ a => a.adds = 0) Leaving (fun s => s.exited = true)
      untilExit := by
  refine .of_step (fun s a s' hl _ h => (leaving_step hl h).1) (fun s a s' hl ha h => ?_)
    (fun s hl hex => ?_)
  · have hle := (leaving_step hl h).2
    cases ho : a.ofUi with
    | true =>
      rw [ho, if_pos rfl] at hle
      rw [if_pos rfl]
      omega
    | false =>
      rw [ho, if_neg Bool.false_ne_true] at hle
      rw [if_neg Bool.false_ne_true]
      omega
  · have hrun : s.exited = false := by simpa using hex
    by_cases hend : s.ui = .idle ∧ s.closing = true
    · refine ⟨.exit, { s with exited := true }, rfl, rfl, ?_⟩
      simp only [step, hrun, hend.1, hend.2, Bool.false_eq_true, if_false, if_true]
    · have henabled : ∃ s', s.uiStep env = some s' :=
        uiStep_enabled fun hui => by simpa [hui] using hend
      obtain ⟨s', hs⟩ := henabled
      refine ⟨.ui, s', rfl, rfl, ?_⟩
      simp only [step, hrun, Bool.false_eq_true, if_false, hs]

/-! ## What a close needs -/

/-- The process is closed by Quit alone, or by its window where there is no tray. -/
structure CloseInv (s : Gui) : Prop where
  stop : s.ui = .closeStop → s.LetsClose
  closing : s.closing = true → s.LetsClose
  exited : s.exited = true → s.closing = true
  quit : s.app.quit = true → s.Leaving

theorem init_closeInv (args : Args) (tray elevated : Bool) (base : RouteTable) :
    (init args tray elevated base).CloseInv :=
  ⟨fun h => (by cases h), fun h => (by cases h), fun h => (by cases h), fun h => (by cases h)⟩

theorem GoesOn.closeInv (h : s.GoesOn s') (hi : s.CloseInv) : s'.CloseInv where
  stop := fun hui => absurd hui h.notStop
  closing := fun hc => by
    rcases h.quit with hq | ⟨hq, -⟩
    · exact (hi.closing (h.closing ▸ hc)).imp hq.trans h.tray.trans
    · exact Or.inl hq
  exited := fun hex => h.closing.trans (hi.exited (h.exited ▸ hex))
  quit := fun hq => by
    rcases h.quit with hsame | ⟨-, todo, hui⟩
    · exact h.leaving (hi.quit (hsame ▸ hq))
    · exact ⟨Or.inl hq, Or.inr (Or.inr ⟨todo, hui⟩)⟩

theorem closeInv_uiStep (hi : s.CloseInv) (hex : s.exited = false) (h : s.uiStep env = some s') :
    s'.CloseInv := by
  have hquit : s.app.quit = true → s'.Leaving := fun hq => (leaving_uiStep (hi.quit hq) hex h).1
  have hno : s.exited = true → s.closing = true := fun h => by
    rw [hex] at h
    cases h
  cases uiMoves_of_uiStep h with
  | goesOn _ hg => exact hg.closeInv hi
  | update hui hc => exact ⟨fun h => (by cases h), hi.closing, hno, hquit⟩
  | lets hui hn hl => exact ⟨fun _ => hl, hi.closing, hno, hquit⟩
  | stays hidden hui hn => exact ⟨fun h => (by cases h), hi.closing, hno, hquit⟩
  | closes hui => exact ⟨fun h => (by cases h), fun _ => hi.stop hui, fun _ => rfl, hquit⟩

theorem closeInv_step (hi : s.CloseInv) (h : s.step env a = some s') : s'.CloseInv := by
  have hex := step_running h
  cases ho : a.ofUi with
  | false =>
    have hb := beside_of_step ho h
    refine ⟨fun hui => ?_, fun hc => ?_, fun he => ?_, fun hq => ?_⟩
    · exact (hi.stop (hb.ui ▸ hui)).imp hb.quit.trans hb.tray.trans
    · exact (hi.closing (hb.closing ▸ hc)).imp hb.quit.trans hb.tray.trans
    · exact hb.closing.trans (hi.exited (hb.exited ▸ he))
    · exact hb.leaving (hi.quit (hb.quit ▸ hq))
  | true =>
    cases a with
    | ui => exact closeInv_uiStep hi hex (uiStep_of_step h)
    | click => exact (goesOn_of_click h).closeInv hi
    | exit =>
      have hquit : s.app.quit = true → s'.Leaving := fun hq => (leaving_step (hi.quit hq) h).1
      have hc := closing_of_exit h
      obtain rfl := step_exit h
      exact ⟨hi.stop, hi.closing, fun _ => hc, hquit⟩
    | _ => cases ho

theorem run_closeInv {args : Args} {tray elevated : Bool} {base : RouteTable} {acts : List Act}
    (h : Runs.exec (step env) (init args tray elevated base) acts = some s) : s.CloseInv :=
  Runs.exec_inv (step env) CloseInv (fun _ _ _ => closeInv_step) (init_closeInv args tray elevated base) h

end Gui

/-- **Quit quits, and nothing else does.**  The process ends only after Quit, or where there is no tray.  Once
Quit has been carried out, or the window of an app without a tray has been closed, the UI thread takes no
more than the stated number of steps, and 5 for each tray action that comes in meanwhile, whatever it, the
user and the workers do; it does not stop before `app::run` has returned, and can always get there. -/
theorem quit_quits (env : Nat → Outcomes) (args : Args) (tray elevated : Bool) (base : RouteTable)
    (acts : List Gui.Act) (s : Gui)
    (h : Runs.exec (Gui.step env) (.init args tray elevated base) acts = some s) :
    (s.exited = true → s.app.quit = true ∨ s.app.tray = false) ∧
    (s.app.quit = true ∨ s.app.tray = false ∧ s.closeNext = true →
      (∀ acts' t, Runs.exec (Gui.step env) s acts' = some t →
        Runs.ownSteps (Gui.step env) (fun _ a => a.ofUi) s acts' ≤
          s.untilExit + Runs.total Gui.Act.adds acts' ∧
        ((∀ a : Gui.Act, a.ofUi = true → t.step env a = none) → t.exited = true)) ∧
      ∃ acts' t, Runs.exec (Gui.step env) s acts' = some t ∧
        Runs.Along (Gui.step env) (fun _ a => a.ofUi = true) s acts' ∧ t.exited = true) := by
  have hi := Gui.run_closeInv h
  refine ⟨fun hex => hi.closing (hi.exited hex), fun hq => ?_⟩
  have hl : s.Leaving := by
    rcases hq with hq | ⟨ht, hn⟩
    · exact hi.quit hq
    · exact ⟨Or.inr ht, Or.inr (Or.inl hn)⟩
  have hr := Gui.ranked_leaving env
  refine ⟨fun acts' t ht => ?_, ?_⟩
  · obtain ⟨hlt, hle⟩ := Gui.leaving_run hl ht
    refine ⟨by omega, fun hno => hr.stuck hlt fun a t' ho _ hs => ?_⟩
    rw [hno a ho] at hs
    cases hs
  · obtain ⟨acts', t, ht, hal, hex⟩ := hr.reach hl
    exact ⟨acts', t, ht, hal.mono fun _ _ h => h.1, hex⟩

/-- Connect and Quit, drained in one update: a worker is started, and Connect is clicked again before the next
update. -/
theorem quit_quits_run : ∃ acts s,
    Runs.exec (Gui.step fun _ => .smooth .reachable ⟨7, true⟩ ⟨⟨0, 0, 0, 0⟩, 1⟩)
      (.init Args.default true true ∅) acts = some s ∧
    s.app.quit = true ∧ s.threads.length = 1 ∧ s.untilExit = 29 ∧
    ∃ acts' t, Runs.exec (Gui.step fun _ => .smooth .reachable ⟨7, true⟩ ⟨⟨0, 0, 0, 0⟩, 1⟩) s acts' = some t ∧
      t.exited = true := by
  have h : Runs.exec (Gui.step fun _ => .smooth .reachable ⟨7, true⟩ ⟨⟨0, 0, 0, 0⟩, 1⟩)
      (.init Args.default true true ∅)
      [.trayEvent .connectDisconnect, .trayEvent .quit, .ui, .ui, .ui, .ui, .work 0, .ui, .ui,
        .trayEvent .connectDisconnect] = some _ := rfl
  obtain ⟨acts', t, ht, -, hex⟩ := ((quit_quits _ _ _ _ _ _ _ h).2 (Or.inl rfl)).2
  exact ⟨_, _, h, rfl, rfl, rfl, acts', t, ht, hex⟩

end RickyNet
