import RickyNet.Lib.Runs
import RickyNet.Win.Worker

/-!
# The GUI and its worker threads

The UI thread runs `update` over and over: tray actions, the close button, `reap_worker`, drawing.
One access to `Shared` is one step, so the worker threads it has spawned can move between any two of
them.  A Close that is not cancelled ends `app::run` after the update, and with it the process and
every thread.

`step_onTop`: the route table is the initial one with the rows of all workers on top.
`moves_of_step`: what a step does to the threads and to `App::worker`.
-/

namespace RickyNet

inductive TrayAction
  | toggleWindow
  | showWindow
  | connectDisconnect
  | quit
deriving DecidableEq

structure App where
  args : Args
  transport : TransportKind
  phoneIp : String
  portStr : String
  /-- the handle of the last thread spawned, until it is reaped -/
  worker : Option Nat
  /-- there is a tray to hide into -/
  tray : Bool
  actions : List TrayAction
  quit : Bool
  hidden : Bool
deriving DecidableEq

namespace App

def new (args : Args) (tray : Bool) : App where
  args := args
  transport := args.transport
  phoneIp := args.phoneIp.getD ""
  portStr := toString args.port.toNat
  worker := none
  tray := tray
  actions := []
  quit := false
  hidden := false

/-- The checks of `start_worker`, and the arguments it starts the worker with. -/
def startArgs (app : App) : Except String Args :=
  let args := { app.args with
    transport := app.transport
    port := (parseU16 app.portStr).getD DEFAULT_PORT }
  if app.transport = .wifi then
    if parseIpv4 app.phoneIp = none then .error ("invalid phone IP '" ++ app.phoneIp ++ "'")
    else .ok { args with phoneIp := some app.phoneIp }
  else .ok { args with phoneIp := none }

end App

/-- What comes after `toggle_connection`. -/
inductive Then
  /-- the tray actions that are left -/
  | tray (todo : List TrayAction)
  /-- the rest of `draw` -/
  | draw

/-- What the UI thread does next. -/
inductive Ui
  /-- between two updates -/
  | idle
  /-- `handle_tray_actions`, with the drained actions that are left -/
  | tray (todo : List TrayAction)
  /-- `TrayAction::Quit`, before `request_stop` -/
  | quitStop (todo : List TrayAction)
  /-- `toggle_connection`, before `busy()` -/
  | toggle (k : Then)
  | disconnect (k : Then)
  | startWorker (k : Then)
  | setErrorText (msg : String) (k : Then)
  | setErrorState (k : Then)
  | closeCheck
  | closeStop
  | reap
  | draw
  /-- the button has been drawn for this state -/
  | button (state : ConnState) (admin : Bool)
  | form

def Then.resume : Then → Ui
  | .tray todo => .tray todo
  | .draw => .form

/-- The Connect/Disconnect button can be clicked. -/
def buttonEnabled (admin : Bool) : ConnState → Bool
  | .disconnected => admin
  | .error => admin
  | .connecting => false
  | .connected => true

/-- `App::busy`. -/
def Shared.busy (sh : Shared) : Bool :=
  match sh.state with
  | .connecting => true
  | .connected => true
  | _ => false

structure Gui where
  app : App
  ui : Ui
  /-- `close_requested()` of the update in progress, and of the next one -/
  closeNow : Bool
  closeNext : Bool
  /-- a Close was let through -/
  closing : Bool
  /-- `app::run` has returned -/
  exited : Bool
  shared : Shared
  table : RouteTable
  /-- all threads spawned, in order -/
  threads : List Worker

namespace Gui

def init (args : Args) (tray elevated : Bool) (table : RouteTable) : Gui where
  app := .new args tray
  ui := .idle
  closeNow := false
  closeNext := false
  closing := false
  exited := false
  shared := Shared.new.setAdmin elevated
  table := table
  threads := []

inductive Act
  /-- the UI thread's next step; nothing is clicked or typed -/
  | ui
  /-- the Connect/Disconnect button is clicked -/
  | click
  | edit (transport : TransportKind) (phoneIp portStr : String)
  | trayEvent (a : TrayAction)
  /-- the window's close button is clicked -/
  | clickClose
  /-- the next step of thread `i` -/
  | work (i : Nat)
  | pumpEnds (i : Nat) (p : Pump)
  /-- `app::run` returns -/
  | exit
deriving DecidableEq

/-- The last lines of `start_worker`; `env i` is how the calls of thread `i` end. -/
def spawn (env : Nat → Outcomes) (s : Gui) (args : Args) (k : Then) : Gui :=
  { s with
    app := { s.app with worker := some s.threads.length }
    ui := k.resume
    threads := s.threads ++ [.spawn args (env s.threads.length)] }

/-- One tray action. -/
def trayAction (s : Gui) (todo : List TrayAction) : TrayAction → Gui
  | .toggleWindow => { s with app := { s.app with hidden := !s.app.hidden }, ui := .tray todo }
  | .showWindow => { s with app := { s.app with hidden := false }, ui := .tray todo }
  | .connectDisconnect => { s with ui := .toggle (.tray todo) }
  | .quit => { s with app := { s.app with quit := true }, ui := .quitStop todo }

/-- Thread `i` has finished. -/
def isFinished (s : Gui) (i : Nat) : Bool :=
  match s.threads[i]? with
  | some w => !w.executing
  | none => true

/-- `reap_worker`. -/
def reapWorker (s : Gui) : App :=
  match s.app.worker with
  | some i => if s.isFinished i then { s.app with worker := none } else s.app
  | none => s.app

/-- The UI thread's next step. -/
def uiStep (env : Nat → Outcomes) (s : Gui) : Option Gui :=
  match s.ui with
  | .idle =>
    if s.closing then none
    else some { s with
      app := { s.app with actions := [] }
      ui := .tray s.app.actions
      closeNow := s.closeNext
      closeNext := false }
  | .tray [] => some { s with ui := .closeCheck }
  | .tray (a :: todo) => some (s.trayAction todo a)
  | .quitStop todo =>
    some { s with shared := s.shared.requestStop, closeNext := true, ui := .tray todo }
  | .toggle k => some { s with ui := if s.shared.busy then .disconnect k else .startWorker k }
  | .disconnect k => some { s with shared := s.shared.requestStop, ui := k.resume }
  | .startWorker k =>
    if s.shared.admin then
      match s.app.startArgs with
      | .ok args => some (s.spawn env args k)
      | .error msg => some { s with ui := .setErrorText msg k }
    else some { s with
      ui := .setErrorText "needs Administrator to create the network adapter and set routes" k }
  | .setErrorText msg k => some { s with shared := s.shared.setErrorText msg, ui := .setErrorState k }
  | .setErrorState k => some { s with shared := s.shared.setState .error, ui := k.resume }
  | .closeCheck =>
    if s.closeNow then
      if s.app.quit ∨ s.app.tray = false then some { s with ui := .closeStop }
      else some { s with app := { s.app with hidden := true }, ui := .reap }
    else some { s with ui := .reap }
  | .closeStop => some { s with shared := s.shared.requestStop, closing := true, ui := .reap }
  | .reap => some { s with app := s.reapWorker, ui := .draw }
  | .draw => some { s with ui := .button s.shared.state s.shared.admin }
  | .button _ _ => some { s with ui := .form }
  | .form => some { s with ui := .idle }

def step (env : Nat → Outcomes) (s : Gui) (a : Act) : Option Gui :=
  if s.exited then none
  else
    match a with
    | .ui => s.uiStep env
    | .click =>
      match s.ui with
      | .button state admin =>
        if buttonEnabled admin state then some { s with ui := .toggle .draw } else none
      | _ => none
    | .edit transport phoneIp portStr =>
      match s.ui with
      | .form =>
        if s.shared.busy then none
        else some { s with app := { s.app with
          transport := transport
          phoneIp := if transport = .wifi then phoneIp else s.app.phoneIp
          portStr := portStr } }
      | _ => none
    | .trayEvent a =>
      if s.app.tray then some { s with app := { s.app with actions := s.app.actions ++ [a] } } else none
    | .clickClose => some { s with closeNext := true }
    | .work i =>
      match s.threads[i]? with
      | some w =>
        match w.step s.shared s.table with
        | some (w, shared, table) =>
          some { s with threads := s.threads.set i w, shared := shared, table := table }
        | none => none
      | none => none
    | .pumpEnds i p =>
      match s.threads[i]? with
      | some w =>
        if w.running p then some { s with threads := s.threads.set i (w.pumpEnds p) } else none
      | none => none
    | .exit =>
      match s.ui with
      | .idle => if s.closing then some { s with exited := true } else none
      | _ => none

/-- The UI thread's next step spawns a worker. -/
def Spawns (s : Gui) : Prop :=
  ∃ k args, s.ui = .startWorker k ∧ s.shared.admin = true ∧ s.app.startArgs = .ok args

/-- `App::worker` is empty, or its thread has finished. -/
def SlotFree (s : Gui) : Prop := ∀ i, s.app.worker = some i → s.isFinished i = true

/-- What a step does to the threads, the route table and `App::worker`. -/
inductive Moves (env : Nat → Outcomes) (s : Gui) : Act → Gui → Prop
  | spawn (k : Then) (args : Args) (hs : s.Spawns) : Moves env s .ui (s.spawn env args k)
  | reap : Moves env s .ui { s with app := s.reapWorker, ui := .draw }
  | work (i : Nat) (w w' : Worker) (shared : Shared) (table : RouteTable)
      (hi : s.threads[i]? = some w) (hw : w.step s.shared s.table = some (w', shared, table)) :
      Moves env s (.work i) { s with threads := s.threads.set i w', shared := shared, table := table }
  | pumpEnds (i : Nat) (p : Pump) (w : Worker) (hi : s.threads[i]? = some w) :
      Moves env s (.pumpEnds i p) { s with threads := s.threads.set i (w.pumpEnds p) }
  | exit : Moves env s .exit { s with exited := true }
  | other (a : Act) (s' : Gui) (ht : s'.threads = s.threads) (htab : s'.table = s.table)
      (hw : s'.app.worker = s.app.worker) (he : s'.exited = s.exited) (hx : a ≠ .exit)
      (ha : ∀ i, a ≠ .work i) :
      Moves env s a s'

theorem moves_of_uiStep {env : Nat → Outcomes} {s s' : Gui} (h : s.uiStep env = some s') :
    s.Moves env .ui s' := by
  cases hui : s.ui with
  | startWorker k =>
    simp only [uiStep, hui] at h
    split at h
    · next hadm =>
      split at h
      · next args hargs => cases h; exact .spawn k args ⟨k, args, hui, hadm, hargs⟩
      · cases h; exact .other _ _ rfl rfl rfl rfl (by simp) (by simp)
    · cases h; exact .other _ _ rfl rfl rfl rfl (by simp) (by simp)
  | tray todo =>
    cases todo with
    | nil => simp only [uiStep, hui] at h; cases h; exact .other _ _ rfl rfl rfl rfl (by simp) (by simp)
    | cons a todo =>
      simp only [uiStep, hui] at h
      cases h
      cases a <;> exact .other _ _ rfl rfl rfl rfl (by simp) (by simp)
  | reap => simp only [uiStep, hui] at h; cases h; exact .reap
  | _ =>
    simp only [uiStep, hui] at h
    (repeat' split at h) <;> cases h <;> exact .other _ _ rfl rfl rfl rfl (by simp) (by simp)

theorem moves_of_step {env : Nat → Outcomes} {s s' : Gui} {a : Act} (h : s.step env a = some s') :
    s.exited = false ∧ s.Moves env a s' := by
  unfold step at h
  split at h
  · cases h
  next he =>
  refine ⟨by simpa using he, ?_⟩
  cases a with
  | ui => exact moves_of_uiStep h
  | work i =>
    simp only at h
    split at h
    · next w hi =>
      split at h
      · next w' shared table hw => cases h; exact .work i w w' shared table hi hw
      · cases h
    · cases h
  | pumpEnds i p =>
    simp only at h
    split at h
    · next w hi =>
      split at h
      · cases h; exact .pumpEnds i p w hi
      · cases h
    · cases h
  | exit =>
    simp only at h
    split at h
    · split at h
      · cases h; exact .exit
      · cases h
    · cases h
  | _ =>
    simp only at h
    (repeat' split at h) <;> cases h <;> exact .other _ _ rfl rfl rfl rfl (by simp) (by simp)

/-- The step that ends the process changes nothing else. -/
theorem step_exit {env : Nat → Outcomes} {s s' : Gui} (h : s.step env .exit = some s') :
    s' = { s with exited := true } := by
  have hm := (moves_of_step h).2
  generalize ha : Act.exit = a at hm
  cases hm with
  | exit => rfl
  | other a s' ht htab hw he hx hna => exact absurd ha.symm hx
  | _ => cases ha

/-- Only that step ends it. -/
theorem step_exited {env : Nat → Outcomes} {s s' : Gui} {a : Act} (h : s.step env a = some s')
    (he : s'.exited = true) : a = .exit := by
  obtain ⟨h0, hm⟩ := moves_of_step h
  cases hm with
  | exit => rfl
  | other a s' ht htab hw hex hx hna =>
    rw [hex, h0] at he
    cases he
  | _ => exact absurd (h0.symm.trans he) (by simp)

/-! ## The route table -/

/-- The rows that the workers hold. -/
def holds (s : Gui) : List Row := s.threads.flatMap Worker.holds

/-- One thread first, then the others. -/
theorem holds_perm {threads : List Worker} {i : Nat} {w : Worker} (hi : threads[i]? = some w) :
    (threads.flatMap Worker.holds).Perm (w.holds ++ (threads.eraseIdx i).flatMap Worker.holds) := by
  obtain ⟨hlt, rfl⟩ := List.getElem?_eq_some_iff.1 hi
  exact (List.Perm.flatMap_right _ (List.getElem_cons_eraseIdx_perm hlt).symm)

theorem holds_set_perm {threads : List Worker} {i : Nat} {w : Worker} (hi : threads[i]? = some w)
    (w' : Worker) : ((threads.set i w').flatMap Worker.holds).Perm
      (w'.holds ++ (threads.eraseIdx i).flatMap Worker.holds) := by
  obtain ⟨hlt, -⟩ := List.getElem?_eq_some_iff.1 hi
  have hi' : (threads.set i w')[i]? = some w' := List.getElem?_set_self hlt
  have h := holds_perm hi'
  rwa [List.eraseIdx_set_eq] at h

/-- **The workers' rows are on top of the initial route table.** -/
theorem step_onTop {env : Nat → Outcomes} {base : RouteTable} {s s' : Gui} {a : Act}
    (ho : KeyedTable.OnTop Row.key base s.table s.holds) (h : s.step env a = some s') :
    KeyedTable.OnTop Row.key base s'.table s'.holds := by
  obtain ⟨-, hm⟩ := moves_of_step h
  cases hm with
  | spawn k args hs =>
    unfold holds spawn
    simp only [List.flatMap_append]
    simpa [Worker.holds, Worker.spawn, holds] using ho
  | reap => exact ho
  | work i w w' shared table hi hw =>
    exact (Worker.step_onTop hw (ho.perm (holds_perm hi))).perm (holds_set_perm hi w').symm
  | pumpEnds i p w hi =>
    refine (ho.perm (holds_perm hi)).perm (List.Perm.trans ?_ (holds_set_perm hi _).symm)
    rw [Worker.pumpEnds_holds]
  | exit => exact ho
  | other a s' ht htab hw he hx ha =>
    unfold holds
    rw [ht, htab]
    exact ho

end Gui

end RickyNet
