import RickyNet.Win.Exit
import RickyNet.Win.OneWorker
import RickyNet.Win.Tunnel

/-!
# What the window shows

The Connect button, the form and the indicator go by `Shared::state` alone, which the worker writes and
in which `start_worker` records its own errors.  `Pc.backs` says where a worker has to be for Connecting
or Connected to be its doing; with one worker at a time (`SpawnsFree`) such a worker is always there
(`shown_step`), so that the button, which is disabled while Connecting, is never left so.

Without elevation there is no worker at all.
-/

namespace RickyNet

/-- The worker has shown Connecting, or Connected, and has not yet written what comes after it. -/
def Pc.backs : ConnState → Pc → Bool
  | .connecting, .tunUp | .connecting, .dial | .connecting, .carveOut | .connecting, .low
  | .connecting, .high | .connecting, .rollback _ | .connecting, .setConnected
  | .connecting, .dropTun (.error _) | .connecting, .setErrorText _ | .connecting, .setErrorState => true
  | .connected, .cloneRead | .connected, .cloneWrite | .connected, .spawnPumps | .connected, .checkStop
  | .connected, .checkAlive | .connected, .sleep | .connected, .stopSession | .connected, .shutdown
  | .connected, .joinA | .connected, .joinB | .connected, .remove | .connected, .dropTun _
  | .connected, .setErrorText _ | .connected, .setErrorState | .connected, .readState
  | .connected, .setDisconnected => true
  | _, _ => false

/-- The pump loop is over: the routes are being taken away. -/
def Pc.leaving : Pc → Bool
  | .remove | .dropTun _ | .setErrorText _ | .setErrorState | .readState | .setDisconnected => true
  | _ => false

/-- What others than a worker do to `Shared`: they ask for a stop, and record errors. -/
structure Shared.Nudged (sh sh' : Shared) : Prop where
  admin : sh'.admin = sh.admin
  state : sh'.state = sh.state ∨ sh'.state = .error
  stop : sh.stop = true → sh'.stop = true

theorem Shared.Nudged.refl (sh : Shared) : sh.Nudged sh := ⟨rfl, Or.inl rfl, id⟩

namespace Worker

/-- A busy state is this worker's doing. -/
def Backs (w : Worker) (sh : Shared) : Prop := sh.busy = true → w.pc.backs sh.state = true

/-- Both halves of the default route are among the rows, from the second on until they are removed. -/
def Halved (w : Worker) : Prop :=
  match w.pc with
  | .high => lowRow w.tun.luid ∈ w.rows
  | .setConnected | .cloneRead | .cloneWrite | .spawnPumps | .checkStop | .checkAlive | .sleep
  | .stopSession | .shutdown | .joinA | .joinB => w.Halves
  | _ => True

section
variable {w w' : Worker} {sh sh' : Shared} {table table' : RouteTable}

theorem executing_of_backs {c : ConnState} (h : w.pc.backs c = true) : w.executing = true := by
  unfold executing
  cases hpc : w.pc with
  | finished =>
    rw [hpc] at h
    cases c <;> cases h
  | _ => rfl

theorem step_admin (h : w.step sh table = some (w', sh', table')) : sh'.admin = sh.admin := by
  unfold step at h
  (repeat' split at h) <;> cases h <;> rfl

/-- **What a worker shows is where it is.** -/
theorem backs_step (h : w.step sh table = some (w', sh', table')) (hb : w.Backs sh) : w'.Backs sh' := by
  unfold Backs Shared.busy at *
  cases hpc : w.pc with
  | readState =>
    simp only [step, hpc] at h
    cases h
    simp only [hpc] at hb
    cases hst : sh.state <;> simp_all [Pc.backs]
  | _ =>
    simp only [step, hpc] at h
    (repeat' split at h) <;> cases h <;> cases hst : sh.state <;>
      simp_all [Pc.backs, Shared.clearStop, Shared.resetCounters, Shared.setState, Shared.setErrorText,
        abandon]

theorem halved_step (h : w.step sh table = some (w', sh', table')) (hw : w.Halved) : w'.Halved := by
  unfold Halved at hw
  cases hpc : w.pc with
  | low =>
    simp only [step, hpc] at h
    split at h
    · cases h
      exact List.mem_append_right _ (List.mem_singleton_self _)
    · cases h
      trivial
  | high =>
    simp only [hpc] at hw
    simp only [step, hpc] at h
    split at h
    · cases h
      exact ⟨List.mem_append_left _ hw, List.mem_append_right _ (List.mem_singleton_self _)⟩
    · cases h
      trivial
  | _ =>
    simp only [hpc] at hw
    simp only [step, hpc] at h
    (repeat' split at h) <;> cases h <;> simp_all [Halved, abandon, Halves]

/-- Where Connected is shown. -/
theorem Halved.of_backs (hw : w.Halved) (hb : w.pc.backs .connected = true) :
    w.pc.leaving = true ∨ w.Halves := by
  unfold Halved at hw
  cases hpc : w.pc <;> simp_all [Pc.backs, Pc.leaving]

theorem Halved.pumpEnds (hw : w.Halved) (p : Pump) : (w.pumpEnds p).Halved := by
  cases p <;> exact hw

end

end Worker

namespace Gui

variable {env : Nat → Outcomes} {s s' : Gui} {a : Act}

theorem uiStep_shared (h : s.uiStep env = some s') : s.shared.Nudged s'.shared := by
  cases hui : s.ui with
  | setErrorState k =>
    simp only [uiStep, hui] at h
    cases h
    exact ⟨rfl, Or.inr rfl, id⟩
  | tray todo =>
    cases todo with
    | nil => simp only [uiStep, hui] at h; cases h; exact .refl _
    | cons a todo =>
      simp only [uiStep, hui] at h
      cases h
      cases a <;> exact .refl _
  | _ =>
    simp only [uiStep, hui] at h
    (repeat' split at h) <;> cases h
    all_goals first
      | exact .refl _
      | exact ⟨rfl, Or.inl rfl, id⟩
      | exact ⟨rfl, Or.inl rfl, fun _ => rfl⟩

theorem step_shared (h : s.step env a = some s') (ha : ∀ i, a ≠ .work i) :
    s.shared.Nudged s'.shared := by
  unfold step at h
  split at h
  · cases h
  cases a with
  | ui => exact uiStep_shared h
  | work i => exact absurd rfl (ha i)
  | _ =>
    simp only at h
    (repeat' split at h) <;> cases h <;> exact .refl _

/-- A step that is none of a worker does not make the state busy. -/
theorem busy_of_step (h : s.step env a = some s') (ha : ∀ i, a ≠ .work i)
    (hb : s'.shared.busy = true) : s.shared.busy = true ∧ s'.shared.state = s.shared.state := by
  rcases (step_shared h ha).state with hs | hs
  · unfold Shared.busy at hb ⊢
    rw [hs] at hb
    exact ⟨hb, hs⟩
  · unfold Shared.busy at hb
    rw [hs] at hb
    cases hb

theorem SpawnsFree.of_none (h : s.app.worker = none) (a : Act) : s.SpawnsFree a := by
  intro _ _ i hi
  rw [h] at hi
  cases hi

theorem SpawnsFree.of_ui (h : ∀ k, s.ui ≠ .startWorker k) (a : Act) : s.SpawnsFree a := by
  rintro _ ⟨k, _, hui, -⟩
  exact absurd hui (h k)

theorem SpawnsFree.of_ne_ui (h : a ≠ .ui) : s.SpawnsFree a := fun ha => absurd ha h

/-- One worker at a time, and a busy state is its doing. -/
structure Shown (elevated : Bool) (s : Gui) : Prop where
  slot : s.InSlot
  admin : s.shared.admin = elevated
  backed : s.shared.busy = true → ∃ (i : Nat) (w : Worker), s.threads[i]? = some w ∧
    w.pc.backs s.shared.state = true
  halved : ∀ w ∈ s.threads, w.Halved

theorem init_shown (args : Args) (tray elevated : Bool) (base : RouteTable) :
    (init args tray elevated base).Shown elevated where
  slot := fun i w hi => by cases hi
  admin := rfl
  backed := fun h => by cases h
  halved := fun w hw => by cases hw

/-- A worker's own step, and it is the only one. -/
theorem backed_work {elevated : Bool} (hi : s.Shown elevated) {i : Nat} {w w' : Worker} {shared : Shared}
    {table : RouteTable} (hw : s.threads[i]? = some w)
    (hs : w.step s.shared s.table = some (w', shared, table)) (hb : shared.busy = true) :
    ∃ (j : Nat) (v : Worker), (s.threads.set i w')[j]? = some v ∧ v.pc.backs shared.state = true := by
  refine ⟨i, w', ?_, Worker.backs_step hs ?_ hb⟩
  · obtain ⟨hlt, -⟩ := List.getElem?_eq_some_iff.1 hw
    exact List.getElem?_set_self hlt
  · intro hbusy
    obtain ⟨j, v, hv, hback⟩ := hi.backed hbusy
    have hij := hi.slot.oneWorker i j w v hw hv (executing_of_step hs) (Worker.executing_of_backs hback)
    rw [← hij, hw] at hv
    cases hv
    exact hback

theorem shown_step {elevated : Bool} (hi : s.Shown elevated) (ha : s.SpawnsFree a)
    (h : s.step env a = some s') : s'.Shown elevated := by
  have hslot := inSlot_step hi.slot ha h
  obtain ⟨-, hm⟩ := moves_of_step h
  have hshared := step_shared h
  have hbusy := busy_of_step h
  cases hm with
  | spawn k args hs =>
    refine ⟨hslot, hi.admin, fun hb => ?_, ?_⟩
    · obtain ⟨i, w, hw, hback⟩ := hi.backed hb
      obtain ⟨hlt, -⟩ := List.getElem?_eq_some_iff.1 hw
      exact ⟨i, w, (List.getElem?_append_left hlt).trans hw, hback⟩
    · intro w hw
      rcases List.mem_append.1 hw with hw | hw
      · exact hi.halved w hw
      · rw [List.mem_singleton.1 hw]
        trivial
  | work i w w' shared table hw hs =>
    refine ⟨hslot, (Worker.step_admin hs).trans hi.admin, backed_work hi hw hs, ?_⟩
    intro v hv
    rcases List.mem_or_eq_of_mem_set hv with hv | rfl
    · exact hi.halved v hv
    · exact Worker.halved_step hs (hi.halved w (List.mem_of_getElem? hw))
  | pumpEnds i p w hw =>
    obtain ⟨hlt, -⟩ := List.getElem?_eq_some_iff.1 hw
    refine ⟨hslot, hi.admin, fun hb => ?_, ?_⟩
    · obtain ⟨j, v, hv, hback⟩ := hi.backed hb
      by_cases hij : i = j
      · subst hij
        rw [hw] at hv
        cases hv
        exact ⟨i, w.pumpEnds p, List.getElem?_set_self hlt, by rw [Worker.pumpEnds_pc]; exact hback⟩
      · exact ⟨j, v, (List.getElem?_set_ne hij).trans hv, hback⟩
    · intro v hv
      rcases List.mem_or_eq_of_mem_set hv with hv | rfl
      · exact hi.halved v hv
      · exact (hi.halved w (List.mem_of_getElem? hw)).pumpEnds p
  | reap => exact ⟨hslot, hi.admin, hi.backed, hi.halved⟩
  | exit => exact ⟨hslot, hi.admin, hi.backed, hi.halved⟩
  | other a s' ht htab hw he hx hna =>
    refine ⟨hslot, (hshared hna).admin.trans hi.admin, fun hb => ?_, ?_⟩
    · obtain ⟨hb', hst⟩ := hbusy hna hb
      rw [ht, hst]
      exact hi.backed hb'
    · rw [ht]
      exact hi.halved

/-- With no worker executing the button can be clicked. -/
theorem Shown.button {elevated : Bool} (hi : s.Shown elevated)
    (hno : ∀ w ∈ s.threads, w.executing = false) : buttonEnabled s.shared.admin s.shared.state = elevated := by
  have hnb : s.shared.busy = false := by
    by_contra hb
    obtain ⟨i, w, hw, hback⟩ := hi.backed (by simpa using hb)
    have hx := Worker.executing_of_backs hback
    rw [hno w (List.mem_of_getElem? hw)] at hx
    cases hx
  rw [hi.admin]
  unfold Shared.busy at hnb
  cases hst : s.shared.state with
  | disconnected => rfl
  | error => rfl
  | connecting => rw [hst] at hnb; cases hnb
  | connected => rw [hst] at hnb; cases hnb

theorem run_shown {args : Args} {tray elevated : Bool} {base : RouteTable} {acts : List Act}
    (h : Runs.exec (step env) (init args tray elevated base) acts = some s)
    (hal : Runs.Along (step env) SpawnsFree (init args tray elevated base) acts) : s.Shown elevated :=
  (Runs.throughout_of_along (Shown elevated) (fun _ _ _ => shown_step)
    (init_shown args tray elevated base) hal).last h

/-- Without elevation nothing is spawned. -/
structure Unelevated (s : Gui) : Prop where
  admin : s.shared.admin = false
  threads : s.threads = []
  busy : s.shared.busy = false

theorem unelevated_step (hi : s.Unelevated) (h : s.step env a = some s') : s'.Unelevated := by
  obtain ⟨-, hm⟩ := moves_of_step h
  have hshared := step_shared h
  have hbusy := busy_of_step h
  cases hm with
  | spawn k args hs =>
    obtain ⟨_, _, -, hadmin, -⟩ := hs
    rw [hi.admin] at hadmin
    cases hadmin
  | work i w w' shared table hw hs =>
    rw [hi.threads] at hw
    cases hw
  | pumpEnds i p w hw =>
    rw [hi.threads] at hw
    cases hw
  | reap => exact ⟨hi.admin, hi.threads, hi.busy⟩
  | exit => exact ⟨hi.admin, hi.threads, hi.busy⟩
  | other a s' ht htab hw he hx hna =>
    refine ⟨(hshared hna).admin.trans hi.admin, ht.trans hi.threads, ?_⟩
    by_contra hb
    have hb' := (hbusy hna (by simpa using hb)).1
    rw [hi.busy] at hb'
    cases hb'

end Gui

/-- **What the window shows is so.**  Without elevation no worker is ever spawned, the state is never
Connecting or Connected, and the route table is left alone.  With one worker at a time, a state of
Connecting or Connected is the doing of the worker in `App::worker`, which is still executing; while
it is Connected both halves of that worker's default route are in the route table, until it takes them
away; and with no worker executing the Connect button can be clicked, given elevation. -/
theorem shown_state (env : Nat → Outcomes) (args : Args) (tray elevated : Bool) (base : RouteTable)
    (acts : List Gui.Act) (s : Gui)
    (h : Runs.exec (Gui.step env) (.init args tray elevated base) acts = some s) :
    (elevated = false → s.threads = [] ∧ s.shared.busy = false ∧ s.table = base) ∧
    (Runs.Along (Gui.step env) Gui.SpawnsFree (.init args tray elevated base) acts →
      (s.shared.busy = true → ∃ i w, s.app.worker = some i ∧ s.threads[i]? = some w ∧
        w.executing = true ∧ (s.shared.state = .connected → w.pc.leaving = true ∨
          lowRow w.tun.luid ∈ s.table ∧ highRow w.tun.luid ∈ s.table)) ∧
      ((∀ w ∈ s.threads, w.executing = false) →
        buttonEnabled s.shared.admin s.shared.state = elevated)) := by
  have ho := Gui.run_onTop h
  constructor
  · rintro rfl
    have hi : s.Unelevated := Runs.exec_inv (Gui.step env) Gui.Unelevated
      (fun _ _ _ => Gui.unelevated_step) ⟨rfl, rfl, rfl⟩ h
    refine ⟨hi.threads, hi.busy, ho.eq_base_iff.2 ?_⟩
    unfold Gui.holds
    rw [hi.threads]
    rfl
  · intro hal
    have hi := Gui.run_shown h hal
    refine ⟨fun hb => ?_, hi.button⟩
    obtain ⟨i, w, hw, hback⟩ := hi.backed hb
    have hx := Worker.executing_of_backs hback
    refine ⟨i, w, hi.slot i w hw hx, hw, hx, fun hst => ?_⟩
    have hmem := List.mem_of_getElem? hw
    rw [hst] at hback
    have hrows : ∀ row ∈ w.rows, row ∈ s.table := fun row hr =>
      ho.mem_rows (List.mem_flatMap.2 ⟨w, hmem, List.mem_append_left _ hr⟩)
    exact ((hi.halved w hmem).of_backs hback).imp_right fun hh => ⟨hrows _ hh.1, hrows _ hh.2⟩

/-- Connect from the tray, and the worker up to its pump loop. -/
theorem shown_state_run : ∃ acts s,
    Runs.exec (Gui.step fun _ => .smooth .reachable ⟨7, true⟩ ⟨⟨0, 0, 0, 0⟩, 1⟩)
      (.init Args.default true true ∅) acts = some s ∧
    s.shared.state = .connected ∧
    ∃ i w, s.app.worker = some i ∧ s.threads[i]? = some w ∧ w.executing = true ∧
      (s.shared.state = .connected → w.pc.leaving = true ∨
        lowRow w.tun.luid ∈ s.table ∧ highRow w.tun.luid ∈ s.table) := by
  have h : Runs.exec (Gui.step fun _ => .smooth .reachable ⟨7, true⟩ ⟨⟨0, 0, 0, 0⟩, 1⟩)
      (.init Args.default true true ∅)
      ([.trayEvent .connectDisconnect, .ui, .ui, .ui, .ui] ++ List.replicate 14 (.work 0)) = some _ := rfl
  refine ⟨_, _, h, rfl, ((shown_state _ _ _ _ _ _ _ h).2 ?_).1 rfl⟩
  have hwork : ∀ s : Gui, Runs.Along (Gui.step fun _ => .smooth .reachable ⟨7, true⟩ ⟨⟨0, 0, 0, 0⟩, 1⟩)
      Gui.SpawnsFree s (List.replicate 14 (.work 0)) := fun s =>
    (Runs.Along.of_forall (P := fun a => a ≠ .ui) (by decide)).mono fun _ _ h => .of_ne_ui h
  refine Runs.Along.append ?_ rfl (hwork _)
  -- up to the spawn `App::worker` is empty
  refine Runs.along_cons_iff.2 fun s1 h1 => ⟨.of_none rfl _, ?_⟩
  cases h1
  refine Runs.along_cons_iff.2 fun s2 h2 => ⟨.of_none rfl _, ?_⟩
  cases h2
  refine Runs.along_cons_iff.2 fun s3 h3 => ⟨.of_none rfl _, ?_⟩
  cases h3
  refine Runs.along_cons_iff.2 fun s4 h4 => ⟨.of_none rfl _, ?_⟩
  cases h4
  exact Runs.along_cons_iff.2 fun s5 h5 => ⟨.of_none rfl _, Runs.Along.nil⟩

end RickyNet
