import RickyNet.Win.Gui

/-!
# At most one worker

`toggle_connection` looks at the displayed state, and the worker writes that state: Connecting only
after it has been scheduled, Error before it has made its final check.  In both windows a second
worker can be spawned while the first one is executing.

`one_worker_iff`: it is enough, and necessary, that `start_worker` finds `App::worker` empty or its
thread finished.
-/

namespace RickyNet

namespace Gui

/-- At most one `run_connect` is executing. -/
def OneWorker (s : Gui) : Prop :=
  ∀ (i j : Nat) (wi wj : Worker), s.threads[i]? = some wi → s.threads[j]? = some wj →
    wi.executing = true → wj.executing = true → i = j

/-- While a worker is executing, the step is none of an earlier worker that changes the displayed
state. -/
def Undisturbed (env : Nat → Outcomes) (s : Gui) (a : Act) : Prop :=
  ∀ (i j : Nat) (w : Worker) (s' : Gui), a = .work i → i < j → s.threads[j]? = some w →
    w.executing = true → s.step env a = some s' → s'.shared.state = s.shared.state

/-- A worker is spawned only when `App::worker` is empty or its thread has finished. -/
def SpawnsFree (s : Gui) (a : Act) : Prop := a = .ui → s.Spawns → s.SlotFree

/-- The only thread that may be executing is the one in `App::worker`. -/
def InSlot (s : Gui) : Prop :=
  ∀ (i : Nat) (w : Worker), s.threads[i]? = some w → w.executing = true → s.app.worker = some i

theorem InSlot.oneWorker {s : Gui} (h : s.InSlot) : s.OneWorker := by
  intro i j wi wj hi hj hwi hwj
  have h1 := h i wi hi hwi
  rw [h j wj hj hwj] at h1
  exact (Option.some.inj h1).symm

/-- A thread that makes a step is executing. -/
theorem executing_of_step {w w' : Worker} {sh sh' : Shared} {table table' : RouteTable}
    (h : w.step sh table = some (w', sh', table')) : w.executing = true := by
  by_contra hne
  rw [Worker.step_finished (by simpa using hne)] at h
  cases h

/-- With the slot free, no thread is executing. -/
theorem InSlot.none_executing {s : Gui} (h : s.InSlot) (hfree : s.SlotFree) {i : Nat} {w : Worker}
    (hi : s.threads[i]? = some w) : w.executing = false := by
  by_contra hne
  have hw : w.executing = true := by simpa using hne
  have hf := hfree i (h i w hi hw)
  unfold isFinished at hf
  rw [hi] at hf
  simp only [hw, Bool.not_true] at hf
  cases hf

theorem inSlot_spawn {env : Nat → Outcomes} {s : Gui} (h : s.InSlot) (hfree : s.SlotFree)
    (args : Args) (k : Then) : (s.spawn env args k).InSlot := by
  intro i w hi hw
  show some s.threads.length = some i
  unfold spawn at hi
  simp only at hi
  by_cases hlt : i < s.threads.length
  · rw [List.getElem?_append_left hlt] at hi
    rw [h.none_executing hfree hi] at hw
    cases hw
  · have hlen := (List.getElem?_eq_some_iff.1 hi).1
    rw [List.length_append, List.length_singleton] at hlen
    have : i = s.threads.length := by omega
    rw [this]

theorem inSlot_reap {s : Gui} (h : s.InSlot) :
    Gui.InSlot { s with app := s.reapWorker, ui := .draw } := by
  intro i w hi hw
  have hslot := h i w hi hw
  show s.reapWorker.worker = some i
  unfold reapWorker
  rw [hslot]
  have hf : s.isFinished i = false := by
    unfold isFinished
    rw [show s.threads[i]? = some w from hi]
    simp only [hw, Bool.not_true]
  simp only [hf]
  exact hslot

/-- A thread that is replaced by one that is executing only if it was. -/
theorem inSlot_set {s s' : Gui} (h : s.InSlot) {i : Nat} {w w' : Worker}
    (hi : s.threads[i]? = some w) (ht : s'.threads = s.threads.set i w')
    (hs : s'.app.worker = s.app.worker) (hx : w'.executing = true → w.executing = true) :
    s'.InSlot := by
  intro j v hj hv
  rw [hs]
  rw [ht] at hj
  by_cases hij : i = j
  · subst hij
    obtain ⟨hlt, -⟩ := List.getElem?_eq_some_iff.1 hi
    rw [List.getElem?_set_self hlt] at hj
    cases hj
    exact h i w hi (hx hv)
  · rw [List.getElem?_set_ne hij] at hj
    exact h j v hj hv

theorem inSlot_step {env : Nat → Outcomes} {s s' : Gui} {a : Act} (h : s.InSlot)
    (ha : s.SpawnsFree a) (hstep : s.step env a = some s') : s'.InSlot := by
  obtain ⟨-, hm⟩ := moves_of_step hstep
  cases hm with
  | spawn k args hs => exact inSlot_spawn h (ha rfl hs) args k
  | reap => exact inSlot_reap h
  | work i w w' shared table hi hw => exact inSlot_set h hi rfl rfl fun _ => executing_of_step hw
  | pumpEnds i p w hi =>
    refine inSlot_set h hi rfl rfl fun hx => ?_
    rwa [Worker.pumpEnds_executing] at hx
  | exit => exact h
  | other a s' ht htab hw he hx hna =>
    intro i w hi hwe
    rw [hw]
    rw [ht] at hi
    exact h i w hi hwe

/-- With at most one thread executing, the earlier one of two does not move. -/
theorem InSlot.undisturbed {s : Gui} (h : s.InSlot) (env : Nat → Outcomes) (a : Act) :
    s.Undisturbed env a := by
  rintro i j w s' rfl hlt hj hw hstep
  have hm := (moves_of_step hstep).2
  generalize ha : Act.work i = a at hm
  cases hm with
  | work i' wi w' shared table hi hwi =>
    cases ha
    have := h.oneWorker i j wi w hi hj (executing_of_step hwi) hw
    omega
  | other a s' ht htab hw he hx hna => exact absurd ha.symm (hna i)
  | _ => cases ha

/-- Spawning behind the back of a thread that is executing makes two. -/
theorem two_workers {env : Nat → Outcomes} {s : Gui} {args : Args} {k : Then}
    (h : (s.spawn env args k).OneWorker) : s.SlotFree := by
  intro i _
  unfold isFinished
  cases hi : s.threads[i]? with
  | none => rfl
  | some w =>
    simp only
    by_contra hne
    have hw : w.executing = true := by simpa using hne
    obtain ⟨hlt, -⟩ := List.getElem?_eq_some_iff.1 hi
    have h1 : (s.spawn env args k).threads[i]? = some w := by
      show (s.threads ++ _)[i]? = some w
      rw [List.getElem?_append_left hlt, hi]
    have h2 : (s.spawn env args k).threads[s.threads.length]? =
        some (.spawn args (env s.threads.length)) := by
      exact List.getElem?_concat_length
    have := h i s.threads.length _ _ h1 h2 hw rfl
    omega

/-- The step that `Spawns` announces. -/
theorem step_of_spawns {env : Nat → Outcomes} {s s' : Gui} (hs : s.Spawns)
    (h : s.step env .ui = some s') : ∃ args k, s.ui = .startWorker k ∧ s.shared.admin = true ∧
      s.app.startArgs = .ok args ∧ s' = s.spawn env args k := by
  obtain ⟨k, args, hui, hadm, hargs⟩ := hs
  unfold step at h
  split at h
  · cases h
  simp only [uiStep, hui, hadm, hargs, if_true] at h
  cases h
  exact ⟨args, k, hui, hadm, hargs, rfl⟩

end Gui

/-- **When there is at most one worker.**  At most one `run_connect` is executing at any time, and no
earlier one changes the displayed state meanwhile, if and only if `start_worker` spawns only when the
thread in `App::worker` has finished. -/
theorem one_worker_iff (env : Nat → Outcomes) (args : Args) (tray elevated : Bool) (base : RouteTable)
    (acts : List Gui.Act) :
    (Runs.Throughout (Gui.step env) Gui.OneWorker (.init args tray elevated base) acts ∧
      Runs.Along (Gui.step env) (Gui.Undisturbed env) (.init args tray elevated base) acts) ↔
      Runs.Along (Gui.step env) Gui.SpawnsFree (.init args tray elevated base) acts := by
  constructor
  · rintro ⟨h, -⟩ pre a t t' hp ht hstep rfl hs
    have hone := h.after hp ht hstep
    obtain ⟨args', k, -, -, -, rfl⟩ := Gui.step_of_spawns hs hstep
    exact Gui.two_workers hone
  · intro h
    have hslot : Runs.Throughout (Gui.step env) Gui.InSlot (.init args tray elevated base) acts := by
      refine Runs.throughout_of_along Gui.InSlot ?_ ?_ h
      · exact fun s a s' hs ha hstep => Gui.inSlot_step hs ha hstep
      · intro i w hi
        cases hi
    refine ⟨hslot.mono fun _ hs => hs.oneWorker, ?_⟩
    intro pre a t t' hp ht hstep
    exact (hslot.before hp ht).undisturbed env a

/-- Two Connect / Disconnect actions from the tray, drained in one update, make two workers.  And a
worker that has failed, Connect clicked before its final check, displays Disconnected while the next
one is connecting. -/
theorem two_workers_at_once :
    (∃ acts s, Runs.exec (Gui.step fun _ => .smooth .reachable ⟨7, true⟩ ⟨⟨0, 0, 0, 0⟩, 1⟩)
      (.init Args.default true true ∅) acts = some s ∧ ¬ s.OneWorker) ∧
    ∃ env acts s, Runs.exec (Gui.step env) (.init Args.default true true ∅) acts = some s ∧
      s.shared.state = .connecting ∧ ¬ s.Undisturbed env (.work 0) :=
  ⟨⟨[.trayEvent .connectDisconnect, .trayEvent .connectDisconnect] ++ List.replicate 7 .ui, _, rfl,
      fun h => absurd (h 0 1 _ _ rfl rfl rfl rfl) (by decide)⟩,
    fun i => { Outcomes.smooth .reachable ⟨7, true⟩ ⟨⟨0, 0, 0, 0⟩, 1⟩ with
      tunUp := if i = 0 then .error ⟨.notFound, "could not load wintun.dll"⟩ else .ok ⟨7, true⟩ },
    [[.trayEvent .connectDisconnect], List.replicate 10 .ui, List.replicate 6 (.work 0),
      List.replicate 5 .ui, [.click, .ui, .ui], List.replicate 3 (.work 1), [.work 0]].flatten, _, rfl, rfl,
    fun h => absurd (h 0 1 _ _ rfl (by decide) rfl rfl rfl) (by decide)⟩

end RickyNet
