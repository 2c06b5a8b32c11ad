import RickyNet.Win.OneWorker
import RickyNet.Win.Quit
import RickyNet.Win.Teardown

/-!
# Leaving the GUI

Quit and a Close without a tray both ask the worker to stop and let the window close; nothing waits
for the worker, so `app::run` can return, and end the process, at any point of the session.

`Orderly` is what the code does not see to: `start_worker` and the return of `app::run` find `App::worker`
empty or its thread finished, and no session leaves rows behind by itself (`Leaks`).  A run of such steps
goes from one worker that has finished to the next, each of them on the initial route table (`Tidy`).
-/

namespace RickyNet

namespace Gui

/-- If the process has ended, the route table is the initial one. -/
def ExitClean (base : RouteTable) (s : Gui) : Prop := s.exited = true → s.table = base

/-- The arguments with which the UI thread's next step spawns a worker. -/
def spawnArgs (s : Gui) : Option Args :=
  match s.ui with
  | .startWorker _ => if s.shared.admin then s.app.startArgs.toOption else none
  | _ => none

/-- `start_worker` spawns a thread, and `app::run` returns, with `App::worker` empty or its thread
finished; the calls of the thread do not end so that it drops `Routes` with rows left. -/
structure Orderly (env : Nat → Outcomes) (s : Gui) (a : Act) : Prop where
  spawns : ∀ args, a = .ui → s.spawnArgs = some args →
    s.SlotFree ∧ ¬ Leaks s.table args (env s.threads.length)
  exits : a = .exit → s.SlotFree

instance (s : Gui) : Decidable s.SlotFree :=
  decidable_of_iff (∀ i ∈ s.app.worker, s.isFinished i = true) Iff.rfl

/-- Where no `try_clone` fails, the slot is all there is to look at. -/
theorem Orderly.of_clones {env : Nat → Outcomes} {s : Gui} {a : Act} (hc : ∀ i, ¬ CloneFails (env i))
    (h : (a = .ui → s.spawnArgs.isSome = true → s.SlotFree) ∧ (a = .exit → s.SlotFree)) :
    s.Orderly env a where
  spawns := fun args ha hargs =>
    ⟨h.1 ha (by rw [hargs]; rfl), fun ⟨_, _, _, hclone, _⟩ => hc s.threads.length hclone⟩
  exits := h.2

theorem init_onTop (args : Args) (tray elevated : Bool) (base : RouteTable) :
    KeyedTable.OnTop Row.key base (init args tray elevated base).table
      (init args tray elevated base).holds := KeyedTable.OnTop.nil

theorem run_onTop {env : Nat → Outcomes} {args : Args} {tray elevated : Bool} {base : RouteTable}
    {acts : List Act} {s : Gui}
    (h : Runs.exec (step env) (init args tray elevated base) acts = some s) :
    KeyedTable.OnTop Row.key base s.table s.holds :=
  Runs.exec_inv (step env) (fun s => KeyedTable.OnTop Row.key base s.table s.holds)
    (fun _ _ _ hs hstep => step_onTop hs hstep) (init_onTop args tray elevated base) h

/-! ## One worker after the other -/

/-- Each worker is on its path from the initial route table and takes back all its rows; only the one in
`App::worker` may be executing. -/
structure Tidy (base : RouteTable) (s : Gui) : Prop where
  slot : s.InSlot
  onTop : KeyedTable.OnTop Row.key base s.table s.holds
  path : ∀ w ∈ s.threads, w.Path base ∧ ¬ Leaks base w.args w.out

variable {env : Nat → Outcomes} {base : RouteTable} {s s' : Gui} {a : Act}

theorem init_tidy (args : Args) (tray elevated : Bool) (base : RouteTable) :
    (init args tray elevated base).Tidy base where
  slot := fun i w hi => by cases hi
  onTop := init_onTop args tray elevated base
  path := fun w hw => by cases hw

/-- A worker that has finished holds nothing. -/
theorem Tidy.holds_finished (h : s.Tidy base) {w : Worker} (hw : w ∈ s.threads)
    (hx : w.executing = false) : w.holds = [] := by
  obtain ⟨hpath, hleaks⟩ := h.path w hw
  have hreturned : w.returned = true := by
    unfold Worker.executing at hx
    unfold Worker.returned
    cases hpc : w.pc <;> simp_all
  obtain ⟨hrows, hleaked⟩ := Worker.path_returned hpath hreturned
  unfold Worker.holds
  rw [hrows, hleaked.2 hleaks]
  rfl

/-- With the slot free, no route is up. -/
theorem Tidy.clean (h : s.Tidy base) (hfree : s.SlotFree) : s.table = base := by
  refine h.onTop.eq_base_iff.2 (List.flatMap_eq_nil_iff.2 fun w hw => ?_)
  obtain ⟨i, hi⟩ := List.getElem?_of_mem hw
  exact h.holds_finished hw (h.slot.none_executing hfree hi)

/-- The rows that are up are those of the worker that is executing. -/
theorem Tidy.onTop_worker (h : s.Tidy base) {i : Nat} {w : Worker} (hi : s.threads[i]? = some w)
    (hx : w.executing = true) : KeyedTable.OnTop Row.key base s.table w.holds := by
  have hothers : (s.threads.eraseIdx i).flatMap Worker.holds = [] := by
    refine List.flatMap_eq_nil_iff.2 fun v hv => ?_
    obtain ⟨j, hji, hj⟩ := List.mem_eraseIdx_iff_getElem?.1 hv
    refine h.holds_finished (List.mem_of_getElem? hj) ?_
    by_contra hvx
    exact hji (h.slot.oneWorker j i v w hj hi (by simpa using hvx) hx)
  have hperm := h.onTop.perm (holds_perm hi)
  rwa [hothers, List.append_nil] at hperm

/-- What a spawn needs, as `spawnArgs` has it. -/
theorem spawnArgs_of_spawns (h : s.step env .ui = some s') (hs : s.Spawns) :
    ∃ args k, s.spawnArgs = some args ∧ s' = s.spawn env args k := by
  obtain ⟨args, k, hui, hadm, hargs, heq⟩ := step_of_spawns hs h
  refine ⟨args, k, ?_, heq⟩
  unfold spawnArgs
  rw [hui, hargs]
  simp only [hadm, if_true]
  rfl

theorem tidy_spawn (h : s.Tidy base) (ha : s.Orderly env .ui) {args : Args} {k : Then}
    (hargs : s.spawnArgs = some args)
    (honTop : KeyedTable.OnTop Row.key base (s.spawn env args k).table (s.spawn env args k).holds) :
    (s.spawn env args k).Tidy base := by
  obtain ⟨hfree, hleaks⟩ := ha.spawns args rfl hargs
  refine ⟨inSlot_spawn h.slot hfree args k, honTop, fun w hw => ?_⟩
  rcases List.mem_append.1 hw with hw | hw
  · exact h.path w hw
  · rw [List.mem_singleton.1 hw]
    exact ⟨Worker.path_spawn args _, h.clean hfree ▸ hleaks⟩

theorem tidy_step (h : s.Tidy base) (ha : s.Orderly env a) (hstep : s.step env a = some s') :
    s'.Tidy base := by
  have honTop := step_onTop h.onTop hstep
  have hspawns : s.SpawnsFree a := fun hui hs => by
    subst hui
    obtain ⟨args, k, hargs, -⟩ := spawnArgs_of_spawns hstep hs
    exact (ha.spawns args rfl hargs).1
  have hslot := inSlot_step h.slot hspawns hstep
  obtain ⟨-, hm⟩ := moves_of_step hstep
  cases hm with
  | spawn k args hs =>
    obtain ⟨args', k', hargs, heq⟩ := spawnArgs_of_spawns hstep hs
    rw [heq] at honTop ⊢
    exact tidy_spawn h ha hargs honTop
  | reap => exact ⟨hslot, honTop, h.path⟩
  | work i w w' shared table hi hw =>
    refine ⟨hslot, honTop, fun v hv => ?_⟩
    rcases List.mem_or_eq_of_mem_set hv with hv | rfl
    · exact h.path v hv
    · obtain ⟨hpath, hleaks⟩ := h.path w (List.mem_of_getElem? hi)
      obtain ⟨hargs, hout⟩ := Worker.step_args hw
      refine ⟨Worker.path_step hpath (h.onTop_worker hi (executing_of_step hw)) hw, ?_⟩
      rw [hargs, hout]
      exact hleaks
  | pumpEnds i p w hi =>
    refine ⟨hslot, honTop, fun v hv => ?_⟩
    rcases List.mem_or_eq_of_mem_set hv with hv | rfl
    · exact h.path v hv
    · obtain ⟨hpath, hleaks⟩ := h.path w (List.mem_of_getElem? hi)
      refine ⟨Worker.path_pumpEnds p hpath, ?_⟩
      cases p <;> exact hleaks
  | exit => exact ⟨hslot, honTop, h.path⟩
  | other a s' ht htab hw he hx hna =>
    refine ⟨hslot, honTop, ?_⟩
    rw [ht]
    exact h.path

theorem exitClean_step (h : s.Tidy base) (ha : s.Orderly env a) (hstep : s.step env a = some s') :
    s'.ExitClean base := by
  intro he
  obtain rfl := step_exited hstep he
  rw [step_exit hstep]
  exact h.clean (ha.exits rfl)

/-! ## The way out with routes up -/

/-- The UI thread takes no routes away. -/
theorem holds_of_ofUi (ha : a.ofUi = true) (h : s.step env a = some s') : s'.holds = s.holds := by
  obtain ⟨-, hm⟩ := moves_of_step h
  cases hm with
  | spawn k args hs =>
    unfold holds spawn
    simp only [List.flatMap_append]
    simp [Worker.holds, Worker.spawn]
  | reap => rfl
  | work => cases ha
  | pumpEnds => cases ha
  | exit => rfl
  | other a s' ht =>
    unfold holds
    rw [ht]

theorem ui_run_holds {acts : List Act} (hal : Runs.Along (step env) (fun _ a => a.ofUi = true) s acts)
    (h : Runs.exec (step env) s acts = some s') : s'.holds = s.holds := by
  have hall := Runs.throughout_of_along (fun t => t.holds = s.holds)
    (fun t a t' ht ha hs => (holds_of_ofUi ha hs).trans ht) rfl hal
  exact hall.last h

/-- Once Quit has been carried out, or a Close has been let through, the process is on its way out. -/
theorem CloseInv.leaving (hi : s.CloseInv) (h : s.app.quit = true ∨ s.closing = true) : s.Leaving := by
  rcases h with hq | hc
  · exact hi.quit hq
  · exact ⟨hi.closing hc, Or.inl (by simp [last, hc])⟩

end Gui

/-- **When the process leaves no tunnel behind.**  In a run in which `start_worker` and the return of
`app::run` always find `App::worker` empty or its thread finished, and no session leaks, the route table is
the initial one whenever the process has ended.  And nothing else sees to it: from every state in which Quit
has been carried out, or a Close let through, while a worker has routes up, the UI thread alone ends the
process with a changed route table. -/
theorem exit_clean (env : Nat → Outcomes) (args : Args) (tray elevated : Bool) (base : RouteTable)
    (acts : List Gui.Act) :
    (Runs.Along (Gui.step env) (Gui.Orderly env) (.init args tray elevated base) acts →
      Runs.Throughout (Gui.step env) (Gui.ExitClean base) (.init args tray elevated base) acts) ∧
    ∀ s, Runs.exec (Gui.step env) (.init args tray elevated base) acts = some s →
      s.app.quit = true ∨ s.closing = true → (∃ w ∈ s.threads, w.holds ≠ []) →
      ∃ acts' t, Runs.exec (Gui.step env) s acts' = some t ∧
        Runs.Along (Gui.step env) (fun _ a => a.ofUi = true) s acts' ∧
        t.exited = true ∧ ¬ t.ExitClean base := by
  refine ⟨fun h => ?_, fun s hs hout hup => ?_⟩
  · refine (Runs.throughout_of_along (fun s => s.Tidy base ∧ s.ExitClean base) ?_ ?_ h).mono
      fun _ hs => hs.2
    · exact fun s a s' hs ha hstep => ⟨Gui.tidy_step hs.1 ha hstep, Gui.exitClean_step hs.1 ha hstep⟩
    · exact ⟨Gui.init_tidy args tray elevated base, fun he => by cases he⟩
  · obtain ⟨acts', t, ht, hal, hex⟩ := (Gui.ranked_leaving env).reach ((Gui.run_closeInv hs).leaving hout)
    have hui := hal.mono fun _ _ h => h.1
    refine ⟨acts', t, ht, hui, hex, fun hclean => ?_⟩
    have honTop := Gui.run_onTop (Runs.exec_trans (Gui.step env) hs ht)
    have hnil := honTop.eq_base_iff.1 (hclean hex)
    rw [Gui.ui_run_holds hui ht] at hnil
    obtain ⟨w, hw, hrows⟩ := hup
    exact hrows (List.flatMap_eq_nil_iff.1 hnil w hw)

/-- Connect and Quit drained in one update, with the worker in the sleep of its pump loop in between.  If it has
finished when `app::run` returns, the table is as it was; from the sleep, the UI thread alone ends the process
with both halves in it. -/
theorem exit_clean_run :
    (∃ acts s, Runs.exec (Gui.step fun _ => .smooth .reachable ⟨7, true⟩ ⟨⟨0, 0, 0, 0⟩, 1⟩)
        (.init Args.default true true ∅) acts = some s ∧ s.threads.length = 1 ∧ s.exited = true ∧ s.table = ∅) ∧
      ∃ acts s, Runs.exec (Gui.step fun _ => .smooth .reachable ⟨7, true⟩ ⟨⟨0, 0, 0, 0⟩, 1⟩)
        (.init Args.default true true ∅) acts = some s ∧ s.app.quit = true ∧
        s.table = {lowRow 7, highRow 7} ∧
        ∃ acts' t, Runs.exec (Gui.step fun _ => .smooth .reachable ⟨7, true⟩ ⟨⟨0, 0, 0, 0⟩, 1⟩) s acts' =
          some t ∧ t.exited = true ∧ ¬ t.ExitClean ∅ := by
  have hclones : ∀ _ : Nat, ¬ CloneFails (.smooth .reachable ⟨7, true⟩ ⟨⟨0, 0, 0, 0⟩, 1⟩) := fun _ h => by
    rcases h with h | h <;> exact h rfl
  constructor
  · let acts : List Gui.Act := [[.trayEvent .connectDisconnect, .trayEvent .quit], List.replicate 4 .ui,
      List.replicate 14 (.work 0), List.replicate 2 .ui, List.replicate 4 (.work 0),
      [.pumpEnds 0 .a, .pumpEnds 0 .b], List.replicate 8 (.work 0), List.replicate 14 .ui, [.exit]].flatten
    have hal : Runs.Along (Gui.step fun _ => .smooth .reachable ⟨7, true⟩ ⟨⟨0, 0, 0, 0⟩, 1⟩)
        (fun s a => (a = .ui → s.spawnArgs.isSome = true → s.SlotFree) ∧ (a = .exit → s.SlotFree))
        (.init Args.default true true ∅) acts := by decide +kernel
    have hrun : ∃ s ∈ Runs.exec (Gui.step fun _ => .smooth .reachable ⟨7, true⟩ ⟨⟨0, 0, 0, 0⟩, 1⟩)
        (.init Args.default true true ∅) acts, s.threads.length = 1 ∧ s.exited = true := by decide +kernel
    have hclean := (exit_clean (fun _ => .smooth .reachable ⟨7, true⟩ ⟨⟨0, 0, 0, 0⟩, 1⟩) Args.default true true
      ∅ acts).1 (hal.mono fun _ _ h => .of_clones hclones h)
    obtain ⟨s, hs, hlen, hex⟩ := hrun
    exact ⟨acts, s, hs, hlen, hex, hclean.last hs hex⟩
  · let acts : List Gui.Act := [[.trayEvent .connectDisconnect, .trayEvent .quit], List.replicate 4 .ui,
      List.replicate 14 (.work 0), [.ui]].flatten
    have hrun : ∃ s ∈ Runs.exec (Gui.step fun _ => .smooth .reachable ⟨7, true⟩ ⟨⟨0, 0, 0, 0⟩, 1⟩)
        (.init Args.default true true ∅) acts, s.app.quit = true ∧ s.table = {lowRow 7, highRow 7} ∧
          ∃ w ∈ s.threads, w.holds ≠ [] := by decide +kernel
    obtain ⟨s, hs, hquit, htable, hup⟩ := hrun
    obtain ⟨acts', t, ht, -, hex, hchanged⟩ :=
      (exit_clean (fun _ => .smooth .reachable ⟨7, true⟩ ⟨⟨0, 0, 0, 0⟩, 1⟩) Args.default true true ∅ acts).2 s hs
        (Or.inl hquit) hup
    exact ⟨acts, s, hs, hquit, htable, acts', t, ht, hex, hchanged⟩

/-- Connect, and Quit from the tray while the pump loop sleeps: the process has ended, and both
halves of the split default are still there. -/
theorem exit_with_routes : ∃ acts s,
    Runs.exec (Gui.step fun _ => .smooth .reachable ⟨7, true⟩ ⟨⟨0, 0, 0, 0⟩, 1⟩)
      (.init Args.default true true ∅) acts = some s ∧
    s.exited = true ∧ s.table = {lowRow 7, highRow 7} ∧ ¬ s.ExitClean ∅ :=
  ⟨[[.trayEvent .connectDisconnect], List.replicate 10 .ui, List.replicate 14 (.work 0),
    [.trayEvent .quit], List.replicate 17 .ui, [.exit]].flatten, _, rfl, rfl, by decide,
    fun h => absurd (h rfl) (by decide)⟩

end RickyNet
