import RickyNet.Win.Shown
import RickyNet.Win.Unblock

/-!
# The Connect button comes back

Disconnect, Quit and Close only set the stop flag.  From there the worker takes its way out by itself,
the pump threads end behind the two shutdowns (`own`), and the UI thread does not get in its way:
`Stopping` holds up to the next Connect, and `ranked_stopping` bounds what is left.  Then no worker is
executing, and by `Shown.button` the window is as it was at the start.
-/

namespace RickyNet

/-- The two shutdowns have been called. -/
def Pc.joining : Pc → Bool
  | .joinA | .joinB => true
  | _ => false

namespace Worker

/-- The pump threads that are running. -/
def pumping (w : Worker) : Nat := w.pumpA.toNat + w.pumpB.toNat

theorem pumping_le (w : Worker) : w.pumping ≤ 2 := by
  have hA := Bool.toNat_le w.pumpA
  have hB := Bool.toNat_le w.pumpB
  unfold pumping
  omega

theorem pumping_pumpEnds {w : Worker} {p : Pump} (hr : w.running p = true) :
    (w.pumpEnds p).pumping < w.pumping := by
  cases p with
  | a =>
    rw [pumping, pumping, show w.pumpA = true from hr]
    exact Nat.add_lt_add_right Nat.zero_lt_one _
  | b =>
    rw [pumping, pumping, show w.pumpB = true from hr]
    exact Nat.add_lt_add_left Nat.zero_lt_one _

/-- The steps that are left of the worker and its pump threads. -/
def remaining (w : Worker) : Nat := 3 * w.stage + w.pumping

theorem ending_of_stop {w : Worker} {sh : Shared} (hs : sh.stop = true) (hpc : w.pc ≠ .clearStop) :
    w.Ending sh := by
  unfold Ending
  split
  · next h => exact absurd h hpc
  all_goals first
    | exact hs
    | exact Or.inl hs

theorem remaining_step {w w' : Worker} {sh sh' : Shared} {table table' : RouteTable} (he : w.Ending sh)
    (h : w.step sh table = some (w', sh', table')) : w'.remaining < w.remaining := by
  have hstage := (ending_step he h).2
  have hle := w'.pumping_le
  unfold remaining
  omega

theorem remaining_pumpEnds {w : Worker} {p : Pump} (hr : w.running p = true) :
    (w.pumpEnds p).remaining < w.remaining := by
  have hstage := w.stage_pumpEnds p
  have hlt := pumping_pumpEnds hr
  unfold remaining
  omega

end Worker

namespace Gui

/-- The steps of thread `i`, and of its pump threads behind the shutdowns. -/
def own (i : Nat) (s : Gui) : Act → Bool
  | .work j => j == i
  | .pumpEnds j _ =>
    j == i && match s.threads[i]? with
      | some w => w.pc.joining
      | none => false
  | _ => false

/-- Nobody connects again, and the process goes on. -/
def Waits (s : Gui) (a : Act) : Prop := a ≠ .exit ∧ (a = .ui → ¬ s.Spawns)

/-- Thread `i` is on its way out, and no other one is executing. -/
structure Stopping (elevated : Bool) (i : Nat) (s : Gui) : Prop where
  shown : s.Shown elevated
  running : s.exited = false
  thread : ∃ w, s.threads[i]? = some w ∧ (w.executing = true → w.Ending s.shared)
  only : ∀ j w, s.threads[j]? = some w → w.executing = true → j = i

/-- What thread `i` has left. -/
def rank (i : Nat) (s : Gui) : Nat :=
  match s.threads[i]? with
  | some w => w.remaining
  | none => 0

def Rested (s : Gui) : Prop := ∀ w ∈ s.threads, w.executing = false

variable {env : Nat → Outcomes} {elevated : Bool} {i : Nat} {s s' : Gui} {a : Act}

theorem rank_eq {w : Worker} (h : s.threads[i]? = some w) : s.rank i = w.remaining := by
  unfold rank
  rw [h]

theorem rank_congr (h : s'.threads = s.threads) : s'.rank i = s.rank i := by
  unfold rank
  rw [h]

theorem Waits.spawnsFree (h : s.Waits a) : s.SpawnsFree a := fun ha hs => absurd hs (h.2 ha)

/-- Thread `i` is replaced, by one that is executing only if it was. -/
theorem Stopping.set (h : s.Stopping elevated i) {j : Nat} {w w' : Worker} (hj : s.threads[j]? = some w)
    (hx : w'.executing = true → w.executing = true) :
    ∀ k v, (s.threads.set j w')[k]? = some v → v.executing = true → k = i := by
  intro k v hk hv
  by_cases hjk : j = k
  · subst hjk
    obtain ⟨hlt, -⟩ := List.getElem?_eq_some_iff.1 hj
    rw [List.getElem?_set_self hlt] at hk
    cases hk
    exact h.only j w hj (hx hv)
  · rw [List.getElem?_set_ne hjk] at hk
    exact h.only k v hk hv

theorem stopping_step (hi : s.Stopping elevated i) (ha : s.Waits a) (h : s.step env a = some s') :
    s'.Stopping elevated i := by
  have hshown := shown_step hi.shown ha.spawnsFree h
  obtain ⟨w, hw, he⟩ := hi.thread
  obtain ⟨hlt, -⟩ := List.getElem?_eq_some_iff.1 hw
  obtain ⟨-, hm⟩ := moves_of_step h
  have hshared := step_shared h
  cases hm with
  | spawn k args hs => exact absurd hs (ha.2 rfl)
  | exit => exact absurd rfl ha.1
  | reap => exact ⟨hshown, hi.running, ⟨w, hw, he⟩, hi.only⟩
  | work j v v' shared table hj hs =>
    -- the thread that moves is executing, and so it is thread `i`
    obtain rfl := hi.only j v hj (executing_of_step hs)
    rw [hw] at hj
    cases hj
    refine ⟨hshown, hi.running, ⟨v', List.getElem?_set_self hlt, fun _ => ?_⟩, ?_⟩
    · exact (Worker.ending_step (he (executing_of_step hs)) hs).1
    · exact hi.set hw fun _ => executing_of_step hs
  | pumpEnds j p v hj =>
    have honly := hi.set hj fun hx : (v.pumpEnds p).executing = true => by
      rwa [Worker.pumpEnds_executing] at hx
    refine ⟨hshown, hi.running, ?_, honly⟩
    by_cases hij : j = i
    · subst hij
      rw [hw] at hj
      cases hj
      refine ⟨w.pumpEnds p, List.getElem?_set_self hlt, fun hx => ?_⟩
      rw [Worker.pumpEnds_executing] at hx
      exact (he hx).pumpEnds p
    · exact ⟨w, (List.getElem?_set_ne hij).trans hw, he⟩
  | other a s' ht htab hsl hex hx hna =>
    refine ⟨hshown, hex.trans hi.running, ⟨w, by rw [ht]; exact hw, fun hx => ?_⟩, by rw [ht]; exact hi.only⟩
    exact (he hx).of_stop (hshared hna).stop

theorem step_work {j : Nat} (h : s.step env (.work j) = some s') : ∃ w w' shared table,
    s.threads[j]? = some w ∧ w.step s.shared s.table = some (w', shared, table) ∧
      s'.threads = s.threads.set j w' := by
  obtain ⟨-, hm⟩ := moves_of_step h
  cases hm with
  | work _ w w' shared table hj hs => exact ⟨w, w', shared, table, hj, hs, rfl⟩
  | other _ _ _ _ _ _ _ hna => exact absurd rfl (hna j)

theorem step_pumpEnds {j : Nat} {p : Pump} (h : s.step env (.pumpEnds j p) = some s') : ∃ w,
    s.threads[j]? = some w ∧ w.running p = true ∧ s'.threads = s.threads.set j (w.pumpEnds p) := by
  unfold step at h
  split at h
  · cases h
  simp only at h
  split at h
  · next w hj =>
    split at h
    · next hr =>
      cases h
      exact ⟨w, hj, hr, rfl⟩
    · cases h
  · cases h

theorem rank_work (hi : s.Stopping elevated i) {j : Nat} (h : s.step env (.work j) = some s') :
    s'.rank i < s.rank i := by
  obtain ⟨w, w', shared, table, hj, hs, ht⟩ := step_work h
  obtain rfl := hi.only j w hj (executing_of_step hs)
  obtain ⟨v, hv, he⟩ := hi.thread
  rw [hj] at hv
  cases hv
  obtain ⟨hlt, -⟩ := List.getElem?_eq_some_iff.1 hj
  rw [rank_eq hj, rank_eq (s := s') (w := w') (by rw [ht]; exact List.getElem?_set_self hlt)]
  exact Worker.remaining_step (he (executing_of_step hs)) hs

theorem rank_pumpEnds {j : Nat} {p : Pump} (h : s.step env (.pumpEnds j p) = some s') :
    s'.rank i ≤ s.rank i ∧ (j = i → s'.rank i < s.rank i) := by
  obtain ⟨w, hj, hr, ht⟩ := step_pumpEnds h
  obtain ⟨hlt, -⟩ := List.getElem?_eq_some_iff.1 hj
  have hless := Worker.remaining_pumpEnds hr
  by_cases hji : j = i
  · subst hji
    rw [rank_eq hj, rank_eq (s := s') (w := w.pumpEnds p) (by rw [ht]; exact List.getElem?_set_self hlt)]
    exact ⟨by omega, fun _ => hless⟩
  · refine ⟨Nat.le_of_eq ?_, fun h => absurd h hji⟩
    unfold rank
    rw [ht, List.getElem?_set_ne hji]

/-- **The way back to Connect.** -/
theorem ranked_stopping (env : Nat → Outcomes) (elevated : Bool) (i : Nat) :
    Runs.Ranked (step env) (own i) Waits (Stopping elevated i) Rested (rank i) where
  kept := fun s a s' hi ha h => stopping_step hi ha h
  drops := by
    intro s a s' hi ha h ho
    cases a with
    | work j => exact rank_work hi h
    | pumpEnds j p =>
      obtain ⟨hji, -⟩ := Bool.and_eq_true_iff.1 ho
      exact (rank_pumpEnds h).2 (by simpa using hji)
    | _ => cases ho
  stays := by
    intro s a s' hi ha h ho
    cases a with
    | work j => exact Nat.le_of_lt (rank_work hi h)
    | pumpEnds j p => exact (rank_pumpEnds h).1
    | exit => exact absurd rfl ha.1
    | ui =>
      obtain ⟨-, hm⟩ := moves_of_step h
      cases hm with
      | spawn k args hs => exact absurd hs (ha.2 rfl)
      | reap => exact Nat.le_refl _
      | other _ _ ht => exact Nat.le_of_eq (rank_congr ht)
    | _ =>
      obtain ⟨-, hm⟩ := moves_of_step h
      cases hm with
      | other _ _ ht => exact Nat.le_of_eq (rank_congr ht)
  enabled := by
    intro s hi hne
    obtain ⟨w, hw, he⟩ := hi.thread
    have hx : w.executing = true := by
      by_contra hx
      refine hne fun v hv => ?_
      by_contra hvx
      obtain ⟨j, hj⟩ := List.getElem?_of_mem hv
      obtain rfl := hi.only j v hj (by simpa using hvx)
      rw [hw] at hj
      cases hj
      exact hvx (by simpa using hx)
    cases hs : w.step s.shared s.table with
    | some r =>
      obtain ⟨w', shared, table⟩ := r
      refine ⟨.work i, { s with threads := s.threads.set i w', shared := shared, table := table },
        by simp [own], ⟨by simp, by simp⟩, ?_⟩
      simp only [step, hi.running, hw, hs, Bool.false_eq_true, if_false]
    | none =>
      have hpc : w.pc ≠ .finished := by
        intro hpc
        unfold Worker.executing at hx
        rw [hpc] at hx
        cases hx
      have hend : ∀ p, w.pc.joining = true → w.running p = true → ∃ a s', own i s a = true ∧
          s.Waits a ∧ s.step env a = some s' := fun p hj hr =>
        ⟨.pumpEnds i p, { s with threads := s.threads.set i (w.pumpEnds p) },
          by simp only [own, hw, hj, beq_self_eq_true, Bool.and_self], ⟨by simp, by simp⟩,
          by simp only [step, hi.running, hw, hr, Bool.false_eq_true, if_false, if_true]⟩
      rcases Worker.step_waits hpc hs with ⟨hp, hr⟩ | ⟨hp, hr⟩
      · exact hend .a (by rw [hp]; rfl) hr
      · exact hend .b (by rw [hp]; rfl) hr

end Gui

/-- **Disconnect brings the Connect button back.**  Take any state, reached with one worker at a time,
that shows Connecting or Connected and in which a stop has been requested.  Whatever else happens, up to
the next Connect, the worker and its pump threads behind the shutdowns take no more than the stated
number of steps; where they can take none, no worker is executing and Connect can be clicked again; and
their steps alone lead there. -/
theorem connect_comes_back (env : Nat → Outcomes) (args : Args) (tray elevated : Bool) (base : RouteTable)
    (acts : List Gui.Act) (s : Gui)
    (h : Runs.exec (Gui.step env) (.init args tray elevated base) acts = some s)
    (hal : Runs.Along (Gui.step env) Gui.SpawnsFree (.init args tray elevated base) acts)
    (hrun : s.exited = false) (hbusy : s.shared.busy = true) (hstop : s.shared.stop = true) :
    ∃ i, s.app.worker = some i ∧
      (∀ acts' t, Runs.exec (Gui.step env) s acts' = some t → Runs.Along (Gui.step env) Gui.Waits s acts' →
        Runs.ownSteps (Gui.step env) (Gui.own i) s acts' ≤ s.rank i ∧
        ((∀ a, Gui.own i t a = true → t.step env a = none) →
          t.Rested ∧ buttonEnabled t.shared.admin t.shared.state = elevated)) ∧
      ∃ acts' t, Runs.exec (Gui.step env) s acts' = some t ∧
        Runs.Along (Gui.step env) (fun s a => Gui.own i s a = true) s acts' ∧
        t.Rested ∧ buttonEnabled t.shared.admin t.shared.state = elevated := by
  have hi := Gui.run_shown h hal
  obtain ⟨i, w, hw, hback⟩ := hi.backed hbusy
  have hx := Worker.executing_of_backs hback
  have hstopping : s.Stopping elevated i := by
    refine ⟨hi, hrun, ⟨w, hw, fun _ => Worker.ending_of_stop hstop ?_⟩, fun j v hv hvx => ?_⟩
    · intro hpc
      rw [hpc] at hback
      cases hst : s.shared.state <;> rw [hst] at hback <;> cases hback
    · exact hi.slot.oneWorker j i v w hv hw hvx hx
  have hr := Gui.ranked_stopping env elevated i
  refine ⟨i, hi.slot i w hw hx, fun acts' t ht hal' => ?_, ?_⟩
  · obtain ⟨hit, hle⟩ := hr.bound hstopping hal' ht
    refine ⟨by omega, fun hno => ?_⟩
    have hrest : t.Rested := hr.stuck hit fun a t' ho _ hs => by
      rw [hno a ho] at hs
      cases hs
    exact ⟨hrest, hit.shown.button hrest⟩
  · obtain ⟨acts', t, ht, hal', hrest⟩ := hr.reach hstopping
    have hit := (hr.bound hstopping (hal'.mono fun _ _ h => h.2) ht).1
    exact ⟨acts', t, ht, hal'.mono fun _ _ h => h.1, hrest, hit.shown.button hrest⟩

/-- Connect and Quit from the tray, drained in one update; the worker is in its pump loop when Quit asks it
to stop. -/
theorem connect_comes_back_run : ∃ acts s,
    Runs.exec (Gui.step fun _ => .smooth .reachable ⟨7, true⟩ ⟨⟨0, 0, 0, 0⟩, 1⟩)
      (.init Args.default true true ∅) acts = some s ∧
    s.shared.state = .connected ∧ s.shared.stop = true ∧
    ∃ i, s.app.worker = some i ∧ ∃ acts' t,
      Runs.exec (Gui.step fun _ => .smooth .reachable ⟨7, true⟩ ⟨⟨0, 0, 0, 0⟩, 1⟩) s acts' = some t ∧
        t.Rested ∧ buttonEnabled t.shared.admin t.shared.state = true := by
  have hwork : ∀ s : Gui, Runs.Along (Gui.step fun _ => .smooth .reachable ⟨7, true⟩ ⟨⟨0, 0, 0, 0⟩, 1⟩)
      Gui.SpawnsFree s (List.replicate 14 (.work 0)) := fun s =>
    (Runs.Along.of_forall (P := fun a => a ≠ .ui) (by decide)).mono fun _ _ h => .of_ne_ui h
  have h : Runs.exec (Gui.step fun _ => .smooth .reachable ⟨7, true⟩ ⟨⟨0, 0, 0, 0⟩, 1⟩)
      (.init Args.default true true ∅)
      ([.trayEvent .connectDisconnect, .trayEvent .quit, .ui, .ui, .ui, .ui] ++
        List.replicate 14 (.work 0) ++ [.ui, .ui]) = some _ := rfl
  obtain ⟨i, hi, -, acts', t, ht, -, hrest, hbutton⟩ :=
    connect_comes_back _ _ _ _ _ _ _ h (by
        refine Runs.Along.append (Runs.Along.append ?_ rfl (hwork _)) rfl ?_
        · refine Runs.along_cons_iff.2 fun s1 h1 => ⟨.of_none rfl _, ?_⟩
          cases h1
          refine Runs.along_cons_iff.2 fun s2 h2 => ⟨.of_none rfl _, ?_⟩
          cases h2
          refine Runs.along_cons_iff.2 fun s3 h3 => ⟨.of_none rfl _, ?_⟩
          cases h3
          refine Runs.along_cons_iff.2 fun s4 h4 => ⟨.of_none rfl _, ?_⟩
          cases h4
          refine Runs.along_cons_iff.2 fun s5 h5 => ⟨.of_none rfl _, ?_⟩
          cases h5
          exact Runs.along_cons_iff.2 fun s6 h6 => ⟨.of_none rfl _, Runs.Along.nil⟩
        · refine Runs.along_cons_iff.2 fun s1 h1 => ⟨.of_ui (fun k h => by cases h) _, ?_⟩
          cases h1
          exact Runs.along_cons_iff.2 fun s2 h2 => ⟨.of_ui (fun k h => by cases h) _, Runs.Along.nil⟩)
      rfl rfl rfl
  exact ⟨_, _, h, rfl, rfl, i, hi, acts', t, ht, hrest, hbutton⟩

end RickyNet
