import RickyNet.Win.Install
import RickyNet.Win.Teardown

/-!
# Running again after a hard kill

A process that is killed leaves the rows its session has created; those on the tunnel interface are
gone if the adapter is.  `tidied_iff`: another session, installed and removed, gives back the table
it finds, so the first one is tidied up exactly if it left nothing.

`worker_installs` says that the worker, call by call, does what `Routes::install` does.
-/

namespace RickyNet

/-- How the calls of `Routes::install` end in this run. -/
def Outcomes.install (out : Outcomes) : InstallCalls :=
  ⟨out.bestRoute, out.createCarveOut, out.createLow, out.createHigh⟩

/-! ## The worker's installation -/

namespace Session

variable {s : Session}

/-- The carve-out step is the one of `install`. -/
theorem step_carveOut (hpc : s.worker.pc = .carveOut) (hr : s.worker.rows = []) :
    s.step .work = some { s with
      worker := { s.worker with
        pc := .low
        rows := (Routes.pin s.worker.carve s.worker.out.install (.start s.table)).1 }
      table := (Routes.pin s.worker.carve s.worker.out.install (.start s.table)).2.table } := by
  obtain ⟨w, sh, table, req⟩ := s
  simp only at hpc hr
  simp only [step, Worker.step, hpc, Worker.tryCarveOut, Routes.pin, Outcomes.install]
  cases w.carve with
  | none => simp [hr, RouteLog.start]
  | some ip =>
    simp only
    cases w.out.bestRoute with
    | error e => simp [hr, RouteLog.start]
    | ok hop =>
      simp only [RouteLog.create, RouteLog.start]
      cases createIpForwardEntry2 table (carveOutRow hop ip) w.out.createCarveOut with
      | error e => simp [hr]
      | ok t => simp [hr]

/-- The way back removes the rows one by one. -/
theorem run_rollback {e : IoError} (hpc : s.worker.pc = .rollback e) (log : RouteLog)
    (hl : log.table = s.table) :
    Runs.exec step s (List.replicate (s.worker.rows.length + 1) .work) = some { s with
      worker := { s.worker with pc := .dropTun (.error e), rows := [] }
      table := ((Routes.mk s.worker.rows).remove log).table } := by
  obtain ⟨w, sh, table, req⟩ := s
  obtain ⟨args, out, pc, tun, carve, rows, leaked, pumpA, pumpB, alive⟩ := w
  simp only at hpc hl
  subst hpc
  induction rows generalizing table log with
  | nil =>
    subst hl
    rfl
  | cons row rows ih =>
    rw [List.length_cons, List.replicate_succ]
    refine (Runs.exec_cons_iff step _ _ _ _).2 ⟨_, rfl, ?_⟩
    exact ih (log.delete row) (deleteIpForwardEntry2 table row) (by rw [← hl]; rfl)

end Session

/-- **The worker installs as `Routes::install` does.**  From the first call on, its steps lead to the
table of `install`, with the rows of `Routes` in hand or on the way out with the same error. -/
theorem worker_installs {s : Session} (hpc : s.worker.pc = .carveOut) (hr : s.worker.rows = []) :
    ∃ n s', Runs.exec Session.step s (List.replicate n .work) = some s' ∧
      match Routes.install s.worker.tun.luid s.worker.carve s.worker.out.install (.start s.table) with
      | (.ok r, log) => s'.worker.pc = .setConnected ∧ s'.worker.rows = r.rows ∧ s'.table = log.table
      | (.error e, log) =>
        s'.worker.pc = .dropTun (.error e) ∧ s'.worker.rows = [] ∧ s'.table = log.table := by
  have hstep := Session.step_carveOut hpc hr
  cases hp : Routes.pin s.worker.carve s.worker.out.install (.start s.table) with
  | mk rows log =>
  rw [hp] at hstep
  simp only at hstep
  unfold Routes.install
  rw [hp]
  simp only [RouteLog.create, Outcomes.install]
  cases hl : createIpForwardEntry2 log.table (lowRow s.worker.tun.luid) s.worker.out.createLow with
  | error e =>
    -- the lower half is refused
    have hlow : Runs.exec Session.step s [.work, .work] = some { s with
        worker := { s.worker with pc := .rollback e, rows := rows }, table := log.table } := by
      refine (Runs.exec_cons_iff _ _ _ _ _).2 ⟨_, hstep, ?_⟩
      simp only [Runs.exec, Session.step, Worker.step, hl, Option.bind_some]
    exact ⟨2 + (rows.length + 1), _, by
      rw [List.replicate_add]
      exact Runs.exec_trans _ hlow (Session.run_rollback rfl log rfl), rfl, rfl, rfl⟩
  | ok t =>
    simp only
    cases hh : createIpForwardEntry2 t (highRow s.worker.tun.luid) s.worker.out.createHigh with
    | error e =>
      -- the upper half is refused
      have hhigh : Runs.exec Session.step s [.work, .work, .work] = some { s with
          worker := { s.worker with
            pc := .rollback e
            rows := rows ++ [lowRow s.worker.tun.luid] }
          table := t } := by
        refine (Runs.exec_cons_iff _ _ _ _ _).2 ⟨_, hstep, ?_⟩
        simp only [Runs.exec, Session.step, Worker.step, hl, hh, Option.bind_some]
      exact ⟨3 + ((rows ++ [lowRow s.worker.tun.luid]).length + 1), _, by
        rw [List.replicate_add]
        exact Runs.exec_trans _ hhigh (Session.run_rollback rfl ⟨t, log.tables⟩ rfl), rfl, rfl, rfl⟩
    | ok t2 =>
      have hup : Runs.exec Session.step s [.work, .work, .work] = some { s with
          worker := { s.worker with
            pc := .setConnected
            rows := rows ++ [lowRow s.worker.tun.luid] ++ [highRow s.worker.tun.luid] }
          table := t2 } := by
        refine (Runs.exec_cons_iff _ _ _ _ _).2 ⟨_, hstep, ?_⟩
        simp only [Runs.exec, Session.step, Worker.step, hl, hh, Option.bind_some]
      exact ⟨3, _, hup, rfl, rfl, rfl⟩

/-! ## After a kill -/

/-- The table that a killed session leaves; `gone`: the adapter went with the process. -/
def Session.left (s : Session) (gone : Bool) : RouteTable :=
  if gone then s.table.filter fun r => ¬ (r ∈ s.worker.holds ∧ r.luid == s.worker.tun.luid)
  else s.table

/-- One more session: `install`, and `remove` if it succeeds. -/
def rerun (tunLuid : UInt64) (carveOut : Option Ipv4Addr) (calls : InstallCalls) (table : RouteTable) :
    RouteTable :=
  match Routes.install tunLuid carveOut calls (.start table) with
  | (.ok r, log) => (r.remove log).table
  | (.error _, log) => log.table

theorem rerun_eq (tunLuid : UInt64) (carveOut : Option Ipv4Addr) (calls : InstallCalls)
    (table : RouteTable) : rerun tunLuid carveOut calls table = table := by
  have htop := Routes.install_onTop tunLuid carveOut calls (.start table)
  unfold rerun
  cases hi : Routes.install tunLuid carveOut calls (.start table) with
  | mk result log =>
  rw [hi] at htop
  cases result with
  | error e => exact htop
  | ok r => exact Routes.remove_onTop log htop

/-- What a killed session leaves is on top of the table it found. -/
theorem Session.left_onTop {base : RouteTable} {s : Session}
    (h : KeyedTable.OnTop Row.key base s.table s.worker.holds) (gone : Bool) :
    KeyedTable.OnTop Row.key base (s.left gone)
      (s.worker.holds.filter fun r => !(gone && r.luid == s.worker.tun.luid)) := by
  unfold Session.left
  cases gone with
  | true =>
    rw [if_pos rfl]
    rw [← List.append_nil s.worker.holds] at h
    have := h.filter fun r => r.luid == s.worker.tun.luid
    rw [List.append_nil] at this
    exact this
  | false =>
    rw [if_neg (by simp)]
    simpa using h

/-- **When a second session tidies up.**  A session is killed at any point; another one with the same
parameters is installed and removed.  The table is the one the first session found, if and only if
every row that the first session had created and not removed was on the tunnel and went with the
adapter. -/
theorem tidied_iff (args : Args) (out : Outcomes) (shared : Shared) (base : RouteTable)
    (acts : List Session.Act) (s : Session)
    (h : Runs.exec Session.step (.start args out shared base) acts = some s) (gone : Bool)
    (calls : InstallCalls) :
    rerun s.worker.tun.luid (carveOut args) calls (s.left gone) = base ↔
      ∀ row ∈ s.worker.holds, gone = true ∧ row.luid = s.worker.tun.luid := by
  have htop := Session.left_onTop (Session.run_inv h).onTop gone
  rw [rerun_eq, htop.eq_base_iff, List.filter_eq_nil_iff]
  simp

/-- Over USB, killed with both halves up, the adapter gone: nothing is left. -/
theorem tidied_run : ∃ acts s, Runs.exec Session.step
      (.start Args.default (.smooth .reachable ⟨7, true⟩ ⟨⟨0, 0, 0, 0⟩, 1⟩) Shared.new ∅) acts = some s ∧
    s.worker.holds = [lowRow 7, highRow 7] ∧
    (rerun 7 none ⟨.ok ⟨⟨0, 0, 0, 0⟩, 1⟩, none, none, none⟩ (s.left true) = ∅ ↔
      ∀ row ∈ s.worker.holds, true = true ∧ row.luid = s.worker.tun.luid) := by
  have h : Runs.exec Session.step
      (.start Args.default (.smooth .reachable ⟨7, true⟩ ⟨⟨0, 0, 0, 0⟩, 1⟩) Shared.new ∅)
      (List.replicate 14 .work) = some _ := rfl
  exact ⟨_, _, h, rfl, tidied_iff _ _ _ _ _ _ h true ⟨.ok ⟨⟨0, 0, 0, 0⟩, 1⟩, none, none, none⟩⟩

/-- Over Wi-Fi, killed in the pump loop, the adapter gone: the next session meets the old /32, cannot
create it again, and does not remove it. -/
theorem stale_carve_out : ∃ acts s, Runs.exec Session.step
      (.start { Args.default with transport := .wifi, phoneIp := some "192.168.1.42" }
        (.smooth .reachable ⟨7, true⟩ ⟨⟨192, 168, 1, 1⟩, 1⟩) Shared.new ∅) acts = some s ∧
    s.worker.pc = .sleep ∧ s.worker.tun.luid = 7 ∧
    rerun 7 (some ⟨192, 168, 1, 42⟩) ⟨.ok ⟨⟨192, 168, 1, 1⟩, 1⟩, none, none, none⟩ (s.left true) =
      {⟨1, ⟨192, 168, 1, 42⟩, 32, ⟨192, 168, 1, 1⟩, 1⟩} ∧
    rerun 7 (some ⟨192, 168, 1, 42⟩) ⟨.ok ⟨⟨192, 168, 1, 1⟩, 1⟩, none, none, none⟩ (s.left true) ≠ ∅ :=
  ⟨List.replicate 14 .work, _, rfl, rfl, rfl, by decide +kernel, by decide +kernel⟩

end RickyNet
