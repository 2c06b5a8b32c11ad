import RickyNet.Lib.Runs
import RickyNet.Win.Worker

/-!
# One worker and those who ask it to stop

A worker thread from the moment it is spawned (GUI), or `run_headless` from the moment its control
handler is installed; any thread may call `request_stop` at any time, and the pump threads may end
at any time.

The first thing `run_connect` does is to clear the stop flag.  `stop_kept`: a request is lost exactly
if it comes before that.
-/

namespace RickyNet

structure Session where
  worker : Worker
  shared : Shared
  table : RouteTable
  /-- `request_stop` has been called since the start -/
  requested : Bool

namespace Session

def start (args : Args) (out : Outcomes) (shared : Shared) (table : RouteTable) : Session :=
  ⟨.spawn args out, shared, table, false⟩

inductive Act
  /-- the worker's next step -/
  | work
  | requestStop
  | pumpEnds (p : Pump)
deriving DecidableEq

def step (s : Session) : Act → Option Session
  | .work =>
    match s.worker.step s.shared s.table with
    | some (worker, shared, table) =>
      some { s with worker := worker, shared := shared, table := table }
    | none => none
  | .requestStop => some { s with shared := s.shared.requestStop, requested := true }
  | .pumpEnds p => if s.worker.running p then some { s with worker := s.worker.pumpEnds p } else none

theorem step_work {s s' : Session} (h : s.step .work = some s') :
    s.worker.step s.shared s.table = some (s'.worker, s'.shared, s'.table) ∧
      s'.requested = s.requested := by
  simp only [step] at h
  split at h
  · next hw => cases h; exact ⟨hw, rfl⟩
  · cases h

theorem step_pumpEnds {s s' : Session} {p : Pump} (h : s.step (.pumpEnds p) = some s') :
    s' = { s with worker := s.worker.pumpEnds p } := by
  simp only [step] at h
  split at h
  · cases h; rfl
  · cases h

end Session

/-- `connect_inner` has returned: everything is torn down. -/
def Worker.returned (w : Worker) : Bool :=
  match w.pc with
  | .setErrorText _ => true
  | .setErrorState => true
  | .readState => true
  | .setDisconnected => true
  | .finished => true
  | _ => false

namespace Session

/-- From a request on, until the worker has finished its teardown, the stop flag is set. -/
def StopKept (s : Session) : Prop :=
  s.requested = true → s.worker.returned = false → s.shared.stop = true

/-- The request comes when the worker has cleared the flag. -/
def AfterClear (s : Session) (a : Act) : Prop := a = .requestStop → s.worker.pc ≠ .clearStop

theorem stopKept_step {s s' : Session} {a : Act}
    (hs : s.requested = true → s.worker.pc ≠ .clearStop ∧ s.shared.stop = true)
    (ha : s.AfterClear a) (h : s.step a = some s') :
    s'.requested = true → s'.worker.pc ≠ .clearStop ∧ s'.shared.stop = true := by
  cases a with
  | work =>
    obtain ⟨hw, hr⟩ := step_work h
    obtain ⟨h1, h2⟩ := Worker.step_stop hw
    intro hreq
    obtain ⟨h3, h4⟩ := hs (hr ▸ hreq)
    rcases h2 with ⟨h5, -⟩ | ⟨-, h5⟩
    · exact absurd h5 h3
    · exact ⟨h1, by rw [h5, h4]⟩
  | requestStop =>
    cases h
    exact fun _ => ⟨ha rfl, rfl⟩
  | pumpEnds p =>
    rw [step_pumpEnds h]
    intro hreq
    obtain ⟨h3, h4⟩ := hs hreq
    exact ⟨by simpa using h3, h4⟩

end Session

/-- **When a stop request is kept.**  If every request comes after the worker has cleared the flag,
then from a request on the flag is set until the teardown is finished; and a request that comes
earlier is lost with the worker's next step. -/
theorem stop_kept (args : Args) (out : Outcomes) (shared : Shared) (table : RouteTable) :
    (∀ acts, Runs.Along Session.step Session.AfterClear (.start args out shared table) acts →
      Runs.Throughout Session.step Session.StopKept (.start args out shared table) acts) ∧
    (∀ acts s, Runs.exec Session.step (.start args out shared table) acts = some s →
      s.worker.pc = .clearStop → ∃ s', Runs.exec Session.step s [.requestStop, .work] = some s' ∧
        s'.requested = true ∧ s'.worker.returned = false ∧ s'.shared.stop = false) := by
  constructor
  · intro acts h
    refine (Runs.throughout_of_along
      (fun s => s.requested = true → s.worker.pc ≠ .clearStop ∧ s.shared.stop = true) ?_ ?_ h).mono ?_
    · exact fun s a s' hs ha hstep => Session.stopKept_step hs ha hstep
    · intro hr
      cases hr
    · exact fun s hs hr _ => (hs hr).2
  · intro acts s _ hpc
    refine ⟨_, by simp only [Runs.exec, Session.step, Worker.step, hpc, Option.bind_some]; rfl, rfl, rfl,
      rfl⟩

/-- The request comes between the spawn and the first step of the thread: the worker connects all
the same, and is in its pump loop with the flag unset. -/
theorem stop_request_lost : ∃ acts s, Runs.exec Session.step
      (.start Args.default (.smooth .reachable ⟨7, true⟩ ⟨⟨0, 0, 0, 0⟩, 1⟩) Shared.new ∅) acts = some s ∧
    s.requested = true ∧ s.worker.pc = .sleep ∧ s.shared.stop = false ∧ ¬ s.StopKept :=
  ⟨.requestStop :: List.replicate 14 .work, _, rfl, rfl, rfl, rfl, fun h => by cases h rfl rfl⟩

end RickyNet
