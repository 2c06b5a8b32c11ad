import Mathlib.Algebra.Ring.Nat
import RickyNet.Core.Logger
import RickyNet.Ios.LogStore
import RickyNet.Lib.Progress

/-!
# The log, from the core to the file

The core's logger and the app's `LogStore` behind it.  `installCoreLogHook` registers the one callback
there is; a call of it posts the line to the store's queue, where the app's own lines come in between.
Nobody clears here.

* `log_arrives`: what has got to the file and to the view when nothing is under way.
* `log_settles`: that it comes to this when nobody logs any more.

Both rest on `Inv`: the two components keep their own invariants, and `posted` is what the one has
emitted and what the other has taken or still has in its queue.
-/

namespace RickyNet

/-- The callback of `installCoreLogHook`. -/
def coreLogHook : Nat := 0

/-- A line that was posted to `queue`. -/
structure Posted where
  fromCore : Bool
  text : String

structure LogPipeline where
  core : Logger
  store : LogStore
  /-- `init` has run -/
  initialized : Bool
  /-- `installCoreLogHook` has been called -/
  installed : Bool
  /-- all lines that were posted, in order -/
  posted : List Posted

namespace LogPipeline

inductive Act
  /-- the core logs something, on any thread -/
  | log (r : Record)
  /-- `init`, in the first call of an `rn_` function -/
  | init (elapsed version : String)
  /-- `rn_log_set_level` -/
  | setLevel (level : Nat)
  /-- `installCoreLogHook`, in `RickyNetCore.init` -/
  | install
  /-- the next step of a call of the logger -/
  | go (i : Nat) (elapsed : String)
  /-- the app logs something, on any thread -/
  | app (time message : String)
  /-- the next block of `queue` -/
  | queue (ok : Bool)
  | post
  | timer
  | main

def start : LogPipeline := ⟨.start, .start, false, false, []⟩

/-- The record at the end of `init`. -/
def loggingUp (elapsed version : String) : Record :=
  ⟨elapsed, .info, "rickynetcore::logger", "rickynet-core v" ++ version ++ " logging up (level INFO)"⟩

/-- What the callback is called with from one state of the core to the next. -/
def received (before after : Logger) : List String :=
  ((after.emitted.drop before.emitted.length).filter fun e => e.cb = coreLogHook).map (·.out)

/-- `append`, for some lines. -/
def postLines (s : LogStore) (lines : List String) : LogStore :=
  { s with queue := s.queue ++ lines.map .append }

/-- A step of the core, and what the callback does in it. -/
def coreStep (s : LogPipeline) (a : Logger.Act) : Option LogPipeline :=
  match s.core.step a with
  | some core => some { s with
      core := core
      store := postLines s.store (received s.core core)
      posted := s.posted ++ (received s.core core).map (⟨true, ·⟩) }
  | none => none

def storeStep (s : LogPipeline) (a : LogStore.Act) : Option LogPipeline :=
  match s.store.step a with
  | some store => some { s with store := store }
  | none => none

def step (s : LogPipeline) : Act → Option LogPipeline
  | .log r => s.coreStep (.log r)
  | .init elapsed version =>
    if s.initialized then none
    else some { s with
      core := { s.core with maxLevel := Level.info.rank }.log (loggingUp elapsed version)
      initialized := true }
  | .setLevel level => if s.initialized then s.coreStep (.setLevel level) else none
  | .install =>
    if s.initialized = true ∧ s.installed = false then
      some { s with core := s.core.setCallback (some coreLogHook), installed := true }
    else none
  | .go i elapsed => s.coreStep (.go i elapsed)
  | .app time message => some { s with
      store := postLines s.store [LogStore.app time message]
      posted := s.posted ++ [⟨false, LogStore.app time message⟩] }
  | .queue ok => s.storeStep (.queue ok)
  | .post => s.storeStep .post
  | .timer => s.storeStep .timer
  | .main => s.storeStep .main

end LogPipeline

/-! ## The core's side -/

namespace Logger

/-- A step emits one line or none. -/
theorem emitted_step {s s' : Logger} {a : Act} (h : s.step a = some s') :
    ∃ new, s'.emitted = s.emitted ++ new ∧ new.length ≤ 1 := by
  have hlog : ∀ (t : Logger) (r : Record), (t.log r).emitted = t.emitted := by
    intro t r
    unfold log
    split <;> rfl
  cases a with
  | log r =>
    cases h
    exact ⟨[], by rw [hlog, List.append_nil], by simp⟩
  | setCallback cb =>
    cases h
    exact ⟨[], (List.append_nil _).symm, by simp⟩
  | setLevel level =>
    cases h
    exact ⟨[], (List.append_nil _).symm, by simp⟩
  | go i elapsed =>
    simp only [step] at h
    split at h
    · cases h
    · rw [emit_eq] at h
      cases h
      exact ⟨[_], rfl, by simp⟩
    · rw [emit_eq] at h
      cases h
      exact ⟨[_], rfl, by simp⟩
    · cases h
      exact ⟨[], by rw [hlog, List.append_nil], by simp⟩

/-- What a callback was called with, in order. -/
def outs (s : Logger) (cb : Nat) : List String := (s.emitted.filter fun e => e.cb = cb).map (·.out)

/-- What a callback was called with, by the two ways. -/
theorem outs_perm {s : Logger} (hi : s.Inv) (cb : Nat) :
    (s.outs cb).Perm ((s.emittedTo cb .replay ++ s.emittedTo cb .direct).map fun l => replaceNul l.text) := by
  have hout : s.outs cb = ((s.emitted.filter fun e => e.cb = cb).map (·.line)).map fun l => replaceNul l.text := by
    unfold outs
    rw [List.map_map]
    exact List.map_congr_left fun e he => hi.out e (List.mem_of_mem_filter he)
  rw [hout]
  refine List.Perm.map _ ?_
  unfold emittedTo
  rw [← List.map_append]
  refine List.Perm.map _ ?_
  have hreplay : (s.emitted.filter fun e => e.cb = cb ∧ e.how = .replay) =
      (s.emitted.filter fun e => e.cb = cb).filter fun e => e.how = .replay := by
    rw [List.filter_filter]
    exact List.filter_congr fun e _ => by simp [Bool.and_comm]
  have hdirect : (s.emitted.filter fun e => e.cb = cb ∧ e.how = .direct) =
      (s.emitted.filter fun e => e.cb = cb).filter fun e => !decide (e.how = .replay) := by
    rw [List.filter_filter]
    exact List.filter_congr fun e _ => by cases e.how <;> simp
  rw [hreplay, hdirect]
  exact (List.filter_append_perm _ _).symm

/-- A callback that is registered now, the first time, and all of whose calls have returned. -/
theorem outs_settled {s : Logger} (hi : s.Inv) {cb : Nat} (hc : s.current.cb = some cb)
    (he : ∀ r ∈ s.earlier, r.cb ≠ some cb) (hcalls : s.calls = []) :
    (s.outs cb).Perm
      (((pushed s.earlier).rtake RING_CAP ++ s.current.lines).map fun l => replaceNul l.text) := by
  have howed : ∀ how, s.owed cb how = [] := fun how => by rw [owed, hcalls]; rfl
  have hdue : ∀ how, due cb how ([] ++ s.current :: s.earlier) = share s.current s.earlier how :=
    fun how => due_once hc (by simp) he how
  have hreplay := hi.delivered cb .replay
  have hdirect := hi.delivered cb .direct
  rw [howed, List.append_nil] at hreplay hdirect
  have hboth := hreplay.append hdirect
  rw [show s.regs = [] ++ s.current :: s.earlier from rfl, hdue, hdue] at hboth
  exact (outs_perm hi cb).trans (hboth.map _)

end Logger

/-! ## The store's side -/

namespace LogStore

/-- The lines waiting in `queue`. -/
def appends : List QueueBlock → List String
  | [] => []
  | .append line :: rest => line :: appends rest
  | _ :: rest => appends rest

theorem appends_append (q q' : List QueueBlock) : appends (q ++ q') = appends q ++ appends q' := by
  induction q with
  | nil => rfl
  | cons block q ih =>
    cases block with
    | append line => exact congrArg (line :: ·) ih
    | flush => exact ih
    | clear => exact ih

theorem appends_map (lines : List String) : appends (lines.map .append) = lines := by
  induction lines with
  | nil => rfl
  | cons line lines ih => exact congrArg (line :: ·) ih

/-- The lines that have got to the store, in order. -/
def arrived (s : LogStore) : List String := s.appended.map (·.text) ++ appends s.queue

/-- A step that nobody takes from outside leaves them alone. -/
theorem arrived_step {s s' : LogStore} (hi : s.Inv) {a : Act} (ha : ∀ line, a ≠ .append line)
    (hc : a.clears = false) (h : s.step a = some s') : s'.arrived = s.arrived := by
  unfold arrived
  cases moves_of_step h with
  | append line => exact absurd rfl (ha line)
  | queue ok block rest hf hq =>
    rw [hq]
    cases block with
    | append line =>
      show (s.appended ++ [(⟨s.gen, line, ok⟩ : StoreLine)]).map (·.text) ++ appends rest = _
      rw [List.map_append, List.append_assoc]
      rfl
    | flush => rfl
    | clear => exact absurd (hq ▸ List.mem_cons_self) hi.queue
  | post batch hf => rfl
  | timer timers hidle ht =>
    show _ ++ appends (s.queue ++ [.flush]) = _
    rw [appends_append]
    exact congrArg (_ ++ ·) (List.append_nil _)
  | main block rest hidle hm => cases block <;> rfl
  | clear info hidle => cases hc
  | postMain time messages hclear => rfl
  | message time m messages hclear => rw [hi.idle] at hclear; cases hclear
  | done time hclear => rfl

end LogStore

namespace LogPipeline

open LogStore (appends arrived appends_append appends_map arrived_step)

theorem postLines_inv {s : LogStore} (hi : s.Inv) (lines : List String) : (postLines s lines).Inv := by
  have hflush : (s.queue ++ lines.map QueueBlock.append).count .flush = s.queue.count .flush := by
    have hnone : (lines.map QueueBlock.append).count .flush = 0 := List.count_eq_zero.2 (by simp)
    rw [List.count_append, hnone, Nat.add_zero]
  refine ⟨hi.idle, ?_, hi.main, hi.places, hi.newest, hi.file, ?_, hi.buffered⟩
  · simpa [postLines] using hi.queue
  · have hflushes := hi.flushes
    unfold LogStore.flushes at hflushes ⊢
    show s.timers + (s.queue ++ lines.map QueueBlock.append).count .flush = _
    rw [hflush]
    exact hflushes

theorem arrived_postLines (s : LogStore) (lines : List String) :
    (postLines s lines).arrived = s.arrived ++ lines := by
  show s.appended.map (·.text) ++ appends (s.queue ++ lines.map .append) = _
  rw [appends_append, appends_map, ← List.append_assoc]
  rfl

/-! ## Both -/

/-- The text of what the core has posted. -/
def fromCore (s : LogPipeline) : List String := (s.posted.filter (·.fromCore)).map (·.text)

structure Inv (s : LogPipeline) : Prop where
  core : s.core.Inv
  store : s.store.Inv
  arrived : s.store.arrived = s.posted.map (·.text)
  emitted : s.fromCore = s.core.outs coreLogHook
  early : s.installed = false → s.core.current.cb = none ∧ s.core.earlier = []
  late : s.installed = true → s.core.current.cb = some coreLogHook ∧ ∀ r ∈ s.core.earlier, r.cb = none

theorem start_inv : start.Inv where
  core := Logger.start_inv
  store := LogStore.start_inv
  arrived := rfl
  emitted := rfl
  early := fun _ => ⟨rfl, rfl⟩
  late := fun h => by cases h

/-- What a step of the core adds to the calls of the callback. -/
theorem outs_step {c c' : Logger} {a : Logger.Act} (h : c.step a = some c') :
    c'.outs coreLogHook = c.outs coreLogHook ++ received c c' ∧ (received c c').length ≤ 1 := by
  obtain ⟨new, hnew, hle⟩ := Logger.emitted_step h
  unfold Logger.outs received
  rw [hnew, List.drop_left, List.filter_append, List.map_append]
  refine ⟨rfl, ?_⟩
  rw [List.length_map]
  exact Nat.le_trans (List.length_filter_le _ _) hle

/-- The registrations after a step that is no `set_callback`. -/
theorem regs_step {c c' : Logger} {a : Logger.Act} (ha : ∀ cb, a ≠ .setCallback cb)
    (h : c.step a = some c') : c'.current.cb = c.current.cb ∧ c'.earlier = c.earlier := by
  have hlog : ∀ (t : Logger) (r : Record),
      (t.log r).current.cb = t.current.cb ∧ (t.log r).earlier = t.earlier := by
    intro t r
    unfold Logger.log
    split <;> exact ⟨rfl, rfl⟩
  cases a with
  | log r => cases h; exact hlog _ _
  | setCallback cb => exact absurd rfl (ha cb)
  | setLevel level => cases h; exact ⟨rfl, rfl⟩
  | go i elapsed =>
    simp only [Logger.step] at h
    split at h
    · cases h
    · rw [Logger.emit_eq] at h; cases h; exact ⟨rfl, rfl⟩
    · rw [Logger.emit_eq] at h; cases h; exact ⟨rfl, rfl⟩
    · cases h; exact hlog _ _

theorem coreStep_inv {s s' : LogPipeline} (hi : s.Inv) {a : Logger.Act} (ha : ∀ cb, a ≠ .setCallback cb)
    (h : s.coreStep a = some s') : s'.Inv := by
  unfold coreStep at h
  split at h
  · next core hcore =>
    cases h
    obtain ⟨hcb, hearlier⟩ := regs_step ha hcore
    refine ⟨Logger.step_inv hi.core hcore, postLines_inv hi.store _, ?_, ?_, fun hin => ?_, fun hin => ?_⟩
    · show (postLines s.store _).arrived =
        (s.posted ++ (received s.core core).map (Posted.mk true)).map Posted.text
      rw [arrived_postLines, hi.arrived, List.map_append, List.map_map]
      exact congrArg (_ ++ ·) (List.map_id _).symm
    · show ((s.posted ++ (received s.core core).map (Posted.mk true)).filter Posted.fromCore).map
        Posted.text = core.outs coreLogHook
      have hemitted : (s.posted.filter (·.fromCore)).map (·.text) = s.core.outs coreLogHook := hi.emitted
      rw [(outs_step hcore).1, ← hemitted, List.filter_append, List.map_append]
      refine congrArg (_ ++ ·) ?_
      rw [List.filter_eq_self.2 (by simp), List.map_map]
      exact List.map_id _
    · rw [hcb, hearlier]
      exact hi.early hin
    · rw [hcb, hearlier]
      exact hi.late hin
  · cases h

theorem storeStep_inv {s s' : LogPipeline} (hi : s.Inv) {a : LogStore.Act} (ha : ∀ line, a ≠ .append line)
    (hc : a.clears = false) (h : s.storeStep a = some s') : s'.Inv := by
  unfold storeStep at h
  split at h
  · next store hstore =>
    cases h
    exact ⟨hi.core, LogStore.step_inv hi.store hc hstore,
      (arrived_step hi.store ha hc hstore).trans hi.arrived, hi.emitted, hi.early, hi.late⟩
  · cases h

theorem step_inv {s s' : LogPipeline} {a : Act} (hi : s.Inv) (h : s.step a = some s') : s'.Inv := by
  cases a with
  | log r => exact coreStep_inv (a := .log r) hi (by simp) h
  | go i elapsed => exact coreStep_inv (a := .go i elapsed) hi (by simp) h
  | queue ok => exact storeStep_inv (a := .queue ok) hi (by simp) rfl h
  | post => exact storeStep_inv (a := .post) hi (by simp) rfl h
  | timer => exact storeStep_inv (a := .timer) hi (by simp) rfl h
  | main => exact storeStep_inv (a := .main) hi (by simp) rfl h
  | setLevel level =>
    simp only [step] at h
    split at h
    · exact coreStep_inv hi (by simp) h
    · cases h
  | init elapsed version =>
    simp only [step] at h
    split at h
    · cases h
    cases h
    have hlevel : Logger.Inv { s.core with maxLevel := Level.info.rank } :=
      Logger.step_inv (a := .setLevel Level.info.rank) hi.core rfl
    obtain ⟨hcb, hearlier⟩ := regs_step (a := .log (loggingUp elapsed version)) (by simp)
      (c := { s.core with maxLevel := Level.info.rank }) rfl
    refine ⟨Logger.log_inv hlevel _, hi.store, hi.arrived, ?_, fun hin => ?_, fun hin => ?_⟩
    · refine hi.emitted.trans ?_
      unfold Logger.outs Logger.log
      split <;> rfl
    · exact ⟨hcb.trans (hi.early hin).1, hearlier.trans (hi.early hin).2⟩
    · refine ⟨hcb.trans (hi.late hin).1, fun r hr => (hi.late hin).2 r ?_⟩
      exact hearlier ▸ hr
  | install =>
    simp only [step] at h
    split at h
    · next hin =>
      cases h
      obtain ⟨hcb, hearlier⟩ := hi.early hin.2
      refine ⟨Logger.setCallback_inv hi.core _, hi.store, hi.arrived, hi.emitted, fun hn => (by cases hn),
        fun _ => ⟨rfl, fun r hr => ?_⟩⟩
      have hmem : r ∈ s.core.current :: s.core.earlier := hr
      rw [hearlier, List.mem_singleton] at hmem
      rw [hmem, hcb]
    · cases h
  | app time message =>
    cases h
    refine ⟨hi.core, postLines_inv hi.store _, ?_, ?_, hi.early, hi.late⟩
    · show (postLines s.store [LogStore.app time message]).arrived = _
      rw [arrived_postLines, hi.arrived, List.map_append]
      rfl
    · refine Eq.trans ?_ hi.emitted
      show ((s.posted ++ [Posted.mk false (LogStore.app time message)]).filter Posted.fromCore).map
        Posted.text = _
      rw [List.filter_append, List.map_append]
      exact List.append_nil _

theorem run_inv {s : LogPipeline} {acts : List Act} (h : Runs.exec step start acts = some s) : s.Inv :=
  Runs.exec_inv step Inv (fun _ _ _ => step_inv) start_inv h

/-- Nothing is under way: no call of the logger, no block, no timer. -/
structure AtRest (s : LogPipeline) : Prop where
  calls : s.core.calls = []
  queue : s.store.queue = []
  timers : s.store.timers = 0
  flushing : s.store.flushing = none
  main : s.store.main = []

/-- Then `uiBuffer` is empty too. -/
theorem AtRest.buffer {s : LogPipeline} (hr : s.AtRest) (hi : s.store.Inv) : s.store.uiBuffer = [] := by
  by_contra hne
  obtain ⟨-, htimer | hflush⟩ := hi.outstanding hne
  · rw [hr.timers] at htimer
    exact Nat.lt_irrefl 0 htimer
  · rw [hr.queue] at hflush
    cases hflush

end LogPipeline

/-- **The log file is complete.**  Once the hook is installed and nothing is under way, the file has, but
for the lines whose write failed, every line that was posted, in order.  The app's own lines among them
aside, these are the last 1000 lines that the core had logged before the hook was installed and all that
it has logged since, each once, with its NULs replaced; and the view shows the last 2000. -/
theorem log_arrives (acts : List LogPipeline.Act) (s : LogPipeline)
    (h : Runs.exec LogPipeline.step .start acts = some s) (hin : s.installed = true) (hr : s.AtRest) :
    s.store.appended.map (·.text) = s.posted.map (·.text) ∧
    s.store.file = (s.store.appended.filter (·.written)).map (·.text) ∧
    s.fromCore.Perm (((Logger.pushed s.core.earlier).rtake RING_CAP ++ s.core.current.lines).map
      fun l => replaceNul l.text) ∧
    s.store.lines = s.store.appended.rtake 2000 := by
  have hi := LogPipeline.run_inv h
  have hbuf := hr.buffer hi.store
  obtain ⟨hcb, hearlier⟩ := hi.late hin
  refine ⟨?_, hi.store.file, ?_, ?_⟩
  · have harrived := hi.arrived
    unfold LogStore.arrived at harrived
    rw [hr.queue] at harrived
    rw [← harrived]
    exact (List.append_nil _).symm
  · rw [hi.emitted]
    exact Logger.outs_settled hi.core hcb (fun r hmem => by rw [hearlier r hmem]; simp) hr.calls
  · have hplaces := hi.store.places
    rw [hr.main, hr.flushing, hbuf] at hplaces
    simp only [LogStore.batches, Option.getD_none, List.append_nil] at hplaces
    rw [hplaces]
    exact hi.store.lines_eq

/-- A line in front of the hook, the one behind its replay, and one of the app in between. -/
theorem log_arrives_run : ∃ acts s, Runs.exec LogPipeline.step .start acts = some s ∧
    s.store.file.length = 3 ∧ s.store.file = (s.store.appended.filter (·.written)).map (·.text) := by
  have h : Runs.exec LogPipeline.step .start
      [.init "0.000" "1", .install, .app "12:00:00.000" "a", .go 0 "0.001", .queue true, .go 0 "0.002",
        .queue true, .go 0 "0.003", .timer, .queue true, .queue true, .post, .main] = some _ := rfl
  exact ⟨_, _, h, rfl, (log_arrives _ _ h rfl ⟨rfl, rfl, rfl, rfl, rfl⟩).2.1⟩

/-! ## When nobody logs any more -/

/-- The steps a block of `queue` has left, the timer that it may start included. -/
def QueueBlock.left : QueueBlock → Nat
  | .append _ => 5
  | .flush => 3
  | .clear => 0

namespace LogPipeline

/-- It goes on with what is under way. -/
def Act.quiet : Act → Bool
  | .go _ _ => true
  | .queue _ => true
  | .post => true
  | .timer => true
  | .main => true
  | _ => false

/-- The steps that are left in the store. -/
def storeRank (s : LogStore) : Nat :=
  Runs.total QueueBlock.left s.queue + 4 * s.timers + 2 * s.flushing.toList.length + s.main.length

/-- The steps that are left: those of the core's calls, with those of the line that each may post, and
those of the store. -/
def rank (s : LogPipeline) : Nat := 6 * s.core.left + storeRank s.store

theorem storeRank_postLines (s : LogStore) (lines : List String) :
    storeRank (postLines s lines) = storeRank s + 5 * lines.length := by
  have hlines : Runs.total QueueBlock.left (lines.map .append) = 5 * lines.length := by
    induction lines with
    | nil => rfl
    | cons line lines ih =>
      show 5 + Runs.total QueueBlock.left (lines.map .append) = _
      rw [ih, List.length_cons]
      omega
  show Runs.total QueueBlock.left (s.queue ++ lines.map .append) + 4 * s.timers +
    2 * s.flushing.toList.length + s.main.length = _
  rw [Runs.total_append, hlines]
  unfold storeRank
  omega

/-- A block, a batch or a timer goes, and leaves less behind than it was. -/
theorem storeRank_step {s s' : LogStore} (hi : s.Inv) {a : LogStore.Act} (ha : ∀ line, a ≠ .append line)
    (hc : a.clears = false) (h : s.step a = some s') : storeRank s' < storeRank s := by
  cases LogStore.moves_of_step h with
  | append line => exact absurd rfl (ha line)
  | queue ok block rest hf hq =>
    unfold storeRank
    rw [hq, hf]
    cases block with
    | append line =>
      rw [Runs.total_cons]
      show Runs.total QueueBlock.left rest + 4 * (if s.flushScheduled then s.timers else s.timers + 1) +
        2 * 0 + s.main.length < 5 + Runs.total QueueBlock.left rest + 4 * s.timers + 2 * 0 + s.main.length
      split <;> omega
    | flush =>
      rw [Runs.total_cons]
      show Runs.total QueueBlock.left rest + 4 * s.timers +
        2 * (if s.uiBuffer = [] then none else some s.uiBuffer).toList.length + s.main.length <
          3 + Runs.total QueueBlock.left rest + 4 * s.timers + 2 * 0 + s.main.length
      have hone : (if s.uiBuffer = [] then none else some s.uiBuffer).toList.length ≤ 1 := by
        split
        · exact Nat.zero_le _
        · exact Nat.le_refl _
      omega
    | clear => exact absurd (hq ▸ List.mem_cons_self) hi.queue
  | post batch hf =>
    unfold storeRank
    rw [hf]
    show Runs.total QueueBlock.left s.queue + 4 * s.timers + 2 * 0 +
      (s.main ++ [MainBlock.batch batch]).length < _ + _ + 2 * 1 + _
    rw [List.length_append, List.length_singleton]
    omega
  | timer timers hidle ht =>
    unfold storeRank
    rw [ht]
    show Runs.total QueueBlock.left (s.queue ++ [.flush]) + 4 * timers + 2 * s.flushing.toList.length +
      s.main.length < _
    have hflush : Runs.total QueueBlock.left [.flush] = 3 := rfl
    rw [Runs.total_append, hflush]
    omega
  | main block rest hidle hm =>
    unfold storeRank
    rw [hm, List.length_cons]
    cases block with
    | batch batch => exact Nat.lt_succ_self _
    | clear => exact absurd (hm ▸ List.mem_cons_self) hi.main
  | clear info hidle => cases hc
  | postMain time messages hclear => rw [hi.idle] at hclear; cases hclear
  | message time m messages hclear => rw [hi.idle] at hclear; cases hclear
  | done time hclear => rw [hi.idle] at hclear; cases hclear

theorem rank_storeStep {s s' : LogPipeline} (hi : s.Inv) {a : LogStore.Act} (ha : ∀ line, a ≠ .append line)
    (hc : a.clears = false) (h : s.storeStep a = some s') : s'.rank < s.rank := by
  unfold storeStep at h
  split at h
  · next store hstore =>
    cases h
    exact Nat.add_lt_add_left (storeRank_step hi.store ha hc hstore) _
  · cases h

theorem rank_step {s s' : LogPipeline} {a : Act} (hi : s.Inv) (hq : a.quiet = true)
    (h : s.step a = some s') : s'.rank < s.rank := by
  cases a with
  | go i elapsed =>
    have hcore : s.coreStep (.go i elapsed) = some s' := h
    unfold coreStep at hcore
    split at hcore
    · next core hstep =>
      cases hcore
      have hlt : i < s.core.calls.length := by
        by_contra hge
        simp only [Logger.step, List.getElem?_eq_none (Nat.le_of_not_lt hge)] at hstep
        cases hstep
      obtain ⟨core', hstep', hleft⟩ := Logger.go_left hlt elapsed
      rw [hstep] at hstep'
      cases hstep'
      have hone := (outs_step hstep).2
      show 6 * core.left + storeRank (postLines s.store (received s.core core)) < _
      rw [storeRank_postLines]
      unfold rank
      omega
    · cases hcore
  | queue ok => exact rank_storeStep (a := .queue ok) hi (by simp) rfl h
  | post => exact rank_storeStep (a := .post) hi (by simp) rfl h
  | timer => exact rank_storeStep (a := .timer) hi (by simp) rfl h
  | main => exact rank_storeStep (a := .main) hi (by simp) rfl h
  | _ => cases hq

/-- What is under way can go on. -/
theorem Inv.goes_on {s : LogPipeline} (hi : s.Inv) (hr : ¬ s.AtRest) :
    ∃ a s', a.quiet = true ∧ s.step a = some s' := by
  by_contra hno
  have hnone : ∀ a s', a.quiet = true → s.step a ≠ some s' := fun a s' hq h => hno ⟨a, s', hq, h⟩
  have hstore : ∀ (a : Act) (b : LogStore.Act) (store : LogStore), a.quiet = true →
      s.step a = s.storeStep b → s.store.step b = some store → False := by
    intro a b store hq heq hb
    refine hnone a { s with store := store } hq ?_
    rw [heq]
    unfold storeStep
    rw [hb]
  refine hr ⟨?_, ?_, ?_, ?_, ?_⟩
  · by_contra hcalls
    obtain ⟨core, hcore, -⟩ := Logger.go_left (List.length_pos_of_ne_nil hcalls) ""
    have hgo : ∃ s', s.coreStep (.go 0 "") = some s' := by
      unfold coreStep
      rw [hcore]
      exact ⟨_, rfl⟩
    obtain ⟨s', hs'⟩ := hgo
    exact hnone (.go 0 "") s' rfl hs'
  · by_contra hqueue
    obtain ⟨block, rest, hq⟩ := List.exists_cons_of_ne_nil hqueue
    cases hf : s.store.flushing with
    | some batch => exact hstore .post .post _ rfl rfl (by simp only [LogStore.step, hf]; rfl)
    | none => exact hstore (.queue true) (.queue true) _ rfl rfl (by simp only [LogStore.step, hf, hq]; rfl)
  · by_contra htimers
    obtain ⟨timers, ht⟩ := Nat.exists_eq_succ_of_ne_zero htimers
    exact hstore .timer .timer _ rfl rfl (by simp only [LogStore.step, hi.store.idle, ht]; rfl)
  · cases hf : s.store.flushing with
    | some batch => exact (hstore .post .post _ rfl rfl (by simp only [LogStore.step, hf]; rfl)).elim
    | none => rfl
  · by_contra hmain
    obtain ⟨block, rest, hm⟩ := List.exists_cons_of_ne_nil hmain
    exact hstore .main .main _ rfl rfl (by simp only [LogStore.step, hi.store.idle, hm]; rfl)

theorem ranked : Runs.Ranked step (fun _ _ => true) (fun _ a => a.quiet = true) Inv AtRest rank where
  kept := fun s a s' hi _ h => step_inv hi h
  drops := fun s a s' hi hq h _ => rank_step hi hq h
  stays := fun s a s' hi hq h ho => (by cases ho)
  enabled := fun s hi hr =>
    have ⟨a, s', hq, h⟩ := hi.goes_on hr
    ⟨a, s', rfl, hq, h⟩

end LogPipeline

/-- **The log comes to rest.**  From any reachable state, as long as nobody logs any more, what is under
way takes no more than the stated number of steps, and stops only where nothing is under way; and it does
come to that. -/
theorem log_settles (acts : List LogPipeline.Act) (s : LogPipeline)
    (h : Runs.exec LogPipeline.step .start acts = some s) :
    (∀ acts' t, Runs.exec LogPipeline.step s acts' = some t → (∀ a ∈ acts', a.quiet = true) →
      acts'.length ≤ s.rank ∧ ((∀ a, a.quiet = true → t.step a = none) → t.AtRest)) ∧
    ∃ acts' t, Runs.exec LogPipeline.step s acts' = some t ∧
      Runs.Along LogPipeline.step (fun _ a => a.quiet = true) s acts' ∧ t.AtRest := by
  have hi := LogPipeline.run_inv h
  obtain ⟨acts', t, ht, hal, hr⟩ := LogPipeline.ranked.reach hi
  refine ⟨fun acts' t ht hq => ?_, acts', t, ht, hal.mono fun _ _ h => h.2, hr⟩
  have hal : Runs.Along LogPipeline.step (fun _ a => a.quiet = true) s acts' := .of_forall hq
  obtain ⟨hit, hle⟩ := LogPipeline.ranked.bound hi hal ht
  rw [Runs.ownSteps_of_along ht fun _ _ _ _ _ _ _ => rfl] at hle
  refine ⟨by omega, fun hno => LogPipeline.ranked.stuck hit fun a t' _ hqa hs => ?_⟩
  rw [hno a hqa] at hs
  cases hs

/-- The backlog half-way through its replay, a flush block that holds its batch, and a line behind it. -/
theorem log_settles_run : ∃ acts s, Runs.exec LogPipeline.step .start acts = some s ∧
    s.core.calls.length = 1 ∧ s.store.flushing.isSome = true ∧
    ∃ acts' t, Runs.exec LogPipeline.step s acts' = some t ∧
      Runs.Along LogPipeline.step (fun _ a => a.quiet = true) s acts' ∧ t.AtRest := by
  have h : Runs.exec LogPipeline.step .start
      [.init "0.000" "1", .install, .go 0 "0.001", .queue true, .timer, .app "12:00:00.000" "a",
        .queue true] = some _ := rfl
  exact ⟨_, _, h, rfl, rfl, (log_settles _ _ h).2⟩

end RickyNet
