import Mathlib.Algebra.Field.Rat
import Mathlib.Algebra.Ring.Nat
import RickyNet.Core.Toggle

/-!
# Polling the counters

`RickyNetCore` on the main actor: the timer reads the counters of the core and hands each sample to a
task, which publishes it some time later.  The tasks run in their order, but `start()` and `stop()` come
from the user, between any two of them.

A `Gauge` is one direction, from the core's counter to the rate that is shown.  `Inv` is what holds as
long as no sample waits where it does harm (`Meets`): what waits is in ascending order, and is 0 when the
core is stopped.
-/

namespace RickyNet

/-- One direction. -/
structure Gauge where
  /-- `RX_BYTES` or `TX_BYTES` -/
  counter : UInt64
  /-- `rxBytes` or `txBytes` -/
  bytes : UInt64
  rate : ℚ
  last : UInt64
  /-- what the timer that runs has read last -/
  read : Option UInt64
  /-- what has been counted since -/
  since : Nat

namespace Gauge

def zero : Gauge := ⟨0, 0, 0, 0, none, 0⟩

/-- `fetch_add` in the core. -/
def add (g : Gauge) (n : UInt64) : Gauge := { g with counter := g.counter + n, since := g.since + n.toNat }

/-- The reset in `rn_start`. -/
def reset (g : Gauge) : Gauge := { g with counter := 0, read := none, since := 0 }

/-- `startPolling`. -/
def startPolling (g : Gauge) : Gauge := { g with last := 0, read := none, since := 0 }

/-- `rn_stats`, for the timer. -/
def stats (g : Gauge) : Gauge := { g with read := some g.counter, since := 0 }

/-- A sample is published; `dt` is the time since the one before. -/
def publish (g : Gauge) (value : UInt64) (dt : Option ℚ) : Gauge :=
  { g with
    rate := match dt with
      | some dt => if 0 < dt then ((value - g.last).toNat : ℚ) / dt else g.rate
      | none => g.rate
    last := value
    bytes := value }

/-- The zeros of `stop()`. -/
def stop (g : Gauge) : Gauge := { g with bytes := 0, rate := 0 }

/-- The counter has not wrapped since the timer read it. -/
def Plain (g : Gauge) : Prop := ∀ r, g.read = some r → r.toNat + g.since < 2 ^ 64

/-- What the next sample is compared with. -/
def floor (g : Gauge) (fresh : Bool) : UInt64 := if fresh then 0 else g.last

/-- Samples wait in ascending order, between the last one published and the last one read. -/
structure Inv (g : Gauge) (timer fresh : Bool) (waiting : List UInt64) : Prop where
  counted : ∀ r, g.read = some r → g.counter.toNat = (r.toNat + g.since) % 2 ^ 64
  sorted : (g.floor fresh :: waiting).Pairwise (· ≤ ·)
  below : timer = true → ∀ r, g.read = some r → ∀ x ∈ g.floor fresh :: waiting, x ≤ r
  unread : timer = true → g.read = none → waiting = [] ∧ fresh = true

variable {g : Gauge} {timer fresh : Bool} {waiting : List UInt64}

theorem add_inv (hi : g.Inv timer fresh waiting) (n : UInt64) : (g.add n).Inv timer fresh waiting := by
  refine ⟨fun r hr => ?_, hi.sorted, hi.below, hi.unread⟩
  have hcounted := hi.counted r hr
  show (g.counter + n).toNat = (r.toNat + (g.since + n.toNat)) % 2 ^ 64
  rw [UInt64.toNat_add, hcounted]
  omega

theorem reset_inv (hi : g.Inv false fresh waiting) : g.reset.Inv false fresh waiting :=
  ⟨nofun, hi.sorted, nofun, nofun⟩

theorem startPolling_inv (g : Gauge) : g.startPolling.Inv true true [] :=
  ⟨nofun, List.pairwise_singleton _ _, nofun, fun _ _ => ⟨rfl, rfl⟩⟩

theorem stop_inv (hi : g.Inv timer fresh waiting) : g.stop.Inv false true waiting :=
  ⟨hi.counted, List.pairwise_cons.mpr ⟨fun _ _ => UInt64.zero_le, hi.sorted.of_cons⟩, nofun, nofun⟩

/-- A reading is at least what was read and published before it. -/
theorem stats_inv (hi : g.Inv true fresh waiting) (hp : g.Plain) :
    g.stats.Inv true fresh (waiting ++ [g.counter]) := by
  have hle : ∀ x ∈ g.floor fresh :: waiting, x ≤ g.counter := by
    intro x hx
    cases hr : g.read with
    | none =>
      obtain ⟨rfl, rfl⟩ := hi.unread rfl hr
      obtain rfl := List.mem_singleton.mp hx
      exact UInt64.zero_le
    | some r =>
      have hxr := hi.below rfl r hr x hx
      have hcounted := hi.counted r hr
      have hlt := hp r hr
      rw [Nat.mod_eq_of_lt hlt] at hcounted
      rw [UInt64.le_iff_toNat_le] at hxr ⊢
      omega
  refine ⟨?_, ?_, ?_, nofun⟩
  · rintro r hr
    cases hr
    exact (Nat.mod_eq_of_lt g.counter.toNat_lt).symm
  · show (g.floor fresh :: waiting ++ [g.counter]).Pairwise (· ≤ ·)
    refine List.pairwise_append.mpr ⟨hi.sorted, List.pairwise_singleton _ _, fun x hx y hy => ?_⟩
    obtain rfl := List.mem_singleton.mp hy
    exact hle x hx
  · rintro - r hr x hx
    cases hr
    have hx : x ∈ (g.floor fresh :: waiting) ++ [g.counter] := hx
    rcases List.mem_append.mp hx with hx | hx
    · exact hle x hx
    · obtain rfl := List.mem_singleton.mp hx
      exact UInt64.le_refl _

theorem publish_inv {x : UInt64} (hi : g.Inv timer fresh (x :: waiting)) (dt : Option ℚ) :
    (g.publish x dt).Inv timer false waiting :=
  ⟨hi.counted, hi.sorted.of_cons, fun ht r hr y hy => hi.below ht r hr y (List.mem_cons_of_mem _ hy),
    fun ht hr => nomatch (hi.unread ht hr).1⟩

/-- The next sample is not below the one before. -/
theorem Inv.next {x : UInt64} (hi : g.Inv timer false (x :: waiting)) : g.last ≤ x :=
  (List.pairwise_cons.mp hi.sorted).1 x List.mem_cons_self

/-- A zero behind zeros shows zeros. -/
theorem publish_zero (hrate : g.rate = 0) {dt : Option ℚ} (hlast : dt ≠ none → g.last = 0) :
    (g.publish 0 dt).rate = 0 := by
  cases dt with
  | none => exact hrate
  | some dt =>
    show (if 0 < dt then ((0 - g.last).toNat : ℚ) / dt else g.rate) = 0
    rw [hlast nofun, hrate]
    split
    · exact zero_div dt
    · rfl

end Gauge

/-- What a task is to publish, and the calls of `stop()` before it was read. -/
structure Sample where
  rx : UInt64
  tx : UInt64
  now : ℚ
  stops : Nat

/-- `RickyNetCore`, as far as the polling goes. -/
structure Poller where
  status : Status
  rx : Gauge
  tx : Gauge
  lastSample : Option ℚ
  timer : Bool
  /-- the tasks that have not run -/
  tasks : List Sample
  /-- the core has an instance -/
  running : Bool
  /-- the calls of `stop()` -/
  stops : Nat
  /-- how many there were at the last call of `start()` -/
  startedAt : Nat

namespace Poller

inductive Act
  /-- `start()`; `rc` is what `rn_start` returns if the core is not running -/
  | start (rc : Int)
  | stop
  /-- the core counts -/
  | traffic (rx tx : UInt64)
  /-- the timer fires -/
  | tick (now : ℚ)
  /-- the next task runs -/
  | task

def init : Poller := ⟨.stopped, .zero, .zero, none, false, [], false, 0, 0⟩

/-- `rn_start`, as far as the counters go. -/
def rnStart (s : Poller) (rc : Int) : Poller :=
  if s.running then s else { s with rx := s.rx.reset, tx := s.tx.reset, running := rc = RN_OK }

def start (s : Poller) (rc : Int) : Poller :=
  let rc := if s.running then RN_ERR_ALREADY_RUNNING else rc
  let s := { s.rnStart rc with startedAt := s.stops }
  if rc = 0 then
    { s with
      status := .running
      rx := s.rx.startPolling
      tx := s.tx.startPolling
      lastSample := none
      timer := true }
  else { s with status := .error (describe rc) }

def stop (s : Poller) : Poller :=
  { s with
    status := .stopped
    rx := s.rx.stop
    tx := s.tx.stop
    lastSample := none
    timer := false
    running := false
    stops := s.stops + 1 }

def tick (s : Poller) (now : ℚ) : Poller :=
  { s with
    rx := s.rx.stats
    tx := s.tx.stats
    tasks := s.tasks ++ [⟨s.rx.counter, s.tx.counter, now, s.stops⟩] }

def publish (s : Poller) (sample : Sample) (rest : List Sample) : Poller :=
  let dt := s.lastSample.map (sample.now - ·)
  { s with
    rx := s.rx.publish sample.rx dt
    tx := s.tx.publish sample.tx dt
    lastSample := some sample.now
    tasks := rest }

def step (s : Poller) : Act → Option Poller
  | .start rc => some (s.start rc)
  | .stop => some s.stop
  | .traffic rx tx => some { s with rx := s.rx.add rx, tx := s.tx.add tx }
  | .tick now => if s.timer then some (s.tick now) else none
  | .task =>
    match s.tasks with
    | sample :: rest => some (s.publish sample rest)
    | [] => none

/-- What is shown while the core is stopped. -/
def Quiet (s : Poller) : Prop :=
  s.status = .stopped → s.rx.bytes = 0 ∧ s.tx.bytes = 0 ∧ s.rx.rate = 0 ∧ s.tx.rate = 0

/-- A task publishes no sample from in front of a `stop()` behind the next `start()`, and takes no
difference of a counter that would wrap. -/
def Sound (s : Poller) : Act → Prop
  | .task => ∀ sample rest, s.tasks = sample :: rest →
    s.startedAt ≤ sample.stops ∧ (s.lastSample ≠ none → s.rx.last ≤ sample.rx ∧ s.tx.last ≤ sample.tx)
  | _ => True

/-- What is asked of the steps. -/
def Meets (s : Poller) : Act → Prop
  | .stop => ∀ sample ∈ s.tasks, sample.rx = 0 ∧ sample.tx = 0
  | .start _ => ∀ sample ∈ s.tasks, sample.stops = s.stops
  | .tick _ => s.rx.Plain ∧ s.tx.Plain
  | _ => True

structure Inv (s : Poller) : Prop where
  rx : s.rx.Inv s.timer s.lastSample.isNone (s.tasks.map (·.rx))
  tx : s.tx.Inv s.timer s.lastSample.isNone (s.tasks.map (·.tx))
  timer : s.timer = true → s.running = true
  started : s.startedAt ≤ s.stops
  tasks : ∀ sample ∈ s.tasks, s.startedAt ≤ sample.stops ∧ sample.stops ≤ s.stops
  stale : ∀ sample ∈ s.tasks, sample.stops < s.stops → sample.rx = 0 ∧ sample.tx = 0
  idle : s.running = false → ∀ sample ∈ s.tasks, sample.stops < s.stops
  stopped : s.status = .stopped → s.running = false ∧
    (s.rx.bytes = 0 ∧ s.tx.bytes = 0 ∧ s.rx.rate = 0 ∧ s.tx.rate = 0) ∧
    (s.lastSample ≠ none → s.rx.last = 0 ∧ s.tx.last = 0)

theorem init_inv : init.Inv where
  rx := ⟨nofun, List.pairwise_singleton _ _, nofun, nofun⟩
  tx := ⟨nofun, List.pairwise_singleton _ _, nofun, nofun⟩
  timer := nofun
  started := Nat.le_refl 0
  tasks := nofun
  stale := nofun
  idle := fun _ => nofun
  stopped := fun _ => ⟨rfl, ⟨rfl, rfl, rfl, rfl⟩, fun h => absurd rfl h⟩

/-- The core was running, and says so. -/
theorem start_running {s : Poller} (hr : s.running = true) (rc : Int) :
    s.start rc = { s with startedAt := s.stops, status := .error (describe RN_ERR_ALREADY_RUNNING) } := by
  unfold start rnStart
  simp [hr, RN_ERR_ALREADY_RUNNING]

/-- The core has been started. -/
theorem start_ok {s : Poller} (hr : s.running = false) : s.start 0 = { s with
    status := .running
    rx := s.rx.reset.startPolling
    tx := s.tx.reset.startPolling
    lastSample := none
    timer := true
    running := true
    startedAt := s.stops } := by
  unfold start rnStart
  simp [hr, RN_OK]

/-- The core has not come up. -/
theorem start_failed {s : Poller} (hr : s.running = false) {rc : Int} (hrc : rc ≠ 0) :
    s.start rc = { s with
      status := .error (describe rc)
      rx := s.rx.reset
      tx := s.tx.reset
      startedAt := s.stops } := by
  unfold start rnStart
  simp [hr, hrc, RN_OK]

theorem start_inv {s : Poller} (hi : s.Inv) {rc : Int} (hm : s.Meets (.start rc)) :
    (s.start rc).Inv := by
  obtain ⟨hrx, htx, htimer, hstarted, htasks, hstale, hidle, hstopped⟩ := hi
  cases hr : s.running with
  | true =>
    rw [start_running hr]
    exact ⟨hrx, htx, htimer, Nat.le_refl _, fun x hx => ⟨Nat.le_of_eq (hm x hx).symm, (htasks x hx).2⟩,
      hstale, hidle, nofun⟩
  | false =>
    -- nothing waits: it would have been read before the last `stop()`
    have hnil : s.tasks = [] := List.eq_nil_iff_forall_not_mem.mpr fun x hx => by
      have hlt := hidle hr x hx
      have heq := hm x hx
      omega
    have hoff : s.timer = false := by
      by_contra hon
      rw [htimer (Bool.not_eq_false _ ▸ hon)] at hr
      cases hr
    rw [hnil, hoff] at hrx htx
    by_cases hrc : rc = 0
    · subst hrc
      rw [start_ok hr]
      refine ⟨?_, ?_, fun _ => rfl, Nat.le_refl _, ?_, ?_, nofun, nofun⟩
      · show s.rx.reset.startPolling.Inv true true (s.tasks.map (·.rx))
        rw [hnil]
        exact Gauge.startPolling_inv _
      · show s.tx.reset.startPolling.Inv true true (s.tasks.map (·.tx))
        rw [hnil]
        exact Gauge.startPolling_inv _
      · show ∀ x ∈ s.tasks, _
        rw [hnil]
        exact nofun
      · exact hstale
    · rw [start_failed hr hrc]
      refine ⟨?_, ?_, htimer, Nat.le_refl _, ?_, hstale, hidle, nofun⟩
      · show s.rx.reset.Inv s.timer s.lastSample.isNone (s.tasks.map (·.rx))
        rw [hnil, hoff]
        exact Gauge.reset_inv hrx
      · show s.tx.reset.Inv s.timer s.lastSample.isNone (s.tasks.map (·.tx))
        rw [hnil, hoff]
        exact Gauge.reset_inv htx
      · show ∀ x ∈ s.tasks, _
        rw [hnil]
        exact nofun

theorem stop_inv {s : Poller} (hi : s.Inv) (hm : s.Meets .stop) : s.stop.Inv where
  rx := Gauge.stop_inv hi.rx
  tx := Gauge.stop_inv hi.tx
  timer := nofun
  started := Nat.le_succ_of_le hi.started
  tasks := fun x hx => ⟨(hi.tasks x hx).1, Nat.le_succ_of_le (hi.tasks x hx).2⟩
  stale := fun x hx _ => hm x hx
  idle := fun _ x hx => Nat.lt_succ_of_le (hi.tasks x hx).2
  stopped := fun _ => ⟨rfl, ⟨rfl, rfl, rfl, rfl⟩, fun h => absurd rfl h⟩

theorem tick_inv {s : Poller} (hi : s.Inv) (ht : s.timer = true) {now : ℚ}
    (hm : s.Meets (.tick now)) : (s.tick now).Inv := by
  obtain ⟨hrx, htx, htimer, hstarted, htasks, hstale, hidle, hstopped⟩ := hi
  have hrun := htimer ht
  rw [ht] at hrx htx
  refine ⟨?_, ?_, htimer, hstarted, ?_, ?_, ?_, ?_⟩
  · show s.rx.stats.Inv s.timer s.lastSample.isNone
      ((s.tasks ++ [(⟨s.rx.counter, s.tx.counter, now, s.stops⟩ : Sample)]).map (·.rx))
    rw [ht, List.map_append]
    exact Gauge.stats_inv hrx hm.1
  · show s.tx.stats.Inv s.timer s.lastSample.isNone
      ((s.tasks ++ [(⟨s.rx.counter, s.tx.counter, now, s.stops⟩ : Sample)]).map (·.tx))
    rw [ht, List.map_append]
    exact Gauge.stats_inv htx hm.2
  · intro x hx
    rcases List.mem_append.mp hx with hx | hx
    · exact htasks x hx
    · obtain rfl := List.mem_singleton.mp hx
      exact ⟨hstarted, Nat.le_refl _⟩
  · intro x hx hlt
    rcases List.mem_append.mp hx with hx | hx
    · exact hstale x hx hlt
    · obtain rfl := List.mem_singleton.mp hx
      exact absurd hlt (Nat.lt_irrefl _)
  · intro hoff
    have hoff : s.running = false := hoff
    rw [hrun] at hoff
    cases hoff
  · intro hst
    have hoff := (hstopped hst).1
    rw [hrun] at hoff
    cases hoff

theorem publish_inv {s : Poller} (hi : s.Inv) {sample : Sample} {rest : List Sample}
    (hq : s.tasks = sample :: rest) : (s.publish sample rest).Inv := by
  obtain ⟨hrx, htx, htimer, hstarted, htasks, hstale, hidle, hstopped⟩ := hi
  have hmem : sample ∈ s.tasks := hq ▸ List.mem_cons_self
  have hsub : ∀ x ∈ rest, x ∈ s.tasks := fun x hx => hq ▸ List.mem_cons_of_mem _ hx
  rw [hq] at hrx htx
  refine ⟨Gauge.publish_inv hrx _, Gauge.publish_inv htx _, htimer, hstarted,
    fun x hx => htasks x (hsub x hx), fun x hx => hstale x (hsub x hx),
    fun hoff x hx => hidle hoff x (hsub x hx), fun hst => ?_⟩
  -- a sample that waits while the core is stopped is a zero
  obtain ⟨hoff, ⟨-, -, hrr, htr⟩, hlast⟩ := hstopped hst
  obtain ⟨hzr, hzt⟩ := hstale sample hmem (hidle hoff sample hmem)
  have hdt : s.lastSample.map (sample.now - ·) ≠ none → s.lastSample ≠ none :=
    fun h hn => h (by rw [hn]; rfl)
  refine ⟨hoff, ⟨hzr, hzt, ?_, ?_⟩, fun _ => ⟨hzr, hzt⟩⟩
  · show (s.rx.publish sample.rx _).rate = 0
    rw [hzr]
    exact Gauge.publish_zero hrr fun h => (hlast (hdt h)).1
  · show (s.tx.publish sample.tx _).rate = 0
    rw [hzt]
    exact Gauge.publish_zero htr fun h => (hlast (hdt h)).2

theorem step_inv {s s' : Poller} {a : Act} (hi : s.Inv) (hm : s.Meets a)
    (h : s.step a = some s') : s'.Inv := by
  cases a with
  | start rc => cases h; exact start_inv hi hm
  | stop => cases h; exact stop_inv hi hm
  | traffic rx tx =>
    cases h
    exact ⟨Gauge.add_inv hi.rx rx, Gauge.add_inv hi.tx tx, hi.timer, hi.started, hi.tasks, hi.stale,
      hi.idle, hi.stopped⟩
  | tick now =>
    simp only [step] at h
    split at h
    · next ht => cases h; exact tick_inv hi ht hm
    · cases h
  | task =>
    simp only [step] at h
    split at h
    · next sample rest hq => cases h; exact publish_inv hi hq
    · cases h

theorem Inv.quiet {s : Poller} (hi : s.Inv) : s.Quiet := fun h => (hi.stopped h).2.1

theorem Inv.sound {s : Poller} (hi : s.Inv) (a : Act) : s.Sound a := by
  cases a with
  | task =>
    intro sample rest hq
    refine ⟨(hi.tasks sample (hq ▸ List.mem_cons_self)).1, fun hlast => ?_⟩
    have hrx := hi.rx
    have htx := hi.tx
    rw [hq, Option.isNone_eq_false_iff.mpr (Option.isSome_iff_ne_none.mpr hlast)] at hrx htx
    exact ⟨hrx.next, htx.next⟩
  | _ => trivial

theorem run_inv {as : List Act} (h : Runs.Along step Meets init as) :
    Runs.Throughout step Inv init as :=
  Runs.throughout_of_along Inv (fun _ _ _ => step_inv) init_inv h

/-! ## A sample that waits where it does harm -/

/-- The run goes on to a state that shows too much while stopped, or to a task with a sample from before. -/
def Spoiled (s : Poller) : Prop :=
  ∃ more, ¬ (Runs.Throughout step Quiet s more ∧ Runs.Along step Sound s more)

/-- The tasks in front run. -/
theorem exec_tasks {s : Poller} {pre rest : List Sample} (hq : s.tasks = pre ++ rest) :
    ∃ t, Runs.exec step s (List.replicate pre.length .task) = some t ∧
      t.tasks = rest ∧ t.status = s.status ∧ t.startedAt = s.startedAt := by
  induction pre generalizing s with
  | nil => exact ⟨s, rfl, hq, rfl, rfl⟩
  | cons sample pre ih =>
    have hstep : s.step .task = some (s.publish sample (pre ++ rest)) := by
      simp only [step, hq, List.cons_append]
    obtain ⟨t, ht, hrest, hstatus, hstarted⟩ := ih (s := s.publish sample (pre ++ rest)) rfl
    exact ⟨t, (Runs.exec_cons_iff step s t _ _).mpr ⟨_, hstep, ht⟩, hrest, hstatus, hstarted⟩

theorem start_fields (s : Poller) (rc : Int) :
    (s.start rc).tasks = s.tasks ∧ (s.start rc).stops = s.stops ∧ (s.start rc).startedAt = s.stops := by
  cases hr : s.running with
  | true =>
    rw [start_running hr]
    exact ⟨rfl, rfl, rfl⟩
  | false =>
    by_cases hrc : rc = 0
    · subst hrc
      rw [start_ok hr]
      exact ⟨rfl, rfl, rfl⟩
    · rw [start_failed hr hrc]
      exact ⟨rfl, rfl, rfl⟩

theorem stops_step {s s' : Poller} {a : Act} (hi : ∀ x ∈ s.tasks, x.stops ≤ s.stops)
    (h : s.step a = some s') : ∀ x ∈ s'.tasks, x.stops ≤ s'.stops := by
  cases a with
  | start rc =>
    cases h
    obtain ⟨htasks, hstops, -⟩ := start_fields s rc
    rw [htasks, hstops]
    exact hi
  | stop => cases h; exact fun x hx => Nat.le_succ_of_le (hi x hx)
  | traffic rx tx => cases h; exact hi
  | tick now =>
    simp only [step] at h
    split at h
    · cases h
      intro x hx
      rcases List.mem_append.mp hx with hx | hx
      · exact hi x hx
      · obtain rfl := List.mem_singleton.mp hx
        exact Nat.le_refl _
    · cases h
  | task =>
    simp only [step] at h
    split at h
    · next sample rest hq => cases h; exact fun x hx => hi x (hq ▸ List.mem_cons_of_mem _ hx)
    · cases h

/-- A sample that waits at a `stop()` is shown while the core is stopped. -/
theorem spoiled_of_stop {s : Poller} (hm : ¬ s.Meets .stop) : s.stop.Spoiled := by
  unfold Meets at hm
  push Not at hm
  obtain ⟨x, hx, hne⟩ := hm
  obtain ⟨pre, rest, hq⟩ := List.append_of_mem hx
  obtain ⟨t, ht, htasks, hstatus, -⟩ := exec_tasks (s := s.stop) hq
  have hstep : t.step .task = some (t.publish x rest) := by
    simp only [step, htasks]
  refine ⟨List.replicate pre.length .task ++ [.task], fun h => ?_⟩
  have hquiet := h.1.last ((Runs.exec_concat_iff step _ _ _ _).mpr ⟨t, ht, hstep⟩)
  obtain ⟨hrx, htx, -, -⟩ := hquiet hstatus
  exact hne hrx htx

/-- A sample that waits from in front of a `stop()` is published behind the `start()`. -/
theorem spoiled_of_start {s : Poller} (hi : ∀ x ∈ s.tasks, x.stops ≤ s.stops) {rc : Int}
    (hm : ¬ s.Meets (.start rc)) : (s.start rc).Spoiled := by
  unfold Meets at hm
  push Not at hm
  obtain ⟨x, hx, hne⟩ := hm
  obtain ⟨hsame, -, hstarted⟩ := start_fields s rc
  obtain ⟨pre, rest, hq⟩ := List.append_of_mem hx
  obtain ⟨t, ht, htasks, -, hat⟩ := exec_tasks (hsame.trans hq)
  have hstep : t.step .task = some (t.publish x rest) := by
    simp only [step, htasks]
  refine ⟨List.replicate pre.length .task ++ [.task], fun h => ?_⟩
  have hsound := (h.2 _ .task t _ (List.prefix_refl _) ht hstep x rest htasks).1
  have hle := hi x hx
  omega

/-- **When no sample survives a stop.**  In a run in which no `stop()` comes while a sample with bytes
waits, no `start()` while one from in front of a `stop()` waits, and no counter wraps between two
readings, nothing is shown while the core is stopped, no sample is published behind the next `start()`,
and no difference wraps; a `stop()` or `start()` that comes otherwise goes on to where this fails. -/
theorem samples_exact (as : List Act) :
    (Runs.Along step Meets init as →
      Runs.Throughout step Quiet init as ∧ Runs.Along step Sound init as) ∧
    ∀ s, Runs.exec step init as = some s →
      (¬ s.Meets .stop → s.stop.Spoiled) ∧ ∀ rc, ¬ s.Meets (.start rc) → (s.start rc).Spoiled := by
  refine ⟨fun h => ⟨(run_inv h).mono fun t ht => ht.quiet, ?_⟩, fun s h => ⟨spoiled_of_stop, fun rc hm => ?_⟩⟩
  · intro pre a t t' hp ht _
    exact ((run_inv h).before hp ht).sound a
  · have hstops := Runs.exec_inv step (fun s : Poller => ∀ x ∈ s.tasks, x.stops ≤ s.stops)
      (fun _ _ _ => stops_step) (fun x hx => (by cases hx)) h
    exact spoiled_of_start hstops hm

/-- A sample is read, the core is stopped, and the sample is shown. -/
theorem shown_while_stopped : ∃ t, Runs.exec step init
      [.start 0, .traffic 100 7, .tick 1, .stop, .task] = some t ∧
    t.status = .stopped ∧ t.rx.bytes = 100 ∧ ¬ t.Quiet :=
  ⟨_, rfl, rfl, rfl, fun h => absurd (h rfl).1 (by decide)⟩

end Poller

end RickyNet
