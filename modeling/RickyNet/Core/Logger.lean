import Mathlib.Algebra.Ring.Nat
import Mathlib.Data.List.DropRight
import Mathlib.Data.List.Nodup
import Mathlib.Data.List.Perm.Basic
import Mathlib.Data.List.Range
import RickyNet.Lib.Runs

/-!
# The log of the core

`CoreLogger::log` and `set_callback`, called from any number of threads.  Each has one critical
section, which is one step here, and emits outside the lock: what it still has to do then is a `LogCall`,
and its steps may fall between those of all others.

The registrations are not in the code: each `set_callback` with the lines that have been pushed from
then on.  `due` says what a callback is to get by them, `Inv.delivered` that this is what has been
emitted to it and what the calls under way still owe.
-/

namespace RickyNet

def RING_CAP : Nat := 1000

/-- `log::Level`. -/
inductive Level
  | error
  | warn
  | info
  | debug
  | trace
deriving DecidableEq

/-- Its number, 0 being `LevelFilter::Off`. -/
def Level.rank : Level → Nat
  | error => 1
  | warn => 2
  | info => 3
  | debug => 4
  | trace => 5

/-- `{:5}`. -/
def Level.text : Level → String
  | error => "ERROR"
  | warn => "WARN "
  | info => "INFO "
  | debug => "DEBUG"
  | trace => "TRACE"

/-- `log::Record`, and the time of it. -/
structure Record where
  elapsed : String
  level : Level
  target : String
  args : String

def targetAllowed (target : String) (level : Level) : Bool :=
  let threshold : Level := if "rickynet".toList.isPrefixOf target.toList then .trace else .warn
  level.rank ≤ threshold.rank

/-- The line of a record. -/
def Record.line (r : Record) : String :=
  "[" ++ r.elapsed ++ "s " ++ r.level.text ++ " " ++ r.target ++ "] " ++ r.args

/-! ## C strings -/

/-- `CString::new`. -/
def cstringNew (s : String) : Option String := if '\x00' ∈ s.toList then none else some s

/-- `line.replace('\0', "\\0")`. -/
def replaceNul (s : String) : String :=
  String.ofList (s.toList.flatMap fun c => if c = '\x00' then ['\\', '0'] else [c])

/-- What `emit` calls the callback with; `none` is the panic of `unwrap`. -/
def emitText (line : String) : Option String :=
  match cstringNew line with
  | some c => some c
  | none => cstringNew (replaceNul line)

theorem nul_notMem_replaceNul (s : String) : '\x00' ∉ (replaceNul s).toList := by
  unfold replaceNul
  rw [String.toList_ofList, List.mem_flatMap]
  rintro ⟨c, -, hc⟩
  split at hc
  · simp at hc
  · next hne => exact hne (List.mem_singleton.mp hc).symm

theorem replaceNul_eq {s : String} (h : '\x00' ∉ s.toList) : replaceNul s = s := by
  have hid : ∀ c ∈ s.toList, (if c = '\x00' then ['\\', '0'] else [c]) = [c] := by
    intro c hc
    rw [if_neg]
    rintro rfl
    exact h hc
  unfold replaceNul
  rw [List.flatMap_congr hid, List.flatMap_singleton', String.ofList_toList]

/-- No line makes `emit` panic, and none is dropped. -/
theorem emitText_eq (s : String) : emitText s = some (replaceNul s) := by
  unfold emitText cstringNew
  by_cases h : '\x00' ∈ s.toList
  · rw [if_pos h]
    exact if_neg (nul_notMem_replaceNul s)
  · rw [if_neg h, replaceNul_eq h]

/-! ## The state -/

/-- A line of the ring, and its place among all lines that have been pushed. -/
structure LogLine where
  seq : Nat
  text : String
deriving DecidableEq

/-- By which of its two ways a line gets to a callback. -/
inductive How
  | replay
  | direct
deriving DecidableEq

/-- A call of the callback `cb`, with `out`. -/
structure Emission where
  cb : Nat
  how : How
  line : LogLine
  out : String

/-- What a thread still has to do outside the lock. -/
inductive LogCall
  /-- `log`, in front of `emit` -/
  | emit (cb : Nat) (line : LogLine)
  /-- `set_callback`, in the loop over the backlog or behind it -/
  | replay (cb : Nat) (rest : List LogLine) (n : Nat)

/-- A `set_callback`, and the lines pushed before the next one. -/
structure Registration where
  cb : Option Nat
  lines : List LogLine

structure Logger where
  callback : Option Nat
  ring : List LogLine
  maxLevel : Nat
  calls : List LogCall
  emitted : List Emission
  current : Registration
  earlier : List Registration

namespace Logger

inductive Act
  | log (r : Record)
  | setCallback (cb : Option Nat)
  /-- `rn_log_set_level` -/
  | setLevel (level : Nat)
  /-- the next step of a call, at a time -/
  | go (i : Nat) (elapsed : String)

def start : Logger := ⟨none, [], 0, [], [], ⟨none, []⟩, []⟩

/-- All registrations, the last one first. -/
def regs (s : Logger) : List Registration := s.current :: s.earlier

/-- The lines pushed under some registrations, in order. -/
def pushed : List Registration → List LogLine
  | [] => []
  | r :: older => pushed older ++ r.lines

/-- `pop_front` from a full ring, and `push_back`. -/
def pushRing (ring : List LogLine) (line : LogLine) : List LogLine :=
  (if RING_CAP ≤ ring.length then ring.tail else ring) ++ [line]

/-- The critical section of `log`. -/
def push (s : Logger) (text : String) : Logger :=
  let line : LogLine := ⟨(pushed s.regs).length, text⟩
  { s with
    ring := pushRing s.ring line
    calls := s.calls ++ (s.callback.map (LogCall.emit · line)).toList
    current := { s.current with lines := s.current.lines ++ [line] } }

/-- `log::log!`, and `CoreLogger::log` up to `emit`. -/
def log (s : Logger) (r : Record) : Logger :=
  if r.level.rank ≤ s.maxLevel ∧ targetAllowed r.target r.level then s.push r.line else s

/-- `set_callback` up to the loop. -/
def setCallback (s : Logger) (cb : Option Nat) : Logger :=
  { s with
    callback := cb
    calls := s.calls ++ (cb.map (LogCall.replay · s.ring s.ring.length)).toList
    current := ⟨cb, []⟩
    earlier := s.current :: s.earlier }

def emit (s : Logger) (cb : Nat) (how : How) (line : LogLine) : Option Logger :=
  match emitText line.text with
  | some out => some { s with emitted := s.emitted ++ [⟨cb, how, line, out⟩] }
  | none => none

/-- The record at the end of `set_callback`. -/
def registered (elapsed : String) (n : Nat) : Record :=
  ⟨elapsed, .info, "rickynetcore::logger",
    "log callback registered (" ++ toString n ++ " buffered lines replayed)"⟩

def step (s : Logger) : Act → Option Logger
  | .log r => some (s.log r)
  | .setCallback cb => some (s.setCallback cb)
  | .setLevel level => some { s with maxLevel := level }
  | .go i elapsed =>
    match s.calls[i]? with
    | none => none
    | some (.emit cb line) => { s with calls := s.calls.eraseIdx i }.emit cb .direct line
    | some (.replay cb (line :: rest) n) =>
      { s with calls := s.calls.eraseIdx i ++ [LogCall.replay cb rest n] }.emit cb .replay line
    | some (.replay _ [] n) =>
      some ({ s with calls := s.calls.eraseIdx i }.log (registered elapsed n))

/-! ## What has been emitted, and what is owed -/

def emittedTo (s : Logger) (cb : Nat) (how : How) : List LogLine :=
  (s.emitted.filter fun e => e.cb = cb ∧ e.how = how).map (·.line)

end Logger

def LogCall.owed (cb : Nat) (how : How) : LogCall → List LogLine
  | .emit cb' line => if cb' = cb ∧ How.direct = how then [line] else []
  | .replay cb' rest _ => if cb' = cb ∧ How.replay = how then rest else []

/-- The steps before the call returns, if its last line is logged. -/
def LogCall.left : LogCall → Nat
  | .emit _ _ => 1
  | .replay _ rest _ => rest.length + 2

namespace Logger

def owed (s : Logger) (cb : Nat) (how : How) : List LogLine := s.calls.flatMap (LogCall.owed cb how)

def left (s : Logger) : Nat := (s.calls.map LogCall.left).sum

/-- What is to be emitted for a registration: the last lines in front of it, and all of its own. -/
def share (r : Registration) (older : List Registration) : How → List LogLine
  | .replay => (pushed older).rtake RING_CAP
  | .direct => r.lines

/-- What a callback is to get, for all its registrations. -/
def due (cb : Nat) (how : How) : List Registration → List LogLine
  | [] => []
  | r :: older => due cb how older ++ if r.cb = some cb then share r older how else []

structure Inv (s : Logger) : Prop where
  callback : s.callback = s.current.cb
  ring : s.ring = (pushed s.regs).rtake RING_CAP
  seqs : (pushed s.regs).map (·.seq) = List.range (pushed s.regs).length
  delivered : ∀ cb how, (s.emittedTo cb how ++ s.owed cb how).Perm (due cb how s.regs)
  out : ∀ e ∈ s.emitted, e.out = replaceNul e.line.text

theorem start_inv : start.Inv where
  callback := rfl
  ring := rfl
  seqs := rfl
  delivered := fun cb how => by cases how <;> simp [start, emittedTo, owed, due, regs]
  out := fun e he => by cases he

/-! ## One critical section -/

theorem tail_rtake {lines : List LogLine} {n : Nat} (h : n + 1 ≤ lines.length) :
    (lines.rtake (n + 1)).tail = lines.rtake n := by
  unfold List.rtake
  rw [List.tail_drop]
  congr 1
  omega

theorem pushRing_rtake (lines : List LogLine) (line : LogLine) :
    pushRing (lines.rtake RING_CAP) line = (lines ++ [line]).rtake RING_CAP := by
  have hlen : (lines.rtake RING_CAP).length = min RING_CAP lines.length := by
    rw [List.rtake, List.length_drop]
    omega
  have hcap : RING_CAP = 999 + 1 := rfl
  unfold pushRing
  by_cases hfull : RING_CAP ≤ lines.length
  · rw [if_pos (by omega)]
    rw [hcap] at hfull ⊢
    rw [List.rtake_concat_succ, tail_rtake hfull]
  · rw [if_neg (by omega)]
    rw [List.rtake, List.rtake]
    have h1 : lines.length - RING_CAP = 0 := by omega
    have h2 : (lines ++ [line]).length - RING_CAP = 0 := by
      rw [List.length_append, List.length_singleton]
      omega
    rw [h1, h2, List.drop_zero, List.drop_zero]

theorem pushed_push (s : Logger) (text : String) :
    pushed (s.push text).regs = pushed s.regs ++ [⟨(pushed s.regs).length, text⟩] :=
  (List.append_assoc _ _ _).symm

theorem push_inv {s : Logger} (hi : s.Inv) (text : String) : (s.push text).Inv := by
  obtain ⟨hcb, hring, hseqs, hdel, hout⟩ := hi
  refine ⟨hcb, ?_, ?_, fun cb how => ?_, hout⟩
  · rw [pushed_push, ← pushRing_rtake, ← hring]
    rfl
  · rw [pushed_push, List.map_append, hseqs, List.length_append, List.length_singleton,
      List.range_succ]
    rfl
  · -- the new line is due to the callback of the current registration, which is the one taken along
    set line : LogLine := ⟨(pushed s.regs).length, text⟩
    have howed : (s.push text).owed cb how =
        s.owed cb how ++ if s.current.cb = some cb ∧ How.direct = how then [line] else [] := by
      show (s.calls ++ (s.callback.map (LogCall.emit · line)).toList).flatMap (LogCall.owed cb how) = _
      rw [List.flatMap_append, hcb]
      cases s.current.cb with
      | none => simp [owed]
      | some c => simp [owed, LogCall.owed]
    have hdue : due cb how (s.push text).regs =
        due cb how s.regs ++ if s.current.cb = some cb ∧ How.direct = how then [line] else [] := by
      show due cb how (⟨s.current.cb, s.current.lines ++ [line]⟩ :: s.earlier) = _
      by_cases hc : s.current.cb = some cb
      · cases how <;> simp [due, share, regs, hc]
      · cases how <;> simp [due, regs, hc]
    rw [howed, hdue, ← List.append_assoc]
    exact (hdel cb how).append_right _

theorem log_inv {s : Logger} (hi : s.Inv) (r : Record) : (s.log r).Inv := by
  unfold log
  split
  · exact push_inv hi _
  · exact hi

theorem setCallback_inv {s : Logger} (hi : s.Inv) (cb' : Option Nat) : (s.setCallback cb').Inv := by
  obtain ⟨hcb, hring, hseqs, hdel, hout⟩ := hi
  have hpushed : pushed (s.setCallback cb').regs = pushed s.regs := List.append_nil _
  refine ⟨rfl, ?_, ?_, fun cb how => ?_, hout⟩
  · rw [hpushed]
    exact hring
  · rw [hpushed]
    exact hseqs
  · -- the backlog is due to the new callback, and it is the ring
    have howed : (s.setCallback cb').owed cb how =
        s.owed cb how ++ if cb' = some cb ∧ How.replay = how then s.ring else [] := by
      show (s.calls ++ (cb'.map (LogCall.replay · s.ring s.ring.length)).toList).flatMap
        (LogCall.owed cb how) = _
      rw [List.flatMap_append]
      cases cb' with
      | none => simp [owed]
      | some c => simp [owed, LogCall.owed]
    have hdue : due cb how (s.setCallback cb').regs =
        due cb how s.regs ++ if cb' = some cb ∧ How.replay = how then s.ring else [] := by
      show due cb how (⟨cb', []⟩ :: s.regs) = _
      rw [hring]
      by_cases hc : cb' = some cb
      · cases how <;> simp [due, share, hc]
      · cases how <;> simp [due, hc]
    rw [howed, hdue, ← List.append_assoc]
    exact (hdel cb how).append_right _

/-! ## One step of a call -/

theorem emit_eq (s : Logger) (cb : Nat) (how : How) (line : LogLine) : s.emit cb how line =
    some { s with emitted := s.emitted ++ [⟨cb, how, line, replaceNul line.text⟩] } := by
  unfold emit
  rw [emitText_eq]

/-- One call of those under way, and the others. -/
theorem owed_take {s : Logger} {i : Nat} {c : LogCall} (hc : s.calls[i]? = some c) (cb : Nat) (how : How) :
    (s.owed cb how).Perm (c.owed cb how ++ (s.calls.eraseIdx i).flatMap (LogCall.owed cb how)) := by
  obtain ⟨hi, rfl⟩ := List.getElem?_eq_some_iff.mp hc
  exact ((List.getElem_cons_eraseIdx_perm hi).symm.flatMap_right _)

/-- A call that owes nothing goes. -/
theorem finish_inv {s : Logger} (hi : s.Inv) {i : Nat} {c : LogCall} (hc : s.calls[i]? = some c)
    (howed : ∀ cb how, c.owed cb how = []) : Inv { s with calls := s.calls.eraseIdx i } := by
  refine ⟨hi.callback, hi.ring, hi.seqs, fun cb how => ?_, hi.out⟩
  have htake := owed_take hc cb how
  rw [howed, List.nil_append] at htake
  exact (htake.symm.append_left _).trans (hi.delivered cb how)

theorem emittedTo_append (s : Logger) (e : Emission) (cb : Nat) (how : How) :
    emittedTo { s with emitted := s.emitted ++ [e] } cb how =
      s.emittedTo cb how ++ if e.cb = cb ∧ e.how = how then [e.line] else [] := by
  unfold emittedTo
  rw [List.filter_append, List.map_append]
  by_cases h : e.cb = cb ∧ e.how = how <;> simp [h]

/-- A call emits a line, and goes on as `next`. -/
theorem emit_inv {s s' : Logger} (hi : s.Inv) {i : Nat} {c : LogCall} (hc : s.calls[i]? = some c)
    {next : List LogCall} {cb : Nat} {how : How} {line : LogLine}
    (howed : ∀ cb' how', c.owed cb' how' =
      (if cb = cb' ∧ how = how' then [line] else []) ++ next.flatMap (LogCall.owed cb' how'))
    (h : emit { s with calls := s.calls.eraseIdx i ++ next } cb how line = some s') : s'.Inv := by
  rw [emit_eq] at h
  cases h
  refine ⟨hi.callback, hi.ring, hi.seqs, fun cb' how' => ?_, ?_⟩
  · have hemitted := emittedTo_append { s with calls := s.calls.eraseIdx i ++ next }
      ⟨cb, how, line, replaceNul line.text⟩ cb' how'
    refine (List.Perm.of_eq (congrArg (· ++ _) hemitted)).trans ?_
    show (s.emittedTo cb' how' ++ (if cb = cb' ∧ how = how' then [line] else []) ++
      (s.calls.eraseIdx i ++ next).flatMap (LogCall.owed cb' how')).Perm (due cb' how' s.regs)
    rw [List.append_assoc, List.flatMap_append]
    -- the line changes sides, what is left of the call keeps its place
    refine List.Perm.trans (List.Perm.append_left _ ?_) (hi.delivered cb' how')
    have htake := owed_take hc cb' how'
    rw [howed, List.append_assoc] at htake
    exact (List.perm_append_comm.append_left _).trans htake.symm
  · intro e he
    rcases List.mem_append.mp he with he | he
    · exact hi.out e he
    · obtain rfl := List.mem_singleton.mp he
      rfl

theorem step_inv {s s' : Logger} {a : Act} (hi : s.Inv) (h : s.step a = some s') : s'.Inv := by
  cases a with
  | log r => cases h; exact log_inv hi r
  | setCallback cb => cases h; exact setCallback_inv hi cb
  | setLevel level => cases h; exact ⟨hi.callback, hi.ring, hi.seqs, hi.delivered, hi.out⟩
  | go i elapsed =>
    simp only [step] at h
    split at h
    · cases h
    · next cb line hc =>
      have hemit : emit { s with calls := s.calls.eraseIdx i ++ [] } cb .direct line = some s' := by
        rwa [List.append_nil]
      refine emit_inv hi hc (fun cb' how' => ?_) hemit
      rw [List.flatMap_nil, List.append_nil]
      rfl
    · next cb line rest n hc =>
      refine emit_inv hi hc (fun cb' how' => ?_) h
      by_cases hto : cb = cb' ∧ How.replay = how' <;> simp [LogCall.owed, hto]
    · next cb n hc =>
      cases h
      exact log_inv (finish_inv hi hc fun cb' how' => by simp [LogCall.owed]) _

theorem run_inv {s : Logger} {as : List Act} (h : Runs.exec step start as = some s) : s.Inv :=
  Runs.exec_inv step Inv (fun _ _ _ => step_inv) start_inv h

/-! ## Every call returns -/

theorem left_take {s : Logger} {i : Nat} {c : LogCall} (hc : s.calls[i]? = some c) :
    s.left = c.left + ((s.calls.eraseIdx i).map LogCall.left).sum := by
  obtain ⟨hi, rfl⟩ := List.getElem?_eq_some_iff.mp hc
  exact ((List.getElem_cons_eraseIdx_perm hi).symm.map LogCall.left).sum_nat

theorem left_log_le (s : Logger) (r : Record) : (s.log r).left ≤ s.left + 1 := by
  unfold log
  split
  · unfold push left
    cases s.callback <;> simp [LogCall.left]
  · exact Nat.le_succ _

/-- A call under way can take its next step, and has fewer left then. -/
theorem go_left {s : Logger} {i : Nat} (hi : i < s.calls.length) (elapsed : String) :
    ∃ s', s.step (.go i elapsed) = some s' ∧ s'.left < s.left := by
  have hc : s.calls[i]? = some s.calls[i] := List.getElem?_eq_getElem hi
  cases hcall : s.calls[i] with
  | emit cb line =>
    rw [hcall] at hc
    refine ⟨_, by simp only [step, hc, emit_eq]; rfl, ?_⟩
    rw [left_take hc]
    show ((s.calls.eraseIdx i).map LogCall.left).sum < 1 + ((s.calls.eraseIdx i).map LogCall.left).sum
    omega
  | replay cb rest n =>
    rw [hcall] at hc
    cases rest with
    | nil =>
      refine ⟨_, by simp only [step, hc]; rfl, ?_⟩
      have hle := left_log_le { s with calls := s.calls.eraseIdx i } (registered elapsed n)
      rw [left_take hc]
      refine Nat.lt_of_le_of_lt hle ?_
      show ((s.calls.eraseIdx i).map LogCall.left).sum + 1 < 2 + ((s.calls.eraseIdx i).map LogCall.left).sum
      omega
    | cons line rest =>
      refine ⟨_, by simp only [step, hc, emit_eq]; rfl, ?_⟩
      rw [left_take hc]
      show ((s.calls.eraseIdx i ++ [LogCall.replay cb rest n]).map LogCall.left).sum < _
      rw [List.map_append, List.sum_append]
      simp only [List.map_cons, List.map_nil, List.sum_singleton, LogCall.left, List.length_cons]
      omega

/-! ## A callback that is registered once -/

theorem due_append {cb : Nat} {newer : List Registration} (h : ∀ r ∈ newer, r.cb ≠ some cb) (how : How)
    (older : List Registration) : due cb how (newer ++ older) = due cb how older := by
  induction newer with
  | nil => rfl
  | cons r newer ih =>
    rw [List.cons_append, due, if_neg (h r List.mem_cons_self), List.append_nil]
    exact ih fun x hx => h x (List.mem_cons_of_mem r hx)

theorem due_once {cb : Nat} {r : Registration} {newer older : List Registration} (hr : r.cb = some cb)
    (hnewer : ∀ x ∈ newer, x.cb ≠ some cb) (holder : ∀ x ∈ older, x.cb ≠ some cb) (how : How) :
    due cb how (newer ++ r :: older) = share r older how := by
  have hnone : due cb how older = [] := by
    have := due_append holder how []
    rwa [List.append_nil] at this
  rw [due_append hnewer, due, if_pos hr, hnone, List.nil_append]

/-- **Each line once.**  A callback that has been registered once gets the lines of the ring at that time
by the replay, and every line pushed before the next `set_callback` from the thread that has pushed it;
it gets no other lines, and what it has not got yet a call under way will emit.  The ring has the last
lines, and a line with NULs is emitted without them. -/
theorem log_delivery {s : Logger} {as : List Act} (h : Runs.exec step start as = some s) :
    s.ring = (pushed s.regs).rtake RING_CAP ∧
    (pushed s.regs).Nodup ∧
    (∀ cb r newer older, s.regs = newer ++ r :: older → r.cb = some cb →
      (∀ x ∈ newer, x.cb ≠ some cb) → (∀ x ∈ older, x.cb ≠ some cb) →
      (s.emittedTo cb .replay ++ s.owed cb .replay).Perm ((pushed older).rtake RING_CAP) ∧
      (s.emittedTo cb .direct ++ s.owed cb .direct).Perm r.lines) ∧
    (∀ e ∈ s.emitted, e.out = replaceNul e.line.text) ∧
    ∀ i < s.calls.length, ∀ elapsed, ∃ s', s.step (.go i elapsed) = some s' ∧ s'.left < s.left := by
  have hi := run_inv h
  refine ⟨hi.ring, ?_, fun cb r newer older hregs hr hnewer holder => ?_, hi.out,
    fun i hlt elapsed => go_left hlt elapsed⟩
  · have hseqs := List.nodup_range (n := (pushed s.regs).length)
    rw [← hi.seqs] at hseqs
    exact List.Nodup.of_map _ hseqs
  · have hreplay := hi.delivered cb .replay
    have hdirect := hi.delivered cb .direct
    rw [hregs, due_once hr hnewer holder] at hreplay hdirect
    exact ⟨hreplay, hdirect⟩

/-- A line before the registration, and one behind it. -/
theorem log_delivery_run : ∃ s : Logger,
    Runs.exec step start [.setLevel 3, .log ⟨"0.001", .info, "rickynet", "a"⟩, .setCallback (some 7),
      .log ⟨"0.002", .info, "rickynet", "b"⟩, .go 1 "0.003"] = some s ∧
    (s.emittedTo 7 .replay ++ s.owed 7 .replay).Perm ((pushed s.earlier).rtake RING_CAP) ∧
    (s.emittedTo 7 .direct ++ s.owed 7 .direct).Perm s.current.lines :=
  have h : Runs.exec step start [.setLevel 3, .log ⟨"0.001", .info, "rickynet", "a"⟩, .setCallback (some 7),
      .log ⟨"0.002", .info, "rickynet", "b"⟩, .go 1 "0.003"] = some _ := rfl
  ⟨_, h, (log_delivery h).2.2.1 7 _ [] _ rfl rfl nofun (List.forall_mem_singleton.mpr nofun)⟩

end Logger

end RickyNet
