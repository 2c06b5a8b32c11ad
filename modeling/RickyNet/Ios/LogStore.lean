import Mathlib.Data.List.DropRight
import RickyNet.Lib.Runs

/-!
# The log view of the app

`LogStore` collects lines on a serial queue and publishes them on the main queue.  Both are mailboxes
here, first in, first out; one step runs one block, or one of the blocks that `clear()` posts while it
has the main thread.  A flush block has two steps, since its batch is taken some time before it is
posted.

`Inv` says where the lines are when nobody clears, and that a line in `uiBuffer` has a flush coming;
`coalesced` is what a user of the view sees.  `gen`, `cleared` and `removed` are for `clear()`, which is
the next module's.
-/

namespace RickyNet

/-- A line: the clears whose queue block ran before its append block, and whether it was written. -/
structure StoreLine where
  gen : Nat
  text : String
  written : Bool
deriving DecidableEq

/-- What is posted to `queue`. -/
inductive QueueBlock
  | append (line : String)
  | flush
  | clear
deriving DecidableEq

/-- What is posted to the main queue. -/
inductive MainBlock
  | batch (batch : List StoreLine)
  | clear
deriving DecidableEq

/-- Where the main thread is. -/
inductive ClearPc
  | idle
  /-- in `clear()`, behind the first `async` -/
  | postMain (messages : List String)
  /-- in `clear()`, with these messages to come -/
  | messages (messages : List String)
deriving DecidableEq

/-- What the session header shows. -/
structure AppInfo where
  version : String
  build : String
  model : String
  systemVersion : String
  path : String

structure LogStore where
  lines : List StoreLine
  uiBuffer : List StoreLine
  flushScheduled : Bool
  file : List String
  queue : List QueueBlock
  main : List MainBlock
  /-- `asyncAfter`, not yet fired -/
  timers : Nat
  /-- the batch of a flush block that has not posted it yet -/
  flushing : Option (List StoreLine)
  clearing : ClearPc
  /-- the lines whose append block has run -/
  appended : List StoreLine
  /-- the lines that `removeFirst` has taken -/
  trimmed : List StoreLine
  /-- the clears whose queue block has run -/
  gen : Nat
  /-- the clears whose main block has run -/
  cleared : Nat
  /-- what a clear has removed, with its number -/
  removed : List (Nat × StoreLine)

namespace LogStore

def maxLines : Nat := 2000

def app (time message : String) : String := "[" ++ time ++ " APP] " ++ message

def sessionHeader (info : AppInfo) : List String :=
  ["=== RickyNet iOS v" ++ info.version ++ " (" ++ info.build ++ ") session start ===",
    "device: " ++ info.model ++ ", iOS " ++ info.systemVersion, "log file: " ++ info.path]

inductive Act
  /-- `append`, on any thread -/
  | append (line : String)
  /-- `queue` runs its next block; a write of the file may fail -/
  | queue (ok : Bool)
  /-- the flush block posts its batch -/
  | post
  /-- a timer fires: `flushUI` -/
  | timer
  /-- the main queue runs its next block -/
  | main
  | clear (info : AppInfo)
  /-- the next step of `clear()` -/
  | clearNext (time : String)

def start : LogStore := ⟨[], [], false, [], [], [], 0, none, .idle, [], [], 0, 0, []⟩

/-- A block of `queue`; a flush block up to the post. -/
def runQueue (s : LogStore) (ok : Bool) : QueueBlock → LogStore
  | .append text =>
    let line : StoreLine := ⟨s.gen, text, ok⟩
    { s with
      file := if ok then s.file ++ [text] else s.file
      uiBuffer := s.uiBuffer ++ [line]
      flushScheduled := true
      timers := if s.flushScheduled then s.timers else s.timers + 1
      appended := s.appended ++ [line] }
  | .flush =>
    { s with
      flushScheduled := false
      uiBuffer := []
      flushing := if s.uiBuffer = [] then none else some s.uiBuffer }
  | .clear =>
    { s with
      uiBuffer := []
      file := if ok then [] else s.file
      gen := s.gen + 1
      removed := s.removed ++ s.uiBuffer.map (s.gen, ·) }

/-- How many lines `removeFirst` takes. -/
def excess (lines : List StoreLine) : Nat :=
  if maxLines < lines.length then lines.length - maxLines else 0

/-- A block of the main queue. -/
def runMain (s : LogStore) : MainBlock → LogStore
  | .batch batch =>
    let lines := s.lines ++ batch
    { s with lines := lines.drop (excess lines), trimmed := s.trimmed ++ lines.take (excess lines) }
  | .clear =>
    { s with lines := [], cleared := s.cleared + 1, removed := s.removed ++ s.lines.map (s.cleared, ·) }

def step (s : LogStore) : Act → Option LogStore
  | .append line => some { s with queue := s.queue ++ [.append line] }
  | .queue ok =>
    match s.flushing, s.queue with
    | none, block :: rest => some ({ s with queue := rest }.runQueue ok block)
    | _, _ => none
  | .post =>
    match s.flushing with
    | some batch => some { s with flushing := none, main := s.main ++ [.batch batch] }
    | none => none
  | .timer =>
    match s.clearing, s.timers with
    | .idle, timers + 1 => some { s with timers := timers, queue := s.queue ++ [.flush] }
    | _, _ => none
  | .main =>
    match s.clearing, s.main with
    | .idle, block :: rest => some ({ s with main := rest }.runMain block)
    | _, _ => none
  | .clear info =>
    match s.clearing with
    | .idle => some { s with
        queue := s.queue ++ [.clear]
        clearing := .postMain (sessionHeader info ++ ["log cleared by user"]) }
    | _ => none
  | .clearNext time =>
    match s.clearing with
    | .idle => none
    | .postMain messages => some { s with main := s.main ++ [.clear], clearing := .messages messages }
    | .messages (m :: messages) =>
      some { s with queue := s.queue ++ [.append (app time m)], clearing := .messages messages }
    | .messages [] => some { s with clearing := .idle }

/-- What a step does. -/
inductive Moves (s : LogStore) : Act → LogStore → Prop
  | append (line : String) : Moves s (.append line) { s with queue := s.queue ++ [.append line] }
  | queue (ok : Bool) (block : QueueBlock) (rest : List QueueBlock) (hf : s.flushing = none)
      (hq : s.queue = block :: rest) : Moves s (.queue ok) ({ s with queue := rest }.runQueue ok block)
  | post (batch : List StoreLine) (hf : s.flushing = some batch) :
      Moves s .post { s with flushing := none, main := s.main ++ [.batch batch] }
  | timer (timers : Nat) (hc : s.clearing = .idle) (ht : s.timers = timers + 1) :
      Moves s .timer { s with timers := timers, queue := s.queue ++ [.flush] }
  | main (block : MainBlock) (rest : List MainBlock) (hc : s.clearing = .idle)
      (hm : s.main = block :: rest) : Moves s .main ({ s with main := rest }.runMain block)
  | clear (info : AppInfo) (hc : s.clearing = .idle) : Moves s (.clear info) { s with
      queue := s.queue ++ [.clear]
      clearing := .postMain (sessionHeader info ++ ["log cleared by user"]) }
  | postMain (time : String) (messages : List String) (hc : s.clearing = .postMain messages) :
      Moves s (.clearNext time) { s with main := s.main ++ [.clear], clearing := .messages messages }
  | message (time m : String) (messages : List String) (hc : s.clearing = .messages (m :: messages)) :
      Moves s (.clearNext time)
        { s with queue := s.queue ++ [.append (app time m)], clearing := .messages messages }
  | done (time : String) (hc : s.clearing = .messages []) :
      Moves s (.clearNext time) { s with clearing := .idle }

theorem moves_of_step {s s' : LogStore} {a : Act} (h : s.step a = some s') : Moves s a s' := by
  cases a with
  | append line => cases h; exact .append line
  | queue ok =>
    simp only [step] at h
    split at h
    · next block rest hf hq => cases h; exact .queue ok block rest hf hq
    · cases h
  | post =>
    simp only [step] at h
    split at h
    · next batch hf => cases h; exact .post batch hf
    · cases h
  | timer =>
    simp only [step] at h
    split at h
    · next timers hc ht => cases h; exact .timer timers hc ht
    · cases h
  | main =>
    simp only [step] at h
    split at h
    · next block rest hc hm => cases h; exact .main block rest hc hm
    · cases h
  | clear info =>
    simp only [step] at h
    split at h
    · next hc => cases h; exact .clear info hc
    · cases h
  | clearNext time =>
    simp only [step] at h
    split at h
    · cases h
    · next messages hc => cases h; exact .postMain time messages hc
    · next m messages hc => cases h; exact .message time m messages hc
    · next hc => cases h; exact .done time hc

/-! ## Nobody clears -/

/-- The lines on the way to the main thread. -/
def batches : List MainBlock → List StoreLine
  | [] => []
  | .batch batch :: rest => batch ++ batches rest
  | .clear :: rest => batches rest

@[simp] theorem batches_append (m m' : List MainBlock) : batches (m ++ m') = batches m ++ batches m' := by
  induction m with
  | nil => rfl
  | cons block m ih =>
    cases block with
    | batch batch => simp [batches, ih]
    | clear => exact ih

/-- A flush is outstanding: a timer that has not fired, or a block that has not run. -/
def flushes (s : LogStore) : Nat := s.timers + s.queue.count .flush

/-- Where the lines are. -/
structure Inv (s : LogStore) : Prop where
  idle : s.clearing = .idle
  queue : .clear ∉ s.queue
  main : .clear ∉ s.main
  places : s.appended =
    s.trimmed ++ s.lines ++ batches s.main ++ s.flushing.getD [] ++ s.uiBuffer
  newest : s.lines.length = min maxLines (s.trimmed.length + s.lines.length)
  file : s.file = (s.appended.filter (·.written)).map (·.text)
  flushes : s.flushes = if s.flushScheduled then 1 else 0
  buffered : s.flushScheduled = false → s.uiBuffer = []

theorem start_inv : start.Inv where
  idle := rfl
  queue := List.not_mem_nil
  main := List.not_mem_nil
  places := rfl
  newest := rfl
  file := rfl
  flushes := rfl
  buffered := fun _ => rfl

@[simp] theorem batches_concat (m : List MainBlock) (batch : List StoreLine) :
    batches (m ++ [.batch batch]) = batches m ++ batch := by
  rw [batches_append]
  simp [batches]

theorem count_flush_cons_append (line : String) (q : List QueueBlock) :
    (QueueBlock.append line :: q).count .flush = q.count .flush := rfl

theorem count_flush_append (q : List QueueBlock) (line : String) :
    (q ++ [QueueBlock.append line]).count .flush = q.count .flush := by
  rw [List.count_append]
  exact Nat.add_zero _

theorem runQueue_append_inv {s : LogStore} (hi : s.Inv) {text : String} {rest : List QueueBlock}
    (hq : s.queue = .append text :: rest) (ok : Bool) :
    Inv ({ s with queue := rest }.runQueue ok (.append text)) := by
  obtain ⟨hidle, hqueue, hmain, hplaces, hnewest, hfile, hflushes, hbuf⟩ := hi
  rw [hq] at hqueue
  unfold flushes at hflushes
  rw [hq, count_flush_cons_append] at hflushes
  refine ⟨hidle, fun h => hqueue (List.mem_cons_of_mem _ h), hmain, ?_, hnewest, ?_, ?_, nofun⟩
  · show s.appended ++ [(⟨s.gen, text, ok⟩ : StoreLine)] = s.trimmed ++ s.lines ++ batches s.main ++
      s.flushing.getD [] ++ (s.uiBuffer ++ [⟨s.gen, text, ok⟩])
    rw [hplaces, List.append_assoc]
  · show (if ok then s.file ++ [text] else s.file) = _
    rw [hfile]
    cases ok <;> simp [runQueue]
  · show (if s.flushScheduled then s.timers else s.timers + 1) + rest.count .flush = 1
    -- a timer is started if none is running
    cases hs : s.flushScheduled with
    | true =>
      rw [hs] at hflushes
      exact hflushes
    | false =>
      rw [hs] at hflushes
      simp only [Bool.false_eq_true, if_false] at hflushes ⊢
      omega

theorem runQueue_flush_inv {s : LogStore} (hi : s.Inv) (hf : s.flushing = none)
    {rest : List QueueBlock} (hq : s.queue = .flush :: rest) (ok : Bool) :
    Inv ({ s with queue := rest }.runQueue ok .flush) := by
  obtain ⟨hidle, hqueue, hmain, hplaces, hnewest, hfile, hflushes, hbuf⟩ := hi
  rw [hq] at hqueue
  unfold flushes at hflushes
  rw [hq, List.count_cons_self] at hflushes
  refine ⟨hidle, fun h => hqueue (List.mem_cons_of_mem _ h), hmain, ?_, hnewest, hfile, ?_, fun _ => rfl⟩
  · have htaken : (if s.uiBuffer = [] then none else some s.uiBuffer).getD [] = s.uiBuffer := by
      split
      · next h => exact h.symm
      · rfl
    show s.appended = s.trimmed ++ s.lines ++ batches s.main ++
      (if s.uiBuffer = [] then none else some s.uiBuffer).getD [] ++ []
    rw [htaken, List.append_nil, hplaces, hf]
    simp
  · show s.timers + rest.count .flush = 0
    split at hflushes
    · omega
    · omega

/-- The view after a batch. -/
theorem runMain_batch_inv {s : LogStore} (hi : s.Inv) {batch : List StoreLine} {rest : List MainBlock}
    (hm : s.main = .batch batch :: rest) : Inv ({ s with main := rest }.runMain (.batch batch)) := by
  obtain ⟨hidle, hqueue, hmain, hplaces, hnewest, hfile, hflushes, hbuf⟩ := hi
  rw [hm] at hmain
  refine ⟨hidle, hqueue, fun h => hmain (List.mem_cons_of_mem _ h), ?_, ?_, hfile, hflushes, hbuf⟩
  · show s.appended = s.trimmed ++ (s.lines ++ batch).take (excess (s.lines ++ batch)) ++
      (s.lines ++ batch).drop (excess (s.lines ++ batch)) ++ batches rest ++ s.flushing.getD [] ++ s.uiBuffer
    rw [List.append_assoc s.trimmed, List.take_append_drop, hplaces, hm]
    simp [batches]
  · show ((s.lines ++ batch).drop (excess (s.lines ++ batch))).length =
      min maxLines ((s.trimmed ++ (s.lines ++ batch).take (excess (s.lines ++ batch))).length +
        ((s.lines ++ batch).drop (excess (s.lines ++ batch))).length)
    have hexcess : excess (s.lines ++ batch) = s.lines.length + batch.length - maxLines := by
      unfold excess
      rw [List.length_append]
      split <;> omega
    rw [hexcess, List.length_append, List.length_drop, List.length_take, List.length_append]
    omega

def Act.clears : Act → Bool
  | .clear _ => true
  | _ => false

theorem step_inv {s s' : LogStore} {a : Act} (hi : s.Inv) (ha : a.clears = false)
    (h : s.step a = some s') : s'.Inv := by
  cases moves_of_step h with
  | append line =>
    refine ⟨hi.idle, ?_, hi.main, hi.places, hi.newest, hi.file, ?_, hi.buffered⟩
    · simpa using hi.queue
    · show s.timers + (s.queue ++ [QueueBlock.append line]).count .flush = _
      rw [count_flush_append]
      exact hi.flushes
  | queue ok block rest hf hq =>
    cases block with
    | append text => exact runQueue_append_inv hi hq ok
    | flush => exact runQueue_flush_inv hi hf hq ok
    | clear => exact absurd (hq ▸ List.mem_cons_self) hi.queue
  | post batch hf =>
    refine ⟨hi.idle, hi.queue, ?_, ?_, hi.newest, hi.file, hi.flushes, hi.buffered⟩
    · simpa using hi.main
    · show s.appended = s.trimmed ++ s.lines ++ batches (s.main ++ [.batch batch]) ++ [] ++ s.uiBuffer
      rw [batches_concat, hi.places, hf]
      simp
  | timer timers hc ht =>
    refine ⟨hi.idle, ?_, hi.main, hi.places, hi.newest, hi.file, ?_, hi.buffered⟩
    · simpa using hi.queue
    · have hflushes := hi.flushes
      unfold flushes at hflushes
      show timers + (s.queue ++ [QueueBlock.flush]).count .flush = _
      rw [← hflushes, ht, List.count_append, List.count_singleton_self]
      omega
  | main block rest hc hm =>
    cases block with
    | batch batch => exact runMain_batch_inv hi hm
    | clear => exact absurd (hm ▸ List.mem_cons_self) hi.main
  | clear info hc => cases ha
  | postMain time messages hc => rw [hi.idle] at hc; cases hc
  | message time m messages hc => rw [hi.idle] at hc; cases hc
  | done time hc => rw [hi.idle] at hc; cases hc

theorem run_inv {s : LogStore} {as : List Act} (hclear : ∀ a ∈ as, a.clears = false)
    (h : Runs.exec step start as = some s) : s.Inv := by
  have halong : Runs.Along step (fun _ a => a.clears = false) start as :=
    fun pre a _ _ hp _ _ => hclear a (hp.subset (List.mem_append_right pre (List.mem_singleton_self a)))
  exact (Runs.throughout_of_along Inv (fun _ _ _ => step_inv) start_inv halong).last h

/-- What is shown is the end of all that has got to the main thread. -/
theorem Inv.lines_eq {s : LogStore} (hi : s.Inv) : s.lines = (s.trimmed ++ s.lines).rtake maxLines := by
  have hnewest := hi.newest
  unfold List.rtake
  rw [List.length_append]
  by_cases htrim : s.trimmed = []
  · rw [htrim, List.length_nil] at hnewest ⊢
    have hzero : 0 + s.lines.length - maxLines = 0 := by omega
    rw [hzero]
    rfl
  · have hpos := List.length_pos_of_ne_nil htrim
    have hcut : s.trimmed.length + s.lines.length - maxLines = s.trimmed.length := by omega
    rw [hcut, List.drop_left]

/-- A line in `uiBuffer` has a flush coming. -/
theorem Inv.outstanding {s : LogStore} (hi : s.Inv) (h : s.uiBuffer ≠ []) :
    s.flushScheduled = true ∧ (0 < s.timers ∨ .flush ∈ s.queue) := by
  have hsched : s.flushScheduled = true := by
    by_contra hs
    exact h (hi.buffered (Bool.not_eq_true _ ▸ hs))
  refine ⟨hsched, ?_⟩
  have hflushes : s.timers + s.queue.count .flush = _ := hi.flushes
  rw [hsched, if_pos rfl] at hflushes
  by_cases ht : 0 < s.timers
  · exact Or.inl ht
  · have hposted : 0 < s.queue.count .flush := by omega
    exact Or.inr (List.count_pos_iff.mp hposted)

/-- **No line is lost, doubled or moved.**  As long as nobody clears, the lines whose append block has run
are, in order, those trimmed, those shown, those in batches for the main thread, those of a batch under
way to it and those in `uiBuffer`; those whose write succeeded are in the file, in the same order; the
newest are shown, 2000 at most; and a line in `uiBuffer` has a flush coming. -/
theorem coalesced {s : LogStore} {as : List Act} (hclear : ∀ a ∈ as, a.clears = false)
    (h : Runs.exec step start as = some s) :
    s.appended = s.trimmed ++ s.lines ++ batches s.main ++ s.flushing.getD [] ++ s.uiBuffer ∧
    s.file = (s.appended.filter (·.written)).map (·.text) ∧
    s.lines = (s.trimmed ++ s.lines).rtake 2000 ∧ s.lines.length ≤ 2000 ∧
    (s.uiBuffer ≠ [] → s.flushScheduled = true ∧ (0 < s.timers ∨ .flush ∈ s.queue)) := by
  have hi := run_inv hclear h
  have hmax : s.lines.length ≤ maxLines := by
    have := hi.newest
    omega
  exact ⟨hi.places, hi.file, hi.lines_eq, hmax, hi.outstanding⟩

/-- One line on its way, and one that has come behind the flag. -/
theorem coalesced_run : ∃ s : LogStore,
    Runs.exec step start [.append "a", .queue true, .timer, .queue true, .post, .append "b", .queue true] = some s ∧
    s.appended = s.trimmed ++ s.lines ++ batches s.main ++ s.flushing.getD [] ++ s.uiBuffer :=
  have h : Runs.exec step start
      [.append "a", .queue true, .timer, .queue true, .post, .append "b", .queue true] = some _ := rfl
  ⟨_, h, (coalesced (by decide) h).1⟩

end LogStore

end RickyNet
