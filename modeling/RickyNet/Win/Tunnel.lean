import RickyNet.Lib.Simulation
import RickyNet.Link.Counters
import RickyNet.Win.Session

/-!
# One connection: the worker, its two pump threads, and the phone

The worker of a `Session` with the loops of its pump threads, which are those of `Upload` and
`Download`.  A pump thread takes its steps between `spawnPumps` and the moment it ends; the worker
waits for that in its two joins.

`Tunnel.session`, `Tunnel.upload`, `Tunnel.download`: a run of the connection is a run of the worker
on its own, and of each direction on its own.  `pumped_while_up`: packets move only while the state
is `Connected` and both halves of the default route are in the table.
-/

namespace RickyNet

/-- The action is pump thread A's. -/
def Upload.Act.ofPump : Upload.Act → Bool
  | .phone _ => false
  | _ => true

/-- The action is pump thread B's. -/
def Download.Act.ofPump : Download.Act → Bool
  | .phone _ => false
  | .cut _ => false
  | _ => true

structure Tunnel where
  worker : Worker
  shared : Shared
  table : RouteTable
  up : Upload
  down : Download
  /-- `tun.stop_session()` has been called -/
  sessionDown : Bool
  /-- `shutdown_stream.shutdown(Both)` has been called -/
  socketDown : Bool

namespace Tunnel

def start (args : Args) (out : Outcomes) (shared : Shared) (table : RouteTable) : Tunnel :=
  ⟨.spawn args out, shared, table, .init, .init, false, false⟩

inductive Act
  /-- the worker's next step -/
  | work
  | requestStop
  /-- pump thread A, the stream to the phone, or the phone's receiving end -/
  | up (a : Upload.Act)
  /-- pump thread B, the stream from the phone, or the phone's sending end -/
  | down (a : Download.Act)
  /-- the last step of a pump thread: `alive.store(false)` -/
  | pumpEnds (p : Pump)
deriving DecidableEq

/-- The pump thread is out of its loop. -/
def ended (s : Tunnel) : Pump → Bool
  | .a => s.up.pump.isEnded
  | .b => s.down.pump.isEnded

/-- `shared.tx` after a step of thread A. -/
def countUp (s : Tunnel) (a : Upload.Act) : Shared :=
  match a, s.up.pump with
  | .count, .count packet => s.shared.addTx packet.length
  | _, _ => s.shared

/-- `shared.rx` after a step of thread B. -/
def countDown (s : Tunnel) (a : Download.Act) : Shared :=
  match a, s.down.pump with
  | .count, .count pkt => s.shared.addRx pkt.length
  | _, _ => s.shared

def step (s : Tunnel) : Act → Option Tunnel
  | .work =>
    match s.worker.step s.shared s.table with
    | some (worker, shared, table) =>
      some { s with
        worker := worker
        shared := shared
        table := table
        sessionDown := s.sessionDown || (match s.worker.pc with | .stopSession => true | _ => false)
        socketDown := s.socketDown || (match s.worker.pc with | .shutdown => true | _ => false) }
    | none => none
  | .requestStop => some { s with shared := s.shared.requestStop }
  | .up a =>
    if a.ofPump && !s.worker.pumpA then none
    else
      match s.up.step a with
      | some up => some { s with up := up, shared := s.countUp a }
      | none => none
  | .down a =>
    if a.ofPump && !s.worker.pumpB then none
    else
      match s.down.step a with
      | some down => some { s with down := down, shared := s.countDown a }
      | none => none
  | .pumpEnds p =>
    if s.worker.running p && s.ended p then some { s with worker := s.worker.pumpEnds p } else none

/-- What a step does. -/
inductive Moves (s : Tunnel) : Act → Tunnel → Prop
  | work (worker : Worker) (shared : Shared) (table : RouteTable) (sessionDown socketDown : Bool)
      (hw : s.worker.step s.shared s.table = some (worker, shared, table))
      (h1 : sessionDown = true ↔ s.sessionDown = true ∨ s.worker.pc = .stopSession)
      (h2 : socketDown = true ↔ s.socketDown = true ∨ s.worker.pc = .shutdown) :
      Moves s .work { s with
        worker := worker, shared := shared, table := table
        sessionDown := sessionDown, socketDown := socketDown }
  | requestStop : Moves s .requestStop { s with shared := s.shared.requestStop }
  | up (a : Upload.Act) (up : Upload) (hp : a.ofPump = true → s.worker.pumpA = true)
      (hu : s.up.step a = some up) : Moves s (.up a) { s with up := up, shared := s.countUp a }
  | down (a : Download.Act) (down : Download) (hp : a.ofPump = true → s.worker.pumpB = true)
      (hd : s.down.step a = some down) :
      Moves s (.down a) { s with down := down, shared := s.countDown a }
  | pumpEnds (p : Pump) (hr : s.worker.running p = true) (he : s.ended p = true) :
      Moves s (.pumpEnds p) { s with worker := s.worker.pumpEnds p }

theorem moves_of_step {s s' : Tunnel} {a : Act} (h : s.step a = some s') : s.Moves a s' := by
  cases a with
  | work =>
    simp only [step] at h
    split at h
    · next worker shared table hw =>
      cases h
      refine .work worker shared table _ _ hw ?_ ?_
      · cases s.worker.pc <;> simp
      · cases s.worker.pc <;> simp
    · cases h
  | requestStop => cases h; exact .requestStop
  | up a =>
    simp only [step] at h
    split at h
    · cases h
    · next hp =>
      split at h
      · next up hu => cases h; exact .up a up (by simpa using hp) hu
      · cases h
  | down a =>
    simp only [step] at h
    split at h
    · cases h
    · next hp =>
      split at h
      · next down hd => cases h; exact .down a down (by simpa using hp) hd
      · cases h
  | pumpEnds p =>
    simp only [step] at h
    split at h
    · next hp =>
      cases h
      rw [Bool.and_eq_true] at hp
      exact .pumpEnds p hp.1 hp.2
    · cases h

/-! ## The parts of a run -/

/-- What the action is for the worker on its own. -/
def Act.session : Act → List Session.Act
  | .work => [.work]
  | .requestStop => [.requestStop]
  | .pumpEnds p => [.pumpEnds p]
  | _ => []

/-- What it is for the upload. -/
def Act.upload : Act → List Upload.Act
  | .up a => [a]
  | _ => []

/-- What it is for the download. -/
def Act.download : Act → List Download.Act
  | .down a => [a]
  | _ => []

end Tunnel

/-- The same but for the counters. -/
structure Shared.Same (sh sh' : Shared) : Prop where
  state : sh'.state = sh.state
  error : sh'.error = sh.error
  stop : sh'.stop = sh.stop
  admin : sh'.admin = sh.admin

theorem Shared.Same.refl (sh : Shared) : sh.Same sh := ⟨rfl, rfl, rfl, rfl⟩

/-- The worker does not look at the counters. -/
theorem Worker.step_same {w w' : Worker} {sh sh' sh1 : Shared} {table table' : RouteTable}
    (hsame : sh.Same sh1) (h : w.step sh table = some (w', sh', table')) :
    ∃ sh1', w.step sh1 table = some (w', sh1', table') ∧ sh'.Same sh1' := by
  have hst := hsame.stop
  have hstate := hsame.state
  cases hpc : w.pc with
  | clearStop =>
    simp only [step, hpc] at h ⊢
    cases h
    exact ⟨_, rfl, hstate, hsame.error, rfl, hsame.admin⟩
  | resetCounters =>
    simp only [step, hpc] at h ⊢
    cases h
    exact ⟨_, rfl, hstate, hsame.error, hst, hsame.admin⟩
  | setConnecting =>
    simp only [step, hpc] at h ⊢
    cases h
    exact ⟨_, rfl, rfl, hsame.error, hst, hsame.admin⟩
  | setConnected =>
    simp only [step, hpc] at h ⊢
    cases h
    exact ⟨_, rfl, rfl, hsame.error, hst, hsame.admin⟩
  | setErrorText e =>
    simp only [step, hpc] at h ⊢
    cases h
    exact ⟨_, rfl, hstate, rfl, hst, hsame.admin⟩
  | setErrorState =>
    simp only [step, hpc] at h ⊢
    cases h
    exact ⟨_, rfl, rfl, hsame.error, hst, hsame.admin⟩
  | setDisconnected =>
    simp only [step, hpc] at h ⊢
    cases h
    exact ⟨_, rfl, rfl, hsame.error, hst, hsame.admin⟩
  | checkStop =>
    simp only [step, hpc] at h ⊢
    cases h
    exact ⟨sh1, by rw [hst], hsame⟩
  | readState =>
    simp only [step, hpc] at h ⊢
    cases h
    exact ⟨sh1, by rw [hstate], hsame⟩
  | _ =>
    -- the other steps neither read nor write the shared state
    simp only [step, hpc] at h ⊢
    (repeat' split at h) <;> cases h <;> exact ⟨sh1, by simp_all, hsame⟩

/-! ## Where the worker is while the pumps run -/

namespace Worker

/-- Both halves of the default route are up. -/
def Halves (w : Worker) : Prop := lowRow w.tun.luid ∈ w.rows ∧ highRow w.tun.luid ∈ w.rows

/-- No pump thread is running. -/
def Idle (w : Worker) : Prop := w.pumpA = false ∧ w.pumpB = false

/-- The halves and the state at each point of `run_connect`, and where there are pump threads. -/
def Linked (w : Worker) (sh : Shared) : Prop :=
  match w.pc with
  | .high => lowRow w.tun.luid ∈ w.rows ∧ w.Idle
  | .setConnected => w.Halves ∧ w.Idle
  | .cloneRead | .cloneWrite | .spawnPumps => w.Halves ∧ sh.state = .connected ∧ w.Idle
  | .checkStop | .checkAlive | .sleep | .stopSession | .shutdown | .joinA =>
      w.Halves ∧ sh.state = .connected
  | .joinB => w.Halves ∧ sh.state = .connected ∧ w.pumpA = false
  | _ => w.Idle

theorem linked_spawn (args : Args) (out : Outcomes) (sh : Shared) : (spawn args out).Linked sh :=
  ⟨rfl, rfl⟩

theorem Linked.of_same_state {w : Worker} {sh sh' : Shared} (h : w.Linked sh)
    (hs : sh'.state = sh.state) : w.Linked sh' := by
  unfold Linked at h ⊢
  split <;> simp_all

theorem Linked.pumpEnds {w : Worker} {sh : Shared} (h : w.Linked sh) (p : Pump) :
    (w.pumpEnds p).Linked sh := by
  unfold Linked at h ⊢
  rw [pumpEnds_pc]
  cases p <;> split <;> simp_all [Worker.pumpEnds, Idle, Halves]

/-- A running pump thread has the routes under it. -/
theorem Linked.running {w : Worker} {sh : Shared} (h : w.Linked sh) {p : Pump}
    (hr : w.running p = true) : w.Halves ∧ sh.state = .connected := by
  unfold Linked at h
  cases p <;> split at h <;> simp_all [Idle, Worker.running]

theorem linked_step {w w' : Worker} {sh sh' : Shared} {table table' : RouteTable} (h : w.Linked sh)
    (hs : w.step sh table = some (w', sh', table')) : w'.Linked sh' := by
  unfold Linked at h
  cases hpc : w.pc with
  | low =>
    simp only [hpc] at h
    simp only [step, hpc] at hs
    split at hs
    · cases hs
      exact ⟨List.mem_append_right _ (List.mem_singleton_self _), h⟩
    · cases hs
      exact h
  | high =>
    simp only [hpc] at h
    simp only [step, hpc] at hs
    split at hs
    · cases hs
      exact ⟨⟨List.mem_append_left _ h.1, List.mem_append_right _ (List.mem_singleton_self _)⟩, h.2⟩
    · cases hs
      exact h.2
  | setConnected =>
    simp only [hpc] at h
    simp only [step, hpc] at hs
    cases hs
    exact ⟨h.1, rfl, h.2⟩
  | joinA =>
    simp only [hpc] at h
    simp only [step, hpc] at hs
    split at hs
    · cases hs
    · next hp => cases hs; exact ⟨h.1, h.2, by simpa using hp⟩
  | joinB =>
    simp only [hpc] at h
    simp only [step, hpc] at hs
    split at hs
    · cases hs
    · next hp => cases hs; exact ⟨h.2.2, by simpa using hp⟩
  | rollback e =>
    simp only [hpc] at h
    simp only [step, hpc] at hs
    split at hs
    · cases hs
      exact h
    · cases hs
      exact h
  | remove =>
    simp only [hpc] at h
    simp only [step, hpc] at hs
    split at hs
    · cases hs
      exact h
    · cases hs
      exact h
  | _ =>
    -- the other steps change neither the rows nor the state, or leave the range of the pumps
    simp only [hpc] at h
    simp only [step, hpc] at hs
    (repeat' split at hs) <;> cases hs <;> simp_all [Linked, abandon, Idle, Halves]

end Worker

namespace Tunnel

/-- The worker, on its own. -/
structure OfSession (s : Tunnel) (t : Session) : Prop where
  worker : t.worker = s.worker
  table : t.table = s.table
  shared : s.shared.Same t.shared

theorem countUp_same (s : Tunnel) (a : Upload.Act) : s.shared.Same (s.countUp a) := by
  unfold countUp
  split
  · exact ⟨rfl, rfl, rfl, rfl⟩
  · exact Shared.Same.refl _

theorem countDown_same (s : Tunnel) (a : Download.Act) : s.shared.Same (s.countDown a) := by
  unfold countDown
  split
  · exact ⟨rfl, rfl, rfl, rfl⟩
  · exact Shared.Same.refl _

/-- **The worker's part of a run is a session.** -/
theorem session_simulates : Runs.Simulates step Session.step Act.session OfSession where
  steps := by
    rintro s a s' t ⟨hw, ht, hsh⟩ h
    cases moves_of_step h with
    | work worker shared table sd kd hstep h1 h2 =>
      obtain ⟨sh1, h3, h4⟩ := Worker.step_same hsh hstep
      refine ⟨{ t with worker := worker, shared := sh1, table := table }, ?_, rfl, rfl, h4⟩
      refine Runs.exec_seen ?_
      simp only [Session.step, hw, ht, h3]
    | requestStop =>
      refine ⟨{ t with shared := t.shared.requestStop, requested := true }, Runs.exec_seen rfl, hw, ht, ?_⟩
      exact ⟨hsh.state, hsh.error, rfl, hsh.admin⟩
    | up a up hp hu =>
      have hc := s.countUp_same a
      exact ⟨t, rfl, hw, ht, hsh.state.trans hc.state.symm, hsh.error.trans hc.error.symm,
        hsh.stop.trans hc.stop.symm, hsh.admin.trans hc.admin.symm⟩
    | down a down hp hd =>
      have hc := s.countDown_same a
      exact ⟨t, rfl, hw, ht, hsh.state.trans hc.state.symm, hsh.error.trans hc.error.symm,
        hsh.stop.trans hc.stop.symm, hsh.admin.trans hc.admin.symm⟩
    | pumpEnds p hr he =>
      refine ⟨{ t with worker := t.worker.pumpEnds p }, Runs.exec_seen ?_, ?_, ht, hsh⟩
      · simp only [Session.step, hw, hr, if_true]
      · rw [hw]

/-- **The upload's part of a run is a run of the upload.** -/
theorem upload_simulates :
    Runs.Simulates step Upload.step Act.upload fun s u => s.up = u := by
  refine Runs.Simulates.of_component Tunnel.up fun s a s' h => ?_
  cases moves_of_step h with
  | up a up hp hu => exact Or.inr ⟨a, rfl, hu⟩
  | _ => exact Or.inl ⟨rfl, rfl⟩

/-- **The download's part of a run is a run of the download.** -/
theorem download_simulates :
    Runs.Simulates step Download.step Act.download fun s d => s.down = d := by
  refine Runs.Simulates.of_component Tunnel.down fun s a s' h => ?_
  cases moves_of_step h with
  | down a down hp hd => exact Or.inr ⟨a, rfl, hd⟩
  | _ => exact Or.inl ⟨rfl, rfl⟩

/-! ## The routes and the counters -/

theorem linked_step {s s' : Tunnel} {a : Act} (hl : s.worker.Linked s.shared)
    (h : s.step a = some s') : s'.worker.Linked s'.shared := by
  cases moves_of_step h with
  | work worker shared table sd kd hw h1 h2 => exact Worker.linked_step hl hw
  | requestStop => exact hl.of_same_state rfl
  | up a up hp hu => exact hl.of_same_state (s.countUp_same a).state
  | down a down hp hd => exact hl.of_same_state (s.countDown_same a).state
  | pumpEnds p hr he => exact hl.pumpEnds p

theorem onTop_step {base : RouteTable} {s s' : Tunnel} {a : Act}
    (ho : KeyedTable.OnTop Row.key base s.table s.worker.holds) (h : s.step a = some s') :
    KeyedTable.OnTop Row.key base s'.table s'.worker.holds := by
  cases moves_of_step h with
  | work worker shared table sd kd hw h1 h2 =>
    rw [← List.append_nil s.worker.holds] at ho
    have hstep := Worker.step_onTop hw ho
    rwa [List.append_nil] at hstep
  | pumpEnds p hr he =>
    show KeyedTable.OnTop Row.key base s.table (s.worker.pumpEnds p).holds
    rw [Worker.pumpEnds_holds]
    exact ho
  | _ => exact ho

/-- `resetCounters` writes the counters, and no other step of the worker does. -/
theorem step_counters {w w' : Worker} {sh sh' : Shared} {table table' : RouteTable}
    (h : w.step sh table = some (w', sh', table')) :
    w'.pc ≠ .clearStop ∧ (w'.pc = .resetCounters ↔ w.pc = .clearStop) ∧
      (w.pc = .resetCounters ∧ sh'.tx = 0 ∧ sh'.rx = 0 ∨
        w.pc ≠ .resetCounters ∧ sh'.tx = sh.tx ∧ sh'.rx = sh.rx) := by
  cases hpc : w.pc with
  | clearStop =>
    simp only [Worker.step, hpc] at h
    cases h
    simp [Shared.clearStop]
  | resetCounters =>
    simp only [Worker.step, hpc] at h
    cases h
    simp [Shared.resetCounters]
  | _ =>
    simp only [Worker.step, hpc] at h
    (repeat' split at h) <;> cases h <;>
      simp [Worker.abandon, Shared.setState, Shared.setErrorText, *]

/-- The worker starts pump threads and ends none. -/
theorem step_pumps {w w' : Worker} {sh sh' : Shared} {table table' : RouteTable}
    (h : w.step sh table = some (w', sh', table')) :
    (w.pumpA = true → w'.pumpA = true) ∧ (w.pumpB = true → w'.pumpB = true) := by
  cases hpc : w.pc with
  | spawnPumps =>
    simp only [Worker.step, hpc] at h
    cases h
    exact ⟨fun _ => rfl, fun _ => rfl⟩
  | _ =>
    simp only [Worker.step, hpc] at h
    (repeat' split at h) <;> cases h <;> exact ⟨id, id⟩

/-- Only `fetch_add` counts. -/
theorem upload_tx {u u' : Upload} {a : Upload.Act} (ha : a ≠ .count) (h : u.step a = some u') :
    u'.tx = u.tx := by
  cases a with
  | count => exact absurd rfl ha
  | write n =>
    simp only [Upload.step] at h
    split at h
    · next w hp =>
      split at h
      · cases h
        unfold Upload.writePiece
        cases w.accept n <;> rfl
      · cases h
    · cases h
  | _ =>
    simp only [Upload.step] at h
    (repeat' split at h) <;> cases h
    rfl

theorem download_rx {d d' : Download} {a : Download.Act} (ha : a ≠ .count) (h : d.step a = some d') :
    d'.rx = d.rx := by
  cases a with
  | count => exact absurd rfl ha
  | read n =>
    simp only [Download.step] at h
    split at h
    · next f hp =>
      split at h
      · cases h
        unfold Download.readPiece
        cases f.feed (d.phone.stream.flight.take n) <;> rfl
      · cases h
    · cases h
  | _ =>
    simp only [Download.step] at h
    (repeat' split at h) <;> cases h <;> rfl

/-- Thread A and `shared.tx` count together. -/
theorem countUp_tx {s : Tunnel} {a : Upload.Act} {up : Upload} (hu : s.up.step a = some up)
    (h : s.shared.tx = s.up.tx) : (s.countUp a).tx = up.tx ∧ (s.countUp a).rx = s.shared.rx := by
  unfold countUp
  by_cases ha : a = .count
  · subst ha
    simp only [Upload.step] at hu
    split at hu
    · next packet hp =>
      cases hu
      rw [hp]
      exact ⟨by rw [← h]; rfl, rfl⟩
    · cases hu
  · rw [upload_tx ha hu]
    split
    · exact absurd rfl ha
    · exact ⟨h, rfl⟩

/-- Thread B and `shared.rx` count together. -/
theorem countDown_rx {s : Tunnel} {a : Download.Act} {down : Download}
    (hd : s.down.step a = some down) (h : s.shared.rx = s.down.rx) :
    (s.countDown a).rx = down.rx ∧ (s.countDown a).tx = s.shared.tx := by
  unfold countDown
  by_cases ha : a = .count
  · subst ha
    simp only [Download.step] at hd
    split at hd
    · next pkt hp =>
      cases hd
      rw [hp]
      exact ⟨by rw [← h]; rfl, rfl⟩
    · cases hd
  · rw [download_rx ha hd]
    split
    · exact absurd rfl ha
    · exact ⟨h, rfl⟩

/-- The phone leaves the pump alone. -/
theorem upload_phone {u u' : Upload} {a : Upload.Act} (ha : a.ofPump = false)
    (h : u.step a = some u') : u'.pump = u.pump ∧ u'.tx = u.tx := by
  refine ⟨?_, upload_tx (fun hc => by rw [hc] at ha; cases ha) h⟩
  cases a with
  | phone a =>
    simp only [Upload.step] at h
    split at h
    · split at h
      · cases h; rfl
      · cases h
    · cases h
  | _ => cases ha

theorem download_phone {d d' : Download} {a : Download.Act} (ha : a.ofPump = false)
    (h : d.step a = some d') : d'.pump = d.pump ∧ d'.rx = d.rx := by
  refine ⟨?_, download_rx (fun hc => by rw [hc] at ha; cases ha) h⟩
  cases a with
  | phone a =>
    simp only [Download.step] at h
    split at h
    · cases h; rfl
    · cases h
  | cut n => cases h; rfl
  | _ => cases ha

/-- What `shared` counts is what the pumps have counted. -/
structure Counted (s : Tunnel) : Prop where
  linked : s.worker.Linked s.shared
  /-- nothing is counted before there are pumps -/
  early : s.worker.pc = .clearStop ∨ s.worker.pc = .resetCounters → s.up.tx = 0 ∧ s.down.rx = 0
  later : s.worker.pc ≠ .clearStop → s.worker.pc ≠ .resetCounters →
    s.shared.tx = s.up.tx ∧ s.shared.rx = s.down.rx
  /-- a thread that is not running has nothing left to count -/
  stillA : s.worker.pumpA = false → s.up.pump.uncounted = []
  stillB : s.worker.pumpB = false → s.down.pump.uncounted = []


theorem start_counted (args : Args) (out : Outcomes) (shared : Shared) (table : RouteTable) :
    (start args out shared table).Counted where
  linked := Worker.linked_spawn args out shared
  early := fun _ => ⟨rfl, rfl⟩
  later := fun h _ => absurd rfl h
  stillA := fun _ => rfl
  stillB := fun _ => rfl

/-- A pump thread that is not running takes no step. -/
theorem Counted.idle {s : Tunnel} (hc : s.Counted)
    (h : s.worker.pc = .clearStop ∨ s.worker.pc = .resetCounters) :
    s.worker.pumpA = false ∧ s.worker.pumpB = false := by
  have hl := hc.linked
  unfold Worker.Linked at hl
  rcases h with h | h
  · rw [h] at hl
    exact hl
  · rw [h] at hl
    exact hl

theorem counted_step {s s' : Tunnel} {a : Act} (hc : s.Counted) (h : s.step a = some s') :
    s'.Counted := by
  have hlink := linked_step hc.linked h
  cases moves_of_step h with
  | work worker shared table sd kd hw h1 h2 =>
    obtain ⟨h3, h4, h5⟩ := step_counters hw
    obtain ⟨h6, h7⟩ := step_pumps hw
    refine ⟨hlink, ?_, ?_, ?_, ?_⟩
    · rintro (he | he)
      · exact absurd he h3
      · exact hc.early (Or.inl (h4.1 he))
    · intro hne1 hne2
      show shared.tx = s.up.tx ∧ shared.rx = s.down.rx
      have hclear : s.worker.pc ≠ .clearStop := fun he => hne2 (h4.2 he)
      rcases h5 with ⟨hr, ht, hx⟩ | ⟨hr, ht, hx⟩
      · obtain ⟨e1, e2⟩ := hc.early (Or.inr hr)
        exact ⟨by rw [ht, e1], by rw [hx, e2]⟩
      · obtain ⟨e1, e2⟩ := hc.later hclear hr
        exact ⟨by rw [ht, e1], by rw [hx, e2]⟩
    · intro hp
      refine hc.stillA ?_
      by_contra hrun
      have := h6 (by simpa using hrun)
      rw [this] at hp
      cases hp
    · intro hp
      refine hc.stillB ?_
      by_contra hrun
      have := h7 (by simpa using hrun)
      rw [this] at hp
      cases hp
  | requestStop => exact ⟨hlink, hc.early, hc.later, hc.stillA, hc.stillB⟩
  | up a up hp hu =>
    refine ⟨hlink, ?_, ?_, ?_, hc.stillB⟩
    · intro he
      obtain ⟨hA, -⟩ := hc.idle he
      have hphone : a.ofPump = false := by
        by_contra hne
        rw [hp (by simpa using hne)] at hA
        cases hA
      obtain ⟨e1, e2⟩ := hc.early he
      exact ⟨(upload_phone hphone hu).2.trans e1, e2⟩
    · intro h1 h2
      obtain ⟨e1, e2⟩ := hc.later h1 h2
      obtain ⟨e3, e4⟩ := countUp_tx hu e1
      exact ⟨e3, e4.trans e2⟩
    · intro hA
      have hA' : s.worker.pumpA = false := hA
      have hphone : a.ofPump = false := by
        by_contra hne
        rw [hp (by simpa using hne)] at hA'
        cases hA'
      show up.pump.uncounted = []
      rw [(upload_phone hphone hu).1]
      exact hc.stillA hA'
  | down a down hp hd =>
    refine ⟨hlink, ?_, ?_, hc.stillA, ?_⟩
    · intro he
      obtain ⟨-, hB⟩ := hc.idle he
      have hphone : a.ofPump = false := by
        by_contra hne
        rw [hp (by simpa using hne)] at hB
        cases hB
      obtain ⟨e1, e2⟩ := hc.early he
      exact ⟨e1, (download_phone hphone hd).2.trans e2⟩
    · intro h1 h2
      obtain ⟨e1, e2⟩ := hc.later h1 h2
      obtain ⟨e3, e4⟩ := countDown_rx hd e2
      exact ⟨e4.trans e1, e3⟩
    · intro hB
      have hB' : s.worker.pumpB = false := hB
      have hphone : a.ofPump = false := by
        by_contra hne
        rw [hp (by simpa using hne)] at hB'
        cases hB'
      show down.pump.uncounted = []
      rw [(download_phone hphone hd).1]
      exact hc.stillB hB'
  | pumpEnds p hr he =>
    have hpc := Worker.pumpEnds_pc s.worker p
    refine ⟨hlink, ?_, ?_, ?_, ?_⟩
    · intro h
      refine hc.early ?_
      rw [← hpc]
      exact h
    · intro h1 h2
      refine hc.later ?_ ?_
      · rw [← hpc]
        exact h1
      · rw [← hpc]
        exact h2
    · intro hA
      cases p with
      | a =>
        unfold ended at he
        show s.up.pump.uncounted = []
        cases hup : s.up.pump <;> simp_all [PumpTx.isEnded, PumpTx.uncounted]
      | b => exact hc.stillA hA
    · intro hB
      cases p with
      | a => exact hc.stillB hB
      | b =>
        unfold ended at he
        show s.down.pump.uncounted = []
        cases hdn : s.down.pump <;> simp_all [PumpRx.isEnded, PumpRx.uncounted]

/-! ## Whole runs -/

variable {args : Args} {out : Outcomes} {shared : Shared} {table : RouteTable} {acts : List Act}
  {s : Tunnel}

theorem run_session (h : Runs.exec step (start args out shared table) acts = some s) :
    ∃ t, Runs.exec Session.step (.start args out shared table) (acts.flatMap Act.session) = some t ∧
      s.OfSession t :=
  session_simulates.exec ⟨rfl, rfl, Shared.Same.refl shared⟩ h

theorem run_upload (h : Runs.exec step (start args out shared table) acts = some s) :
    Runs.exec Upload.step .init (acts.flatMap Act.upload) = some s.up := by
  obtain ⟨u, hu, rfl⟩ := upload_simulates.exec rfl h
  exact hu

theorem run_download (h : Runs.exec step (start args out shared table) acts = some s) :
    Runs.exec Download.step .init (acts.flatMap Act.download) = some s.down := by
  obtain ⟨d, hd, rfl⟩ := download_simulates.exec rfl h
  exact hd

theorem run_counted (h : Runs.exec step (start args out shared table) acts = some s) : s.Counted :=
  Runs.exec_inv step Counted (fun _ _ _ hs hstep => counted_step hs hstep)
    (start_counted args out shared table) h

theorem run_onTop (h : Runs.exec step (start args out shared table) acts = some s) :
    KeyedTable.OnTop Row.key table s.table s.worker.holds :=
  Runs.exec_inv step (fun s => KeyedTable.OnTop Row.key table s.table s.worker.holds)
    (fun _ _ _ hs hstep => onTop_step hs hstep) KeyedTable.OnTop.nil h

end Tunnel

/-- **Packets move only while the tunnel is up.**  Whenever a pump thread takes a step, and so
whenever a packet is taken from Wintun or handed to it, the state is `Connected` and both halves of
the default route are in the route table. -/
theorem pumped_while_up (args : Args) (out : Outcomes) (shared : Shared) (table : RouteTable)
    (acts : List Tunnel.Act) (s : Tunnel)
    (h : Runs.exec Tunnel.step (.start args out shared table) acts = some s) :
    (∀ a, a.ofPump = true → s.step (.up a) ≠ none →
      s.shared.state = .connected ∧ lowRow s.worker.tun.luid ∈ s.table ∧
        highRow s.worker.tun.luid ∈ s.table) ∧
    (∀ a, a.ofPump = true → s.step (.down a) ≠ none →
      s.shared.state = .connected ∧ lowRow s.worker.tun.luid ∈ s.table ∧
        highRow s.worker.tun.luid ∈ s.table) := by
  have hc := Tunnel.run_counted h
  have ho := Tunnel.run_onTop h
  have hup : ∀ p, s.worker.running p = true → s.shared.state = .connected ∧
      lowRow s.worker.tun.luid ∈ s.table ∧ highRow s.worker.tun.luid ∈ s.table := by
    intro p hp
    obtain ⟨⟨hlow, hhigh⟩, hstate⟩ := hc.linked.running hp
    exact ⟨hstate, ho.mem_rows (List.mem_append_left _ hlow),
      ho.mem_rows (List.mem_append_left _ hhigh)⟩
  constructor
  · intro a ha hs
    obtain ⟨s', hs'⟩ := Option.ne_none_iff_exists'.1 hs
    cases Tunnel.moves_of_step hs' with
    | up _ up hp hu => exact hup .a (hp ha)
  · intro a ha hs
    obtain ⟨s', hs'⟩ := Option.ne_none_iff_exists'.1 hs
    cases Tunnel.moves_of_step hs' with
    | down _ down hp hd => exact hup .b (hp ha)

/-- Thread A takes a packet, with the stop request already made. -/
theorem pumped_while_up_run : ∃ acts s, Runs.exec Tunnel.step
      (.start Args.default (.smooth .reachable ⟨7, true⟩ ⟨⟨0, 0, 0, 0⟩, 1⟩) Shared.new ∅) acts = some s ∧
    s.up.step (.receive [1]) ≠ none ∧ s.shared.stop = true ∧ s.shared.state = .connected := by
  have h : Runs.exec Tunnel.step
      (.start Args.default (.smooth .reachable ⟨7, true⟩ ⟨⟨0, 0, 0, 0⟩, 1⟩) Shared.new ∅)
      [.work, .work, .work, .work, .work, .work, .work, .work, .work, .work, .work, .work,
        .requestStop] = some _ := rfl
  exact ⟨_, _, h, Option.some_ne_none _, rfl,
    ((pumped_while_up _ _ _ _ _ _ h).1 (.receive [1]) rfl (Option.some_ne_none _)).1⟩

/-- Empty packets add nothing. -/
theorem payload_filter (ps : List Bytes) : payload (ps.filter fun p => !p.isEmpty) = payload ps := by
  induction ps with
  | nil => rfl
  | cons p ps ih =>
    rw [← List.singleton_append, List.filter_append, payload_append, payload_append, ih]
    cases p with
    | nil => rfl
    | cons b p => rfl

/-- **The session totals.**  From `reset_counters` on, `shared.tx` is the bytes of the packets whose
frames thread A has written completely and `shared.rx` the bytes of those that thread B has injected,
but for the one packet that a running thread is about to count.  So what is logged when both threads
have been joined is exact; the packets the phone has delivered begin the former, and those injected
begin what the phone was given to send. -/
theorem session_totals (args : Args) (out : Outcomes) (shared : Shared) (table : RouteTable)
    (acts : List Tunnel.Act) (s : Tunnel)
    (h : Runs.exec Tunnel.step (.start args out shared table) acts = some s)
    (h1 : s.worker.pc ≠ .clearStop) (h2 : s.worker.pc ≠ .resetCounters) :
    (payload s.up.written = s.shared.tx + payload s.up.pump.uncounted ∧
      payload s.down.injected = s.shared.rx + payload s.down.pump.uncounted) ∧
    (s.worker.pumpA = false → s.shared.tx = payload s.up.written) ∧
    (s.worker.pumpB = false → s.shared.rx = payload s.down.injected) ∧
    s.up.phone.delivered <+: s.up.written ∧ s.down.injected <+: s.down.phone.calls.filter carried := by
  have hc := Tunnel.run_counted h
  have hup := Tunnel.run_upload h
  have hdown := Tunnel.run_download h
  have hu : s.up.Up := Runs.exec_inv Upload.step Upload.Up
    (fun _ _ _ hs hstep => Upload.up_step hs hstep) Upload.init_up hup
  have hd : s.down.Down := Runs.exec_inv Download.step Download.Down
    (fun _ _ _ hs hstep => Download.down_step hs hstep) Download.init_down hdown
  obtain ⟨htx, hrx⟩ := hc.later h1 h2
  have hsent : payload s.up.written = s.shared.tx + payload s.up.pump.uncounted := by
    rw [htx]
    exact hu.sent
  have hinj : payload s.down.injected = s.shared.rx + payload s.down.pump.uncounted := by
    rw [hd.inv.pumped.injected, payload_filter, hrx]
    exact hd.counted
  refine ⟨⟨hsent, hinj⟩, ?_, ?_, ?_, ?_⟩
  · intro hA
    rw [hsent, hc.stillA hA, payload_nil, UInt64.add_zero]
  · intro hB
    rw [hinj, hc.stillB hB, payload_nil, UInt64.add_zero]
  · have hs := Upload.run_inv hup
    exact hs.whole.delivered_prefix.trans (ByteStream.Carries.received_prefix hs.carrying)
  · have hs := Download.run_inv hdown
    have hcar : s.down.phone.calls.filter carried =
        (s.down.phone.calls.filter framable).filter fun p => !p.isEmpty := by
      rw [List.filter_filter]
      congr 1
      funext p
      unfold carried
      rw [Bool.and_comm]
    rw [hs.pumped.injected, hcar]
    exact hs.handled_prefix.filter _

/-- A packet each way, and the whole teardown: the session ends, and the totals are the packets'. -/
theorem session_totals_run : ∃ acts s, Runs.exec Tunnel.step
      (.start Args.default (.smooth .reachable ⟨7, true⟩ ⟨⟨0, 0, 0, 0⟩, 1⟩) Shared.new ∅) acts = some s ∧
    s.shared.tx = 3 ∧ s.shared.rx = 1 ∧ s.shared.tx = payload s.up.written := by
  have h : Runs.exec Tunnel.step
      (.start Args.default (.smooth .reachable ⟨7, true⟩ ⟨⟨0, 0, 0, 0⟩, 1⟩) Shared.new ∅)
      [.work, .work, .work, .work, .work, .work, .work, .work, .work, .work, .work, .work,
        .up (.receive [1, 2, 3]), .up (.write 2), .up (.write 3), .up .count, .down (.phone (.pollWrite [7])),
        .down (.phone .recv), .down (.phone (.write 2)), .down (.phone (.write 1)), .down (.read 2),
        .down (.read 1), .down .check, .requestStop, .down (.allocate [0]), .down .copy, .work, .work,
        .work, .down .count, .up .receiveErr, .down .readErr, .pumpEnds .b, .pumpEnds .a, .work, .work,
        .work] = some _ := rfl
  exact ⟨_, _, h, rfl, rfl,
    (session_totals _ _ _ _ _ _ h (fun h => by cases h) (fun h => by cases h)).2.1 rfl⟩

end RickyNet
