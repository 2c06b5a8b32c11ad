import RickyNet.Win.Args
import RickyNet.Win.State

/-!
# The background worker

`run_connect` and the `connect_inner` it calls, one atomic access or system call a step.  A `Worker`
is the thread with its locals; `Shared` and the route table are what it shares with others.  How the
fallible calls end is fixed per run in `Outcomes`.

`step_onTop` says what a worker does to the route table: its rows stay on top of what it found.
`step_stop` says which steps write the stop flag.
-/

namespace RickyNet

/-- `Tun`: the adapter. -/
structure Tun where
  luid : UInt64
  /-- created by this run and not found open: closing it takes the routes on it away -/
  created : Bool
deriving DecidableEq

/-- How the calls of one `run_connect` end. -/
structure Outcomes where
  tunUp : Except IoError Tun
  net : Net
  bestRoute : Except IoError BestHop
  createCarveOut : Option IoError
  createLow : Option IoError
  createHigh : Option IoError
  cloneRead : Option IoError
  cloneWrite : Option IoError

/-- Nothing fails. -/
def Outcomes.smooth (net : Net) (tun : Tun) (hop : BestHop) : Outcomes :=
  ⟨.ok tun, net, .ok hop, none, none, none, none, none⟩

/-- What the thread does next. -/
inductive Pc
  | clearStop
  | resetCounters
  | setConnecting
  | tunUp
  | dial
  /-- `Routes::install`: the /32, the two halves, and the way back -/
  | carveOut
  | low
  | high
  | rollback (e : IoError)
  | setConnected
  | cloneRead
  | cloneWrite
  | spawnPumps
  /-- the pump loop: its two conditions, and the sleep -/
  | checkStop
  | checkAlive
  | sleep
  | stopSession
  | shutdown
  | joinA
  | joinB
  | remove
  /-- `connect_inner` ends: its locals are dropped -/
  | dropTun (result : Except IoError Unit)
  /-- `set_error` -/
  | setErrorText (e : IoError)
  | setErrorState
  /-- the final check -/
  | readState
  | setDisconnected
  | finished

structure Worker where
  args : Args
  out : Outcomes
  pc : Pc
  /-- the adapter, once it is up -/
  tun : Tun
  carve : Option Ipv4Addr
  /-- the rows of `Routes` -/
  rows : List Row
  /-- the rows of a `Routes` that was dropped and not removed -/
  leaked : List Row
  /-- the pump threads are running -/
  pumpA : Bool
  pumpB : Bool
  alive : Bool

/-- The two pump threads: Wintun to transport, transport to Wintun. -/
inductive Pump
  | a
  | b
deriving DecidableEq

/-- The carve-out of `connect_inner`. -/
def carveOut (args : Args) : Option Ipv4Addr :=
  match args.transport with
  | .wifi => args.phoneIp.bind parseIpv4
  | .usb => none

namespace Worker

def spawn (args : Args) (out : Outcomes) : Worker :=
  ⟨args, out, .clearStop, ⟨0, false⟩, none, [], [], false, false, false⟩

/-- The first part of `Routes::install`; failures are logged. -/
def tryCarveOut (w : Worker) (table : RouteTable) : Option (Row × RouteTable) :=
  match w.carve with
  | none => none
  | some ip =>
    match w.out.bestRoute with
    | .error _ => none
    | .ok hop =>
      match createIpForwardEntry2 table (carveOutRow hop ip) w.out.createCarveOut with
      | .error _ => none
      | .ok table => some (carveOutRow hop ip, table)

/-- `connect_inner` returns early with the routes up: `Routes` is dropped. -/
def abandon (w : Worker) (e : IoError) : Worker :=
  { w with pc := .dropTun (.error e), rows := [], leaked := w.rows ++ w.leaked }

/-- Closing the adapter. -/
def closeTun (w : Worker) (table : RouteTable) : List Row × RouteTable :=
  if w.tun.created then
    (w.leaked.filter fun r => !(r.luid == w.tun.luid),
      table.filter fun r => ¬ (r ∈ w.leaked ∧ r.luid == w.tun.luid))
  else (w.leaked, table)

/-- The thread's next step. -/
def step (w : Worker) (sh : Shared) (table : RouteTable) : Option (Worker × Shared × RouteTable) :=
  match w.pc with
  | .clearStop => some ({ w with pc := .resetCounters }, sh.clearStop, table)
  | .resetCounters => some ({ w with pc := .setConnecting }, sh.resetCounters, table)
  | .setConnecting => some ({ w with pc := .tunUp }, sh.setState .connecting, table)
  | .tunUp =>
    match w.out.tunUp with
    | .ok tun => some ({ w with pc := .dial, tun := tun }, sh, table)
    | .error e => some ({ w with pc := .setErrorText e }, sh, table)
  | .dial =>
    match w.out.net.connect w.args.transport w.args.phoneIp w.args.port with
    | .ok _ => some ({ w with pc := .carveOut, carve := RickyNet.carveOut w.args }, sh, table)
    | .error e => some ({ w with pc := .dropTun (.error e) }, sh, table)
  | .carveOut =>
    match w.tryCarveOut table with
    | some (row, table) => some ({ w with pc := .low, rows := w.rows ++ [row] }, sh, table)
    | none => some ({ w with pc := .low }, sh, table)
  | .low =>
    match createIpForwardEntry2 table (lowRow w.tun.luid) w.out.createLow with
    | .ok table => some ({ w with pc := .high, rows := w.rows ++ [lowRow w.tun.luid] }, sh, table)
    | .error e => some ({ w with pc := .rollback e }, sh, table)
  | .high =>
    match createIpForwardEntry2 table (highRow w.tun.luid) w.out.createHigh with
    | .ok table =>
      some ({ w with pc := .setConnected, rows := w.rows ++ [highRow w.tun.luid] }, sh, table)
    | .error e => some ({ w with pc := .rollback e }, sh, table)
  | .rollback e =>
    match w.rows with
    | row :: rows => some ({ w with rows := rows }, sh, deleteIpForwardEntry2 table row)
    | [] => some ({ w with pc := .dropTun (.error e) }, sh, table)
  | .setConnected => some ({ w with pc := .cloneRead }, sh.setState .connected, table)
  | .cloneRead =>
    match w.out.cloneRead with
    | none => some ({ w with pc := .cloneWrite }, sh, table)
    | some e => some (w.abandon e, sh, table)
  | .cloneWrite =>
    match w.out.cloneWrite with
    | none => some ({ w with pc := .spawnPumps }, sh, table)
    | some e => some (w.abandon e, sh, table)
  | .spawnPumps =>
    -- Two spawns.  The worker reads `alive` only after the second, and what thread A has done by then it
    -- does here right after the step.
    some ({ w with pc := .checkStop, pumpA := true, pumpB := true, alive := true }, sh, table)
  | .checkStop => some ({ w with pc := if sh.stop then .stopSession else .checkAlive }, sh, table)
  | .checkAlive => some ({ w with pc := if w.alive then .sleep else .stopSession }, sh, table)
  | .sleep => some ({ w with pc := .checkStop }, sh, table)
  | .stopSession => some ({ w with pc := .shutdown }, sh, table)
  | .shutdown => some ({ w with pc := .joinA }, sh, table)
  | .joinA => if w.pumpA then none else some ({ w with pc := .joinB }, sh, table)
  | .joinB => if w.pumpB then none else some ({ w with pc := .remove }, sh, table)
  | .remove =>
    match w.rows with
    | row :: rows => some ({ w with rows := rows }, sh, deleteIpForwardEntry2 table row)
    | [] => some ({ w with pc := .dropTun (.ok ()) }, sh, table)
  | .dropTun result =>
    let (leaked, table) := w.closeTun table
    match result with
    | .ok () => some ({ w with pc := .readState, leaked := leaked }, sh, table)
    | .error e => some ({ w with pc := .setErrorText e, leaked := leaked }, sh, table)
  | .setErrorText e => some ({ w with pc := .setErrorState }, sh.setErrorText e.msg, table)
  | .setErrorState => some ({ w with pc := .readState }, sh.setState .error, table)
  | .readState =>
    some ({ w with pc := if sh.state = .error then .finished else .setDisconnected }, sh, table)
  | .setDisconnected => some ({ w with pc := .finished }, sh.setState .disconnected, table)
  | .finished => none

/-- A pump thread ends, for whatever reason. -/
def pumpEnds (w : Worker) : Pump → Worker
  | .a => { w with pumpA := false, alive := false }
  | .b => { w with pumpB := false, alive := false }

/-- The pump thread is running. -/
def running (w : Worker) : Pump → Bool
  | .a => w.pumpA
  | .b => w.pumpB

/-- `run_connect` is executing. -/
def executing (w : Worker) : Bool :=
  match w.pc with
  | .finished => false
  | _ => true

/-- The rows that this worker has created and that have not been removed. -/
def holds (w : Worker) : List Row := w.rows ++ w.leaked

@[simp] theorem pumpEnds_holds (w : Worker) (p : Pump) : (w.pumpEnds p).holds = w.holds := by
  cases p <;> rfl

@[simp] theorem pumpEnds_pc (w : Worker) (p : Pump) : (w.pumpEnds p).pc = w.pc := by
  cases p <;> rfl

@[simp] theorem pumpEnds_executing (w : Worker) (p : Pump) :
    (w.pumpEnds p).executing = w.executing := by
  cases p <;> rfl

/-! ## What a step does to the route table -/

section
variable {w w' : Worker} {sh sh' : Shared} {table table' : RouteTable}

/-- A carve-out that succeeds is one more row. -/
theorem tryCarveOut_some {row : Row} (h : w.tryCarveOut table = some (row, table')) :
    ∃ ip hop, w.carve = some ip ∧ w.out.bestRoute = .ok hop ∧ row = carveOutRow hop ip ∧
      createIpForwardEntry2 table row w.out.createCarveOut = .ok table' := by
  unfold tryCarveOut at h
  split at h
  · cases h
  next ip hip =>
  split at h
  · cases h
  next hop hhop =>
  split at h
  · cases h
  next t ht =>
  cases h
  exact ⟨ip, hop, hip, hhop, rfl, ht⟩

variable {base : RouteTable} {others : List Row}

/-- A row that is created goes on top, behind the other rows of its worker. -/
theorem onTop_create {row : Row} {rows leaked : List Row} {refusal : Option IoError}
    (ho : KeyedTable.OnTop Row.key base table ((rows ++ leaked) ++ others))
    (h : createIpForwardEntry2 table row refusal = .ok table') :
    KeyedTable.OnTop Row.key base table' (((rows ++ [row]) ++ leaked) ++ others) := by
  obtain ⟨hf, -, rfl⟩ := (create_ok_iff _ _ _ _).1 h
  refine (ho.create hf).perm ?_
  rw [List.append_assoc, List.append_assoc, List.append_assoc, List.singleton_append]
  exact List.perm_middle.symm

/-- A row that its worker removes is its first. -/
theorem onTop_delete {row : Row} {rows leaked : List Row}
    (ho : KeyedTable.OnTop Row.key base table ((row :: rows ++ leaked) ++ others)) :
    KeyedTable.OnTop Row.key base (deleteIpForwardEntry2 table row) ((rows ++ leaked) ++ others) := by
  rw [List.cons_append, List.cons_append] at ho
  exact ho.remove

/-- Closing the adapter takes away what was left on it, and nothing else. -/
theorem onTop_closeTun (ho : KeyedTable.OnTop Row.key base table (w.holds ++ others)) :
    KeyedTable.OnTop Row.key base (w.closeTun table).2 (w.rows ++ (w.closeTun table).1 ++ others) := by
  have hperm : ∀ leaked : List Row, (w.rows ++ leaked ++ others).Perm (leaked ++ (w.rows ++ others)) := by
    intro leaked
    rw [← List.append_assoc]
    exact List.Perm.append_right others List.perm_append_comm
  have h := ho.perm (hperm w.leaked)
  unfold closeTun
  by_cases hc : w.tun.created
  · rw [if_pos hc]
    exact (h.filter fun r => r.luid == w.tun.luid).perm (hperm _).symm
  · rw [if_neg hc]
    exact ho

/-- **A worker's rows stay on top of what it found.**  Whatever it does, the route table is the
table it found, the rows of others, and the rows it holds. -/
theorem step_onTop (h : w.step sh table = some (w', sh', table'))
    (ho : KeyedTable.OnTop Row.key base table (w.holds ++ others)) :
    KeyedTable.OnTop Row.key base table' (w'.holds ++ others) := by
  cases hpc : w.pc with
  | carveOut =>
    simp only [step, hpc] at h
    split at h
    · next row t ht =>
      cases h
      obtain ⟨ip, hop, -, -, -, hc⟩ := tryCarveOut_some ht
      exact onTop_create ho hc
    · cases h; exact ho
  | low =>
    simp only [step, hpc] at h
    split at h
    · next t ht => cases h; exact onTop_create ho ht
    · cases h; exact ho
  | high =>
    simp only [step, hpc] at h
    split at h
    · next t ht => cases h; exact onTop_create ho ht
    · cases h; exact ho
  | rollback e =>
    simp only [step, hpc] at h
    split at h
    · next row rows hr =>
      cases h
      unfold holds at ho
      rw [hr] at ho
      exact onTop_delete ho
    · cases h; exact ho
  | remove =>
    simp only [step, hpc] at h
    split at h
    · next row rows hr =>
      cases h
      unfold holds at ho
      rw [hr] at ho
      exact onTop_delete ho
    · cases h; exact ho
  | dropTun result =>
    have hc := onTop_closeTun ho
    cases result with
    | ok _ => simp only [step, hpc] at h; cases h; exact hc
    | error e => simp only [step, hpc] at h; cases h; exact hc
  | _ =>
    -- every other step leaves the table and the rows that the worker holds alone
    simp only [step, hpc] at h
    (repeat' split at h) <;> cases h <;> exact ho

/-! ## What a step does to the stop flag -/

/-- Only the first step of `run_connect` writes the stop flag, and it comes once. -/
theorem step_stop (h : w.step sh table = some (w', sh', table')) :
    w'.pc ≠ .clearStop ∧
      (w.pc = .clearStop ∧ sh'.stop = false ∨ w.pc ≠ .clearStop ∧ sh'.stop = sh.stop) := by
  cases hpc : w.pc with
  | clearStop =>
    simp only [step, hpc] at h
    cases h
    exact ⟨by simp, Or.inl ⟨rfl, rfl⟩⟩
  | _ =>
    simp only [step, hpc] at h
    (repeat' split at h) <;> cases h <;> simp [*, abandon]

theorem step_finished (hf : w.executing = false) : w.step sh table = none := by
  unfold executing at hf
  split at hf
  · next hpc => simp only [step, hpc]
  · cases hf

end

end Worker

end RickyNet
