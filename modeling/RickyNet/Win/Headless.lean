import RickyNet.Lib.Progress
import RickyNet.Win.Recovery
import RickyNet.Win.Unblock

/-!
# How a headless run ends

`connectInner` is `connect_inner` read from top to bottom: the calls in their order, `?` after each of
those that can fail, and on each way out what is dropped there.  The worker thread does the same one
step at a time, with stop requests and the ends of the pump threads in between (`run_asWritten`),
so that a finished `run_connect` has left the route table and the state of `connectInner`, which are all
that `run_headless` goes by.

A run that is to fail does so by itself (`ranked_failing`): it does not get to the pump loop.
-/

namespace RickyNet

/-- `drop(tun)`, with the rows of a `Routes` that has been dropped and not removed. -/
def Tun.close (tun : Tun) (leaked : List Row) (table : RouteTable) : RouteTable :=
  if tun.created then table.filter fun r => ¬ (r ∈ leaked ∧ r.luid == tun.luid) else table

/-- `connect_inner`, and the route table it leaves. -/
def connectInner (args : Args) (out : Outcomes) (table : RouteTable) :
    Except IoError Unit × RouteTable :=
  match out.tunUp with
  | .error e => (.error e, table)
  | .ok tun =>
    match out.net.connect args.transport args.phoneIp args.port with
    | .error e => (.error e, tun.close [] table)
    | .ok _ =>
      match Routes.install tun.luid (carveOut args) out.install (.start table) with
      | (.error e, log) => (.error e, tun.close [] log.table)
      | (.ok routes, log) =>
        match out.cloneRead with
        | some e => (.error e, tun.close routes.rows log.table)
        | none =>
          match out.cloneWrite with
          | some e => (.error e, tun.close routes.rows log.table)
          | none => (.ok (), tun.close [] (routes.remove log).table)

/-- What `run_headless` ends with: the status of the process, and its last line. -/
def runHeadless (sh : Shared) : Nat × String :=
  if sh.state = .error then (1, "exited with error: " ++ sh.error) else (0, "stopped cleanly.")

/-- The end of a headless process whose `connect_inner` returns `result`. -/
def headlessEnd : Except IoError Unit → Nat × String
  | .ok () => (0, "stopped cleanly.")
  | .error e => (1, "exited with error: " ++ e.msg)

theorem Tun.close_nil (tun : Tun) (table : RouteTable) : tun.close [] table = table := by
  unfold Tun.close
  split
  · exact Finset.filter_true_of_mem fun r _ => by simp
  · rfl

theorem Worker.closeTun_table (w : Worker) (table : RouteTable) :
    (w.closeTun table).2 = w.tun.close w.leaked table := by
  unfold Worker.closeTun Tun.close
  split <;> rfl

namespace Routes

variable {luid : UInt64} {carve : Option Ipv4Addr} {calls : InstallCalls} {log : RouteLog} {e : IoError}
  {table table' : RouteTable}

/-- The lower half is refused. -/
theorem install_low_refused
    (h : createIpForwardEntry2 (pin carve calls log).2.table (lowRow luid) calls.createLow = .error e) :
    (install luid carve calls log).1 = .error e := by
  simp only [install, RouteLog.create, h]

/-- The upper half is refused. -/
theorem install_high_refused
    (hl : createIpForwardEntry2 (pin carve calls log).2.table (lowRow luid) calls.createLow = .ok table)
    (hh : createIpForwardEntry2 table (highRow luid) calls.createHigh = .error e) :
    (install luid carve calls log).1 = .error e := by
  simp only [install, RouteLog.create, hl, hh]

/-- Both halves are created. -/
theorem install_both
    (hl : createIpForwardEntry2 (pin carve calls log).2.table (lowRow luid) calls.createLow = .ok table)
    (hh : createIpForwardEntry2 table (highRow luid) calls.createHigh = .ok table') : ∃ past,
    install luid carve calls log =
      (.ok ⟨(pin carve calls log).1 ++ [lowRow luid] ++ [highRow luid]⟩, ⟨table', past⟩) := by
  refine ⟨RouteLog.tables ⟨table, (pin carve calls log).2.tables⟩, ?_⟩
  simp only [install, RouteLog.create, hl, hh]

end Routes

section
variable {args : Args} {out : Outcomes} {tun : Tun} {base : RouteTable}

/-! ## `connectInner`, as far as a call is known to go -/

theorem connectInner_dialled (hd : Dialled tun args out) :
    connectInner args out base =
      match Routes.install tun.luid (carveOut args) out.install (.start base) with
      | (.error e, log) => (.error e, tun.close [] log.table)
      | (.ok routes, log) =>
        match out.cloneRead with
        | some e => (.error e, tun.close routes.rows log.table)
        | none =>
          match out.cloneWrite with
          | some e => (.error e, tun.close routes.rows log.table)
          | none => (.ok (), tun.close [] (routes.remove log).table) := by
  obtain ⟨hup, stream, hs⟩ := hd
  unfold connectInner
  simp only [hup, hs]

/-- An installation that fails leaves nothing. -/
theorem connectInner_refused (hd : Dialled tun args out) {e : IoError}
    (hi : (Routes.install tun.luid (carveOut args) out.install (.start base)).1 = .error e) :
    connectInner args out base = (.error e, base) := by
  have htop := Routes.install_onTop tun.luid (carveOut args) out.install (.start base)
  rw [connectInner_dialled hd]
  cases hins : Routes.install tun.luid (carveOut args) out.install (.start base) with
  | mk result log =>
  rw [hins] at htop hi
  simp only at hi
  subst hi
  simp only [Tun.close_nil]
  rw [show log.table = base from htop]

variable {routes : Routes} {log : RouteLog}

/-- A `try_clone` that fails drops `Routes`. -/
theorem connectInner_dropped (hd : Dialled tun args out) {e : IoError}
    (hi : Routes.install tun.luid (carveOut args) out.install (.start base) = (.ok routes, log))
    (hc : out.cloneRead = some e ∨ out.cloneRead = none ∧ out.cloneWrite = some e) :
    connectInner args out base = (.error e, tun.close routes.rows log.table) := by
  rw [connectInner_dialled hd, hi]
  rcases hc with hc | ⟨hr, hc⟩
  · simp only [hc]
  · simp only [hr, hc]

/-- A session that gets to its pump loop takes its rows back. -/
theorem connectInner_ok (hd : Dialled tun args out)
    (hi : Routes.install tun.luid (carveOut args) out.install (.start base) = (.ok routes, log))
    (hr : out.cloneRead = none) (hw : out.cloneWrite = none) :
    connectInner args out base = (.ok (), base) := by
  have htop := Routes.install_onTop tun.luid (carveOut args) out.install (.start base)
  rw [hi] at htop
  rw [connectInner_dialled hd, hi]
  simp only [hr, hw, Tun.close_nil]
  rw [Routes.remove_onTop log htop]
  rfl

end

namespace Worker

/-- The worker has come as far in `connectInner` as it is in its own code. -/
def AsWritten (base : RouteTable) (w : Worker) (sh : Shared) (table : RouteTable) : Prop :=
  let pinned := Routes.pin (RickyNet.carveOut w.args) w.out.install (.start base)
  let inner := connectInner w.args w.out base
  match w.pc with
  | .clearStop | .resetCounters | .setConnecting | .tunUp => w.rows = [] ∧ w.leaked = [] ∧ table = base
  | .dial => w.rows = [] ∧ w.leaked = [] ∧ table = base ∧ w.out.tunUp = .ok w.tun
  | .carveOut => w.rows = [] ∧ w.leaked = [] ∧ table = base ∧ Dialled w.tun w.args w.out ∧
      w.carve = RickyNet.carveOut w.args
  | .low => w.leaked = [] ∧ Dialled w.tun w.args w.out ∧ w.rows = pinned.1 ∧ table = pinned.2.table
  | .high => w.leaked = [] ∧ Dialled w.tun w.args w.out ∧ w.rows = pinned.1 ++ [lowRow w.tun.luid] ∧
      createIpForwardEntry2 pinned.2.table (lowRow w.tun.luid) w.out.createLow = .ok table
  | .rollback e => w.leaked = [] ∧ inner = (.error e, base)
  | .setConnected => w.leaked = [] ∧ Dialled w.tun w.args w.out ∧ ∃ past,
      Routes.install w.tun.luid (RickyNet.carveOut w.args) w.out.install (.start base) =
        (.ok ⟨w.rows⟩, ⟨table, past⟩)
  | .cloneRead => w.leaked = [] ∧ Dialled w.tun w.args w.out ∧ (∃ past,
      Routes.install w.tun.luid (RickyNet.carveOut w.args) w.out.install (.start base) =
        (.ok ⟨w.rows⟩, ⟨table, past⟩)) ∧ sh.state = .connected
  | .cloneWrite => w.leaked = [] ∧ Dialled w.tun w.args w.out ∧ (∃ past,
      Routes.install w.tun.luid (RickyNet.carveOut w.args) w.out.install (.start base) =
        (.ok ⟨w.rows⟩, ⟨table, past⟩)) ∧ sh.state = .connected ∧ w.out.cloneRead = none
  | .spawnPumps | .checkStop | .checkAlive | .sleep | .stopSession | .shutdown | .joinA | .joinB
  | .remove => w.leaked = [] ∧ inner = (.ok (), base) ∧ sh.state = .connected
  | .dropTun result => inner = (result, w.tun.close w.leaked table) ∧
      (result = .ok () → sh.state = .connected)
  | .setErrorText e => inner = (.error e, table)
  | .setErrorState => ∃ e, inner = (.error e, table) ∧ sh.error = e.msg
  | .readState => inner = (.ok (), table) ∧ sh.state = .connected ∨
      ∃ e, inner = (.error e, table) ∧ sh.state = .error ∧ sh.error = e.msg
  | .setDisconnected => inner = (.ok (), table)
  | .finished => inner.2 = table ∧ runHeadless sh = headlessEnd inner.1

theorem asWritten_spawn (args : Args) (out : Outcomes) (base : RouteTable) (sh : Shared) :
    (spawn args out).AsWritten base sh base := ⟨rfl, rfl, rfl⟩

theorem AsWritten.pumpEnds {base : RouteTable} {w : Worker} {sh : Shared} {table : RouteTable}
    (h : w.AsWritten base sh table) (p : Pump) : (w.pumpEnds p).AsWritten base sh table := by
  cases p <;> exact h

theorem AsWritten.of_same {base : RouteTable} {w : Worker} {sh sh' : Shared} {table : RouteTable}
    (h : w.AsWritten base sh table) (hs : sh'.state = sh.state) (he : sh'.error = sh.error) :
    w.AsWritten base sh' table := by
  unfold AsWritten at h ⊢
  unfold runHeadless at h ⊢
  rw [hs, he]
  exact h

section
variable {base : RouteTable} {w w' : Worker} {sh sh' : Shared} {table table' : RouteTable}

/-- The carve-out is the one of `pin`. -/
theorem asWritten_carveOut (hpc : w.pc = .carveOut) (h : w.AsWritten base sh table)
    (hs : w.step sh table = some (w', sh', table')) : w'.AsWritten base sh' table' := by
  unfold AsWritten at h
  simp only [hpc] at h
  obtain ⟨hrows, hleaked, rfl, hd, hcarve⟩ := h
  have hstep := Session.step_carveOut (s := ⟨w, sh, table, false⟩) hpc hrows
  simp only [Session.step, hs] at hstep
  cases hstep
  rw [hcarve]
  exact ⟨hleaked, hd, rfl, rfl⟩

theorem asWritten_low (hpc : w.pc = .low) (h : w.AsWritten base sh table)
    (hs : w.step sh table = some (w', sh', table')) : w'.AsWritten base sh' table' := by
  unfold AsWritten at h
  simp only [hpc] at h
  obtain ⟨hleaked, hd, hrows, htable⟩ := h
  simp only [step, hpc] at hs
  split at hs
  · next t ht =>
    cases hs
    exact ⟨hleaked, hd, by rw [hrows], by rw [← htable]; exact ht⟩
  · next e he =>
    cases hs
    rw [htable] at he
    exact ⟨hleaked, connectInner_refused hd (Routes.install_low_refused he)⟩

theorem asWritten_high (hpc : w.pc = .high) (h : w.AsWritten base sh table)
    (hs : w.step sh table = some (w', sh', table')) : w'.AsWritten base sh' table' := by
  unfold AsWritten at h
  simp only [hpc] at h
  obtain ⟨hleaked, hd, hrows, hlow⟩ := h
  simp only [step, hpc] at hs
  split at hs
  · next t ht =>
    cases hs
    refine ⟨hleaked, hd, ?_⟩
    rw [hrows]
    exact Routes.install_both hlow ht
  · next e he =>
    cases hs
    exact ⟨hleaked, connectInner_refused hd (Routes.install_high_refused hlow he)⟩

/-- `Routes` is dropped: what is left of it is what is left of it in `connectInner`. -/
theorem asWritten_abandon {e : IoError} {past : List RouteTable} (hleaked : w.leaked = [])
    (hd : Dialled w.tun w.args w.out)
    (hi : Routes.install w.tun.luid (RickyNet.carveOut w.args) w.out.install (.start base) =
      (.ok ⟨w.rows⟩, ⟨table, past⟩))
    (hc : w.out.cloneRead = some e ∨ w.out.cloneRead = none ∧ w.out.cloneWrite = some e) :
    (w.abandon e).AsWritten base sh table := by
  refine ⟨?_, fun h => by cases h⟩
  show connectInner w.args w.out base = (.error e, w.tun.close (w.rows ++ w.leaked) table)
  rw [connectInner_dropped hd hi hc, hleaked, List.append_nil]

/-- The adapter, and the call of the phone. -/
theorem asWritten_setUp (hpc : w.pc = .tunUp ∨ w.pc = .dial) (h : w.AsWritten base sh table)
    (hs : w.step sh table = some (w', sh', table')) : w'.AsWritten base sh' table' := by
  unfold AsWritten at h
  rcases hpc with hpc | hpc
  · simp only [hpc] at h
    obtain ⟨hrows, hleaked, rfl⟩ := h
    simp only [step, hpc] at hs
    split at hs
    · next tun ht =>
      cases hs
      exact ⟨hrows, hleaked, rfl, ht⟩
    · next e he =>
      cases hs
      show connectInner w.args w.out table = _
      unfold connectInner
      rw [he]
  · simp only [hpc] at h
    obtain ⟨hrows, hleaked, rfl, hup⟩ := h
    simp only [step, hpc] at hs
    split at hs
    · next stream hc =>
      cases hs
      exact ⟨hrows, hleaked, rfl, ⟨hup, stream, hc⟩, rfl⟩
    · next e he =>
      cases hs
      refine ⟨?_, fun h => by cases h⟩
      show connectInner w.args w.out table = (.error e, w.tun.close w.leaked table)
      unfold connectInner
      simp only [hup, he, hleaked]

/-- The state and the two clones of the stream, between the installation and the pumps. -/
theorem asWritten_clone (hpc : w.pc = .setConnected ∨ w.pc = .cloneRead ∨ w.pc = .cloneWrite)
    (h : w.AsWritten base sh table) (hs : w.step sh table = some (w', sh', table')) :
    w'.AsWritten base sh' table' := by
  unfold AsWritten at h
  rcases hpc with hpc | hpc | hpc
  · simp only [hpc] at h
    obtain ⟨hleaked, hd, hi⟩ := h
    simp only [step, hpc] at hs
    cases hs
    exact ⟨hleaked, hd, hi, rfl⟩
  · simp only [hpc] at h
    obtain ⟨hleaked, hd, ⟨past, hi⟩, hstate⟩ := h
    simp only [step, hpc] at hs
    split at hs
    · next hc =>
      cases hs
      exact ⟨hleaked, hd, ⟨past, hi⟩, hstate, hc⟩
    · next e hc =>
      cases hs
      exact asWritten_abandon hleaked hd hi (Or.inl hc)
  · simp only [hpc] at h
    obtain ⟨hleaked, hd, ⟨past, hi⟩, hstate, hr⟩ := h
    simp only [step, hpc] at hs
    split at hs
    · next hc =>
      cases hs
      exact ⟨hleaked, connectInner_ok hd hi hr hc, hstate⟩
    · next e hc =>
      cases hs
      exact asWritten_abandon hleaked hd hi (Or.inr ⟨hr, hc⟩)

/-- From the spawn of the pumps to their joins nothing happens to the routes. -/
theorem asWritten_pumping (hpc : w.pc = .spawnPumps ∨ w.pc = .checkStop ∨ w.pc = .checkAlive ∨ w.pc = .sleep ∨
    w.pc = .stopSession ∨ w.pc = .shutdown ∨ w.pc = .joinA ∨ w.pc = .joinB) (h : w.AsWritten base sh table)
    (hs : w.step sh table = some (w', sh', table')) : w'.AsWritten base sh' table' := by
  unfold AsWritten at h
  rcases hpc with hpc | hpc | hpc | hpc | hpc | hpc | hpc | hpc <;> simp only [hpc] at h <;>
    simp only [step, hpc] at hs
  · cases hs
    exact h
  · cases hs
    cases sh.stop <;> exact h
  · cases hs
    cases w.alive <;> exact h
  · cases hs
    exact h
  · cases hs
    exact h
  · cases hs
    exact h
  · split at hs
    · cases hs
    · cases hs
      exact h
  · split at hs
    · cases hs
    · cases hs
      exact h

/-- Once it has taken its rows back, the table is the one it has found. -/
theorem table_of_emptied (ho : KeyedTable.OnTop Row.key base table w.holds) (hrows : w.rows = [])
    (hleaked : w.leaked = []) : table = base :=
  ho.eq_base_iff.2 (by unfold holds; rw [hrows, hleaked]; rfl)

/-- The rows are taken back, from a failed installation or at the end of the session. -/
theorem asWritten_takeBack (hpc : (∃ e, w.pc = .rollback e) ∨ w.pc = .remove) (h : w.AsWritten base sh table)
    (ho : KeyedTable.OnTop Row.key base table w.holds)
    (hs : w.step sh table = some (w', sh', table')) : w'.AsWritten base sh' table' := by
  unfold AsWritten at h
  rcases hpc with ⟨e, hpc⟩ | hpc
  · simp only [hpc] at h
    obtain ⟨hleaked, hinner⟩ := h
    simp only [step, hpc] at hs
    split at hs
    · cases hs
      unfold AsWritten
      simp only
      exact ⟨hleaked, hinner⟩
    · next hrows =>
      cases hs
      refine ⟨?_, fun h => by cases h⟩
      show connectInner w.args w.out base = (.error e, w.tun.close w.leaked table)
      rw [hinner, hleaked, Tun.close_nil, table_of_emptied ho hrows hleaked]
  · simp only [hpc] at h
    obtain ⟨hleaked, hinner, hstate⟩ := h
    simp only [step, hpc] at hs
    split at hs
    · cases hs
      unfold AsWritten
      simp only
      exact ⟨hleaked, hinner, hstate⟩
    · next hrows =>
      cases hs
      refine ⟨?_, fun _ => hstate⟩
      show connectInner w.args w.out base = (.ok (), w.tun.close w.leaked table)
      rw [hinner, hleaked, Tun.close_nil, table_of_emptied ho hrows hleaked]

/-- The adapter is closed: from here on the table is the one that `connectInner` leaves. -/
theorem asWritten_dropTun {result : Except IoError Unit} (hpc : w.pc = .dropTun result)
    (h : w.AsWritten base sh table) (hs : w.step sh table = some (w', sh', table')) :
    w'.AsWritten base sh' table' := by
  unfold AsWritten at h
  simp only [hpc] at h
  obtain ⟨hinner, hstate⟩ := h
  rw [← closeTun_table] at hinner
  cases result with
  | ok _ =>
    simp only [step, hpc] at hs
    cases hs
    exact Or.inl ⟨hinner, hstate rfl⟩
  | error e =>
    simp only [step, hpc] at hs
    cases hs
    exact hinner

/-- What `run_connect` reports of an error. -/
theorem asWritten_report (hpc : (∃ e, w.pc = .setErrorText e) ∨ w.pc = .setErrorState)
    (h : w.AsWritten base sh table) (hs : w.step sh table = some (w', sh', table')) :
    w'.AsWritten base sh' table' := by
  unfold AsWritten at h
  rcases hpc with ⟨e, hpc⟩ | hpc
  · simp only [hpc] at h
    simp only [step, hpc] at hs
    cases hs
    exact ⟨e, h, rfl⟩
  · simp only [hpc] at h
    obtain ⟨e, hinner, htext⟩ := h
    simp only [step, hpc] at hs
    cases hs
    exact Or.inr ⟨e, hinner, rfl, htext⟩

/-- The end of `run_connect`: an error stays, and anything else becomes Disconnected. -/
theorem asWritten_end (hpc : w.pc = .readState ∨ w.pc = .setDisconnected) (h : w.AsWritten base sh table)
    (hs : w.step sh table = some (w', sh', table')) : w'.AsWritten base sh' table' := by
  unfold AsWritten at h
  rcases hpc with hpc | hpc
  · simp only [hpc] at h
    simp only [step, hpc] at hs
    cases hs
    rcases h with ⟨hinner, hstate⟩ | ⟨e, hinner, hstate, htext⟩
    · rw [hstate]
      exact hinner
    · rw [hstate]
      show _ ∧ _
      rw [show connectInner w.args w.out base = (.error e, table) from hinner]
      refine ⟨rfl, ?_⟩
      unfold runHeadless headlessEnd
      rw [if_pos hstate, htext]
  · simp only [hpc] at h
    simp only [step, hpc] at hs
    cases hs
    show _ ∧ _
    rw [show connectInner w.args w.out base = (.ok (), table) from h]
    exact ⟨rfl, rfl⟩

theorem asWritten_step (h : w.AsWritten base sh table)
    (ho : KeyedTable.OnTop Row.key base table w.holds)
    (hs : w.step sh table = some (w', sh', table')) : w'.AsWritten base sh' table' := by
  cases hpc : w.pc with
  | tunUp | dial => exact asWritten_setUp (by simp [hpc]) h hs
  | carveOut => exact asWritten_carveOut hpc h hs
  | low => exact asWritten_low hpc h hs
  | high => exact asWritten_high hpc h hs
  | setConnected | cloneRead | cloneWrite => exact asWritten_clone (by simp [hpc]) h hs
  | spawnPumps | checkStop | checkAlive | sleep | stopSession | shutdown | joinA | joinB =>
    exact asWritten_pumping (by simp [hpc]) h hs
  | rollback e => exact asWritten_takeBack (Or.inl ⟨e, hpc⟩) h ho hs
  | remove => exact asWritten_takeBack (Or.inr hpc) h ho hs
  | dropTun result => exact asWritten_dropTun hpc h hs
  | setErrorText e => exact asWritten_report (Or.inl ⟨e, hpc⟩) h hs
  | setErrorState => exact asWritten_report (Or.inr hpc) h hs
  | readState | setDisconnected => exact asWritten_end (by simp [hpc]) h hs
  | clearStop | resetCounters | setConnecting =>
    -- the shared state is made ready; `connect_inner` has not been called yet
    unfold AsWritten at h
    simp only [hpc] at h
    simp only [step, hpc] at hs
    cases hs
    exact h
  | finished =>
    simp only [step, hpc] at hs
    cases hs

/-- Only the stop flag keeps the worker in its loop. -/
theorem stage_step (hs : w.step sh table = some (w', sh', table')) (hloop : w.pc ≠ .checkStop) :
    w'.stage < w.stage := by
  cases hpc : w.pc with
  | checkStop => exact absurd hpc hloop
  | checkAlive =>
    simp only [step, hpc] at hs
    cases hs
    cases ha : w.alive <;> simp [stage, hpc, Pc.stage, ha]
  | carveOut =>
    simp only [step, hpc] at hs
    split at hs <;> cases hs <;> simp [stage, hpc, Pc.stage]
    omega
  | _ =>
    simp only [step, hpc] at hs
    (repeat' split at hs) <;> cases hs <;> simp_all [stage, Pc.stage, abandon]
    all_goals omega

end

end Worker

namespace Session

/-- The worker has come as far in `connectInner` as it is in its own code, and `args` and `out` are
those of the run. -/
structure AsWritten (base : RouteTable) (args : Args) (out : Outcomes) (s : Session) : Prop
    extends Inv base args out s where
  asWritten : s.worker.AsWritten base s.shared s.table

theorem asWritten_step {base : RouteTable} {args : Args} {out : Outcomes} (s : Session) (a : Act)
    (s' : Session) (hs : s.AsWritten base args out) (h : s.step a = some s') :
    s'.AsWritten base args out := by
  refine ⟨step_inv s a s' hs.toInv h, ?_⟩
  cases a with
  | work => exact Worker.asWritten_step hs.asWritten hs.onTop (step_work h).1
  | requestStop =>
    cases h
    exact hs.asWritten.of_same rfl rfl
  | pumpEnds p =>
    rw [step_pumpEnds h]
    exact hs.asWritten.pumpEnds p

theorem run_asWritten {args : Args} {out : Outcomes} {shared : Shared} {base : RouteTable}
    {acts : List Act} {s : Session}
    (h : Runs.exec step (.start args out shared base) acts = some s) : s.AsWritten base args out :=
  Runs.exec_inv step (AsWritten base args out) asWritten_step
    ⟨⟨KeyedTable.OnTop.nil, Worker.path_spawn args out, rfl, rfl⟩,
      Worker.asWritten_spawn args out base shared⟩ h

/-- A worker that is to fail never gets to its pump loop. -/
theorem AsWritten.not_pumping {base : RouteTable} {args : Args} {out : Outcomes} {s : Session}
    (h : s.AsWritten base args out) {e : IoError} (he : (connectInner args out base).1 = .error e) :
    s.worker.pc ≠ .checkStop ∧ s.worker.pc ≠ .joinA ∧ s.worker.pc ≠ .joinB := by
  have hw := h.asWritten
  rw [← h.args, ← h.out] at he
  unfold Worker.AsWritten at hw
  refine ⟨fun hpc => ?_, fun hpc => ?_, fun hpc => ?_⟩
  all_goals
    simp only [hpc] at hw
    rw [hw.2.1] at he
    cases he

/-- **A run that is to fail ends by itself.** -/
theorem ranked_failing {base : RouteTable} {args : Args} {out : Outcomes} {e : IoError}
    (he : (connectInner args out base).1 = .error e) :
    Runs.Ranked step (fun _ a => decide (a = .work)) (fun _ _ => True) (AsWritten base args out)
      (fun s => s.worker.pc = .finished) (fun s => s.worker.stage) where
  kept := fun s a s' hi _ h => asWritten_step s a s' hi h
  drops := by
    intro s a s' hi _ h ho
    obtain rfl : a = .work := of_decide_eq_true ho
    exact Worker.stage_step (step_work h).1 (hi.not_pumping he).1
  stays := by
    intro s a s' hi _ h ho
    cases a with
    | work => cases ho
    | requestStop =>
      cases h
      exact Nat.le_refl _
    | pumpEnds p =>
      rw [step_pumpEnds h]
      exact Worker.stage_pumpEnds s.worker p
  enabled := by
    intro s hi hne
    refine ⟨.work, ?_⟩
    cases hw : s.worker.step s.shared s.table with
    | some r => exact ⟨_, rfl, trivial, by simp only [step, hw]; rfl⟩
    | none =>
      obtain ⟨-, hA, hB⟩ := hi.not_pumping he
      rcases Worker.step_waits hne hw with ⟨hpc, -⟩ | ⟨hpc, -⟩
      · exact absurd hpc hA
      · exact absurd hpc hB

end Session

/-- **How a headless run ends.**  Whenever a stop is requested and whenever a pump thread ends, a
`run_connect` that has finished leaves the route table of `connectInner`, and `run_headless` reports
what `connectInner` returns: its error, with status 1, or a clean stop.  Where that is an error the
worker gets there without being asked to, in no more steps than are stated. -/
theorem headless_outcome (args : Args) (out : Outcomes) (shared : Shared) (base : RouteTable)
    (acts : List Session.Act) (s : Session)
    (h : Runs.exec Session.step (.start args out shared base) acts = some s) :
    (s.worker.pc = .finished → s.table = (connectInner args out base).2 ∧
      runHeadless s.shared = headlessEnd (connectInner args out base).1) ∧
    ∀ e, (connectInner args out base).1 = .error e →
      (∀ acts' t, Runs.exec Session.step s acts' = some t →
        Runs.ownSteps Session.step (fun _ a => decide (a = .work)) s acts' ≤ s.worker.stage ∧
        (t.step .work = none → t.worker.pc = .finished)) ∧
      ∃ acts' t, Runs.exec Session.step s acts' = some t ∧
        Runs.Along Session.step (fun _ a => a = .work) s acts' ∧ t.worker.pc = .finished := by
  have hi := Session.run_asWritten h
  constructor
  · intro hpc
    have hw := hi.asWritten
    unfold Worker.AsWritten at hw
    simp only [hpc, hi.args, hi.out] at hw
    exact ⟨hw.1.symm, hw.2⟩
  · intro e he
    have hr := Session.ranked_failing he
    refine ⟨fun acts' t ht => ?_, ?_⟩
    · obtain ⟨hit, hle⟩ := hr.bound hi (fun _ _ _ _ _ _ _ => trivial) ht
      refine ⟨by omega, fun hno => hr.stuck hit fun a t' ho _ hs => ?_⟩
      obtain rfl : a = .work := of_decide_eq_true ho
      rw [hno] at hs
      cases hs
    · obtain ⟨acts', t, ht, hal, hfin⟩ := hr.reach hi
      exact ⟨acts', t, ht, hal.mono fun _ _ ho => of_decide_eq_true ho.1, hfin⟩

/-- The upper half of the default route is refused, with the lower half and a /32 to be taken back; a
stop is requested on the way. -/
theorem headless_outcome_run : ∃ acts s, Runs.exec Session.step
      (.start { Args.default with transport := .wifi, phoneIp := some "192.168.1.42" }
        { Outcomes.smooth .reachable ⟨7, true⟩ ⟨⟨192, 168, 1, 1⟩, 1⟩ with
          createHigh := some ⟨.other, "full"⟩ } Shared.new ∅) acts = some s ∧
    runHeadless s.shared = (1, "exited with error: full") ∧
    s.table = (connectInner { Args.default with transport := .wifi, phoneIp := some "192.168.1.42" }
      { Outcomes.smooth .reachable ⟨7, true⟩ ⟨⟨192, 168, 1, 1⟩, 1⟩ with
        createHigh := some ⟨.other, "full"⟩ } ∅).2 := by
  have h : Runs.exec Session.step
      (.start { Args.default with transport := .wifi, phoneIp := some "192.168.1.42" }
        { Outcomes.smooth .reachable ⟨7, true⟩ ⟨⟨192, 168, 1, 1⟩, 1⟩ with
          createHigh := some ⟨.other, "full"⟩ } Shared.new ∅)
      (List.replicate 6 .work ++ .requestStop :: List.replicate 9 .work) = some _ := rfl
  exact ⟨_, _, h, rfl, ((headless_outcome _ _ _ _ _ _ h).1 rfl).1⟩

end RickyNet
