import RickyNet.Win.Session

/-!
# What a session leaves in the route table

`Path` says, for every point of `connect_inner`, how the worker can have got there and which rows it
holds.  A session takes back every row it has created, with one exception: when a `try_clone` fails,
the routes are up and `Routes` is dropped without being removed (`Leaks`).
-/

namespace RickyNet

/-- `CreateIpForwardEntry2` succeeds. -/
def Creatable (table : RouteTable) (row : Row) (refusal : Option IoError) : Prop :=
  KeyedTable.Free Row.key table row ∧ refusal = none

instance (table : RouteTable) (row : Row) (refusal : Option IoError) :
    Decidable (Creatable table row refusal) :=
  inferInstanceAs (Decidable (_ ∧ _))

/-- The carve-out that `Routes::install` creates on `table`, if it does. -/
def carved (table : RouteTable) (args : Args) (out : Outcomes) : List Row :=
  match carveOut args, out.bestRoute with
  | some ip, .ok hop =>
    if Creatable table (carveOutRow hop ip) out.createCarveOut then [carveOutRow hop ip] else []
  | _, _ => []

/-- The adapter `tun` is up and the phone has been dialled. -/
def Dialled (tun : Tun) (args : Args) (out : Outcomes) : Prop :=
  out.tunUp = .ok tun ∧ ∃ stream, out.net.connect args.transport args.phoneIp args.port = .ok stream

/-- Both halves of the split default can be created. -/
def BothHalves (table : RouteTable) (tun : Tun) (out : Outcomes) : Prop :=
  Creatable table (lowRow tun.luid) out.createLow ∧ Creatable table (highRow tun.luid) out.createHigh

/-- A `try_clone` fails. -/
def CloneFails (out : Outcomes) : Prop := out.cloneRead ≠ none ∨ out.cloneWrite ≠ none

/-- The routes get installed, a `try_clone` fails, and one of the rows is not taken away with the
adapter: the adapter was found open, or the row is a carve-out on another interface. -/
def Leaks (table : RouteTable) (args : Args) (out : Outcomes) : Prop :=
  ∃ tun, Dialled tun args out ∧ BothHalves table tun out ∧ CloneFails out ∧
    (tun.created = true → ∃ row ∈ carved table args out, row.luid ≠ tun.luid)

/-- The rows of a complete `Routes`. -/
def installed (table : RouteTable) (args : Args) (out : Outcomes) (tun : Tun) : List Row :=
  carved table args out ++ [lowRow tun.luid, highRow tun.luid]

theorem carved_key_ne {table : RouteTable} {args : Args} {out : Outcomes} {row : Row}
    (h : row ∈ carved table args out) (luid : UInt64) :
    row.key ≠ (lowRow luid).key ∧ row.key ≠ (highRow luid).key := by
  unfold carved at h
  split at h
  · split at h
    · rw [List.mem_singleton.1 h]
      exact ⟨carveOutRow_key_ne_low _ _ luid, carveOutRow_key_ne_high _ _ luid⟩
    · cases h
  · cases h

theorem not_leaks_of_not_dialled {table : RouteTable} {args : Args} {out : Outcomes}
    (h : ∀ tun, ¬ Dialled tun args out) : ¬ Leaks table args out := by
  rintro ⟨tun, h1, -⟩
  exact h tun h1

namespace Worker

variable {base : RouteTable}

/-- Where the worker is, how it got there, and what it holds. -/
def Path (base : RouteTable) (w : Worker) : Prop :=
  match w.pc with
  | .clearStop | .resetCounters | .setConnecting | .tunUp => w.rows = [] ∧ w.leaked = []
  | .dial => w.rows = [] ∧ w.leaked = [] ∧ w.out.tunUp = .ok w.tun
  | .carveOut => w.rows = [] ∧ w.leaked = [] ∧ Dialled w.tun w.args w.out ∧ w.carve = RickyNet.carveOut w.args
  | .low => w.rows = carved base w.args w.out ∧ w.leaked = [] ∧ Dialled w.tun w.args w.out
  | .high => w.rows = carved base w.args w.out ++ [lowRow w.tun.luid] ∧ w.leaked = [] ∧
      Dialled w.tun w.args w.out ∧ Creatable base (lowRow w.tun.luid) w.out.createLow
  | .rollback _ => w.leaked = [] ∧ ¬ Leaks base w.args w.out
  | .setConnected | .cloneRead => w.rows = installed base w.args w.out w.tun ∧ w.leaked = [] ∧
      Dialled w.tun w.args w.out ∧ BothHalves base w.tun w.out
  | .cloneWrite => w.rows = installed base w.args w.out w.tun ∧ w.leaked = [] ∧
      Dialled w.tun w.args w.out ∧ BothHalves base w.tun w.out ∧ w.out.cloneRead = none
  | .spawnPumps | .checkStop | .checkAlive | .sleep | .stopSession | .shutdown | .joinA | .joinB
  | .remove => w.leaked = [] ∧ ¬ CloneFails w.out
  | .dropTun _ => w.rows = [] ∧ (w.leaked = [] ∧ ¬ Leaks base w.args w.out ∨
      w.leaked = installed base w.args w.out w.tun ∧ Dialled w.tun w.args w.out ∧
        BothHalves base w.tun w.out ∧ CloneFails w.out)
  | .setErrorText _ | .setErrorState | .readState | .setDisconnected | .finished =>
      w.rows = [] ∧ (w.leaked = [] ↔ ¬ Leaks base w.args w.out)

theorem path_spawn (args : Args) (out : Outcomes) : (spawn args out).Path base := ⟨rfl, rfl⟩

theorem path_pumpEnds {w : Worker} (p : Pump) (h : w.Path base) : (w.pumpEnds p).Path base := by
  cases p <;> exact h

/-- The carve-out that is tried is the one that `carved` foresees. -/
theorem tryCarveOut_carved {w : Worker} (hc : w.carve = RickyNet.carveOut w.args) :
    (w.tryCarveOut base = none ∧ carved base w.args w.out = []) ∨
      ∃ row t, w.tryCarveOut base = some (row, t) ∧ carved base w.args w.out = [row] := by
  unfold tryCarveOut carved
  rw [hc]
  cases RickyNet.carveOut w.args with
  | none => exact Or.inl ⟨rfl, rfl⟩
  | some ip =>
    cases w.out.bestRoute with
    | error e => exact Or.inl ⟨rfl, rfl⟩
    | ok hop =>
      simp only
      cases hcr : createIpForwardEntry2 base (carveOutRow hop ip) w.out.createCarveOut with
      | ok t =>
        obtain ⟨h1, h2, -⟩ := (create_ok_iff _ _ _ _).1 hcr
        exact Or.inr ⟨_, _, rfl, if_pos ⟨h1, h2⟩⟩
      | error e =>
        refine Or.inl ⟨rfl, if_neg fun h => ?_⟩
        rw [(create_ok_iff _ _ _ _).2 ⟨h.1, h.2, rfl⟩] at hcr
        cases hcr

/-- A row that differs from everything on top can be created exactly if it can be on the base. -/
theorem create_on_top {table : RouteTable} {rows : List Row} (row : Row) (refusal : Option IoError)
    (ho : KeyedTable.OnTop Row.key base table rows) (hne : ∀ x ∈ rows, x.key ≠ row.key) :
    (∃ t, createIpForwardEntry2 table row refusal = .ok t) ↔ Creatable base row refusal := by
  have hfree := ho.free_iff row
  constructor
  · rintro ⟨t, ht⟩
    obtain ⟨h1, h2, -⟩ := (create_ok_iff _ _ _ _).1 ht
    exact ⟨(hfree.1 h1).1, h2⟩
  · rintro ⟨h1, h2⟩
    exact ⟨_, (create_ok_iff _ _ _ _).2 ⟨hfree.2 ⟨h1, hne⟩, h2, rfl⟩⟩

/-- What is left of a complete `Routes` when the adapter is closed. -/
theorem closeTun_installed {w : Worker} (table : RouteTable)
    (hl : w.leaked = installed base w.args w.out w.tun) :
    (w.closeTun table).1 = [] ↔
      ¬ (w.tun.created = true → ∃ row ∈ carved base w.args w.out, row.luid ≠ w.tun.luid) := by
  unfold closeTun
  rw [hl]
  unfold installed
  by_cases hc : w.tun.created
  · rw [if_pos hc]
    simp [List.filter_eq_nil_iff, hc, lowRow, highRow, onlinkRow]
  · rw [if_neg hc]
    simp [hc]

theorem not_leaks_of_tun {w : Worker} {tun : Tun} (ht : w.out.tunUp = .ok tun)
    (h : ¬ (BothHalves base tun w.out ∧ CloneFails w.out)) : ¬ Leaks base w.args w.out := by
  rintro ⟨tun', ⟨h1, -⟩, h2, h3, -⟩
  rw [ht] at h1
  cases h1
  exact h ⟨h2, h3⟩

theorem not_leaks_of_clones {w : Worker} (h : ¬ CloneFails w.out) : ¬ Leaks base w.args w.out := by
  rintro ⟨tun, -, -, h3, -⟩
  exact h h3

section
variable {w w' : Worker} {sh sh' : Shared} {table table' : RouteTable}

theorem step_args (h : w.step sh table = some (w', sh', table')) :
    w'.args = w.args ∧ w'.out = w.out := by
  unfold step at h
  (repeat' split at h) <;> cases h <;> exact ⟨rfl, rfl⟩

theorem path_tunUp (hpc : w.pc = .tunUp) (hp : w.Path base)
    (h : w.step sh table = some (w', sh', table')) : w'.Path base := by
  unfold Path at hp
  rw [hpc] at hp
  simp only [step, hpc] at h
  split at h
  · next tun ht =>
    cases h
    exact ⟨hp.1, hp.2, ht⟩
  · next e he =>
    cases h
    refine ⟨hp.1, iff_of_true hp.2 (not_leaks_of_not_dialled fun tun hd => ?_)⟩
    rw [hd.1] at he
    cases he

theorem path_dial (hpc : w.pc = .dial) (hp : w.Path base)
    (h : w.step sh table = some (w', sh', table')) : w'.Path base := by
  unfold Path at hp
  rw [hpc] at hp
  obtain ⟨h1, h2, h3⟩ := hp
  simp only [step, hpc] at h
  split at h
  · next stream hs =>
    cases h
    exact ⟨h1, h2, ⟨h3, stream, hs⟩, rfl⟩
  · next e he =>
    cases h
    refine ⟨h1, Or.inl ⟨h2, not_leaks_of_not_dialled fun tun hd => ?_⟩⟩
    obtain ⟨-, stream, hs⟩ := hd
    rw [hs] at he
    cases he

theorem path_carveOut (hpc : w.pc = .carveOut) (hp : w.Path base)
    (ho : KeyedTable.OnTop Row.key base table w.holds)
    (h : w.step sh table = some (w', sh', table')) : w'.Path base := by
  unfold Path at hp
  rw [hpc] at hp
  obtain ⟨h1, h2, h3, h4⟩ := hp
  -- nothing has been created yet
  have ht : table = base := by
    refine ho.eq_base_iff.2 ?_
    unfold holds
    rw [h1, h2]
    rfl
  subst ht
  simp only [step, hpc] at h
  rcases tryCarveOut_carved h4 with ⟨h5, h6⟩ | ⟨row, t, h5, h6⟩
  · rw [h5] at h
    cases h
    exact ⟨by rw [h1, h6], h2, h3⟩
  · rw [h5] at h
    cases h
    exact ⟨by rw [h1, h6]; rfl, h2, h3⟩

theorem path_low (hpc : w.pc = .low) (hp : w.Path base)
    (ho : KeyedTable.OnTop Row.key base table w.holds)
    (h : w.step sh table = some (w', sh', table')) : w'.Path base := by
  unfold Path at hp
  rw [hpc] at hp
  obtain ⟨h1, h2, h3⟩ := hp
  have hcr := create_on_top (lowRow w.tun.luid) w.out.createLow ho (by
    unfold holds
    rw [h1, h2, List.append_nil]
    exact fun x hx => (carved_key_ne hx _).1)
  simp only [step, hpc] at h
  split at h
  · next t ht =>
    cases h
    exact ⟨by rw [h1], h2, h3, hcr.1 ⟨_, ht⟩⟩
  · next e he =>
    cases h
    refine ⟨h2, not_leaks_of_tun h3.1 fun hl => ?_⟩
    obtain ⟨t, ht⟩ := hcr.2 hl.1.1
    rw [ht] at he
    cases he

theorem path_high (hpc : w.pc = .high) (hp : w.Path base)
    (ho : KeyedTable.OnTop Row.key base table w.holds)
    (h : w.step sh table = some (w', sh', table')) : w'.Path base := by
  unfold Path at hp
  rw [hpc] at hp
  obtain ⟨h1, h2, h3, h4⟩ := hp
  have hcr := create_on_top (highRow w.tun.luid) w.out.createHigh ho (by
    unfold holds
    rw [h1, h2, List.append_nil]
    intro x hx
    rcases List.mem_append.1 hx with hx | hx
    · exact (carved_key_ne hx _).2
    · rw [List.mem_singleton.1 hx]
      exact lowRow_key_ne_high _)
  simp only [step, hpc] at h
  split at h
  · next t ht =>
    cases h
    exact ⟨by rw [h1, List.append_assoc]; rfl, h2, h3, h4, hcr.1 ⟨_, ht⟩⟩
  · next e he =>
    cases h
    refine ⟨h2, not_leaks_of_tun h3.1 fun hl => ?_⟩
    obtain ⟨t, ht⟩ := hcr.2 hl.1.2
    rw [ht] at he
    cases he

/-- A `try_clone` that fails leaves all rows of `Routes` behind. -/
theorem path_abandon (e : IoError) (h1 : w.rows = installed base w.args w.out w.tun)
    (h2 : w.leaked = []) (h3 : Dialled w.tun w.args w.out) (h4 : BothHalves base w.tun w.out)
    (h5 : CloneFails w.out) : (w.abandon e).Path base := by
  refine ⟨rfl, Or.inr ⟨?_, h3, h4, h5⟩⟩
  show w.rows ++ w.leaked = _
  rw [h1, h2, List.append_nil]
  rfl

theorem path_dropTun {result : Except IoError Unit} (hpc : w.pc = .dropTun result)
    (hp : w.Path base) (h : w.step sh table = some (w', sh', table')) : w'.Path base := by
  unfold Path at hp
  rw [hpc] at hp
  obtain ⟨h1, h2⟩ := hp
  have key : (w.closeTun table).1 = [] ↔ ¬ Leaks base w.args w.out := by
    rcases h2 with ⟨h2, h3⟩ | ⟨h2, h3, h4, h5⟩
    · refine iff_of_true ?_ h3
      unfold closeTun
      rw [h2]
      by_cases hc : w.tun.created
      · rw [if_pos hc]
        rfl
      · rw [if_neg hc]
    · rw [closeTun_installed table h2, not_iff_not]
      constructor
      · exact fun hs => ⟨w.tun, h3, h4, h5, hs⟩
      · rintro ⟨tun, hd, -, -, hs⟩
        obtain rfl : tun = w.tun := by
          have := hd.1.symm.trans h3.1
          cases this
          rfl
        exact hs
  cases result with
  | ok _ => simp only [step, hpc] at h; cases h; exact ⟨h1, key⟩
  | error e => simp only [step, hpc] at h; cases h; exact ⟨h1, key⟩

theorem path_step (hp : w.Path base) (ho : KeyedTable.OnTop Row.key base table w.holds)
    (h : w.step sh table = some (w', sh', table')) : w'.Path base := by
  cases hpc : w.pc with
  | tunUp => exact path_tunUp hpc hp h
  | dial => exact path_dial hpc hp h
  | carveOut => exact path_carveOut hpc hp ho h
  | low => exact path_low hpc hp ho h
  | high => exact path_high hpc hp ho h
  | rollback e =>
    unfold Path at hp
    rw [hpc] at hp
    simp only [step, hpc] at h
    split at h
    · next row rows hr =>
      cases h
      unfold Path
      simp only
      exact hp
    · next hr => cases h; exact ⟨hr, Or.inl hp⟩
  | cloneRead =>
    unfold Path at hp
    rw [hpc] at hp
    obtain ⟨h1, h2, h3, h4⟩ := hp
    simp only [step, hpc] at h
    split at h
    · next hc => cases h; exact ⟨h1, h2, h3, h4, hc⟩
    · next e hc => cases h; exact path_abandon e h1 h2 h3 h4 (Or.inl (by rw [hc]; simp))
  | cloneWrite =>
    unfold Path at hp
    rw [hpc] at hp
    obtain ⟨h1, h2, h3, h4, h5⟩ := hp
    simp only [step, hpc] at h
    split at h
    · next hc =>
      cases h
      refine ⟨h2, ?_⟩
      rintro (hf | hf)
      · exact hf h5
      · exact hf hc
    · next e hc => cases h; exact path_abandon e h1 h2 h3 h4 (Or.inr (by rw [hc]; simp))
  | remove =>
    unfold Path at hp
    rw [hpc] at hp
    simp only [step, hpc] at h
    split at h
    · next row rows hr =>
      cases h
      unfold Path
      simp only
      exact hp
    · next hr => cases h; exact ⟨hr, Or.inl ⟨hp.1, not_leaks_of_clones hp.2⟩⟩
  | dropTun result => exact path_dropTun hpc hp h
  | _ =>
    -- the other steps only go on
    unfold Path at hp
    rw [hpc] at hp
    simp only [step, hpc] at h
    (repeat' split at h) <;> cases h <;> exact hp

theorem path_returned (hp : w.Path base) (hr : w.returned = true) :
    w.rows = [] ∧ (w.leaked = [] ↔ ¬ Leaks base w.args w.out) := by
  unfold Path at hp
  unfold returned at hr
  split at hr
  all_goals first
    | (next hpc => rw [hpc] at hp; exact hp)
    | cases hr

end

end Worker

/-! ## Runs -/

namespace Session

/-- The worker's rows are on top of the initial table, and it is on a path of `connect_inner`. -/
structure Inv (base : RouteTable) (args : Args) (out : Outcomes) (s : Session) : Prop where
  onTop : KeyedTable.OnTop Row.key base s.table s.worker.holds
  path : s.worker.Path base
  args : s.worker.args = args
  out : s.worker.out = out

theorem step_inv {base : RouteTable} {args : Args} {out : Outcomes} (s : Session) (a : Act)
    (s' : Session) (hs : s.Inv base args out) (h : s.step a = some s') : s'.Inv base args out := by
  obtain ⟨h1, h2, h3, h4⟩ := hs
  cases a with
  | work =>
    obtain ⟨hw, -⟩ := step_work h
    have ho : KeyedTable.OnTop Row.key base s.table (s.worker.holds ++ []) := by
      rw [List.append_nil]
      exact h1
    have ho' := Worker.step_onTop hw ho
    rw [List.append_nil] at ho'
    obtain ⟨h5, h6⟩ := Worker.step_args hw
    exact ⟨ho', Worker.path_step h2 h1 hw, h5.trans h3, h6.trans h4⟩
  | requestStop =>
    cases h
    exact ⟨h1, h2, h3, h4⟩
  | pumpEnds p =>
    rw [step_pumpEnds h]
    refine ⟨by simpa using h1, Worker.path_pumpEnds p h2, ?_, ?_⟩
    · cases p <;> exact h3
    · cases p <;> exact h4

theorem run_inv {args : Args} {out : Outcomes} {shared : Shared} {base : RouteTable}
    {acts : List Act} {s : Session}
    (h : Runs.exec step (.start args out shared base) acts = some s) : s.Inv base args out :=
  Runs.exec_inv step (Inv base args out) step_inv
    ⟨KeyedTable.OnTop.nil, Worker.path_spawn args out, rfl, rfl⟩ h

end Session

/-- **When a session leaves the route table as it was.**  However the calls of `connect_inner` end
and whenever a stop is requested or a pump dies: when `connect_inner` returns, the route table is the
initial one, unless the routes were up when a `try_clone` failed. -/
theorem torn_down_iff (args : Args) (out : Outcomes) (shared : Shared) (base : RouteTable)
    (acts : List Session.Act) (s : Session)
    (h : Runs.exec Session.step (.start args out shared base) acts = some s)
    (hr : s.worker.returned = true) : s.table = base ↔ ¬ Leaks base args out := by
  obtain ⟨h1, h2, h3, h4⟩ := Session.run_inv h
  obtain ⟨h5, h6⟩ := Worker.path_returned h2 hr
  rw [h1.eq_base_iff, ← h3, ← h4, ← h6]
  unfold Worker.holds
  rw [h5, List.nil_append]

/-- A session over USB with both halves on top of a table with a default route, stopped by the
user. -/
theorem torn_down_run : ∃ acts s, Runs.exec Session.step
      (.start Args.default (.smooth .reachable ⟨7, true⟩ ⟨⟨0, 0, 0, 0⟩, 1⟩) Shared.new
        {⟨1, ⟨0, 0, 0, 0⟩, 0, ⟨192, 168, 1, 1⟩, 25⟩}) acts = some s ∧ s.worker.returned = true ∧
    (s.table = {⟨1, ⟨0, 0, 0, 0⟩, 0, ⟨192, 168, 1, 1⟩, 25⟩} ↔
      ¬ Leaks {⟨1, ⟨0, 0, 0, 0⟩, 0, ⟨192, 168, 1, 1⟩, 25⟩} Args.default
        (.smooth .reachable ⟨7, true⟩ ⟨⟨0, 0, 0, 0⟩, 1⟩)) := by
  have h : Runs.exec Session.step
      (.start Args.default (.smooth .reachable ⟨7, true⟩ ⟨⟨0, 0, 0, 0⟩, 1⟩) Shared.new
        {⟨1, ⟨0, 0, 0, 0⟩, 0, ⟨192, 168, 1, 1⟩, 25⟩})
      [List.replicate 14 .work, [.requestStop], List.replicate 4 .work, [.pumpEnds .a, .pumpEnds .b],
        List.replicate 6 .work].flatten = some _ := rfl
  exact ⟨_, _, h, rfl, torn_down_iff _ _ _ _ _ _ h rfl⟩

/-- Over Wi-Fi with a `try_clone` that fails: the /32 on the physical interface stays behind. -/
theorem torn_down_leak : ∃ acts s, Runs.exec Session.step
      (.start { Args.default with transport := .wifi, phoneIp := some "192.168.1.42" }
        { Outcomes.smooth .reachable ⟨7, true⟩ ⟨⟨192, 168, 1, 1⟩, 1⟩ with
          cloneRead := some ⟨.other, ""⟩ } Shared.new ∅) acts = some s ∧
    s.worker.returned = true ∧
    s.table = {⟨1, ⟨192, 168, 1, 42⟩, 32, ⟨192, 168, 1, 1⟩, 1⟩} ∧ s.table ≠ ∅ :=
  ⟨List.replicate 11 .work, _, rfl, rfl, by decide, by decide⟩

end RickyNet
