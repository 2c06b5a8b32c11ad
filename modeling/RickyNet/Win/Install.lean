import RickyNet.Win.Routing

/-!
# Installing and removing the routes

`Routes::install` and `Routes::remove` over a route table that keeps its history: the calls succeed
or fail as `InstallCalls` says, and every creation and deletion is one more table that the system
goes through.

* `install_cases`: how far an installation gets, and what it leaves.
* `remove_onTop`: `remove` is the way back.
* `install_ok_iff`: when it goes through, which the carve-out has no say in.
* `install_all_or_nothing`: the table that was found, or that table with the rows of `Routes` on top.
-/

namespace RickyNet

/-- How the calls of one `Routes::install` end. -/
structure InstallCalls where
  bestRoute : Except IoError BestHop
  createCarveOut : Option IoError
  createLow : Option IoError
  createHigh : Option IoError

/-- The route table, and the tables before it, the latest first. -/
structure RouteLog where
  table : RouteTable
  past : List RouteTable

namespace RouteLog

def start (table : RouteTable) : RouteLog := ⟨table, []⟩

/-- The tables of the log. -/
def tables (log : RouteLog) : List RouteTable := log.table :: log.past

/-- `CreateIpForwardEntry2` -/
def create (log : RouteLog) (row : Row) (refusal : Option IoError) : Except IoError RouteLog :=
  match createIpForwardEntry2 log.table row refusal with
  | .ok table => .ok ⟨table, log.tables⟩
  | .error e => .error e

/-- `DeleteIpForwardEntry2` -/
def delete (log : RouteLog) (row : Row) : RouteLog :=
  ⟨deleteIpForwardEntry2 log.table row, log.tables⟩

end RouteLog

structure Routes where
  rows : List Row

namespace Routes

/-- `Routes::remove`. -/
def remove (r : Routes) (log : RouteLog) : RouteLog := r.rows.foldl RouteLog.delete log

/-- The carve-out of `install`: the rows it has created.  Failures are logged. -/
def pin (carveOut : Option Ipv4Addr) (calls : InstallCalls) (log : RouteLog) : List Row × RouteLog :=
  match carveOut with
  | none => ([], log)
  | some ip =>
    match calls.bestRoute with
    | .error _ => ([], log)
    | .ok hop =>
      match log.create (carveOutRow hop ip) calls.createCarveOut with
      | .ok log => ([carveOutRow hop ip], log)
      | .error _ => ([], log)

/-- `Routes::install`. -/
def install (tunLuid : UInt64) (carveOut : Option Ipv4Addr) (calls : InstallCalls) (log : RouteLog) :
    Except IoError Routes × RouteLog :=
  let (rows, log) := pin carveOut calls log
  match log.create (lowRow tunLuid) calls.createLow with
  | .error e => (.error e, (Routes.mk rows).remove log)
  | .ok log =>
    let rows := rows ++ [lowRow tunLuid]
    match log.create (highRow tunLuid) calls.createHigh with
    | .error e => (.error e, (Routes.mk rows).remove log)
    | .ok log => (.ok ⟨rows ++ [highRow tunLuid]⟩, log)

/-- The /32 for `ip` is created on `table`. -/
def Pins (table : RouteTable) (calls : InstallCalls) (ip : Ipv4Addr) (hop : BestHop) : Prop :=
  calls.bestRoute = .ok hop ∧ KeyedTable.Free Row.key table (carveOutRow hop ip) ∧
    calls.createCarveOut = none

variable {base : RouteTable} {log log' : RouteLog} {rows : List Row}

theorem create_ok {row : Row} {refusal : Option IoError} (h : log.create row refusal = .ok log') :
    KeyedTable.Free Row.key log.table row ∧ refusal = none ∧
      log' = ⟨insert row log.table, log.tables⟩ := by
  unfold RouteLog.create at h
  split at h
  · next t ht =>
    obtain ⟨h1, h2, rfl⟩ := (create_ok_iff _ _ _ _).1 ht
    cases h
    exact ⟨h1, h2, rfl⟩
  · cases h

theorem remove_table (r : Routes) (log : RouteLog) :
    (r.remove log).table = r.rows.foldl (KeyedTable.remove Row.key) log.table := by
  obtain ⟨rows⟩ := r
  show (rows.foldl RouteLog.delete log).table = _
  induction rows generalizing log with
  | nil => rfl
  | cons row rows ih => exact ih (log.delete row)

/-- **`remove` is the way back.** -/
theorem remove_onTop {r : Routes} (log : RouteLog)
    (h : KeyedTable.OnTop Row.key base log.table r.rows) :
    (r.remove log).table = base := by
  rw [remove_table]
  exact h.foldl_remove

/-- The carve-out creates one row or none. -/
theorem pin_cases (carveOut : Option Ipv4Addr) (calls : InstallCalls) (log : RouteLog) :
    (pin carveOut calls log = ([], log) ∧ ∀ ip hop, carveOut = some ip → ¬ Pins log.table calls ip hop) ∨
      ∃ ip hop, carveOut = some ip ∧ Pins log.table calls ip hop ∧
        pin carveOut calls log =
          ([carveOutRow hop ip], ⟨insert (carveOutRow hop ip) log.table, log.tables⟩) := by
  cases carveOut with
  | none => exact Or.inl ⟨rfl, fun ip hop h => by cases h⟩
  | some ip =>
    cases hb : calls.bestRoute with
    | error e =>
      refine Or.inl ⟨by simp only [pin, hb], fun ip' hop _ hp => ?_⟩
      rw [hp.1] at hb
      cases hb
    | ok hop =>
      cases hc : log.create (carveOutRow hop ip) calls.createCarveOut with
      | ok log' =>
        obtain ⟨h1, h2, rfl⟩ := create_ok hc
        exact Or.inr ⟨ip, hop, rfl, ⟨hb, h1, h2⟩, by simp only [pin, hb, hc]⟩
      | error e =>
        refine Or.inl ⟨by simp only [pin, hb, hc], fun ip' hop' hip hp => ?_⟩
        cases hip
        rw [hp.1] at hb
        cases hb
        unfold RouteLog.create at hc
        rw [(create_ok_iff _ _ _ _).2 ⟨hp.2.1, hp.2.2, rfl⟩] at hc
        cases hc

theorem pin_onTop (carveOut : Option Ipv4Addr) (calls : InstallCalls) (log : RouteLog) :
    KeyedTable.OnTop Row.key log.table (pin carveOut calls log).2.table (pin carveOut calls log).1 := by
  rcases pin_cases carveOut calls log with ⟨h, -⟩ | ⟨ip, hop, -, hp, h⟩
  · rw [h]
    exact KeyedTable.OnTop.nil
  · rw [h]
    exact KeyedTable.OnTop.nil.create hp.2.1

/-- How far an installation gets: the lower half is refused, the upper half is refused, or both are
up.  What has been created by then is removed on the way out. -/
theorem install_cases (tunLuid : UInt64) (carveOut : Option Ipv4Addr) (calls : InstallCalls)
    (log : RouteLog) :
    (∃ e rows log', (rows, log') = pin carveOut calls log ∧
        install tunLuid carveOut calls log = (.error e, (Routes.mk rows).remove log')) ∨
      (∃ e rows log', (rows, log') = pin carveOut calls log ∧
        KeyedTable.Free Row.key log'.table (lowRow tunLuid) ∧
        install tunLuid carveOut calls log = (.error e, (Routes.mk (rows ++ [lowRow tunLuid])).remove
          ⟨insert (lowRow tunLuid) log'.table, log'.tables⟩)) ∨
      ∃ rows log', (rows, log') = pin carveOut calls log ∧
        KeyedTable.Free Row.key log'.table (lowRow tunLuid) ∧
        KeyedTable.Free Row.key (insert (lowRow tunLuid) log'.table) (highRow tunLuid) ∧
        install tunLuid carveOut calls log = (.ok ⟨rows ++ [lowRow tunLuid] ++ [highRow tunLuid]⟩,
          ⟨insert (highRow tunLuid) (insert (lowRow tunLuid) log'.table),
            insert (lowRow tunLuid) log'.table :: log'.tables⟩) := by
  cases hp : pin carveOut calls log with
  | mk rows log' =>
  cases hl : log'.create (lowRow tunLuid) calls.createLow with
  | error e => exact Or.inl ⟨e, rows, log', rfl, by simp only [install, hp, hl]⟩
  | ok log2 =>
    obtain ⟨h1, -, rfl⟩ := create_ok hl
    refine Or.inr ?_
    cases hh : RouteLog.create ⟨insert (lowRow tunLuid) log'.table, log'.tables⟩ (highRow tunLuid)
        calls.createHigh with
    | error e => exact Or.inl ⟨e, rows, log', rfl, h1, by simp only [install, hp, hl, hh]⟩
    | ok log3 =>
      obtain ⟨h2, -, rfl⟩ := create_ok hh
      exact Or.inr ⟨rows, log', rfl, h1, h2, by simp only [install, hp, hl, hh]; rfl⟩

theorem create_enabled {row : Row} {refusal : Option IoError} (hf : KeyedTable.Free Row.key log.table row)
    (hr : refusal = none) : log.create row refusal = .ok ⟨insert row log.table, log.tables⟩ := by
  unfold RouteLog.create
  rw [(create_ok_iff _ _ _ _).2 ⟨hf, hr, rfl⟩]

/-- The carve-out is in the way of neither half. -/
theorem free_pin_iff (tunLuid : UInt64) (carveOut : Option Ipv4Addr) (calls : InstallCalls) (log : RouteLog) :
    (KeyedTable.Free Row.key (pin carveOut calls log).2.table (lowRow tunLuid) ↔
        KeyedTable.Free Row.key log.table (lowRow tunLuid)) ∧
      (KeyedTable.Free Row.key (pin carveOut calls log).2.table (highRow tunLuid) ↔
        KeyedTable.Free Row.key log.table (highRow tunLuid)) := by
  have htop := pin_onTop carveOut calls log
  rw [htop.free_iff, htop.free_iff]
  rcases pin_cases carveOut calls log with ⟨h, -⟩ | ⟨ip, hop, -, -, h⟩
  · rw [h]
    simp
  · rw [h]
    simp only [List.mem_singleton, forall_eq]
    exact ⟨and_iff_left (carveOutRow_key_ne_low hop ip tunLuid),
      and_iff_left (carveOutRow_key_ne_high hop ip tunLuid)⟩

/-- The upper half does not find the lower one in its way. -/
theorem free_insert_low_iff (table : RouteTable) (tunLuid : UInt64) :
    KeyedTable.Free Row.key (insert (lowRow tunLuid) table) (highRow tunLuid) ↔
      KeyedTable.Free Row.key table (highRow tunLuid) := by
  unfold KeyedTable.Free
  rw [Finset.forall_mem_insert]
  exact and_iff_right (lowRow_key_ne_high tunLuid)

/-- **When an installation goes through.**  Both halves can be created on the table it finds; neither the
answer of `GetBestRoute2` nor the carve-out matters. -/
theorem install_ok_iff (tunLuid : UInt64) (carveOut : Option Ipv4Addr) (calls : InstallCalls)
    (log : RouteLog) :
    (∃ r log', install tunLuid carveOut calls log = (.ok r, log')) ↔
      KeyedTable.Free Row.key log.table (lowRow tunLuid) ∧
        KeyedTable.Free Row.key log.table (highRow tunLuid) ∧
        calls.createLow = none ∧ calls.createHigh = none := by
  obtain ⟨hlow, hhigh⟩ := free_pin_iff tunLuid carveOut calls log
  cases hp : pin carveOut calls log with
  | mk rows log1 =>
  rw [hp] at hlow hhigh
  constructor
  · rintro ⟨r, log', h⟩
    cases hl : log1.create (lowRow tunLuid) calls.createLow with
    | error e =>
      simp only [install, hp, hl] at h
      cases h
    | ok log2 =>
      obtain ⟨h1, h2, rfl⟩ := create_ok hl
      cases hh : RouteLog.create ⟨insert (lowRow tunLuid) log1.table, log1.tables⟩ (highRow tunLuid)
          calls.createHigh with
      | error e =>
        simp only [install, hp, hl, hh] at h
        cases h
      | ok log3 =>
        obtain ⟨h3, h4, -⟩ := create_ok hh
        exact ⟨hlow.1 h1, hhigh.1 ((free_insert_low_iff _ _).1 h3), h2, h4⟩
  · rintro ⟨h1, h2, h3, h4⟩
    have hl := create_enabled (hlow.2 h1) h3
    have hfree : KeyedTable.Free Row.key (RouteLog.mk (insert (lowRow tunLuid) log1.table) log1.tables).table
        (highRow tunLuid) := (free_insert_low_iff _ _).2 (hhigh.2 h2)
    have hh := create_enabled hfree h4
    exact ⟨⟨rows ++ [lowRow tunLuid] ++ [highRow tunLuid]⟩, _, by simp only [install, hp, hl, hh]; rfl⟩

/-- What an installation leaves: the table it found, or that table with the rows of `Routes` on
top. -/
theorem install_onTop (tunLuid : UInt64) (carveOut : Option Ipv4Addr) (calls : InstallCalls)
    (log : RouteLog) :
    match install tunLuid carveOut calls log with
    | (.error _, log') => log'.table = log.table
    | (.ok r, log') => KeyedTable.OnTop Row.key log.table log'.table r.rows := by
  have hpin := pin_onTop carveOut calls log
  rcases install_cases tunLuid carveOut calls log with
    ⟨e, rows, log', hp, h⟩ | ⟨e, rows, log', hp, hl, h⟩ | ⟨rows, log', hp, hl, hh, h⟩
  · rw [← hp] at hpin
    rw [h]
    exact remove_onTop _ hpin
  · rw [← hp] at hpin
    rw [h]
    exact remove_onTop _ (hpin.create_last hl)
  · rw [← hp] at hpin
    rw [h]
    exact (hpin.create_last hl).create_last hh

/-- The rows of a complete installation. -/
theorem install_rows {tunLuid : UInt64} {carveOut : Option Ipv4Addr} {calls : InstallCalls} {r : Routes}
    (h : install tunLuid carveOut calls log = (.ok r, log')) :
    (∃ ip hop, carveOut = some ip ∧ Pins log.table calls ip hop ∧
        r.rows = [carveOutRow hop ip, lowRow tunLuid, highRow tunLuid]) ∨
      (∀ ip hop, carveOut = some ip → ¬ Pins log.table calls ip hop) ∧
        r.rows = [lowRow tunLuid, highRow tunLuid] := by
  rcases install_cases tunLuid carveOut calls log with
    ⟨e, rows, log2, hp, h2⟩ | ⟨e, rows, log2, hp, -, h2⟩ | ⟨rows, log2, hp, -, -, h2⟩
  · rw [h2] at h
    cases h
  · rw [h2] at h
    cases h
  · rw [h2] at h
    cases h
    rcases pin_cases carveOut calls log with ⟨h1, h3⟩ | ⟨ip, hop, h1, h3, h4⟩
    · rw [h1] at hp
      cases hp
      exact Or.inr ⟨h3, rfl⟩
    · rw [h4] at hp
      cases hp
      exact Or.inl ⟨ip, hop, h1, h3, rfl⟩

/-- A carve-out that is not created is as good as none. -/
theorem install_unpinned (tunLuid : UInt64) {carveOut : Option Ipv4Addr} {calls : InstallCalls}
    (h : ∀ ip hop, carveOut = some ip → ¬ Pins log.table calls ip hop) :
    install tunLuid carveOut calls log = install tunLuid none calls log := by
  rcases pin_cases carveOut calls log with ⟨h1, -⟩ | ⟨ip, hop, h1, h2, -⟩
  · unfold install
    rw [h1]
    rfl
  · exact absurd h2 (h ip hop h1)

end Routes

/-- **`install` is all or nothing, and `remove` undoes it.**  If `install` fails, the table is the one
it found.  If it succeeds, the table is that one and the rows of `Routes`, none of which was there:
both halves on the tunnel, and the /32 exactly if it was created; `remove` gives back the table that
was found.  It succeeds exactly if both halves can be created on that table, whatever comes of the
carve-out, and a carve-out that is not created changes nothing else. -/
theorem install_all_or_nothing (tunLuid : UInt64) (carveOut : Option Ipv4Addr) (calls : InstallCalls)
    (table : RouteTable) :
    (match Routes.install tunLuid carveOut calls (.start table) with
      | (.error _, log) => log.table = table
      | (.ok r, log) =>
        log.table = table ∪ r.rows.toFinset ∧
          (∀ row ∈ r.rows, KeyedTable.Free Row.key table row ∧ row ∉ table) ∧
          ((∃ ip hop, carveOut = some ip ∧ Routes.Pins table calls ip hop ∧
              r.rows = [carveOutRow hop ip, lowRow tunLuid, highRow tunLuid]) ∨
            (∀ ip hop, carveOut = some ip → ¬ Routes.Pins table calls ip hop) ∧
              r.rows = [lowRow tunLuid, highRow tunLuid]) ∧
          (r.remove log).table = table) ∧
      ((∃ r log, Routes.install tunLuid carveOut calls (.start table) = (.ok r, log)) ↔
        KeyedTable.Free Row.key table (lowRow tunLuid) ∧ KeyedTable.Free Row.key table (highRow tunLuid) ∧
          calls.createLow = none ∧ calls.createHigh = none) ∧
      ((∀ ip hop, carveOut = some ip → ¬ Routes.Pins table calls ip hop) →
        Routes.install tunLuid carveOut calls (.start table) =
          Routes.install tunLuid none calls (.start table)) := by
  have htop := Routes.install_onTop tunLuid carveOut calls (.start table)
  refine ⟨?_, Routes.install_ok_iff tunLuid carveOut calls (.start table),
    fun hno => Routes.install_unpinned tunLuid hno⟩
  cases hi : Routes.install tunLuid carveOut calls (.start table) with
  | mk result log =>
  rw [hi] at htop
  cases result with
  | error e => exact htop
  | ok r =>
    refine ⟨htop.table, fun row hrow => ⟨htop.fresh row hrow, fun hmem => ?_⟩,
      Routes.install_rows hi, Routes.remove_onTop log htop⟩
    exact htop.fresh row hrow row hmem rfl

/-- Over Wi-Fi with a /32 that is there already: the installation goes through without it. -/
theorem install_all_or_nothing_run : ∃ r log,
    Routes.install 7 (some ⟨192, 168, 1, 42⟩)
      ⟨.ok ⟨⟨192, 168, 1, 1⟩, 1⟩, none, none, none⟩
      (.start {carveOutRow ⟨⟨192, 168, 1, 1⟩, 1⟩ ⟨192, 168, 1, 42⟩}) = (.ok r, log) ∧
    Routes.install 7 (some ⟨192, 168, 1, 42⟩)
      ⟨.ok ⟨⟨192, 168, 1, 1⟩, 1⟩, none, none, none⟩
      (.start {carveOutRow ⟨⟨192, 168, 1, 1⟩, 1⟩ ⟨192, 168, 1, 42⟩}) =
    Routes.install 7 none ⟨.ok ⟨⟨192, 168, 1, 1⟩, 1⟩, none, none, none⟩
      (.start {carveOutRow ⟨⟨192, 168, 1, 1⟩, 1⟩ ⟨192, 168, 1, 42⟩}) := by
  obtain ⟨-, hok, hsoft⟩ := install_all_or_nothing 7 (some ⟨192, 168, 1, 42⟩)
    ⟨.ok ⟨⟨192, 168, 1, 1⟩, 1⟩, none, none, none⟩ {carveOutRow ⟨⟨192, 168, 1, 1⟩, 1⟩ ⟨192, 168, 1, 42⟩}
  obtain ⟨r, log, h⟩ := hok.2 (by decide)
  refine ⟨r, log, h, hsoft fun ip hop hip hp => ?_⟩
  cases hip
  obtain ⟨hbest, hfree, -⟩ := hp
  cases hbest
  exact absurd hfree (by decide)

end RickyNet
