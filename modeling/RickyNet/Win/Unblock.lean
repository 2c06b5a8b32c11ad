import RickyNet.Lib.Progress
import RickyNet.Win.Tunnel

/-!
# The teardown comes to its end

A worker that is asked to stop, or one of whose pump threads has ended, leaves its pump loop, shuts
the Wintun session and the stream down, and waits for both threads.  Its own steps, and from the
shutdown on those of the pump threads, lower the rank `Tunnel.rank`, and as long as the worker has
not finished one of them can be taken (`ranked`): whatever call a pump thread is in, one of the two
shutdowns ends it.

What is used of the calls is what they are documented to do: after `shutdown(Both)` a read or a write
returns at once and moves no more bytes (`Unblocked`).
-/

namespace RickyNet

/-- How far a step of `run_connect` is from the end. -/
def Pc.stage (alive : Bool) : Pc → Nat
  | .clearStop => 31
  | .resetCounters => 30
  | .setConnecting => 29
  | .tunUp => 28
  | .dial => 27
  | .carveOut => 26
  | .low => 25
  | .high => 24
  | .setConnected => 23
  | .cloneRead => 22
  | .cloneWrite => 21
  | .spawnPumps => 20
  -- with both pumps alive the loop goes round once more, to the test of the stop flag
  | .checkAlive => if alive then 19 else 16
  | .sleep => 18
  | .checkStop => 17
  | .stopSession => 15
  | .shutdown => 14
  | .joinA => 13
  | .joinB => 12
  | .remove => 11
  | .rollback _ => 11
  | .dropTun _ => 10
  | .setErrorText _ => 9
  | .setErrorState => 8
  | .readState => 7
  | .setDisconnected => 6
  | .finished => 0

namespace Worker

/-- The worker will not stay in its pump loop. -/
def Ending (w : Worker) (sh : Shared) : Prop :=
  match w.pc with
  | .clearStop => False
  | .resetCounters | .setConnecting | .tunUp | .dial | .carveOut | .low | .high | .setConnected
  | .cloneRead | .cloneWrite | .spawnPumps => sh.stop = true
  | _ => sh.stop = true ∨ w.alive = false

/-- The steps that are left, each row to be deleted being one. -/
def stage (w : Worker) : Nat := 2 * w.pc.stage w.alive + w.rows.length

section
variable {w w' : Worker} {sh sh' : Shared} {table table' : RouteTable}

theorem Ending.of_stop (h : w.Ending sh) (hs : sh.stop = true → sh'.stop = true) : w.Ending sh' := by
  unfold Ending at h ⊢
  split
  · next hpc => simp [hpc] at h
  all_goals simp_all
  exact h.imp_left hs

theorem Ending.pumpEnds (h : w.Ending sh) (p : Pump) : (w.pumpEnds p).Ending sh := by
  unfold Ending at h ⊢
  rw [pumpEnds_pc]
  cases p <;> split <;> simp_all [Worker.pumpEnds]

theorem stage_pumpEnds (w : Worker) (p : Pump) : (w.pumpEnds p).stage ≤ w.stage := by
  unfold stage
  rw [pumpEnds_pc]
  cases p <;> cases w.pc <;> simp [Worker.pumpEnds, Pc.stage]
  all_goals split <;> omega

/-- **One step of the worker.**  It comes nearer to its end, and is still bound for it. -/
theorem ending_step (he : w.Ending sh) (h : w.step sh table = some (w', sh', table')) :
    w'.Ending sh' ∧ w'.stage < w.stage := by
  unfold Ending at he
  cases hpc : w.pc with
  | clearStop => simp [hpc] at he
  | carveOut =>
    simp only [hpc] at he
    simp only [step, hpc] at h
    split at h <;> cases h <;> refine ⟨he, ?_⟩ <;> simp [stage, hpc, Pc.stage]
    omega
  | checkStop =>
    simp only [hpc] at he
    simp only [step, hpc] at h
    cases h
    cases hs : sh.stop with
    | true => exact ⟨Or.inl hs, by simp [stage, hpc, Pc.stage]⟩
    | false =>
      have halive : w.alive = false := by simpa [hs] using he
      exact ⟨Or.inr halive, by simp [stage, hpc, Pc.stage, halive]⟩
  | checkAlive =>
    simp only [hpc] at he
    simp only [step, hpc] at h
    cases h
    cases ha : w.alive with
    | true =>
      have hs : sh.stop = true := by simpa [ha] using he
      exact ⟨Or.inl hs, by simp [stage, hpc, Pc.stage, ha]⟩
    | false => exact ⟨Or.inr rfl, by simp [stage, hpc, Pc.stage, ha]⟩
  | _ =>
    simp only [hpc] at he
    simp only [step, hpc] at h
    (repeat' split at h) <;> cases h <;> simp_all [Ending, stage, Pc.stage, abandon]
    all_goals omega

/-- A worker that has not finished can go on, except in its two joins. -/
theorem step_waits (he : w.pc ≠ .finished) (h : w.step sh table = none) :
    w.pc = .joinA ∧ w.pumpA = true ∨ w.pc = .joinB ∧ w.pumpB = true := by
  cases hpc : w.pc with
  | finished => exact absurd hpc he
  | joinA =>
    simp only [step, hpc] at h
    split at h
    · next hp => exact Or.inl ⟨rfl, hp⟩
    · cases h
  | joinB =>
    simp only [step, hpc] at h
    split at h
    · next hp => exact Or.inr ⟨rfl, hp⟩
    · cases h
  | _ =>
    simp only [step, hpc] at h
    (repeat' split at h) <;> cases h

end

end Worker

/-- The steps that thread A has left once its calls fail. -/
def PumpTx.left : PumpTx → Nat
  | .count _ => 4
  | .receive => 3
  | .write _ => 2
  | .ended _ => 1

theorem PumpTx.left_le (p : PumpTx) : p.left ≤ 4 := by
  cases p <;> simp [PumpTx.left]

/-- The steps that thread B has left once its calls fail. -/
def PumpRx.left : PumpRx → Nat
  | .check _ => 6
  | .allocate _ => 5
  | .copy _ _ => 4
  | .count _ => 3
  | .read _ => 2
  | .ended _ => 1
  | .panicked => 0

theorem PumpRx.left_le (p : PumpRx) : p.left ≤ 6 := by
  cases p <;> simp [PumpRx.left]

namespace Tunnel

/-- After `shutdown(Both)` no call moves bytes any more. -/
def Unblocked (s : Tunnel) : Act → Prop
  | .up (.write _) => s.socketDown = false
  | .down (.read _) => s.socketDown = false
  | _ => True

/-- The steps that come by themselves: the worker's, and from the shutdown on those of the pump
threads, none of whose calls waits any more. -/
def own (s : Tunnel) : Act → Bool
  | .work => true
  | .requestStop => false
  | .up a => s.socketDown && a.ofPump
  | .down a => s.socketDown && a.ofPump
  | .pumpEnds _ => s.socketDown

/-- What the worker has called before it waits. -/
def Signalled (s : Tunnel) : Prop :=
  match s.worker.pc with
  | .shutdown => s.sessionDown = true
  | .joinA | .joinB => s.sessionDown = true ∧ s.socketDown = true
  | _ => True

/-- The steps that the pump threads have left. -/
def pumps (s : Tunnel) : Nat :=
  if s.socketDown then
    (if s.worker.pumpA then s.up.pump.left else 0) + (if s.worker.pumpB then s.down.pump.left else 0)
  else 10

def rank (s : Tunnel) : Nat := 11 * s.worker.stage + s.pumps

/-- What the end of the teardown rests on. -/
structure Bound (s : Tunnel) : Prop where
  ending : s.worker.Ending s.shared
  signalled : s.Signalled
  down : s.down.Inv

theorem pumps_le (s : Tunnel) : s.pumps ≤ 10 := by
  have hA := PumpTx.left_le s.up.pump
  have hB := PumpRx.left_le s.down.pump
  unfold pumps
  repeat' split
  all_goals omega

/-- A step of thread A on a stream that is down. -/
theorem upload_left {u u' : Upload} {a : Upload.Act} (ha : a.ofPump = true) (hw : ∀ n, a ≠ .write n)
    (h : u.step a = some u') : u'.pump.left < u.pump.left := by
  cases a with
  | phone a => cases ha
  | write n => exact absurd rfl (hw n)
  | receive packet =>
    simp only [Upload.step] at h
    split at h
    · next hp =>
      split at h
      · cases h
        show (PumpTx.writeFrame packet).left < u.pump.left
        rw [hp]
        unfold PumpTx.writeFrame
        split <;> simp [PumpTx.left]
      · cases h
    · cases h
  | _ =>
    simp only [Upload.step] at h
    split at h
    · next hp => cases h; simp [PumpTx.left, hp]
    · cases h

/-- A step of thread B on a stream that is down. -/
theorem download_left {d d' : Download} {a : Download.Act} (ha : a.ofPump = true)
    (hr : ∀ n, a ≠ .read n) (h : d.step a = some d') : d'.pump.left < d.pump.left := by
  cases a with
  | phone a => cases ha
  | cut n => cases ha
  | read n => exact absurd rfl (hr n)
  | _ =>
    simp only [Download.step] at h
    repeat' split at h
    all_goals first
      | cases h; simp_all [PumpRx.left]
      | cases h

theorem signalled_step {s s' : Tunnel} {a : Act} (hsig : s.Signalled) (h : s.step a = some s') :
    s'.Signalled := by
  unfold Signalled at hsig
  cases moves_of_step h with
  | work worker shared table sd kd hw h1 h2 =>
    cases hpc : s.worker.pc with
    | stopSession =>
      simp only [Worker.step, hpc] at hw
      cases hw
      exact h1.2 (Or.inr hpc)
    | shutdown =>
      simp only [hpc] at hsig
      simp only [Worker.step, hpc] at hw
      cases hw
      exact ⟨h1.2 (Or.inl hsig), h2.2 (Or.inr hpc)⟩
    | joinA =>
      simp only [hpc] at hsig
      simp only [Worker.step, hpc] at hw
      split at hw <;> cases hw
      exact ⟨h1.2 (Or.inl hsig.1), h2.2 (Or.inl hsig.2)⟩
    | _ =>
      simp only [Worker.step, hpc] at hw
      (repeat' split at hw) <;> cases hw <;> simp_all [Signalled, Worker.abandon]
  | pumpEnds p hr he =>
    show match (s.worker.pumpEnds p).pc with
      | .shutdown => s.sessionDown = true
      | .joinA | .joinB => s.sessionDown = true ∧ s.socketDown = true
      | _ => True
    rw [Worker.pumpEnds_pc]
    exact hsig
  | _ => exact hsig

theorem ending_step {s s' : Tunnel} {a : Act} (he : s.worker.Ending s.shared)
    (h : s.step a = some s') : s'.worker.Ending s'.shared := by
  cases moves_of_step h with
  | work worker shared table sd kd hw h1 h2 => exact (Worker.ending_step he hw).1
  | requestStop => exact he.of_stop fun _ => rfl
  | up a up hp hu => exact he.of_stop fun hs => (s.countUp_same a).stop.trans hs
  | down a down hp hd => exact he.of_stop fun hs => (s.countDown_same a).stop.trans hs
  | pumpEnds p hr hend => exact he.pumpEnds p

theorem bound_step {s s' : Tunnel} {a : Act} (hb : s.Bound) (h : s.step a = some s') : s'.Bound where
  ending := ending_step hb.ending h
  signalled := signalled_step hb.signalled h
  down := by
    have hd := hb.down
    cases moves_of_step h with
    | down a down hp hstep => exact Download.step_inv s.down a down hd hstep
    | _ => exact hd

/-- A pump thread that ends has no step left. -/
theorem pumps_pumpEnds {s : Tunnel} {p : Pump} (hd : s.socketDown = true)
    (hr : s.worker.running p = true) (he : s.ended p = true) :
    pumps { s with worker := s.worker.pumpEnds p } < s.pumps := by
  unfold pumps
  rw [if_pos hd, if_pos hd]
  cases p with
  | a =>
    have hleft : 0 < s.up.pump.left := by cases s.up.pump <;> simp [PumpTx.left]
    rw [if_pos (show s.worker.pumpA = true from hr)]
    exact Nat.add_lt_add_right hleft _
  | b =>
    have hleft : 0 < s.down.pump.left := by
      unfold ended at he
      cases hp : s.down.pump <;> simp_all [PumpRx.left, PumpRx.isEnded]
    rw [if_pos (show s.worker.pumpB = true from hr)]
    exact Nat.add_lt_add_left hleft _

/-- An own step lowers the rank. -/
theorem rank_drops {s s' : Tunnel} {a : Act} (hb : s.Bound) (hu : s.Unblocked a)
    (h : s.step a = some s') (ho : s.own a = true) : s'.rank < s.rank := by
  unfold rank
  cases moves_of_step h with
  | work worker shared table sd kd hw h1 h2 =>
    have hstage := (Worker.ending_step hb.ending hw).2
    have hpumps := pumps_le { s with
      worker := worker, shared := shared, table := table, sessionDown := sd, socketDown := kd }
    show 11 * worker.stage + _ < _
    omega
  | requestStop => cases ho
  | up a up hp hstep =>
    obtain ⟨hdown, ha⟩ := Bool.and_eq_true_iff.1 ho
    have hwrite : ∀ n, a ≠ .write n := by
      rintro n rfl
      rw [show s.socketDown = false from hu] at hdown
      cases hdown
    have hleft := upload_left ha hwrite hstep
    simp only [pumps, hdown, hp ha, if_true]
    omega
  | down a down hp hstep =>
    obtain ⟨hdown, ha⟩ := Bool.and_eq_true_iff.1 ho
    have hread : ∀ n, a ≠ .read n := by
      rintro n rfl
      rw [show s.socketDown = false from hu] at hdown
      cases hdown
    have hleft := download_left ha hread hstep
    simp only [pumps, hdown, hp ha, if_true]
    omega
  | pumpEnds p hr he =>
    have hdown : s.socketDown = true := ho
    have hstage := s.worker.stage_pumpEnds p
    have hleft := pumps_pumpEnds hdown hr he
    show 11 * (s.worker.pumpEnds p).stage + _ < _
    omega

/-- No other step raises it. -/
theorem rank_stays {s s' : Tunnel} {a : Act} (h : s.step a = some s') (ho : s.own a = false) :
    s'.rank ≤ s.rank := by
  unfold rank
  cases moves_of_step h with
  | work worker shared table sd kd hw h1 h2 => cases ho
  | requestStop => exact Nat.le_refl _
  | up a up hp hstep =>
    refine Nat.add_le_add_left ?_ _
    unfold pumps
    cases hdown : s.socketDown with
    | false => simp
    | true =>
      have ha : a.ofPump = false := by simpa [own, hdown] using ho
      rw [show up.pump = s.up.pump from (upload_phone ha hstep).1]
  | down a down hp hstep =>
    refine Nat.add_le_add_left ?_ _
    unfold pumps
    cases hdown : s.socketDown with
    | false => simp
    | true =>
      have ha : a.ofPump = false := by simpa [own, hdown] using ho
      rw [show down.pump = s.down.pump from (download_phone ha hstep).1]
  | pumpEnds p hr he =>
    have hdown : s.socketDown = false := ho
    have hstage := s.worker.stage_pumpEnds p
    simp only [pumps, hdown, Bool.false_eq_true, if_false]
    omega

theorem up_enabled {s : Tunnel} {a : Upload.Act} {up : Upload} (hr : s.worker.pumpA = true)
    (hd : s.socketDown = true) (ha : a.ofPump = true) (hu : s.Unblocked (.up a))
    (h : s.up.step a = some up) : ∃ a s', s.own a = true ∧ s.Unblocked a ∧ s.step a = some s' := by
  refine ⟨.up a, { s with up := up, shared := s.countUp a }, ?_, hu, ?_⟩
  · simp only [own, hd, ha, Bool.and_true]
  · simp only [step, ha, hr, h, Bool.not_true, Bool.and_false, Bool.false_eq_true, if_false]

theorem down_enabled {s : Tunnel} {a : Download.Act} {down : Download} (hr : s.worker.pumpB = true)
    (hd : s.socketDown = true) (ha : a.ofPump = true) (hu : s.Unblocked (.down a))
    (h : s.down.step a = some down) : ∃ a s', s.own a = true ∧ s.Unblocked a ∧ s.step a = some s' := by
  refine ⟨.down a, { s with down := down, shared := s.countDown a }, ?_, hu, ?_⟩
  · simp only [own, hd, ha, Bool.and_true]
  · simp only [step, ha, hr, h, Bool.not_true, Bool.and_false, Bool.false_eq_true, if_false]

theorem end_enabled {s : Tunnel} {p : Pump} (hr : s.worker.running p = true) (hd : s.socketDown = true)
    (he : s.ended p = true) : ∃ a s', s.own a = true ∧ s.Unblocked a ∧ s.step a = some s' :=
  ⟨.pumpEnds p, { s with worker := s.worker.pumpEnds p }, hd, trivial,
    by simp only [step, hr, he, Bool.and_true, if_true]⟩

/-- Thread A is in no call that the two shutdowns do not end. -/
theorem unblocked_a {s : Tunnel} (hr : s.worker.pumpA = true) (hd : s.socketDown = true) :
    ∃ a s', s.own a = true ∧ s.Unblocked a ∧ s.step a = some s' := by
  cases hp : s.up.pump with
  | receive => exact up_enabled (a := .receiveErr) hr hd rfl trivial (by simp only [Upload.step, hp]; rfl)
  | write w => exact up_enabled (a := .writeErr) hr hd rfl trivial (by simp only [Upload.step, hp]; rfl)
  | count packet => exact up_enabled (a := .count) hr hd rfl trivial (by simp only [Upload.step, hp]; rfl)
  | ended part => exact end_enabled (p := .a) hr hd (by simp only [ended, hp]; rfl)

/-- And neither is thread B. -/
theorem unblocked_b {s : Tunnel} (hr : s.worker.pumpB = true) (hd : s.socketDown = true)
    (hdown : s.down.Inv) : ∃ a s', s.own a = true ∧ s.Unblocked a ∧ s.step a = some s' := by
  cases hp : s.down.pump with
  | read f => exact down_enabled (a := .readErr) hr hd rfl trivial (by simp only [Download.step, hp]; rfl)
  | check pkt =>
    obtain ⟨d, hstep⟩ : ∃ d, s.down.step .check = some d := by
      simp only [Download.step, hp]
      split <;> exact ⟨_, rfl⟩
    exact down_enabled (a := .check) hr hd rfl trivial hstep
  | allocate pkt =>
    exact down_enabled (a := .allocateErr) hr hd rfl trivial (by simp only [Download.step, hp]; rfl)
  | copy pkt send =>
    obtain ⟨d, hstep⟩ : ∃ d, s.down.step .copy = some d := by
      simp only [Download.step, hp]
      split <;> exact ⟨_, rfl⟩
    exact down_enabled (a := .copy) hr hd rfl trivial hstep
  | count pkt => exact down_enabled (a := .count) hr hd rfl trivial (by simp only [Download.step, hp]; rfl)
  | ended rest => exact end_enabled (p := .b) hr hd (by simp only [ended, hp]; rfl)
  | panicked => exact absurd hp hdown.pumped.panic

/-- **The rank of the teardown.** -/
theorem ranked : Runs.Ranked step (fun s a => s.own a) Unblocked Bound (fun s => s.worker.pc = .finished)
    rank where
  kept := fun s a s' hb _ h => bound_step hb h
  drops := fun s a s' hb hu h ho => rank_drops hb hu h ho
  stays := fun s a s' _ _ h ho => rank_stays h ho
  enabled := by
    intro s hb hne
    cases hw : s.worker.step s.shared s.table with
    | some r =>
      obtain ⟨worker, shared, table⟩ := r
      exact ⟨.work, _, rfl, trivial, by simp only [step, hw]; rfl⟩
    | none =>
      have hsig := hb.signalled
      unfold Signalled at hsig
      rcases Worker.step_waits hne hw with ⟨hpc, hr⟩ | ⟨hpc, hr⟩
      · simp only [hpc] at hsig
        exact unblocked_a hr hsig.2
      · simp only [hpc] at hsig
        exact unblocked_b hr hsig.2 hb.down

theorem stage_le (w : Worker) (h : w.pc ≠ .clearStop) : w.stage ≤ 60 + w.rows.length := by
  unfold Worker.stage
  have hle : w.pc.stage w.alive ≤ 30 := by
    cases hpc : w.pc <;> simp_all [Pc.stage]
    split <;> omega
  omega

theorem start_signalled (args : Args) (out : Outcomes) (shared : Shared) (table : RouteTable) :
    (start args out shared table).Signalled := trivial

theorem run_signalled {args : Args} {out : Outcomes} {shared : Shared} {table : RouteTable}
    {acts : List Act} {s : Tunnel}
    (h : Runs.exec step (start args out shared table) acts = some s) : s.Signalled :=
  Runs.exec_inv step Signalled (fun _ _ _ hs hstep => signalled_step hs hstep)
    (start_signalled args out shared table) h

end Tunnel

/-- **A worker that is asked to stop finishes.**  Take any state in which the stop flag is set and the
worker past its `clear_stop`, or in which a pump thread has ended.  Whatever else happens from there,
the worker takes no more than the stated number of steps, those of the pump threads after the
shutdown included, and no state but that of a finished worker is without such a step; and some run
does end with it finished. -/
theorem teardown_returns (args : Args) (out : Outcomes) (shared : Shared) (table : RouteTable)
    (acts : List Tunnel.Act) (s : Tunnel)
    (h : Runs.exec Tunnel.step (.start args out shared table) acts = some s)
    (he : s.worker.Ending s.shared) :
    (∀ acts t, Runs.exec Tunnel.step s acts = some t → Runs.Along Tunnel.step Tunnel.Unblocked s acts →
      Runs.ownSteps Tunnel.step (fun s a => s.own a) s acts ≤ 670 + 11 * s.worker.rows.length ∧
      ((∀ a, t.own a = true → t.Unblocked a → t.step a = none) → t.worker.pc = .finished)) ∧
    ∃ acts t, Runs.exec Tunnel.step s acts = some t ∧
      Runs.Along Tunnel.step (fun s a => s.own a = true ∧ s.Unblocked a) s acts ∧
      t.worker.pc = .finished := by
  have hb : s.Bound := ⟨he, Tunnel.run_signalled h, Download.run_inv (Tunnel.run_download h)⟩
  refine ⟨fun acts t ht hal => ?_, Tunnel.ranked.reach hb⟩
  obtain ⟨hbt, hle⟩ := Tunnel.ranked.bound hb hal ht
  refine ⟨?_, fun hno => Tunnel.ranked.stuck hbt fun a t' ho hu hs => ?_⟩
  · have hclear : s.worker.pc ≠ .clearStop := by
      intro hpc
      unfold Worker.Ending at he
      rw [hpc] at he
      exact he
    have hstage := Tunnel.stage_le s.worker hclear
    have hpumps := s.pumps_le
    unfold Tunnel.rank at hle
    omega
  · rw [hno a ho hu] at hs
    cases hs

/-- The stop request comes while thread A waits in a write that nobody reads, and thread B in a read:
the worker is in its first join, and finishes. -/
theorem teardown_returns_run : ∃ acts s, Runs.exec Tunnel.step
      (.start Args.default (.smooth .reachable ⟨7, true⟩ ⟨⟨0, 0, 0, 0⟩, 1⟩) Shared.new ∅) acts = some s ∧
    s.worker.pumpA = true ∧ s.worker.pumpB = true ∧
    ∃ acts t, Runs.exec Tunnel.step s acts = some t ∧
      Runs.Along Tunnel.step (fun s a => s.own a = true ∧ s.Unblocked a) s acts ∧
      t.worker.pc = .finished := by
  have h : Runs.exec Tunnel.step
      (.start Args.default (.smooth .reachable ⟨7, true⟩ ⟨⟨0, 0, 0, 0⟩, 1⟩) Shared.new ∅)
      [.work, .work, .work, .work, .work, .work, .work, .work, .work, .work, .work, .work,
        .up (.receive [1, 2, 3]), .requestStop, .work, .work, .work] = some _ := rfl
  exact ⟨_, _, h, rfl, rfl, (teardown_returns _ _ _ _ _ _ h (Or.inl rfl)).2⟩

end RickyNet
