import RickyNet.Link.Drains
import RickyNet.Win.Unblock

/-!
# The cable is pulled

Once the stream is cut, each end still reads what was under way, and then its read call fails.  On the
phone `reader_task` ends, which is the signal that `bridge` waits for; on the desktop thread B ends, and
with it the pump loop of the worker.

`disconnect_noticed`, `cut_ends_worker`: neither end is stuck before it has noticed.  On the phone that
takes ipstack to go on polling as long as the channel is full, or to drop the device.
-/

namespace RickyNet

/-! ## The phone -/

/-- The step in which it ends. -/
def ReaderTask.last : ReaderTask → Nat
  | .ended _ => 0
  | _ => 1

namespace Upload

/-- The steps of the phone that move something on. -/
def phoneOwn (u : Upload) : Act → Bool
  | .phone (.cut _) => false
  | .phone .drop => false
  | .phone a => u.own (.phone a)
  | _ => false

/-- The steps before `reader_task` has ended. -/
def untilEnd (u : Upload) : Nat :=
  4 * u.phone.stream.flight.length + u.phone.reader.work + u.queued + u.phone.reader.last

/-- The stream is cut. -/
structure Cut (u : Upload) : Prop where
  inv : u.Inv
  cut : u.phone.stream.cut = true

/-- What thread A writes does not arrive. -/
theorem flight_put {α : Type*} {s : ByteStream α} (h : s.cut = true) (bs : List α) :
    (s.put bs).flight = s.flight := by
  show (if s.cut then s.flight else s.flight ++ bs) = _
  rw [h, if_pos rfl]

/-- A step of the phone. -/
theorem untilEnd_phone {u : Upload} (hu : u.Cut) {a : Inbound.Act} {phone : Inbound} (ha : a.whole)
    (h : u.phone.step a = some phone) :
    phone.stream.cut = true ∧
      if u.phoneOwn (.phone a) then untilEnd { u with phone := phone } < u.untilEnd
      else untilEnd { u with phone := phone } ≤ u.untilEnd := by
  obtain ⟨hinv, hcut⟩ := hu
  cases Inbound.moves_of_step h with
  | cut n =>
    refine ⟨rfl, ?_⟩
    show untilEnd _ ≤ untilEnd _
    have hle : (u.phone.stream.cutAt n).flight.length ≤ u.phone.stream.flight.length :=
      List.length_take_le' _ _
    unfold untilEnd queued
    dsimp only
    omega
  | drop =>
    refine ⟨hcut, ?_⟩
    show untilEnd _ ≤ untilEnd _
    unfold untilEnd queued
    dsimp only
    omega
  | readErr f hr =>
    refine ⟨hcut, ?_⟩
    show untilEnd _ < untilEnd _
    unfold untilEnd queued
    cases hd : u.phone.device <;>
      simp [hr, ReaderTask.work, ReaderTask.last, FramedDevice.close]
  | read f n hr hpos hn hfl =>
    refine ⟨hcut, ?_⟩
    obtain ⟨-, hwork⟩ := work_readPiece hr hpos hn hfl
    have hdev : (u.phone.readPiece n).device = u.phone.device := rfl
    have hlast : (u.phone.readPiece n).reader.last ≤ u.phone.reader.last := by
      rw [hr]
      cases (u.phone.readPiece n).reader <;> simp [ReaderTask.last]
    show untilEnd _ < untilEnd _
    unfold untilEnd queued
    simp only [hdev]
    omega
  | count buf hr =>
    refine ⟨hcut, ?_⟩
    show untilEnd _ < untilEnd _
    unfold untilEnd queued
    simp [hr, ReaderTask.work, ReaderTask.last]
  | send buf d hr hd hroom =>
    refine ⟨hcut, ?_⟩
    show untilEnd _ < untilEnd _
    unfold untilEnd queued
    simp only [hr, hd, ReaderTask.work, ReaderTask.start, ReaderTask.last, FramedDevice.enqueue,
      List.length_append, List.length_singleton]
    omega
  | sendErr buf hr hd =>
    refine ⟨hcut, ?_⟩
    show untilEnd _ < untilEnd _
    unfold untilEnd queued
    simp only [hr, hd, ReaderTask.work, ReaderTask.last]
    omega
  | poll d remaining hd hpos =>
    refine ⟨hcut, ?_⟩
    have hin := polled_incoming hinv hd ha
    have hstream : (u.phone.polled d remaining).stream = u.phone.stream := rfl
    unfold phoneOwn own untilEnd queued
    simp only [hd, Inbound.polled_device, Inbound.polled_reader, hstream, hin, List.length_tail]
    cases hq : d.incoming with
    | nil => simp
    | cons p rest =>
      simp only [List.isEmpty_cons, Bool.not_false, if_true, List.length_cons]
      omega

/-- **One step on a stream that is cut.** -/
theorem untilEnd_step {u u' : Upload} {a : Act} (hu : u.Cut) (h : u.step a = some u') :
    u'.Cut ∧ if u.phoneOwn a then u'.untilEnd < u.untilEnd else u'.untilEnd ≤ u.untilEnd := by
  have hinv' := step_inv u a u' hu.inv h
  have hpump : ∀ u' : Upload, u'.phone = u.phone → u'.untilEnd ≤ u.untilEnd := by
    intro u' heq
    unfold untilEnd queued
    rw [heq]
  cases a with
  | phone a =>
    simp only [step] at h
    split at h
    · next ha =>
      split at h
      · next phone hph =>
        cases h
        obtain ⟨h1, h2⟩ := untilEnd_phone hu ha hph
        exact ⟨⟨hinv', h1⟩, h2⟩
      · cases h
    · cases h
  | write n =>
    simp only [step] at h
    split at h
    · next w hp =>
      split at h
      · cases h
        have hflight := flight_put hu.cut (w.pending.take n)
        have hphone : (u.writePiece w n).phone =
            { u.phone with stream := u.phone.stream.put (w.pending.take n) } := by
          unfold writePiece
          cases w.accept n <;> rfl
        refine ⟨⟨hinv', ?_⟩, ?_⟩
        · rw [hphone]
          exact hu.cut
        · show untilEnd _ ≤ untilEnd _
          unfold untilEnd queued
          rw [hphone]
          simp only [hflight]
          exact Nat.le_refl _
      · cases h
    · cases h
  | receive packet =>
    simp only [step] at h
    split at h
    · split at h
      · cases h; exact ⟨⟨hinv', hu.cut⟩, hpump _ rfl⟩
      · cases h
    · cases h
  | _ =>
    simp only [step] at h
    split at h
    · cases h; exact ⟨⟨hinv', hu.cut⟩, hpump _ rfl⟩
    · cases h

/-- As long as it has not ended, `reader_task` or ipstack can take a step. -/
theorem Cut.goes_on {u : Upload} (hne : u.phone.reader.isEnded ≠ true) :
    ∃ a u', u.phoneOwn a = true ∧ u.step a = some u' := by
  cases hr : u.phone.reader with
  | ended rest => rw [hr] at hne; exact absurd rfl hne
  | reading f =>
    exact ⟨.phone .readErr, _, rfl, by
      simp only [step, Inbound.step, hr, if_pos (show Inbound.Act.whole .readErr from trivial)]; rfl⟩
  | count buf =>
    exact ⟨.phone .count, _, rfl, by
      simp only [step, Inbound.step, hr, if_pos (show Inbound.Act.whole .count from trivial)]; rfl⟩
  | send buf =>
    cases hd : u.phone.device with
    | none =>
      exact ⟨.phone .send, _, rfl, by
        simp only [step, Inbound.step, hr, hd, if_pos (show Inbound.Act.whole .send from trivial)]; rfl⟩
    | some d =>
      by_cases hroom : d.incoming.length < INCOMING_CAP
      · exact ⟨.phone .send, _, rfl, by
          simp only [step, Inbound.step, hr, hd, if_pos hroom,
            if_pos (show Inbound.Act.whole .send from trivial)]; rfl⟩
      · -- the channel is full, and so ipstack gets a packet
        refine ⟨.phone (.poll 65535), { u with phone := u.phone.polled d 65535 }, ?_, ?_⟩
        · unfold phoneOwn own
          simp only [hd]
          cases hq : d.incoming with
          | nil =>
            rw [hq] at hroom
            exact absurd (by decide) hroom
          | cons p rest => rfl
        · simp only [step, Inbound.step, hd]
          rfl

theorem ranked_cut : Runs.Ranked step phoneOwn (fun _ _ => True) Cut
    (fun u => u.phone.reader.isEnded = true) untilEnd := by
  refine .of_step (fun u a u' hu _ h => (untilEnd_step hu h).1)
    (fun u a u' hu _ h => (untilEnd_step hu h).2) (fun u _ hne => ?_)
  obtain ⟨a, u', ho, h⟩ := Cut.goes_on hne
  exact ⟨a, u', ho, trivial, h⟩

end Upload

/-! ## The desktop -/

namespace Tunnel

/-- The steps of thread B. -/
def ownB : Act → Bool
  | .down a => a.ofPump
  | .pumpEnds .b => true
  | _ => false

/-- The steps before thread B has ended. -/
def untilEnd (s : Tunnel) : Nat :=
  if s.worker.pumpB then 6 * s.down.phone.stream.flight.length + s.down.pump.left else 0

/-- The pump threads have been spawned. -/
def Spawned (w : Worker) : Prop :=
  match w.pc with
  | .clearStop | .resetCounters | .setConnecting | .tunUp | .dial | .carveOut | .low | .high
  | .setConnected | .cloneRead | .cloneWrite | .spawnPumps => False
  | _ => True

/-- The stream to the desktop is cut, and thread B still runs, or the worker will leave its loop. -/
structure Cut (s : Tunnel) : Prop where
  linked : s.worker.Linked s.shared
  spawned : Spawned s.worker
  signalled : s.Signalled
  down : s.down.Inv
  cut : s.down.phone.stream.cut = true
  running : s.worker.pumpB = true ∨ s.worker.Ending s.shared

/-- A thread that runs has been spawned. -/
theorem spawned_of_running {w : Worker} {sh : Shared} (h : w.Linked sh) (hB : w.pumpB = true) : Spawned w := by
  unfold Worker.Linked at h
  unfold Spawned
  split at h <;> simp_all [Worker.Idle]

/-- The worker does not go back to where it spawns them, and does not end them. -/
theorem spawned_step {w w' : Worker} {sh sh' : Shared} {table table' : RouteTable} (hw : Spawned w)
    (h : w.step sh table = some (w', sh', table')) : Spawned w' ∧ w'.pumpB = w.pumpB := by
  unfold Spawned at hw
  cases hpc : w.pc with
  | checkStop =>
    simp only [Worker.step, hpc] at h
    cases h
    cases sh.stop <;> exact ⟨trivial, rfl⟩
  | checkAlive =>
    simp only [Worker.step, hpc] at h
    cases h
    unfold Spawned
    cases w.alive <;> exact ⟨trivial, rfl⟩
  | readState =>
    simp only [Worker.step, hpc] at h
    cases h
    by_cases hs : sh.state = .error <;> simp [Spawned, hs]
  | _ =>
    simp only [hpc] at hw
    try simp only [Worker.step, hpc] at h
    try (repeat' split at h) <;> cases h <;> simp_all [Spawned]

/-- When thread B has ended, the worker will leave its loop. -/
theorem ending_of_pumpEnds {w : Worker} {sh : Shared} (hw : Spawned w) (p : Pump) :
    (w.pumpEnds p).Ending sh := by
  have halive : (w.pumpEnds p).alive = false := by cases p <;> rfl
  unfold Spawned at hw
  unfold Worker.Ending
  rw [Worker.pumpEnds_pc]
  split <;> simp_all

/-- What the phone puts on a stream that is cut does not arrive. -/
theorem outbound_cut {o o' : Outbound} {a : Outbound.Act} (hcut : o.stream.cut = true)
    (h : o.step a = some o') : o'.stream.cut = true ∧ o'.stream.flight = o.stream.flight := by
  cases a with
  | write n =>
    simp only [Outbound.step] at h
    split at h
    · next w hw =>
      split at h
      · cases h
        have hstream : (o.writePiece w n).stream = o.stream.put (w.pending.take n) := by
          unfold Outbound.writePiece
          cases w.accept n <;> rfl
        rw [hstream]
        exact ⟨hcut, Upload.flight_put hcut _⟩
      · cases h
    · cases h
  | pollWrite packet =>
    simp only [Outbound.step] at h
    split at h
    · cases h
      unfold Outbound.pollWrite
      split <;> exact ⟨hcut, rfl⟩
    · cases h
  | recv =>
    simp only [Outbound.step] at h
    (repeat' split at h) <;> cases h
    · unfold Outbound.received
      split <;> exact ⟨hcut, rfl⟩
    · exact ⟨hcut, rfl⟩
  | _ =>
    simp only [Outbound.step] at h
    (repeat' split at h) <;> cases h <;> exact ⟨hcut, rfl⟩

/-- A step of thread B, or of the phone, on a stream that is cut. -/
theorem download_cut {d d' : Download} {a : Download.Act} (hcut : d.phone.stream.cut = true)
    (h : d.step a = some d') :
    d'.phone.stream.cut = true ∧
      if a.ofPump then
        6 * d'.phone.stream.flight.length + d'.pump.left < 6 * d.phone.stream.flight.length + d.pump.left
      else 6 * d'.phone.stream.flight.length + d'.pump.left ≤
        6 * d.phone.stream.flight.length + d.pump.left := by
  cases a with
  | phone a =>
    have hpump := (download_phone (a := .phone a) rfl h).1
    simp only [Download.step] at h
    split at h
    · next phone hphone =>
      cases h
      obtain ⟨h1, h2⟩ := outbound_cut hcut hphone
      refine ⟨h1, ?_⟩
      show 6 * phone.stream.flight.length + _ ≤ _
      rw [h2]
    · cases h
  | cut n =>
    cases h
    refine ⟨rfl, ?_⟩
    have hle : (d.phone.stream.cutAt n).flight.length ≤ d.phone.stream.flight.length :=
      List.length_take_le' _ _
    exact Nat.add_le_add_right (Nat.mul_le_mul_left 6 hle) d.pump.left
  | read n =>
    simp only [Download.step] at h
    split at h
    · next f hp =>
      split at h
      · next hn =>
        cases h
        have htake := ByteStream.length_take d.phone.stream hn.2.2
        have hpump : (d.readPiece f n).pump.left ≤ 6 ∧
            (d.readPiece f n).phone.stream = d.phone.stream.take n := by
          unfold Download.readPiece
          cases f.feed (d.phone.stream.flight.take n) <;> exact ⟨by simp [PumpRx.left], rfl⟩
        rw [hpump.2]
        refine ⟨hcut, ?_⟩
        have hread : d.pump.left = 2 := by rw [hp]; rfl
        show _ < _
        omega
      · cases h
    · cases h
  | _ =>
    have hleft := download_left rfl (by simp) h
    have hphone : d'.phone = d.phone := by
      simp only [Download.step] at h
      (repeat' split at h) <;> cases h <;> rfl
    rw [hphone]
    exact ⟨hcut, Nat.add_lt_add_left hleft _⟩

/-- **One step with the cable out.** -/
theorem cut_step {s s' : Tunnel} {a : Act} (hc : s.Cut) (h : s.step a = some s') :
    s'.Cut ∧ if ownB a then s'.untilEnd < s.untilEnd else s'.untilEnd ≤ s.untilEnd := by
  have hlinked := linked_step hc.linked h
  have hsignalled := signalled_step hc.signalled h
  cases moves_of_step h with
  | work worker shared table sd kd hw h1 h2 =>
    obtain ⟨hspawned, hB⟩ := spawned_step hc.spawned hw
    refine ⟨⟨hlinked, hspawned, hsignalled, hc.down, hc.cut, ?_⟩, ?_⟩
    · rcases hc.running with hr | he
      · exact Or.inl (hB.trans hr)
      · exact Or.inr (Worker.ending_step he hw).1
    · show untilEnd _ ≤ untilEnd _
      unfold untilEnd
      rw [hB]
  | requestStop =>
    refine ⟨⟨hlinked, hc.spawned, hsignalled, hc.down, hc.cut, ?_⟩, Nat.le_refl _⟩
    exact hc.running.imp_right fun he => he.of_stop fun _ => rfl
  | up a up hp hu =>
    refine ⟨⟨hlinked, hc.spawned, hsignalled, hc.down, hc.cut, ?_⟩, Nat.le_refl _⟩
    exact hc.running.imp_right fun he => he.of_stop fun hs => (s.countUp_same a).stop.trans hs
  | down a down hp hd =>
    obtain ⟨hcut, hlow⟩ := download_cut hc.cut hd
    refine ⟨⟨hlinked, hc.spawned, hsignalled, Download.step_inv _ _ _ hc.down hd, hcut, ?_⟩, ?_⟩
    · exact hc.running.imp_right fun he => he.of_stop fun hs => (s.countDown_same a).stop.trans hs
    · by_cases ha : a.ofPump = true
      · rw [if_pos ha] at hlow
        rw [if_pos (show ownB (.down a) = true from ha)]
        unfold untilEnd
        rw [if_pos (hp ha), if_pos (hp ha)]
        exact hlow
      · rw [if_neg ha] at hlow
        rw [if_neg (show ¬ ownB (.down a) = true from ha)]
        unfold untilEnd
        by_cases hB : s.worker.pumpB = true
        · rw [if_pos hB, if_pos hB]
          exact hlow
        · rw [if_neg hB, if_neg hB]
  | pumpEnds p hr he =>
    refine ⟨⟨hlinked, ?_, hsignalled, hc.down, hc.cut, Or.inr (ending_of_pumpEnds hc.spawned p)⟩, ?_⟩
    · unfold Spawned
      rw [Worker.pumpEnds_pc]
      exact hc.spawned
    · cases p with
      | a => exact Nat.le_refl _
      | b =>
        have hB : s.worker.pumpB = true := hr
        have hleft : 0 < s.down.pump.left := by
          unfold ended at he
          cases hp : s.down.pump <;> simp_all [PumpRx.left, PumpRx.isEnded]
        show untilEnd _ < untilEnd _
        unfold untilEnd
        rw [hB]
        show 0 < 6 * s.down.phone.stream.flight.length + s.down.pump.left
        omega

/-- As long as the worker stays in its loop, thread B can go on. -/
theorem Cut.goes_on {s : Tunnel} (hc : s.Cut) (hne : ¬ s.worker.Ending s.shared) :
    ∃ a s', ownB a = true ∧ s.step a = some s' := by
  have hB : s.worker.pumpB = true := hc.running.resolve_right hne
  have hgo : ∀ (a : Download.Act) (down : Download), a.ofPump = true → s.down.step a = some down →
      ∃ a s', ownB a = true ∧ s.step a = some s' := by
    intro a down ha hd
    refine ⟨.down a, { s with down := down, shared := s.countDown a }, ha, ?_⟩
    simp only [step, ha, hB, hd, Bool.not_true, Bool.and_false, Bool.false_eq_true, if_false]
  cases hp : s.down.pump with
  | read f => exact hgo .readErr _ rfl (by simp only [Download.step, hp]; rfl)
  | check pkt =>
    obtain ⟨d, hd⟩ : ∃ d, s.down.step .check = some d := by
      simp only [Download.step, hp]
      split <;> exact ⟨_, rfl⟩
    exact hgo .check d rfl hd
  | allocate pkt => exact hgo .allocateErr _ rfl (by simp only [Download.step, hp]; rfl)
  | copy pkt send =>
    obtain ⟨d, hd⟩ : ∃ d, s.down.step .copy = some d := by
      simp only [Download.step, hp]
      split <;> exact ⟨_, rfl⟩
    exact hgo .copy d rfl hd
  | count pkt => exact hgo .count _ rfl (by simp only [Download.step, hp]; rfl)
  | ended rest =>
    refine ⟨.pumpEnds .b, { s with worker := s.worker.pumpEnds .b }, rfl, ?_⟩
    have hrun : s.worker.running .b = true := hB
    have hend : s.ended .b = true := by simp only [ended, hp]; rfl
    simp only [step, hrun, hend, Bool.and_true, if_true]
  | panicked => exact absurd hp hc.down.pumped.panic

theorem ranked_cut : Runs.Ranked step (fun _ a => ownB a) (fun _ _ => True) Cut
    (fun s => s.worker.Ending s.shared) untilEnd := by
  refine .of_step (fun s a s' hc _ h => (cut_step hc h).1) (fun s a s' hc _ h => (cut_step hc h).2)
    (fun s hc hne => ?_)
  obtain ⟨a, s', ho, h⟩ := hc.goes_on hne
  exact ⟨a, s', ho, trivial, h⟩

end Tunnel

/-- **The phone notices that the desktop has gone.**  Take any state of an upload in which the stream is
cut.  Whatever else happens, the phone takes no more than the stated number of steps that move something
on, and as long as there is none such `reader_task` has ended; and some run of them does end it. -/
theorem disconnect_noticed (acts : List Upload.Act) (u : Upload)
    (h : Runs.exec Upload.step Upload.init acts = some u) (hcut : u.phone.stream.cut = true) :
    (∀ acts' t, Runs.exec Upload.step u acts' = some t →
      Runs.ownSteps Upload.step Upload.phoneOwn u acts' ≤ u.untilEnd ∧
      ((∀ a, t.phoneOwn a = true → t.step a = none) → t.phone.reader.isEnded = true)) ∧
    ∃ acts' t, Runs.exec Upload.step u acts' = some t ∧
      Runs.Along Upload.step (fun u a => u.phoneOwn a = true) u acts' ∧ t.phone.reader.isEnded = true := by
  have hu : u.Cut := ⟨Upload.run_inv h, hcut⟩
  obtain ⟨acts', t, ht, hal, hend⟩ := Upload.ranked_cut.reach hu
  refine ⟨fun acts' t ht => ?_, acts', t, ht, hal.mono fun _ _ h => h.1, hend⟩
  obtain ⟨hut, hle⟩ := Upload.ranked_cut.bound hu (fun _ _ _ _ _ _ _ => trivial) ht
  refine ⟨by omega, fun hno => Upload.ranked_cut.stuck hut fun a t' ho _ hs => ?_⟩
  rw [hno a ho] at hs
  cases hs

/-- A frame cut in its length, with a packet in front of it that waits in the channel. -/
theorem disconnect_noticed_run : ∃ acts u, Runs.exec Upload.step .init acts = some u ∧
    u.handed = [[1, 2, 3], [4]] ∧ u.phone.delivered = [] ∧
    ∃ acts' t, Runs.exec Upload.step u acts' = some t ∧
      Runs.Along Upload.step (fun u a => u.phoneOwn a = true) u acts' ∧ t.phone.reader.isEnded = true := by
  have h : Runs.exec Upload.step .init
      [.receive [1, 2, 3], .write 2, .write 3, .count, .receive [4], .write 2, .phone (.read 2),
        .phone (.read 3), .phone .count, .phone (.cut 1)] = some _ := rfl
  exact ⟨_, _, h, rfl, rfl, (disconnect_noticed _ _ h rfl).2⟩

/-- **The worker ends when the cable is pulled.**  Take any state in which thread B runs and the stream to
it is cut.  Whatever else happens, thread B takes no more than the stated number of steps, and where it
can take none the worker is bound for its end; and some run of steps of thread B, of the worker, and of
both threads behind the shutdown, ends with the worker finished. -/
theorem cut_ends_worker (args : Args) (out : Outcomes) (shared : Shared) (table : RouteTable)
    (acts : List Tunnel.Act) (s : Tunnel)
    (h : Runs.exec Tunnel.step (.start args out shared table) acts = some s)
    (hB : s.worker.pumpB = true) (hcut : s.down.phone.stream.cut = true) :
    (∀ acts' t, Runs.exec Tunnel.step s acts' = some t →
      Runs.ownSteps Tunnel.step (fun _ a => Tunnel.ownB a) s acts' ≤
          6 * s.down.phone.stream.flight.length + 6 ∧
      ((∀ a, Tunnel.ownB a = true → t.step a = none) → t.worker.Ending t.shared)) ∧
    ∃ acts' t, Runs.exec Tunnel.step s acts' = some t ∧
      Runs.Along Tunnel.step (fun s a => Tunnel.ownB a = true ∨ s.own a = true ∧ s.Unblocked a) s acts' ∧
      t.worker.pc = .finished := by
  have hlinked := (Tunnel.run_counted h).linked
  have hc : s.Cut := ⟨hlinked, Tunnel.spawned_of_running hlinked hB, Tunnel.run_signalled h,
    Download.run_inv (Tunnel.run_download h), hcut, Or.inl hB⟩
  refine ⟨fun acts' t ht => ?_, ?_⟩
  · obtain ⟨hct, hle⟩ := Tunnel.ranked_cut.bound hc (fun _ _ _ _ _ _ _ => trivial) ht
    refine ⟨?_, fun hno => Tunnel.ranked_cut.stuck hct fun a t' ho _ hs => ?_⟩
    · have hleft := s.down.pump.left_le
      unfold Tunnel.untilEnd at hle
      rw [hB, if_pos rfl] at hle
      omega
    · rw [hno a ho] at hs
      cases hs
  · obtain ⟨acts1, t1, ht1, hal1, hend⟩ := Tunnel.ranked_cut.reach hc
    have hc1 := (Tunnel.ranked_cut.bound hc (fun _ _ _ _ _ _ _ => trivial) ht1).1
    obtain ⟨acts2, t2, ht2, hal2, hfin⟩ := Tunnel.ranked.reach ⟨hend, hc1.signalled, hc1.down⟩
    refine ⟨acts1 ++ acts2, t2, Runs.exec_trans Tunnel.step ht1 ht2, ?_, hfin⟩
    exact (hal1.mono fun _ _ h => Or.inl h.1).append ht1 (hal2.mono fun _ _ h => Or.inr h)

/-- The cable is pulled while thread A waits for Wintun and thread B is inside a frame. -/
theorem cut_ends_worker_run : ∃ acts s, Runs.exec Tunnel.step
      (.start Args.default (.smooth .reachable ⟨7, true⟩ ⟨⟨0, 0, 0, 0⟩, 1⟩) Shared.new ∅) acts = some s ∧
    s.worker.pumpA = true ∧ s.shared.stop = false ∧
    ∃ acts' t, Runs.exec Tunnel.step s acts' = some t ∧
      Runs.Along Tunnel.step (fun s a => Tunnel.ownB a = true ∨ s.own a = true ∧ s.Unblocked a) s acts' ∧
      t.worker.pc = .finished := by
  have h : Runs.exec Tunnel.step
      (.start Args.default (.smooth .reachable ⟨7, true⟩ ⟨⟨0, 0, 0, 0⟩, 1⟩) Shared.new ∅)
      [.work, .work, .work, .work, .work, .work, .work, .work, .work, .work, .work, .work,
        .down (.phone (.pollWrite [7, 8])), .down (.phone .recv), .down (.phone (.write 2)), .down (.read 2),
        .down (.phone (.write 1)), .down (.cut 0)] = some _ := rfl
  exact ⟨_, _, h, rfl, rfl, (cut_ends_worker _ _ _ _ _ _ h rfl rfl).2⟩

end RickyNet
