import RickyNet.Lib.Progress
import RickyNet.Link.Download
import RickyNet.Link.Upload

/-!
# What is on its way arrives

As long as nothing fails, both directions keep moving: a full channel, a half-written frame or a
half-read one always leaves one of the threads and tasks a step to take.  Each byte that is still to
be written, each byte on the stream and each packet held somewhere has its share of a rank that
every such step lowers.

`upload_drains`, `download_drains`: after finitely many steps everything has arrived.
-/

namespace RickyNet

/-- The bytes of the frame that are still to be written. -/
def FrameWrite.left (w : FrameWrite) : Nat := LEN_PREFIX + w.packet.length - w.k

theorem FrameWrite.pending_pos (w : FrameWrite) : 0 < w.pending.length := by
  have hL : LEN_PREFIX = 2 := rfl
  have := w.unfinished
  unfold pending
  split
  · rw [List.length_drop, toBeBytes_length]
    omega
  · rw [List.length_drop]
    omega

theorem FrameWrite.pending_le (w : FrameWrite) : w.pending.length ≤ w.left := by
  have h := w.pending_prefix.length_le
  rw [List.length_drop, Framing.LengthHeader.frame_length, wire_width] at h
  unfold left LEN_PREFIX
  exact h

theorem FrameWrite.left_accept_some {w w' : FrameWrite} {n : Nat} (h : w.accept n = some w') :
    w'.left + n = w.left := by
  unfold accept at h
  split at h
  · next hk =>
    cases h
    unfold left
    simp only
    omega
  · cases h

theorem FrameWrite.left_accept_none {w : FrameWrite} {n : Nat} (h : w.accept n = none) : w.left ≤ n := by
  unfold accept at h
  split at h
  · cases h
  · unfold left
    omega

theorem ByteStream.length_take {α : Type*} (s : ByteStream α) {n : Nat} (h : n ≤ s.flight.length) :
    (s.take n).flight.length + n = s.flight.length := by
  show (s.flight.drop n).length + n = _
  rw [List.length_drop]
  omega

theorem ByteStream.length_put {α : Type*} (s : ByteStream α) (bs : List α) (h : s.cut = false) :
    (s.put bs).flight.length = s.flight.length + bs.length := by
  show (if s.cut then s.flight else s.flight ++ bs).length = _
  rw [h, if_neg Bool.false_ne_true, List.length_append]

/-! ## Upload -/

def PumpTx.work : PumpTx → Nat
  | .write w => 6 * w.left + 1
  | .count _ => 1
  | _ => 0

def ReaderTask.work : ReaderTask → Nat
  | .count _ => 3
  | .send _ => 2
  | _ => 0

def ReaderTask.isEnded : ReaderTask → Bool
  | .ended _ => true
  | _ => false

namespace Upload

/-- Nobody has given up, and the stream is whole. -/
structure Healthy (u : Upload) : Prop where
  inv : u.Inv
  pump : u.pump.isEnded = false
  reader : u.phone.reader.isEnded = false
  device : ∃ d, u.phone.device = some d
  cut : u.phone.stream.cut = false

/-- Nothing fails, and Wintun hands out no further packet. -/
def Calm : Act → Prop
  | .write _ | .count => True
  | .phone (.read _) | .phone .count | .phone .send | .phone (.poll _) => True
  | _ => False

/-- The steps that move something on. -/
def own (u : Upload) : Act → Bool
  | .phone (.poll _) =>
    match u.phone.device with
    | some d => !d.incoming.isEmpty
    | none => false
  | _ => true

/-- The packets in the channel. -/
def queued (u : Upload) : Nat :=
  match u.phone.device with
  | some d => d.incoming.length
  | none => 0

def rank (u : Upload) : Nat :=
  u.pump.work + 4 * u.phone.stream.flight.length + u.phone.reader.work + u.queued

/-- The answer to a poll with room for a whole packet. -/
theorem polled_incoming {u : Upload} (h : u.Inv) {d : FramedDevice} (hd : u.phone.device = some d)
    {remaining : Nat} (hr : 65535 ≤ remaining) :
    (d.pollRead remaining).2.incoming = d.incoming.tail := by
  obtain ⟨h1, h2, -⟩ := (Inbound.whole_iff_some hd).1 h.whole
  cases hq : d.incoming with
  | nil => rw [d.pollRead_pending remaining h2 hq, hq]; rfl
  | cons p rest =>
    have hmem : p ∈ u.phone.received := by
      rw [h1, hq]
      simp
    have hlen : p.length ≤ 65535 := h.carrying.fits_received p hmem
    rw [d.pollRead_whole remaining h2 p rest hq (by omega)]
    rfl

/-- What a step does to the rank. -/
def Lowers (u : Upload) (a : Act) (u' : Upload) : Prop :=
  if u.own a then u'.rank < u.rank else u'.rank ≤ u.rank

/-- A piece of a frame goes out: its bytes are on the stream now. -/
theorem rank_write {u : Upload} (hu : u.Healthy) {w : FrameWrite} {n : Nat} (hp : u.pump = .write w)
    (hpos : 0 < n) (hn : n ≤ w.pending.length) :
    (u.writePiece w n).Healthy ∧ (u.writePiece w n).handed = u.handed ∧
      (u.writePiece w n).rank < u.rank := by
  obtain ⟨hinv, -, hreader, hd, hcut⟩ := hu
  have hinv' := writePiece_inv hinv hp hn
  have hput : (u.phone.stream.put (w.pending.take n)).flight.length = u.phone.stream.flight.length + n := by
    rw [ByteStream.length_put _ _ hcut, List.length_take, Nat.min_eq_left hn]
  have hle := w.pending_le
  unfold writePiece at hinv' ⊢
  cases ha : w.accept n with
  | some w' =>
    have hleft := FrameWrite.left_accept_some ha
    rw [ha] at hinv'
    refine ⟨⟨hinv', rfl, hreader, hd, hcut⟩, rfl, ?_⟩
    unfold rank queued
    simp only [hput, hp, PumpTx.work]
    omega
  | none =>
    have hleft := FrameWrite.left_accept_none ha
    rw [ha] at hinv'
    refine ⟨⟨hinv', rfl, hreader, hd, hcut⟩, rfl, ?_⟩
    unfold rank queued
    simp only [hput, hp, PumpTx.work]
    omega

/-- A piece of a frame comes off the stream. -/
theorem work_readPiece {i : Inbound} {f : FrameRead} {n : Nat} (hr : i.reader = .reading f) (hpos : 0 < n)
    (hn : n ≤ f.need) (hfl : n ≤ i.stream.flight.length) :
    (i.readPiece n).reader.isEnded = false ∧
      4 * (i.readPiece n).stream.flight.length + (i.readPiece n).reader.work <
        4 * i.stream.flight.length + i.reader.work := by
  have htake : (i.readPiece n).stream.flight.length + n = _ := ByteStream.length_take i.stream hfl
  rcases i.readPiece_cases f n hr hn with ⟨f', h1, -, -⟩ | ⟨p, h1, -, -, -⟩
  · refine ⟨by rw [h1]; rfl, ?_⟩
    simp only [h1, hr, ReaderTask.work]
    omega
  · refine ⟨by rw [h1]; rfl, ?_⟩
    simp only [h1, hr, ReaderTask.work]
    omega

/-- A step of the phone. -/
theorem rank_phone {u : Upload} (hu : u.Healthy) {a : Inbound.Act} {phone : Inbound} (ha : a.whole)
    (hc : Calm (.phone a)) (hinv' : Inv { u with phone := phone }) (h : u.phone.step a = some phone) :
    Healthy { u with phone := phone } ∧ u.Lowers (.phone a) { u with phone := phone } := by
  obtain ⟨hinv, hpump, hreader, ⟨d, hd⟩, hcut⟩ := hu
  cases Inbound.moves_of_step h with
  | cut n => cases hc
  | readErr f hr => cases hc
  | drop => cases hc
  | read f n hr hpos hn hfl =>
    obtain ⟨hend, hwork⟩ := work_readPiece hr hpos hn hfl
    have hdev : (u.phone.readPiece n).device = u.phone.device := rfl
    refine ⟨⟨hinv', hpump, hend, ⟨d, hd⟩, hcut⟩, ?_⟩
    show rank _ < rank _
    unfold rank queued
    simp only [hdev]
    omega
  | count buf hr =>
    refine ⟨⟨hinv', hpump, rfl, ⟨d, hd⟩, hcut⟩, ?_⟩
    show rank _ < rank _
    unfold rank queued
    simp only [hr, ReaderTask.work]
    omega
  | send buf d' hr hd' hroom =>
    rw [hd] at hd'
    cases hd'
    refine ⟨⟨hinv', hpump, rfl, ⟨_, rfl⟩, hcut⟩, ?_⟩
    show rank _ < rank _
    unfold rank queued
    simp only [hr, hd, ReaderTask.work, ReaderTask.start, FramedDevice.enqueue, List.length_append,
      List.length_singleton]
    omega
  | sendErr buf hr hnone =>
    rw [hd] at hnone
    cases hnone
  | poll d' remaining hd' hpos =>
    rw [hd] at hd'
    cases hd'
    have hin := polled_incoming hinv hd ha
    have hstream : (u.phone.polled d remaining).stream = u.phone.stream := rfl
    refine ⟨⟨hinv', hpump, hreader, ⟨_, rfl⟩, hcut⟩, ?_⟩
    unfold Lowers own rank queued
    simp only [hd, Inbound.polled_device, Inbound.polled_reader, hstream, hin, List.length_tail]
    cases hq : d.incoming with
    | nil => simp
    | cons p rest =>
      simp only [List.isEmpty_cons, Bool.not_false, if_true, List.length_cons]
      omega

/-- **One step.**  Whatever moves something on lowers the rank. -/
theorem rank_step {u u' : Upload} {a : Act} (hu : u.Healthy) (hc : Calm a) (h : u.step a = some u') :
    u'.Healthy ∧ u'.handed = u.handed ∧ u.Lowers a u' := by
  have hinv' := step_inv u a u' hu.inv h
  cases a with
  | receive packet => cases hc
  | receiveErr => cases hc
  | writeErr => cases hc
  | write n =>
    simp only [step] at h
    split at h
    · next w hp =>
      split at h
      · next hn =>
        cases h
        exact rank_write hu hp hn.1 hn.2
      · cases h
    · cases h
  | count =>
    simp only [step] at h
    split at h
    · next packet hp =>
      cases h
      refine ⟨⟨hinv', rfl, hu.reader, hu.device, hu.cut⟩, rfl, ?_⟩
      show rank _ < rank _
      unfold rank queued
      simp only [hp, PumpTx.work]
      omega
    · cases h
  | phone a =>
    simp only [step] at h
    split at h
    · next ha =>
      split at h
      · next phone hph =>
        cases h
        obtain ⟨h1, h2⟩ := rank_phone hu ha hc hinv' hph
        exact ⟨h1, rfl, h2⟩
      · cases h
    · cases h

/-- Where nothing can move there is nothing on its way. -/
theorem Healthy.goes_on {u : Upload} (hu : u.Healthy) (hne : u.phone.delivered ≠ u.handed) :
    ∃ a u', u.own a = true ∧ Calm a ∧ u.step a = some u' := by
  obtain ⟨hinv, hpump, hreader, ⟨d, hd⟩, hcut⟩ := hu
  cases hp : u.pump with
  | ended part => rw [hp] at hpump; cases hpump
  | write w =>
    have hone : 0 < 1 ∧ 1 ≤ w.pending.length := ⟨Nat.one_pos, w.pending_pos⟩
    exact ⟨.write 1, _, rfl, trivial, by simp only [step, hp, if_pos hone]; rfl⟩
  | count packet => exact ⟨.count, _, rfl, trivial, by simp only [step, hp]; rfl⟩
  | receive =>
    have hpoll : d.incoming ≠ [] → ∃ a u', u.own a = true ∧ Calm a ∧ u.step a = some u' := by
      intro hq
      refine ⟨.phone (.poll 65535), { u with phone := u.phone.polled d 65535 }, ?_, trivial, ?_⟩
      · unfold own
        rw [hd]
        simpa using hq
      · simp only [step, Inbound.step, hd]
        rfl
    cases hr : u.phone.reader with
    | ended rest => rw [hr] at hreader; cases hreader
    | count buf =>
      exact ⟨.phone .count, _, rfl, trivial, by
        simp only [step, Inbound.step, hr, if_pos (show Inbound.Act.whole .count from trivial)]; rfl⟩
    | send buf =>
      by_cases hroom : d.incoming.length < INCOMING_CAP
      · exact ⟨.phone .send, _, rfl, trivial, by
          simp only [step, Inbound.step, hr, hd, if_pos hroom,
            if_pos (show Inbound.Act.whole .send from trivial)]; rfl⟩
      · refine hpoll fun he => hroom ?_
        rw [he]
        decide
    | reading f =>
      cases hfl : u.phone.stream.flight with
      | cons b rest =>
        have hone : 0 < 1 ∧ 1 ≤ f.need ∧ 1 ≤ u.phone.stream.flight.length :=
          ⟨Nat.one_pos, f.need_pos, by rw [hfl]; simp⟩
        exact ⟨.phone (.read 1), _, rfl, trivial, by
          simp only [step, Inbound.step, hr, if_pos hone,
            if_pos (show Inbound.Act.whole (.read 1) from trivial)]; rfl⟩
      | nil =>
        refine hpoll fun he => hne ?_
        obtain ⟨h1, -, -⟩ := (Inbound.whole_iff_some hd).1 hinv.whole
        have hstream := ByteStream.Carries.written_eq hinv.carrying hcut
        rw [ByteStream.Carries.onStream_nil hinv.carrying hfl, List.append_nil] at hstream
        have hhanded := hinv.handed
        unfold Handed at hhanded
        rw [hp] at hhanded
        rw [hhanded, hstream, h1, he, hr]
        simp [ReaderTask.holding]

theorem ranked (packets : List Bytes) : Runs.Ranked step own (fun _ a => Calm a)
    (fun u => u.Healthy ∧ u.handed = packets) (fun u => u.phone.delivered = packets) rank where
  kept := by
    rintro u a u' ⟨hu, rfl⟩ hc h
    obtain ⟨h1, h2, -⟩ := rank_step hu hc h
    exact ⟨h1, h2⟩
  drops := by
    rintro u a u' ⟨hu, -⟩ hc h ho
    have hlow := (rank_step hu hc h).2.2
    unfold Lowers at hlow
    rwa [if_pos ho] at hlow
  stays := by
    rintro u a u' ⟨hu, -⟩ hc h ho
    have hlow := (rank_step hu hc h).2.2
    unfold Lowers at hlow
    rwa [ho, if_neg Bool.false_ne_true] at hlow
  enabled := by
    rintro u ⟨hu, rfl⟩ hne
    exact hu.goes_on hne

end Upload

/-! ## Download -/

/-- What a packet in the queue has in front of it. -/
def queueWork (packet : Bytes) : Nat := 7 * (LEN_PREFIX + packet.length) + 3

def WriterTask.work : WriterTask → Nat
  | .write w => 7 * w.left + 2
  | .count _ => 2
  | .flush => 1
  | _ => 0

def PumpRx.work : PumpRx → Nat
  | .check _ => 4
  | .allocate _ => 3
  | .copy _ _ => 2
  | .count _ => 1
  | _ => 0

namespace Download

structure Healthy (d : Download) : Prop where
  inv : d.Inv
  pump : d.pump.isEnded = false
  writer : d.phone.writer.isEnded = false
  device : d.phone.device = true
  cut : d.phone.stream.cut = false

/-- Nothing fails, and ipstack writes no further packet. -/
def Calm : Act → Prop
  | .phone .recv | .phone (.write _) | .phone .count | .phone .flush => True
  | .read _ | .check | .allocate _ | .copy | .count => True
  | _ => False

def rank (d : Download) : Nat :=
  Runs.total queueWork d.phone.queue + d.phone.writer.work + 5 * d.phone.stream.flight.length + d.pump.work

/-- A piece of a frame goes out on the phone's side. -/
theorem work_writePiece {o : Outbound} {w : FrameWrite} {n : Nat} (hw : o.writer = .write w)
    (hpos : 0 < n) (hn : n ≤ w.pending.length) (hcut : o.stream.cut = false) :
    (o.writePiece w n).writer.isEnded = false ∧ (o.writePiece w n).queue = o.queue ∧
      (o.writePiece w n).device = o.device ∧ (o.writePiece w n).stream.cut = false ∧
      (o.writePiece w n).calls = o.calls ∧
      (o.writePiece w n).writer.work + 5 * (o.writePiece w n).stream.flight.length <
        o.writer.work + 5 * o.stream.flight.length := by
  have hput : (o.stream.put (w.pending.take n)).flight.length = o.stream.flight.length + n := by
    rw [ByteStream.length_put _ _ hcut, List.length_take, Nat.min_eq_left hn]
  have hle := w.pending_le
  unfold Outbound.writePiece
  cases ha : w.accept n with
  | some w' =>
    have hleft := FrameWrite.left_accept_some ha
    refine ⟨rfl, rfl, rfl, hcut, rfl, ?_⟩
    simp only [hput, hw, WriterTask.work]
    omega
  | none =>
    have hleft := FrameWrite.left_accept_none ha
    refine ⟨rfl, rfl, rfl, hcut, rfl, ?_⟩
    simp only [hput, hw, WriterTask.work]
    omega

/-- A step of the phone. -/
theorem rank_phone {d : Download} (hd : d.Healthy) {a : Outbound.Act} {phone : Outbound}
    (hc : Calm (.phone a)) (hinv' : Inv { d with phone := phone }) (h : d.phone.step a = some phone) :
    Healthy { d with phone := phone } ∧ phone.calls = d.phone.calls ∧
      rank { d with phone := phone } < d.rank := by
  obtain ⟨hinv, hpump, hwriter, hdev, hcut⟩ := hd
  cases Outbound.moves_of_step h with
  | pollWrite packet hdv => cases hc
  | drop => cases hc
  | writeErr w hw => cases hc
  | flushErr hw => cases hc
  | closed hw hq hdv => rw [hdev] at hdv; cases hdv
  | recv packet rest hw hq =>
    have hqueue : Runs.total queueWork d.phone.queue = queueWork packet + Runs.total queueWork rest := by
      rw [hq, ← List.singleton_append, Runs.total_append]
      rfl
    unfold Outbound.received at hinv' ⊢
    unfold rank
    rw [hqueue]
    by_cases hbig : packet.length > 65535
    · rw [dif_pos hbig] at hinv' ⊢
      refine ⟨⟨hinv', hpump, hwriter, hdev, hcut⟩, rfl, ?_⟩
      unfold queueWork
      simp only
      omega
    · rw [dif_neg hbig] at hinv' ⊢
      refine ⟨⟨hinv', hpump, rfl, hdev, hcut⟩, rfl, ?_⟩
      have hleft : (FrameWrite.start packet (Nat.le_of_not_lt hbig)).left = LEN_PREFIX + packet.length := rfl
      unfold queueWork
      simp only [WriterTask.work, hleft, hw]
      omega
  | write w n hw hpos hn =>
    obtain ⟨h1, h2, h3, h4, h5, h6⟩ := work_writePiece hw hpos hn hcut
    refine ⟨⟨hinv', hpump, h1, h3.trans hdev, h4⟩, h5, ?_⟩
    unfold rank
    simp only [h2]
    omega
  | count packet hw =>
    refine ⟨⟨hinv', hpump, by simp only; split <;> rfl, hdev, hcut⟩, rfl, ?_⟩
    have hnext : WriterTask.work (if d.phone.queue.isEmpty then .flush else .recv) ≤ 1 := by
      split <;> decide
    have htwo : WriterTask.work (.count packet) = 2 := rfl
    show Runs.total queueWork d.phone.queue +
      WriterTask.work (if d.phone.queue.isEmpty then .flush else .recv) +
        5 * d.phone.stream.flight.length + d.pump.work < d.rank
    unfold rank
    rw [hw]
    omega
  | flush hw =>
    refine ⟨⟨hinv', hpump, rfl, hdev, hcut⟩, rfl, ?_⟩
    unfold rank
    simp only [hw, WriterTask.work]
    omega

/-- **One step.**  It lowers the rank. -/
theorem rank_step {d d' : Download} {a : Act} (hd : d.Healthy) (hc : Calm a) (h : d.step a = some d') :
    d'.Healthy ∧ d'.phone.calls = d.phone.calls ∧ d'.rank < d.rank := by
  have hinv' := step_inv d a d' hd.inv h
  cases a with
  | cut n => cases hc
  | readErr => cases hc
  | allocateErr => cases hc
  | phone a =>
    simp only [step] at h
    split at h
    · next phone hph => cases h; exact rank_phone hd hc hinv' hph
    · cases h
  | read n =>
    simp only [step] at h
    split at h
    · next f hp =>
      split at h
      · next hn =>
        cases h
        have htake := ByteStream.length_take d.phone.stream hn.2.2
        unfold readPiece at hinv' ⊢
        split at hinv'
        · refine ⟨⟨hinv', rfl, hd.writer, hd.device, hd.cut⟩, rfl, ?_⟩
          unfold rank
          simp only [hp, PumpRx.work]
          omega
        · refine ⟨⟨hinv', rfl, hd.writer, hd.device, hd.cut⟩, rfl, ?_⟩
          unfold rank
          simp only [hp, PumpRx.work]
          omega
      · cases h
    · cases h
  | check =>
    simp only [step] at h
    split at h
    · next pkt hp =>
      split at h
      · cases h
        refine ⟨⟨hinv', rfl, hd.writer, hd.device, hd.cut⟩, rfl, ?_⟩
        unfold rank
        simp only [hp, PumpRx.work]
        omega
      · cases h
        refine ⟨⟨hinv', rfl, hd.writer, hd.device, hd.cut⟩, rfl, ?_⟩
        unfold rank
        simp only [hp, PumpRx.work]
        omega
    · cases h
  | allocate send =>
    simp only [step] at h
    split at h
    · next pkt hp =>
      split at h
      · cases h
        refine ⟨⟨hinv', rfl, hd.writer, hd.device, hd.cut⟩, rfl, ?_⟩
        unfold rank
        simp only [hp, PumpRx.work]
        omega
      · cases h
    · cases h
  | copy =>
    simp only [step] at h
    split at h
    · next pkt send hp =>
      split at h
      · cases h
        refine ⟨⟨hinv', rfl, hd.writer, hd.device, hd.cut⟩, rfl, ?_⟩
        unfold rank
        simp only [hp, PumpRx.work]
        omega
      · cases h
        exact absurd rfl hinv'.pumped.panic
    · cases h
  | count =>
    simp only [step] at h
    split at h
    · next pkt hp =>
      cases h
      refine ⟨⟨hinv', rfl, hd.writer, hd.device, hd.cut⟩, rfl, ?_⟩
      unfold rank
      simp only [hp, PumpRx.work]
      omega
    · cases h

/-- Where nothing can move there is nothing on its way. -/
theorem Healthy.goes_on {d : Download} (hd : d.Healthy)
    (hne : d.injected ≠ d.phone.calls.filter carried) : ∃ a d', Calm a ∧ d.step a = some d' := by
  obtain ⟨hinv, hpump, hwriter, hdev, hcut⟩ := hd
  cases hp : d.pump with
  | ended rest => rw [hp] at hpump; cases hpump
  | panicked => exact absurd hp hinv.pumped.panic
  | check pkt =>
    have hstep : ∃ d', d.step .check = some d' := by
      simp only [step, hp]
      split <;> exact ⟨_, rfl⟩
    exact ⟨.check, hstep.imp fun _ h => ⟨trivial, h⟩⟩
  | allocate pkt =>
    have hlen : (List.replicate (asU16 pkt.length).toNat (0 : UInt8)).length = (asU16 pkt.length).toNat :=
      List.length_replicate
    exact ⟨.allocate (List.replicate (asU16 pkt.length).toNat 0), _, trivial,
      by simp only [step, hp, if_pos hlen]; rfl⟩
  | copy pkt send =>
    have hstep : ∃ d', d.step .copy = some d' := by
      simp only [step, hp]
      split <;> exact ⟨_, rfl⟩
    exact ⟨.copy, hstep.imp fun _ h => ⟨trivial, h⟩⟩
  | count pkt => exact ⟨.count, _, trivial, by simp only [step, hp]; rfl⟩
  | read f =>
    cases hw : d.phone.writer with
    | ended part => rw [hw] at hwriter; cases hwriter
    | write w =>
      have hone : 0 < 1 ∧ 1 ≤ w.pending.length := ⟨Nat.one_pos, w.pending_pos⟩
      exact ⟨.phone (.write 1), _, trivial,
        by simp only [step, Outbound.step, hw, if_pos hone]; rfl⟩
    | count pkt => exact ⟨.phone .count, _, trivial, by simp only [step, Outbound.step, hw]; rfl⟩
    | flush => exact ⟨.phone .flush, _, trivial, by simp only [step, Outbound.step, hw]; rfl⟩
    | recv =>
      cases hq : d.phone.queue with
      | cons packet rest =>
        exact ⟨.phone .recv, _, trivial, by simp only [step, Outbound.step, hw, hq]; rfl⟩
      | nil =>
        cases hfl : d.phone.stream.flight with
        | cons b rest =>
          have hone : 0 < 1 ∧ 1 ≤ f.need ∧ 1 ≤ d.phone.stream.flight.length :=
            ⟨Nat.one_pos, f.need_pos, by rw [hfl]; simp⟩
          exact ⟨.read 1, _, trivial, by simp only [step, hp, if_pos hone]; rfl⟩
        | nil =>
          refine absurd ?_ hne
          have hrun : ∀ rest, d.pump ≠ .ended rest := by rw [hp]; simp
          obtain ⟨lost, hlost, hpl⟩ := hinv.places
          have hlost' : lost = [] := by
            by_contra hl
            rw [hcut] at hlost
            cases hlost hl
          rw [hp, hw, hq, hlost', hinv.queued.nothing_dropped hwriter,
            (hinv.pumped.nothing_refused hrun).1] at hpl
          have hcarry := hinv.carrying
          rw [hp] at hcarry
          rw [ByteStream.Carries.onStream_nil hcarry hfl] at hpl
          simp only [PumpRx.holding, WriterTask.holding, List.filter_nil, List.append_nil] at hpl
          rw [hinv.pumped.injected, ← hpl, hinv.queued.all hwriter, List.filter_filter]
          congr 1
          funext p
          unfold carried
          rw [Bool.and_comm]

theorem ranked (calls : List Bytes) : Runs.Ranked step (fun _ _ => true) (fun _ a => Calm a)
    (fun d => d.Healthy ∧ d.phone.calls = calls) (fun d => d.injected = calls.filter carried) rank where
  kept := by
    rintro d a d' ⟨hd, rfl⟩ hc h
    obtain ⟨h1, h2, -⟩ := rank_step hd hc h
    exact ⟨h1, h2⟩
  drops := by
    rintro d a d' ⟨hd, -⟩ hc h -
    exact (rank_step hd hc h).2.2
  stays := by
    rintro d a d' - - - ho
    cases ho
  enabled := by
    rintro d ⟨hd, rfl⟩ hne
    obtain ⟨a, d', hc, h⟩ := hd.goes_on hne
    exact ⟨a, d', rfl, hc, h⟩

end Download

/-- **What Wintun has handed out arrives.**  From a reachable state in which neither end has given up,
the stream is whole and the phone has its device: as long as nothing fails and Wintun hands out nothing
more, there are no more than the stated number of steps that move something, and when none is left, or as
many have been taken, ipstack has been given every packet that was handed out, in order. -/
theorem upload_drains (acts : List Upload.Act) (u : Upload)
    (h : Runs.exec Upload.step Upload.init acts = some u) (hpump : u.pump.isEnded = false)
    (hreader : u.phone.reader.isEnded = false) (hdev : u.phone.device.isSome = true)
    (hcut : u.phone.stream.cut = false) (acts' : List Upload.Act) (t : Upload)
    (ht : Runs.exec Upload.step u acts' = some t)
    (hcalm : ∀ a ∈ acts', Upload.Calm a) :
    Runs.ownSteps Upload.step Upload.own u acts' ≤ u.rank ∧
      ((∀ a, Upload.own t a = true → Upload.Calm a → t.step a = none) → t.phone.delivered = u.handed) ∧
      (Runs.ownSteps Upload.step Upload.own u acts' = u.rank → t.phone.delivered = u.handed) := by
  have hu : u.Healthy :=
    ⟨Upload.run_inv h, hpump, hreader, Option.isSome_iff_exists.1 hdev, hcut⟩
  have hranked := Upload.ranked u.handed
  have hal : Runs.Along Upload.step (fun _ a => Upload.Calm a) u acts' := .of_forall hcalm
  obtain ⟨hit, hle⟩ := hranked.bound ⟨hu, rfl⟩ hal ht
  refine ⟨by omega, fun hno => hranked.stuck hit fun a t' ho hc hs => ?_, fun hn => ?_⟩
  · rw [hno a ho hc] at hs
    cases hs
  · exact hranked.done ⟨hu, rfl⟩ hal ht (Nat.le_of_eq hn.symm)

/-- A packet and a half on their way, the second frame cut between its two length bytes. -/
theorem upload_drains_run : ∃ acts u, Runs.exec Upload.step .init acts = some u ∧
    u.handed = [[1, 2, 3], [4]] ∧ ∃ acts' t, Runs.exec Upload.step u acts' = some t ∧
      acts'.length = 14 ∧ Runs.ownSteps Upload.step Upload.own u acts' ≤ u.rank := by
  have h : Runs.exec Upload.step .init
      [.receive [1, 2, 3], .write 2, .write 3, .count, .receive [4], .write 1] = some _ := rfl
  exact ⟨_, _, h, rfl,
    [.write 1, .write 1, .count, .phone (.read 2), .phone (.read 3), .phone .count, .phone .send,
      .phone (.poll 65535), .phone (.poll 65535), .phone (.read 2), .phone (.read 1), .phone .count,
      .phone .send, .phone (.poll 65535)],
    _, rfl, rfl, (upload_drains _ _ h rfl rfl rfl rfl _ _ rfl (by simp [Upload.Calm])).1⟩

/-- **What ipstack has written arrives.**  The same for the download: as long as nothing fails and ipstack
writes nothing more, there are no more than the stated number of steps, and when none is left, or as many
have been taken, every packet that `poll_write` was called with is in Wintun, those of length 0 and of
more than 65535 bytes left out. -/
theorem download_drains (acts : List Download.Act) (d : Download)
    (h : Runs.exec Download.step Download.init acts = some d) (hpump : d.pump.isEnded = false)
    (hwriter : d.phone.writer.isEnded = false) (hdev : d.phone.device = true)
    (hcut : d.phone.stream.cut = false) (acts' : List Download.Act) (t : Download)
    (ht : Runs.exec Download.step d acts' = some t) (hcalm : ∀ a ∈ acts', Download.Calm a) :
    acts'.length ≤ d.rank ∧
      ((∀ a, Download.Calm a → t.step a = none) → t.injected = d.phone.calls.filter carried) ∧
      (acts'.length = d.rank → t.injected = d.phone.calls.filter carried) := by
  have hd : d.Healthy := ⟨Download.run_inv h, hpump, hwriter, hdev, hcut⟩
  have hranked := Download.ranked d.phone.calls
  have hal : Runs.Along Download.step (fun _ a => Download.Calm a) d acts' := .of_forall hcalm
  have hall : Runs.ownSteps Download.step (fun _ _ => true) d acts' = acts'.length :=
    Runs.ownSteps_of_along ht fun _ _ _ _ _ _ _ => rfl
  obtain ⟨hit, hle⟩ := hranked.bound ⟨hd, rfl⟩ hal ht
  rw [hall] at hle
  refine ⟨by omega, fun hno => hranked.stuck hit fun a t' _ hc hs => ?_, fun hn => ?_⟩
  · rw [hno a hc] at hs
    cases hs
  · exact hranked.done ⟨hd, rfl⟩ hal ht (by rw [hall]; omega)

/-- An empty packet and another, and the second frame half-written. -/
theorem download_drains_run : ∃ acts d, Runs.exec Download.step .init acts = some d ∧
    d.phone.calls = [[], [7, 8]] ∧ ∃ acts' t, Runs.exec Download.step d acts' = some t ∧
      acts'.length = 11 ∧ acts'.length ≤ d.rank := by
  have h : Runs.exec Download.step .init
      [.phone (.pollWrite []), .phone (.pollWrite [7, 8]), .phone .recv, .phone (.write 2), .phone .count,
        .phone .recv, .phone (.write 1)] = some _ := rfl
  exact ⟨_, _, h, rfl,
    [.phone (.write 1), .read 2, .check, .phone (.write 2), .read 2, .read 2, .check, .allocate [0, 0],
      .copy, .phone .count, .count],
    _, rfl, rfl, (download_drains _ _ h rfl rfl rfl rfl _ _ rfl (by simp [Download.Calm])).1⟩

end RickyNet
