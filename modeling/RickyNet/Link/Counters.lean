import Mathlib.Algebra.Ring.Nat
import RickyNet.Link.Download
import RickyNet.Link.Upload

/-!
# The byte counters of the two ends

Both directions of one connection.  The desktop counts what it has written (`tx`) and injected
(`rx`), the phone what it has read (`TX_BYTES`) and written (`RX_BYTES`), each at its own point of
its own loop; the counters of the phone are taken from the start of the connection.

`Up` and `Down` say what each counter has missed so far; `counters_balance` puts the two ends of a
direction together.
-/

namespace RickyNet

/-- The bytes of packets, as a counter adds them up. -/
def payload (packets : List Bytes) : UInt64 := UInt64.ofNat (packets.map List.length).sum

@[simp] theorem payload_nil : payload [] = 0 := rfl

@[simp] theorem payload_singleton (p : Bytes) : payload [p] = UInt64.ofNat p.length := by
  unfold payload
  simp

@[simp] theorem payload_append (ps qs : List Bytes) :
    payload (ps ++ qs) = payload ps + payload qs := by
  unfold payload
  rw [List.map_append, List.sum_append, UInt64.ofNat_add]

/-! ## Packets that have passed a counter's point and are not counted -/

def PumpTx.uncounted : PumpTx → List Bytes
  | .count packet => [packet]
  | _ => []

def ReaderTask.uncounted : ReaderTask → List Bytes
  | .count buf => [buf]
  | _ => []

def WriterTask.uncounted : WriterTask → List Bytes
  | .count pkt => [pkt]
  | _ => []

def PumpRx.uncounted : PumpRx → List Bytes
  | .count pkt => [pkt]
  | _ => []

/-! ## Upload -/

/-- The upload's stream is in step, and both counters are up to date. -/
structure Upload.Up (u : Upload) : Prop where
  carrying : u.phone.Carrying u.written u.pump.out
  sent : payload u.written = u.tx + payload u.pump.uncounted
  counted : payload u.phone.received = u.phone.txBytes + payload u.phone.reader.uncounted

theorem Upload.init_up : Upload.init.Up := ⟨ByteStream.carries_empty, rfl, rfl⟩

/-- `TX_BYTES` keeps up with what `reader_task` has read. -/
theorem Inbound.counted_step {i i' : Inbound} {a : Inbound.Act}
    (hi : payload i.received = i.txBytes + payload i.reader.uncounted) (h : i.step a = some i') :
    payload i'.received = i'.txBytes + payload i'.reader.uncounted := by
  cases moves_of_step h with
  | read f n hr hpos hn hfl =>
    rw [hr] at hi
    have htx : (i.readPiece n).txBytes = i.txBytes := rfl
    rcases i.readPiece_cases f n hr hn with ⟨f', h1, -, h3⟩ | ⟨p, h1, -, -, h4⟩
    · rw [h1, h3, htx]
      exact hi
    · rw [h1, h4, htx, payload_append, hi]
      simp [ReaderTask.uncounted]
  | count buf hr =>
    rw [hr] at hi
    show payload i.received = i.txBytes + UInt64.ofNat buf.length + payload []
    rw [hi]
    simp [ReaderTask.uncounted]
  | readErr f hr => rw [hr] at hi; exact hi
  | send buf d hr hd hroom => rw [hr] at hi; exact hi
  | sendErr buf hr hd => rw [hr] at hi; exact hi
  | cut n => exact hi
  | poll d remaining hd hpos => exact hi
  | drop => exact hi

theorem Upload.up_phone {u : Upload} (hu : u.Up) {a : Inbound.Act} {phone : Inbound}
    (h : u.phone.step a = some phone) : Upload.Up { u with phone := phone } :=
  ⟨Inbound.carries_step hu.carrying h, hu.sent, Inbound.counted_step hu.counted h⟩

/-- `write_frame` is entered, or refuses. -/
theorem Upload.up_receive {u : Upload} (hu : u.Up) (hp : u.pump = .receive) (packet : Bytes) :
    Upload.Up { u with pump := .writeFrame packet, handed := u.handed ++ [packet] } := by
  obtain ⟨hc, hs, hr⟩ := hu
  rw [hp] at hc hs
  by_cases h : packet.length ≤ MAX_FRAME
  · rw [PumpTx.writeFrame_fits h]
    exact ⟨hc, hs, hr⟩
  · rw [PumpTx.writeFrame_oversize h]
    exact ⟨hc, hs, hr⟩

theorem Upload.up_writePiece {u : Upload} (hu : u.Up) {w : FrameWrite} (hp : u.pump = .write w)
    {n : Nat} (hn : n ≤ w.pending.length) : (u.writePiece w n).Up := by
  obtain ⟨hc, hs, hr⟩ := hu
  rw [hp] at hc hs
  unfold writePiece
  cases ha : w.accept n with
  | some w' =>
    exact ⟨ByteStream.Carries.put_part hc (w.accept_some w' n hn ha).2 w'.split_out, hs, hr⟩
  | none =>
    refine ⟨ByteStream.Carries.put_last hc (w.accept_none n hn ha) w.fits, ?_, hr⟩
    show payload (u.written ++ [w.packet]) = u.tx + payload [w.packet]
    rw [payload_append, hs]
    simp [PumpTx.uncounted]

theorem Upload.up_step {u u' : Upload} {a : Upload.Act} (hu : u.Up) (h : u.step a = some u') :
    u'.Up := by
  cases a with
  | receive packet =>
    simp only [step] at h
    split at h
    · next hp =>
      split at h
      · cases h; exact up_receive hu hp packet
      · cases h
    · cases h
  | write n =>
    simp only [step] at h
    split at h
    · next w hp =>
      split at h
      · next hn => cases h; exact up_writePiece hu hp hn.2
      · cases h
    · cases h
  | count =>
    simp only [step] at h
    split at h
    · next packet hp =>
      cases h
      obtain ⟨hc, hs, hr⟩ := hu
      rw [hp] at hc hs
      refine ⟨hc, ?_, hr⟩
      show payload u.written = u.tx + UInt64.ofNat packet.length + payload []
      rw [hs]
      simp [PumpTx.uncounted]
    · cases h
  | phone a =>
    simp only [step] at h
    split at h
    · split at h
      · next phone hph => cases h; exact up_phone hu hph
      · cases h
    · cases h
  | receiveErr =>
    simp only [step] at h
    split at h
    · next hp =>
      cases h
      obtain ⟨hc, hs, hr⟩ := hu
      rw [hp] at hc hs
      exact ⟨hc, hs, hr⟩
    · cases h
  | writeErr =>
    simp only [step] at h
    split at h
    · next w hp =>
      cases h
      obtain ⟨hc, hs, hr⟩ := hu
      rw [hp] at hc hs
      exact ⟨hc, hs, hr⟩
    · cases h

/-! ## Download -/

/-- `RX_BYTES` keeps up with what `writer_task` has written. -/
theorem Outbound.counted_step {o o' : Outbound} {a : Outbound.Act}
    (ho : payload o.written = o.rxBytes + payload o.writer.uncounted) (h : o.step a = some o') :
    payload o'.written = o'.rxBytes + payload o'.writer.uncounted := by
  cases moves_of_step h with
  | pollWrite packet hd =>
    unfold Outbound.pollWrite
    split
    · exact ho
    · exact ho
  | drop => exact ho
  | recv packet rest hw hq =>
    rw [hw] at ho
    unfold Outbound.received
    split
    · show payload o.written = o.rxBytes + payload o.writer.uncounted
      rw [hw]
      exact ho
    · exact ho
  | closed hw hq hd => rw [hw] at ho; exact ho
  | write w n hw hpos hn =>
    rw [hw] at ho
    unfold writePiece
    cases ha : w.accept n with
    | some w' => exact ho
    | none =>
      show payload (o.written ++ [w.packet]) = o.rxBytes + payload [w.packet]
      rw [payload_append, ho]
      simp [WriterTask.uncounted]
  | writeErr w hw => rw [hw] at ho; exact ho
  | count packet hw =>
    rw [hw] at ho
    have hnone : WriterTask.uncounted (if o.queue.isEmpty then .flush else .recv) = [] := by
      split <;> rfl
    show payload o.written = o.rxBytes + UInt64.ofNat packet.length + payload (WriterTask.uncounted _)
    rw [hnone, ho]
    simp [WriterTask.uncounted]
  | flush hw => rw [hw] at ho; exact ho
  | flushErr hw => rw [hw] at ho; exact ho

/-- The download is in step, and both counters are up to date. -/
structure Download.Down (d : Download) : Prop where
  inv : d.Inv
  sent : payload d.phone.written = d.phone.rxBytes + payload d.phone.writer.uncounted
  counted : payload d.handled = d.rx + payload d.pump.uncounted

theorem Download.init_down : Download.init.Down := ⟨init_inv, rfl, rfl⟩

/-- A skipped frame is empty: it adds nothing to what has been handled. -/
theorem Download.down_check {d d' : Download} (hd : d.Down) (h : d.step .check = some d') :
    d'.Down := by
  have hinv := check_inv hd.inv h
  obtain ⟨⟨hc, -, hm⟩, hs, hr⟩ := hd
  simp only [step] at h
  split at h
  · next pkt hp =>
    have hrec := hm.received
    rw [hp] at hr hrec
    have hfits : pkt.length ≤ 65535 :=
      hc.fits_received pkt (by rw [hrec]; simp [PumpRx.holding])
    split at h
    · next hb =>
      have hempty : pkt = [] := by
        rcases hb with hb | hb
        · exact List.isEmpty_iff.1 hb
        · omega
      cases h
      refine ⟨hinv, hs, ?_⟩
      show payload (d.handled ++ [pkt]) = d.rx + payload []
      rw [hempty, payload_append, hr]
      simp [PumpRx.uncounted]
    · cases h
      exact ⟨hinv, hs, hr⟩
  · cases h

theorem Download.down_copy {d d' : Download} (hd : d.Down) (h : d.step .copy = some d') :
    d'.Down := by
  have hinv := copy_inv hd.inv h
  obtain ⟨-, hs, hr⟩ := hd
  simp only [step] at h
  split at h
  · next pkt send hp =>
    rw [hp] at hr
    split at h
    · cases h
      refine ⟨hinv, hs, ?_⟩
      show payload (d.handled ++ [pkt]) = d.rx + payload [pkt]
      rw [payload_append, hr]
      simp [PumpRx.uncounted]
    · cases h
      exact ⟨hinv, hs, hr⟩
  · cases h

theorem Download.down_readPiece {d : Download} (hd : d.Down) {f : FrameRead} (hp : d.pump = .read f)
    {n : Nat} (hn : n ≤ f.need) : (d.readPiece f n).Down := by
  have hinv := readPiece_inv hd.inv hp hn
  obtain ⟨-, hs, hr⟩ := hd
  rw [hp] at hr
  unfold readPiece at hinv ⊢
  cases hf : f.feed (d.phone.stream.flight.take n) with
  | inl f' =>
    rw [hf] at hinv
    exact ⟨hinv, hs, hr⟩
  | inr pkt =>
    rw [hf] at hinv
    exact ⟨hinv, hs, hr⟩

theorem Download.down_step {d d' : Download} {a : Download.Act} (hd : d.Down)
    (h : d.step a = some d') : d'.Down := by
  have hinv := step_inv d a d' hd.inv h
  cases a with
  | phone a =>
    simp only [step] at h
    split at h
    · next phone hph =>
      cases h
      exact ⟨hinv, Outbound.counted_step hd.sent hph, hd.counted⟩
    · cases h
  | cut n => cases h; exact ⟨hinv, hd.sent, hd.counted⟩
  | read n =>
    simp only [step] at h
    split at h
    · next f hp =>
      split at h
      · next hn => cases h; exact down_readPiece hd hp hn.2.1
      · cases h
    · cases h
  | readErr =>
    simp only [step] at h
    split at h
    · next f hp =>
      cases h
      have hr := hd.counted
      rw [hp] at hr
      exact ⟨hinv, hd.sent, hr⟩
    · cases h
  | check => exact down_check hd h
  | allocate send =>
    simp only [step] at h
    split at h
    · next pkt hp =>
      have hr := hd.counted
      rw [hp] at hr
      split at h
      · cases h; exact ⟨hinv, hd.sent, hr⟩
      · cases h
    · cases h
  | allocateErr =>
    simp only [step] at h
    split at h
    · next pkt hp =>
      cases h
      have hr := hd.counted
      rw [hp] at hr
      exact ⟨hinv, hd.sent, hr⟩
    · cases h
  | copy => exact down_copy hd h
  | count =>
    simp only [step] at h
    split at h
    · next pkt hp =>
      cases h
      have hr := hd.counted
      rw [hp] at hr
      refine ⟨hinv, hd.sent, ?_⟩
      show payload d.handled = d.rx + UInt64.ofNat pkt.length + payload []
      rw [hr]
      simp [PumpRx.uncounted]
    · cases h

/-! ## The connection -/

/-- Both directions of one connection.  A cut of one of them need not be a cut of the other. -/
structure Connection where
  up : Upload
  down : Download

namespace Connection

def init : Connection := ⟨.init, .init⟩

inductive Act
  /-- `receive_blocking` returns a packet, an empty one or an oversize one as well -/
  | receive (packet : Bytes)
  /-- the phone's receiving end does something, with a `ReadBuf` of any size -/
  | phone (a : Inbound.Act)
  | up (a : Upload.Act)
  | down (a : Download.Act)
deriving DecidableEq

def step (c : Connection) : Act → Option Connection
  | .receive packet =>
    match c.up.pump with
    | .receive => some { c with
        up := { c.up with pump := .writeFrame packet, handed := c.up.handed ++ [packet] } }
    | _ => none
  | .phone a => (c.up.phone.step a).map fun phone => { c with up := { c.up with phone := phone } }
  | .up a => (c.up.step a).map fun up => { c with up := up }
  | .down a => (c.down.step a).map fun down => { c with down := down }

structure Inv (c : Connection) : Prop where
  up : c.up.Up
  down : c.down.Down

theorem step_inv (c : Connection) (a : Act) (c' : Connection) (hc : c.Inv)
    (h : c.step a = some c') : c'.Inv := by
  cases a with
  | receive packet =>
    simp only [step] at h
    split at h
    · next hp => cases h; exact ⟨Upload.up_receive hc.up hp packet, hc.down⟩
    · cases h
  | phone a =>
    obtain ⟨phone, hph, rfl⟩ := Option.map_eq_some_iff.1 h
    exact ⟨Upload.up_phone hc.up hph, hc.down⟩
  | up a =>
    obtain ⟨up, hu, rfl⟩ := Option.map_eq_some_iff.1 h
    exact ⟨Upload.up_step hc.up hu, hc.down⟩
  | down a =>
    obtain ⟨down, hd, rfl⟩ := Option.map_eq_some_iff.1 h
    exact ⟨hc.up, Download.down_step hc.down hd⟩

theorem run_inv {acts : List Act} {c : Connection} (h : Runs.exec step init acts = some c) :
    c.Inv :=
  Runs.exec_inv step Inv step_inv ⟨Upload.init_up, Download.init_down⟩ h

/-- Both directions have drained without an error: neither stream was cut, nothing is in flight,
and no packet is between a counter and its stream. -/
structure Drained (c : Connection) : Prop where
  upWhole : c.up.phone.stream.cut = false
  upFlight : c.up.phone.stream.flight = []
  upPump : c.up.pump.uncounted = []
  upReader : c.up.phone.reader.uncounted = []
  downWhole : c.down.phone.stream.cut = false
  downFlight : c.down.phone.stream.flight = []
  downWriter : c.down.phone.writer.uncounted = []
  downPump : c.down.pump.holding ++ c.down.pump.uncounted = []
  downRefused : c.down.refused = []

end Connection

/-- **The counters balance.**  In every state of every run, `TX_BYTES` and what is on the
stream, was lost with it or is not yet counted make up the desktop's `tx` and what it has not yet
counted; likewise the desktop's `rx` and the phone's `RX_BYTES`.  Once both directions have
drained, the two ends agree. -/
theorem counters_balance (acts : List Connection.Act) (c : Connection)
    (h : Runs.exec Connection.step Connection.init acts = some c) :
    (∃ lost, (lost ≠ [] → c.up.phone.stream.cut = true) ∧
      c.up.written = c.up.phone.received ++
        c.up.phone.stream.onStream wire c.up.phone.reader.got ++ lost ∧
      c.up.phone.txBytes + payload (c.up.phone.reader.uncounted ++
          c.up.phone.stream.onStream wire c.up.phone.reader.got ++ lost) =
        c.up.tx + payload c.up.pump.uncounted) ∧
    (∃ lost, (lost ≠ [] → c.down.phone.stream.cut = true) ∧
      c.down.phone.written = c.down.received ++
        c.down.phone.stream.onStream wire c.down.pump.got ++ lost ∧
      c.down.rx + payload (c.down.pump.uncounted ++ c.down.pump.holding ++ c.down.refused ++
          c.down.phone.stream.onStream wire c.down.pump.got ++ lost) =
        c.down.phone.rxBytes + payload c.down.phone.writer.uncounted) ∧
    (c.Drained → c.up.tx = c.up.phone.txBytes ∧ c.down.rx = c.down.phone.rxBytes) := by
  obtain ⟨⟨hc, hs, hr⟩, hd, ds, dr⟩ := Connection.run_inv h
  obtain ⟨lost, hlost, hw⟩ := ByteStream.Carries.lost hc
  obtain ⟨dlost, hdlost, hdw⟩ := ByteStream.Carries.lost hd.carrying
  have hup : c.up.phone.txBytes + payload (c.up.phone.reader.uncounted ++
      c.up.phone.stream.onStream wire c.up.phone.reader.got ++ lost) =
        c.up.tx + payload c.up.pump.uncounted := by
    rw [← hs, hw]
    simp only [payload_append, hr, UInt64.add_assoc]
  have hdown : c.down.rx + payload (c.down.pump.uncounted ++ c.down.pump.holding ++
      c.down.refused ++ c.down.phone.stream.onStream wire c.down.pump.got ++ dlost) =
        c.down.phone.rxBytes + payload c.down.phone.writer.uncounted := by
    rw [← ds, hdw, hd.pumped.received]
    simp only [payload_append, dr, UInt64.add_assoc]
  refine ⟨⟨lost, hlost, hw, hup⟩, ⟨dlost, hdlost, hdw, hdown⟩, fun hdr => ?_⟩
  have hl : lost = [] := by
    by_contra hne
    simpa [hdr.upWhole] using hlost hne
  have hdl : dlost = [] := by
    by_contra hne
    simpa [hdr.downWhole] using hdlost hne
  obtain ⟨hhold, hunc⟩ := List.append_eq_nil_iff.1 hdr.downPump
  constructor
  · rw [hl, hdr.upReader, hdr.upPump, ByteStream.Carries.onStream_nil hc hdr.upFlight] at hup
    simpa using hup.symm
  · rw [hdl, hhold, hunc, hdr.downRefused, hdr.downWriter,
      ByteStream.Carries.onStream_nil hd.carrying hdr.downFlight] at hdown
    simpa using hdown

/-- An empty and an oversize packet downwards, one packet upwards; both ends agree. -/
theorem counters_balance_run : ∃ acts c, Runs.exec Connection.step .init acts = some c ∧
    c.up.tx = 3 ∧ c.down.rx = 2 ∧ c.up.tx = c.up.phone.txBytes ∧ c.down.rx = c.down.phone.rxBytes := by
  have h : Runs.exec Connection.step .init
      [.receive [1, 2, 3], .up (.write 2), .up (.write 3), .phone (.read 2), .phone (.read 3),
        .down (.phone (.pollWrite [])), .down (.phone (.pollWrite [7, 8])), .up .count,
        .down (.phone .recv), .down (.phone (.write 2)), .down (.phone .count), .phone .count,
        .down (.phone .recv), .down (.phone (.write 2)), .down (.phone (.write 2)), .down (.read 2),
        .down .check, .down (.read 2), .down (.read 2), .down .check, .down (.allocate [0, 0]),
        .down .copy, .down (.phone .count), .down .count, .phone .send, .phone (.poll 1)] = some _ := rfl
  exact ⟨_, _, h, rfl, rfl, (counters_balance _ _ h).2.2 ⟨rfl, rfl, rfl, rfl, rfl, rfl, rfl, rfl, rfl⟩⟩

end RickyNet
