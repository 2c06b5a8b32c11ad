import RickyNet.Wire.Fragments

/-!
# The phone's device: `reader_task`, `writer_task`, `FramedDevice`

`FramedDevice` is what ipstack polls: the receiving end of the bounded channel that `reader_task`
fills, a leftover of a packet that did not fit its `ReadBuf`, and the sending end of the unbounded
channel that `writer_task` drains.

The tasks are given twice.  `ReaderTask` and `WriterTask` are their states at every point where
they can be suspended, for the interleaved models; `readerTask` and `writerTask` run the loops to
their end over a whole stream or queue.
-/

namespace RickyNet

/-- Bound of the channel between `reader_task` and the device. -/
def INCOMING_CAP : Nat := 2048

/-! ## The device -/

/-- The answer of `poll_read`: `Ready(Ok(()))` with the bytes put into the buffer, or `Pending`. -/
inductive PollRead
  | ready (put : Bytes)
  | pending
deriving DecidableEq

/-- The packets that the caller of `poll_read` has got. -/
def PollRead.packets : PollRead → List Bytes
  | .ready put => [put]
  | .pending => []

structure FramedDevice where
  /-- packets queued in the channel -/
  incoming : List Bytes
  /-- the channel is closed: `reader_task` has ended and dropped its sender -/
  closed : Bool
  /-- a packet partly copied out, and how much of it -/
  leftover : Option (Bytes × Nat)
deriving DecidableEq

namespace FramedDevice

def new : FramedDevice := ⟨[], false, none⟩

/-- `poll_read` with a `ReadBuf` of `remaining` free bytes. -/
def pollRead (d : FramedDevice) (remaining : Nat) : PollRead × FramedDevice :=
  match d.leftover with
  | some (pkt, pos) =>
    let n := min (pkt.length - pos) remaining
    (.ready ((pkt.drop pos).take n),
      { d with leftover := if pos + n < pkt.length then some (pkt, pos + n) else none })
  | none =>
    match d.incoming with
    | pkt :: rest =>
      let n := min pkt.length remaining
      (.ready (pkt.take n),
        { d with incoming := rest, leftover := if n < pkt.length then some (pkt, n) else none })
    | [] =>
      if d.closed then (.pending, d)  -- not reported as EOF
      else (.pending, d)

/-- `tx.send(buf)` on the channel of this device, when there is room. -/
def enqueue (d : FramedDevice) (buf : Bytes) : FramedDevice :=
  { d with incoming := d.incoming ++ [buf] }

/-- `reader_task` has ended. -/
def close (d : FramedDevice) : FramedDevice := { d with closed := true }

/-- A `ReadBuf` that holds the largest packet takes packets whole. -/
theorem pollRead_whole (d : FramedDevice) (remaining : Nat) (hl : d.leftover = none) (p : Bytes)
    (rest : List Bytes) (hq : d.incoming = p :: rest) (hp : p.length ≤ remaining) :
    d.pollRead remaining = (.ready p, { d with incoming := rest }) := by
  unfold pollRead
  rw [hl, hq]
  simp only [Nat.min_eq_left hp, List.take_length, Nat.lt_irrefl, if_false, ← hl]

theorem pollRead_pending (d : FramedDevice) (remaining : Nat) (hl : d.leftover = none)
    (hq : d.incoming = []) : d.pollRead remaining = (.pending, d) := by
  unfold pollRead
  rw [hl, hq]
  by_cases hc : d.closed
  · rw [if_pos hc]
  · rw [if_neg hc]

end FramedDevice

/-! ## The tasks, step by step -/

/-- Where `reader_task` is. -/
inductive ReaderTask
  /-- in `read_u16` or `read_exact` -/
  | reading (f : FrameRead)
  /-- before `TX_BYTES.fetch_add` -/
  | count (buf : Bytes)
  /-- in `tx.send(buf)` -/
  | send (buf : Bytes)
  /-- out of the loop; `rest` is what it had read of an unfinished frame -/
  | ended (rest : Bytes)

namespace ReaderTask

def start : ReaderTask := .reading .start

/-- The read call in progress gets `bs`. -/
def feed : ReaderTask → Bytes → ReaderTask
  | .reading f, bs =>
    match f.feed bs with
    | .inl f => .reading f
    | .inr buf => .count buf
  | r, _ => r

/-- How many bytes it waits for. -/
def need : ReaderTask → Nat
  | .reading f => f.need
  | _ => 0

/-- What it has read of a frame that is not complete. -/
def got : ReaderTask → Bytes
  | .reading f => f.got
  | .ended rest => rest
  | _ => []

/-- The packet it has read and not yet queued. -/
def holding : ReaderTask → List Bytes
  | .count buf => [buf]
  | .send buf => [buf]
  | _ => []

@[simp] theorem start_got : start.got = [] := rfl

@[simp] theorem start_holding : start.holding = [] := rfl

/-- One piece: no packet yet, or the packet of the frame that is now complete. -/
theorem feed_spec (f : FrameRead) (bs : Bytes) (h : bs.length ≤ f.need) :
    (∃ f', (reading f).feed bs = .reading f' ∧ f'.got = f.got ++ bs) ∨
      (∃ p, (reading f).feed bs = .count p ∧ wire.frame p = f.got ++ bs ∧
        p.length ≤ MAX_FRAME) := by
  rcases f.feed_spec bs h with ⟨f', h1, h2⟩ | ⟨p, h1, h2⟩
  · exact Or.inl ⟨f', by simp only [feed, h1], h2⟩
  · exact Or.inr ⟨p, by simp only [feed, h1], h2⟩

end ReaderTask

/-- Where `writer_task` is. -/
inductive WriterTask
  /-- in `rx.recv()` -/
  | recv
  /-- in `write_u16` or `write_all` -/
  | write (w : FrameWrite)
  /-- before `RX_BYTES.fetch_add` -/
  | count (pkt : Bytes)
  /-- the queue was empty: in `flush` -/
  | flush
  /-- out of the loop; `part` is what it had written of an unfinished frame -/
  | ended (part : Bytes)

namespace WriterTask

/-- What it has written of a frame that is not complete. -/
def out : WriterTask → Bytes
  | .write w => w.out
  | .ended part => part
  | _ => []

/-- The packet it has taken off the queue and not yet written. -/
def holding : WriterTask → List Bytes
  | .write w => [w.packet]
  | _ => []

end WriterTask

/-! ## The tasks, run to their end -/

/-- `read_u16`: two bytes, big-endian. -/
def readU16 (rd : Bytes) : Except IoError (UInt16 × Bytes) :=
  match readExact 2 rd with
  | .error e => .error e
  | .ok (buf, rd) =>
    match buf with
    | [hi, lo] => .ok (fromBeBytes hi lo, rd)
    | _ => .error ⟨.other, ""⟩  -- `readExact` has filled both bytes

/-- The loop of `reader_task` on a stream that ends after `rd`, the device taking every packet:
the packets sent, and the stream from the frame on that could not be read. -/
def readerLoop : Nat → Bytes → List Bytes × Bytes
  | 0, rd => ([], rd)
  | fuel + 1, rd =>
    match readU16 rd with
    | .error _ => ([], rd)
    | .ok (len, rd1) =>
      match readExact len.toNat rd1 with
      | .error _ => ([], rd)
      | .ok (buf, rd2) => (buf :: (readerLoop fuel rd2).1, (readerLoop fuel rd2).2)

/-- `reader_task`; every round reads at least two bytes. -/
def readerTask (rd : Bytes) : List Bytes × Bytes := readerLoop rd.length rd

/-- `writer_task` on a queue that is closed behind `rx`.  (A `Sink` has nothing to flush.) -/
def writerTask (wr : Sink) : List Bytes → Sink
  | [] => wr
  | pkt :: rx =>
    if pkt.length > 65535 then
      writerTask wr rx  -- can't frame it: drop
    else
      match writeAll wr (toBeBytes (asU16 pkt.length)) with
      | (wr, .error _) => wr
      | (wr, .ok ()) =>
        match writeAll wr pkt with
        | (wr, .error _) => wr
        | (wr, .ok ()) => writerTask wr rx

/-- One round of `reader_task` reads the first frame of the stream. -/
theorem readerLoop_eq_parse (fuel : Nat) (rd : Bytes) :
    readerLoop fuel rd = wire.parseFuel fuel rd := by
  induction fuel generalizing rd with
  | zero => rfl
  | succ fuel ih =>
    unfold readerLoop readU16 readExact Framing.LengthHeader.parseFuel
    by_cases h2 : rd.length < 2
    · rw [wire_split_short rd h2, if_neg (by omega)]
    · obtain ⟨hi, lo, body, rfl⟩ := exists_length_prefix rd h2
      rw [if_pos (by simp), wire_split_cons]
      simp only [List.take_succ_cons, List.take_zero, List.drop_succ_cons, List.drop_zero]
      by_cases h3 : body.length < (fromBeBytes hi lo).toNat
      · rw [if_pos h3, if_neg (by omega)]
      · rw [if_neg h3, if_pos (by omega)]
        simp only [ih]

theorem readerTask_eq_parse (rd : Bytes) : readerTask rd = wire.parse rd :=
  readerLoop_eq_parse rd.length rd

/-- A packet that fits a frame. -/
def framable (p : Bytes) : Bool := decide (p.length ≤ MAX_FRAME)

theorem framable_iff (p : Bytes) : framable p = true ↔ p.length ≤ 65535 := by
  unfold framable MAX_FRAME
  exact decide_eq_true_iff

/-- On a sink that does not fail, `writer_task` writes the frames of the packets that fit. -/
theorem writerTask_eq (ps : List Bytes) (w : Sink) (hw : w.room = none) :
    writerTask w ps = { w with bytes := w.bytes ++ wire.frames (ps.filter framable) } := by
  induction ps generalizing w with
  | nil => simp [writerTask]
  | cons p ps ih =>
    unfold writerTask
    have hf := framable_iff p
    by_cases hp : p.length > 65535
    · rw [if_pos hp, ih w hw, List.filter_cons_of_neg (by rw [hf]; omega)]
    · rw [if_neg hp, List.filter_cons_of_pos (by rw [hf]; omega), writeAll_noFail w _ hw]
      simp only
      rw [writeAll_noFail _ _ (by exact hw)]
      simp only
      rw [ih _ (by exact hw), Framing.LengthHeader.frames_cons, wire_frame]
      simp only [List.append_assoc]

end RickyNet
