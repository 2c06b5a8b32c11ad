import RickyNet.Core.Device
import RickyNet.Lib.Runs

/-!
# The phone's receiving end

The stream that comes in on the cable, `reader_task`, the bounded channel and the `poll_read` of
the device, as one step function.  The stream delivers in pieces of any size and may be cut at any
byte, a read call may fail at any moment, the device is polled and dropped whenever ipstack likes.

* `carries_step`: the reader takes the frames off the stream in order, whatever the pieces.
* `Whole`: as long as every `ReadBuf` holds the largest packet, what has been read is what has been
  delivered, what is queued, and the packet `reader_task` is holding.

That every complete frame on the stream can be delivered is `reaches_delivery` in `Core/NoEof`.
-/

namespace RickyNet

structure Inbound where
  stream : ByteStream UInt8
  reader : ReaderTask
  /-- `TX_BYTES` -/
  txBytes : UInt64
  /-- `none` once the device has been dropped -/
  device : Option FramedDevice
  /-- the packets `reader_task` has read, in order -/
  received : List Bytes
  /-- the answers of `poll_read`, in order -/
  answers : List PollRead

namespace Inbound

/-- A connection on which `stream` is coming in. -/
def start (stream : ByteStream UInt8) : Inbound := ⟨stream, .start, 0, some .new, [], []⟩

/-- The packets that `poll_read` has delivered. -/
def delivered (i : Inbound) : List Bytes := i.answers.flatMap PollRead.packets

inductive Act
  /-- the stream is cut behind the next `n` bytes in flight -/
  | cut (n : Nat)
  /-- the read call in progress gets `n` bytes -/
  | read (n : Nat)
  /-- the read call in progress fails, or meets the end of the stream -/
  | readErr
  /-- `TX_BYTES.fetch_add` -/
  | count
  /-- `tx.send(buf)` completes -/
  | send
  /-- `poll_read` with `remaining` free bytes -/
  | poll (remaining : Nat)
  /-- the device is dropped -/
  | drop
deriving DecidableEq

/-- The read call in progress takes `n` bytes off the stream. -/
def readPiece (i : Inbound) (n : Nat) : Inbound :=
  let reader := i.reader.feed (i.stream.flight.take n)
  { i with stream := i.stream.take n, reader := reader, received := i.received ++ reader.holding }

/-- `poll_read` of the device `d`. -/
def polled (i : Inbound) (d : FramedDevice) (remaining : Nat) : Inbound :=
  let (answer, d) := d.pollRead remaining
  { i with device := some d, answers := i.answers ++ [answer] }

def step (i : Inbound) : Act → Option Inbound
  | .cut n => some { i with stream := i.stream.cutAt n }
  | .read n =>
    match i.reader with
    | .reading f =>
      if 0 < n ∧ n ≤ f.need ∧ n ≤ i.stream.flight.length then some (i.readPiece n) else none
    | _ => none
  | .readErr =>
    match i.reader with
    | .reading f => some { i with reader := .ended f.got, device := i.device.map .close }
    | _ => none
  | .count =>
    match i.reader with
    | .count buf =>
      some { i with reader := .send buf, txBytes := i.txBytes + UInt64.ofNat buf.length }
    | _ => none
  | .send =>
    match i.reader with
    | .send buf =>
      match i.device with
      | some d =>
        -- a full channel: the call waits
        if d.incoming.length < INCOMING_CAP then
          some { i with reader := .start, device := some (d.enqueue buf) }
        else none
      | none => some { i with reader := .ended [] }
    | _ => none
  | .poll remaining =>
    match i.device with
    | some d => if 0 < remaining then some (i.polled d remaining) else none
    | none => none
  | .drop => some { i with device := none }

/-- What a step does. -/
inductive Moves (i : Inbound) : Act → Inbound → Prop
  | cut (n : Nat) : Moves i (.cut n) { i with stream := i.stream.cutAt n }
  | read (f : FrameRead) (n : Nat) (hr : i.reader = .reading f) (hpos : 0 < n) (hn : n ≤ f.need)
      (hfl : n ≤ i.stream.flight.length) : Moves i (.read n) (i.readPiece n)
  | readErr (f : FrameRead) (hr : i.reader = .reading f) :
      Moves i .readErr { i with reader := .ended f.got, device := i.device.map .close }
  | count (buf : Bytes) (hr : i.reader = .count buf) : Moves i .count
      { i with reader := .send buf, txBytes := i.txBytes + UInt64.ofNat buf.length }
  | send (buf : Bytes) (d : FramedDevice) (hr : i.reader = .send buf) (hd : i.device = some d)
      (hroom : d.incoming.length < INCOMING_CAP) :
      Moves i .send { i with reader := .start, device := some (d.enqueue buf) }
  | sendErr (buf : Bytes) (hr : i.reader = .send buf) (hd : i.device = none) :
      Moves i .send { i with reader := .ended [] }
  | poll (d : FramedDevice) (remaining : Nat) (hd : i.device = some d) (hpos : 0 < remaining) :
      Moves i (.poll remaining) (i.polled d remaining)
  | drop : Moves i .drop { i with device := none }

theorem moves_of_step {i i' : Inbound} {a : Act} (h : i.step a = some i') : i.Moves a i' := by
  cases a with
  | cut n => cases h; exact .cut n
  | read n =>
    simp only [step] at h
    split at h
    · next f hr =>
      split at h
      · next hn => cases h; exact .read f n hr hn.1 hn.2.1 hn.2.2
      · cases h
    · cases h
  | readErr =>
    simp only [step] at h
    split at h
    · next f hr => cases h; exact .readErr f hr
    · cases h
  | count =>
    simp only [step] at h
    split at h
    · next buf hr => cases h; exact .count buf hr
    · cases h
  | send =>
    simp only [step] at h
    split at h
    · next buf hr =>
      split at h
      · next d hd =>
        split at h
        · next hroom => cases h; exact .send buf d hr hd hroom
        · cases h
      · next hd => cases h; exact .sendErr buf hr hd
    · cases h
  | poll remaining =>
    simp only [step] at h
    split at h
    · next d hd =>
      split at h
      · next hpos => cases h; exact .poll d remaining hd hpos
      · cases h
    · cases h
  | drop => cases h; exact .drop

@[simp] theorem polled_reader (i : Inbound) (d : FramedDevice) (n : Nat) :
    (i.polled d n).reader = i.reader := rfl

@[simp] theorem polled_received (i : Inbound) (d : FramedDevice) (n : Nat) :
    (i.polled d n).received = i.received := rfl

@[simp] theorem polled_device (i : Inbound) (d : FramedDevice) (n : Nat) :
    (i.polled d n).device = some (d.pollRead n).2 := rfl

@[simp] theorem polled_answers (i : Inbound) (d : FramedDevice) (n : Nat) :
    (i.polled d n).answers = i.answers ++ [(d.pollRead n).1] := rfl

/-- One piece: no packet yet, or the packet of the frame that is now complete. -/
theorem readPiece_cases (i : Inbound) (f : FrameRead) (n : Nat) (hr : i.reader = .reading f)
    (hn : n ≤ f.need) :
    (∃ f', (i.readPiece n).reader = .reading f' ∧ f'.got = f.got ++ i.stream.flight.take n ∧
        (i.readPiece n).received = i.received) ∨
      (∃ p, (i.readPiece n).reader = .count p ∧ wire.frame p = f.got ++ i.stream.flight.take n ∧
        p.length ≤ MAX_FRAME ∧ (i.readPiece n).received = i.received ++ [p]) := by
  have hlen : (i.stream.flight.take n).length ≤ f.need := by
    rw [List.length_take]
    omega
  rcases ReaderTask.feed_spec f _ hlen with ⟨f', h1, h2⟩ | ⟨p, h1, h2, h3⟩
  · refine Or.inl ⟨f', by unfold readPiece; rw [hr]; exact h1, h2, ?_⟩
    unfold readPiece
    rw [hr, h1]
    exact List.append_nil _
  · refine Or.inr ⟨p, by unfold readPiece; rw [hr]; exact h1, h2, h3, ?_⟩
    unfold readPiece
    rw [hr, h1]
    rfl

/-! ## What is taken off the stream -/

/-- The stream carries the frames of `written` and the beginning `out` of one more; `received` and
what the reader has read of one more frame is what it has taken off. -/
def Carrying (written : List Bytes) (out : Bytes) (i : Inbound) : Prop :=
  i.stream.Carries wire written out i.received i.reader.got

/-- **The reader stays in step.**  No piece, cut or failure desynchronises it. -/
theorem carries_step {written : List Bytes} {out : Bytes} {i i' : Inbound} {a : Act}
    (hi : i.Carrying written out) (h : i.step a = some i') : i'.Carrying written out := by
  unfold Carrying at hi ⊢
  cases moves_of_step h with
  | cut n => exact hi.cut n
  | read f n hr hpos hn hfl =>
    rw [hr] at hi
    rcases i.readPiece_cases f n hr hn with ⟨f', h1, h2, h3⟩ | ⟨p, h1, h2, h3, h4⟩
    · rw [h1, h3]
      exact hi.take_part h2 f'.split_got
    · rw [h1, h4]
      exact hi.take_last h2 h3
  | readErr f hr =>
    rw [hr] at hi
    exact hi
  | count buf hr =>
    rw [hr] at hi
    exact hi
  | send buf d hr hd hroom =>
    rw [hr] at hi
    exact hi
  | sendErr buf hr hd =>
    rw [hr] at hi
    exact hi
  | poll d remaining hd hpos => exact hi
  | drop => exact hi

/-! ## Where the packets are -/

/-- `poll_read` is called with room for the largest packet. -/
def Act.whole : Act → Prop
  | .poll remaining => 65535 ≤ remaining
  | _ => True

instance (a : Act) : Decidable a.whole := by
  cases a <;> unfold Act.whole <;> infer_instance

/-- Every packet read is delivered, queued or held; the channel is within its bound. -/
def Whole (i : Inbound) : Prop :=
  match i.device with
  | some d => i.received = i.delivered ++ d.incoming ++ i.reader.holding ∧ d.leftover = none ∧
      d.incoming.length ≤ INCOMING_CAP
  | none => i.delivered <+: i.received

theorem whole_iff_some {i : Inbound} {d : FramedDevice} (hd : i.device = some d) :
    i.Whole ↔ i.received = i.delivered ++ d.incoming ++ i.reader.holding ∧ d.leftover = none ∧
      d.incoming.length ≤ INCOMING_CAP := by
  unfold Whole
  rw [hd]

theorem whole_iff_none {i : Inbound} (hd : i.device = none) :
    i.Whole ↔ i.delivered <+: i.received := by
  unfold Whole
  rw [hd]

theorem Whole.delivered_prefix {i : Inbound} (h : i.Whole) : i.delivered <+: i.received := by
  cases hd : i.device with
  | none => exact (whole_iff_none hd).1 h
  | some d =>
    rw [((whole_iff_some hd).1 h).1, List.append_assoc]
    exact List.prefix_append _ _

/-- A step that moves nothing between reader, channel and ipstack. -/
theorem Whole.of_eq {i i' : Inbound} (h : i.Whole) (hd : i'.device = i.device)
    (hr : i'.received = i.received) (ha : i'.answers = i.answers)
    (hh : i'.reader.holding = i.reader.holding) : i'.Whole := by
  unfold Whole delivered at *
  rw [hd, hr, ha, hh]
  exact h

theorem whole_poll {i : Inbound} {d : FramedDevice} (hd : i.device = some d) (hi : i.Whole)
    (hfit : wire.Fits i.received) {remaining : Nat} (hrem : 65535 ≤ remaining) :
    (i.polled d remaining).Whole := by
  obtain ⟨h1, h2, h3⟩ := (whole_iff_some hd).1 hi
  rw [whole_iff_some (i.polled_device d remaining)]
  unfold delivered at h1 ⊢
  cases hq : d.incoming with
  | nil =>
    have hp := d.pollRead_pending remaining h2 hq
    rw [polled_answers, polled_received, polled_reader, hp, List.flatMap_append]
    exact ⟨by simpa [PollRead.packets] using h1, h2, h3⟩
  | cons p rest =>
    -- the packet has come off the stream, so it fits the buffer
    have hmem : p ∈ i.received := by
      rw [h1, hq]
      simp
    have hlen : p.length ≤ 65535 := hfit p hmem
    have hp := d.pollRead_whole remaining h2 p rest hq (by omega)
    rw [polled_answers, polled_received, polled_reader, hp, List.flatMap_append]
    rw [hq] at h1 h3
    rw [List.length_cons] at h3
    exact ⟨by simpa [PollRead.packets] using h1, h2, by show rest.length ≤ _; omega⟩

theorem whole_step {i i' : Inbound} {a : Act} (hi : i.Whole) (hfit : wire.Fits i.received)
    (ha : a.whole) (h : i.step a = some i') : i'.Whole := by
  cases moves_of_step h with
  | cut n => exact hi.of_eq rfl rfl rfl rfl
  | read f n hr hpos hn hfl =>
    rcases i.readPiece_cases f n hr hn with ⟨f', h1, -, h3⟩ | ⟨p, h1, -, -, h4⟩
    · exact hi.of_eq rfl h3 rfl (by rw [h1, hr]; rfl)
    · -- the packet that is now complete is held
      cases hd : i.device with
      | none =>
        rw [whole_iff_none (by exact hd), h4]
        exact ((whole_iff_none hd).1 hi).trans (List.prefix_append _ _)
      | some d =>
        obtain ⟨h5, h6, h7⟩ := (whole_iff_some hd).1 hi
        rw [hr] at h5
        rw [whole_iff_some (d := d) (by exact hd), h4, h1]
        exact ⟨by rw [h5]; simp [ReaderTask.holding]; rfl, h6, h7⟩
  | readErr f hr =>
    cases hd : i.device with
    | none => exact hi.of_eq (by simp [hd]) rfl rfl (by rw [hr]; rfl)
    | some d =>
      have h5 := (whole_iff_some hd).1 hi
      rw [hr] at h5
      exact (whole_iff_some (d := d.close) (by simp)).2 h5
  | count buf hr => exact hi.of_eq rfl rfl rfl (by rw [hr]; rfl)
  | send buf d hr hd hroom =>
    obtain ⟨h5, h6, h7⟩ := (whole_iff_some hd).1 hi
    rw [hr] at h5
    rw [whole_iff_some (d := d.enqueue buf) (by simp)]
    refine ⟨?_, h6, ?_⟩
    · show i.received = i.delivered ++ (d.incoming ++ [buf]) ++ []
      rw [h5, List.append_nil, List.append_assoc]
      rfl
    · show (d.incoming ++ [buf]).length ≤ INCOMING_CAP
      rw [List.length_append, List.length_singleton]
      omega
  | sendErr buf hr hd =>
    have h5 := (whole_iff_none hd).1 hi
    exact (whole_iff_none (by exact hd)).2 h5
  | poll d remaining hd hpos => exact whole_poll hd hi hfit ha
  | drop => exact (whole_iff_none rfl).2 hi.delivered_prefix

end Inbound

end RickyNet
