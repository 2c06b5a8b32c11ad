import Mathlib.Data.List.TakeDrop
import RickyNet.Lib.Framing

/-!
# The wire format: `[u16 length, big-endian][IP packet]`

The encoders and the blocking reader of the `rickynet-wire` crate: `encode_frame`, `frame`,
`write_frame`, `read_frame`, over byte lists.  A `Sink` is what `write_all` writes to (it may
fail after any number of bytes), a byte list followed by EOF is what `read_exact` reads from.

`wire` is the header code of the format, an instance of the framing library; its `frame` is what
every encoder writes for a packet of at most `MAX_FRAME` bytes, its `split` is what one
`read_frame` does.
-/

namespace RickyNet

abbrev Bytes := List UInt8

/-! ## Integers -/

/-- `n as u16`. -/
def asU16 (n : Nat) : UInt16 := UInt16.ofNat n

/-- `u16::to_be_bytes`. -/
def toBeBytes (n : UInt16) : Bytes := [UInt8.ofNat (n.toNat / 256), UInt8.ofNat n.toNat]

/-- `u16::from_be_bytes([hi, lo])`. -/
def fromBeBytes (hi lo : UInt8) : UInt16 := UInt16.ofNat (hi.toNat * 256 + lo.toNat)

theorem asU16_toNat (n : Nat) (h : n ≤ 65535) : (asU16 n).toNat = n := by
  unfold asU16
  rw [UInt16.toNat_ofNat']
  omega

theorem fromBeBytes_toNat (hi lo : UInt8) : (fromBeBytes hi lo).toNat = hi.toNat * 256 + lo.toNat := by
  have h1 := hi.toNat_lt
  have h2 := lo.toNat_lt
  unfold fromBeBytes
  rw [UInt16.toNat_ofNat']
  omega

theorem fromBeBytes_toBeBytes (n : UInt16) :
    fromBeBytes (UInt8.ofNat (n.toNat / 256)) (UInt8.ofNat n.toNat) = n := by
  have h := n.toNat_lt
  apply UInt16.toNat_inj.mp
  rw [fromBeBytes_toNat, UInt8.toNat_ofNat', UInt8.toNat_ofNat']
  omega

theorem toBeBytes_fromBeBytes (hi lo : UInt8) : toBeBytes (fromBeBytes hi lo) = [hi, lo] := by
  have h1 := hi.toNat_lt
  have h2 := lo.toNat_lt
  unfold toBeBytes
  rw [fromBeBytes_toNat]
  congr 1
  · apply UInt8.toNat_inj.mp
    rw [UInt8.toNat_ofNat']
    omega
  · congr 1
    apply UInt8.toNat_inj.mp
    rw [UInt8.toNat_ofNat']
    omega

/-! ## Errors, sinks and sources -/

inductive ErrorKind
  | unexpectedEof
  | invalidInput
  | invalidData
  | brokenPipe
  | connectionRefused
  | notFound
  | other
deriving DecidableEq

/-- `io::Error`: its kind and its text. -/
structure IoError where
  kind : ErrorKind
  msg : String
deriving DecidableEq

/-- Where `write_all` writes: `room = some n` fails once `n` more bytes are accepted. -/
structure Sink where
  bytes : Bytes
  room : Option Nat
deriving DecidableEq

/-- The error of a sink that is out of room. -/
def writeError : IoError := ⟨.brokenPipe, "broken pipe"⟩

/-- `write_all`: everything, or what there was room for and an error. -/
def writeAll (w : Sink) (buf : Bytes) : Sink × Except IoError Unit :=
  match w.room with
  | none => ({ w with bytes := w.bytes ++ buf }, .ok ())
  | some n =>
    if buf.length ≤ n then
      ({ bytes := w.bytes ++ buf, room := some (n - buf.length) }, .ok ())
    else ({ bytes := w.bytes ++ buf.take n, room := some 0 }, .error writeError)

/-- `read_exact` of `n` bytes from a stream that ends after `s`: the bytes and the rest. -/
def readExact (n : Nat) (s : Bytes) : Except IoError (Bytes × Bytes) :=
  if n ≤ s.length then .ok (s.take n, s.drop n)
  else .error ⟨.unexpectedEof, "failed to fill whole buffer"⟩

/-! ## The crate -/

/-- Length prefix width, in bytes. -/
def LEN_PREFIX : Nat := 2

/-- Largest IP packet that is framed. -/
def MAX_FRAME : Nat := 65535

/-- Default TCP port of the phone's listener. -/
def DEFAULT_PORT : UInt16 := 27600

/-- `encode_frame` in a release build: `out` afterwards and the number returned. -/
def encodeFrame (packet out : Bytes) : Bytes × Nat :=
  let len := asU16 (min packet.length MAX_FRAME)
  (out ++ toBeBytes len ++ packet.take len.toNat, LEN_PREFIX + len.toNat)

/-- `encode_frame` in a debug build; `none` is the panic of its `debug_assert!`. -/
def encodeFrameDebug (packet out : Bytes) : Option (Bytes × Nat) :=
  if packet.length ≤ MAX_FRAME then some (encodeFrame packet out) else none

/-- `frame`: a framed copy of `packet`. -/
def frame (packet : Bytes) : Bytes := (encodeFrame packet []).1

/-- `write_frame`. -/
def writeFrame (w : Sink) (packet : Bytes) : Sink × Except IoError Unit :=
  if packet.length > MAX_FRAME then
    (w, .error ⟨.invalidInput, "IP packet exceeds u16 frame length"⟩)
  else
    match writeAll w (toBeBytes (asU16 packet.length)) with
    | (w, .error e) => (w, .error e)
    | (w, .ok ()) => writeAll w packet

/-- `read_frame`: the packet and the rest of the stream. -/
def readFrame (r : Bytes) : Except IoError (Bytes × Bytes) :=
  match readExact LEN_PREFIX r with
  | .error e => .error e
  | .ok (lenBuf, r) =>
    match lenBuf with
    | [hi, lo] => readExact (fromBeBytes hi lo).toNat r
    | _ => .error ⟨.other, ""⟩  -- `read_exact` has filled both bytes

/-! ## The header code -/

/-- The two length bytes as a header code. -/
def wire : Framing.LengthHeader UInt8 where
  width := LEN_PREFIX
  max := MAX_FRAME
  enc n := toBeBytes (asU16 n)
  dec
    | [hi, lo] => (fromBeBytes hi lo).toNat
    | _ => 0
  width_pos := by decide
  enc_length _ := rfl
  dec_le := by
    intro h _
    unfold MAX_FRAME
    split
    · next hi lo _ =>
      have := (fromBeBytes hi lo).toNat_lt
      omega
    · exact Nat.zero_le _
  dec_enc := by
    intro n hn
    simp only [toBeBytes, fromBeBytes_toBeBytes]
    exact asU16_toNat n hn
  enc_dec := by
    intro h hh
    match h, hh with
    | [hi, lo], _ =>
      show toBeBytes (UInt16.ofNat (fromBeBytes hi lo).toNat) = [hi, lo]
      rw [UInt16.ofNat_toNat, toBeBytes_fromBeBytes]

@[simp] theorem wire_width : wire.width = 2 := rfl

@[simp] theorem wire_max : wire.max = 65535 := rfl

theorem wire_frame (p : Bytes) : wire.frame p = toBeBytes (asU16 p.length) ++ p := rfl

theorem toBeBytes_length (n : UInt16) : (toBeBytes n).length = 2 := rfl

theorem wire_frame_length (p : Bytes) : (wire.frame p).length = LEN_PREFIX + p.length :=
  Framing.LengthHeader.frame_length p

theorem wire_split_short (s : Bytes) (h : s.length < 2) : wire.split s = none := by
  unfold Framing.LengthHeader.split
  rw [if_pos (by simpa using h)]

theorem wire_split_cons (hi lo : UInt8) (body : Bytes) :
    wire.split (hi :: lo :: body) =
      if body.length < (fromBeBytes hi lo).toNat then none
      else some (body.take (fromBeBytes hi lo).toNat, body.drop (fromBeBytes hi lo).toNat) := by
  unfold Framing.LengthHeader.split
  have hdec : wire.dec ((hi :: lo :: body).take wire.width) = (fromBeBytes hi lo).toNat := rfl
  rw [if_neg (by simp), hdec]
  by_cases h : body.length < (fromBeBytes hi lo).toNat
  · rw [if_pos (by simp only [wire_width, List.length_cons]; omega), if_pos h]
  · rw [if_neg (by simp only [wire_width, List.length_cons]; omega), if_neg h]
    rfl

/-- A stream of at least two bytes begins with a length prefix. -/
theorem exists_length_prefix (s : Bytes) (h : ¬ s.length < 2) : ∃ hi lo body, s = hi :: lo :: body := by
  match s, h with
  | hi :: lo :: body, _ => exact ⟨hi, lo, body, rfl⟩
  | [], h => simp at h
  | [_], h => simp at h

/-- Bytes without a complete frame in front are fewer than the longest frame. -/
theorem length_of_split_none {s : Bytes} (h : wire.split s = none) : s.length ≤ 65536 := by
  by_cases h2 : s.length < 2
  · omega
  obtain ⟨hi, lo, body, rfl⟩ := exists_length_prefix s h2
  rw [wire_split_cons] at h
  split at h
  · next hlt =>
    have hmax := (fromBeBytes hi lo).toNat_lt
    simp only [List.length_cons]
    omega
  · cases h

/-! ## What each function does -/

/-- `encode_frame` appends the frame of the packet, cut to `MAX_FRAME` bytes if it is longer, and
returns the number of bytes it appends. -/
theorem encodeFrame_eq (packet out : Bytes) :
    encodeFrame packet out = (out ++ wire.frame (packet.take MAX_FRAME),
      (wire.frame (packet.take MAX_FRAME)).length) := by
  have hmin : min packet.length MAX_FRAME ≤ 65535 := by unfold MAX_FRAME; omega
  have hlen : (packet.take MAX_FRAME).length = min packet.length MAX_FRAME := by
    rw [List.length_take, Nat.min_comm]
  have htake : packet.take (min packet.length MAX_FRAME) = packet.take MAX_FRAME := by
    rcases Nat.le_total packet.length MAX_FRAME with h | h
    · rw [Nat.min_eq_left h, List.take_of_length_le (Nat.le_refl _), List.take_of_length_le h]
    · rw [Nat.min_eq_right h]
  unfold encodeFrame
  simp only [asU16_toNat _ hmin, htake]
  rw [wire_frame, hlen, List.append_assoc]
  simp only [List.length_append, toBeBytes_length, hlen, LEN_PREFIX]

theorem encodeFrameDebug_eq (packet out : Bytes) (h : packet.length ≤ MAX_FRAME) :
    encodeFrameDebug packet out = some (encodeFrame packet out) := by
  unfold encodeFrameDebug
  rw [if_pos h]

theorem writeAll_noFail (w : Sink) (buf : Bytes) (h : w.room = none) :
    writeAll w buf = ({ w with bytes := w.bytes ++ buf }, .ok ()) := by
  unfold writeAll
  rw [h]

/-- On a sink that does not fail, `write_frame` writes the frame of a packet that fits. -/
theorem writeFrame_fits (w : Sink) (packet : Bytes) (hw : w.room = none)
    (hp : packet.length ≤ MAX_FRAME) :
    writeFrame w packet = ({ w with bytes := w.bytes ++ wire.frame packet }, .ok ()) := by
  unfold writeFrame
  rw [if_neg (by omega), writeAll_noFail w _ hw]
  show writeAll _ packet = _
  rw [writeAll_noFail _ _ (by exact hw), wire_frame, List.append_assoc]

/-- `write_frame` writes nothing for a packet that does not fit. -/
theorem writeFrame_oversize (w : Sink) (packet : Bytes) (hp : MAX_FRAME < packet.length) :
    writeFrame w packet = (w, .error ⟨.invalidInput, "IP packet exceeds u16 frame length"⟩) := by
  unfold writeFrame
  rw [if_pos hp]

/-- `read_frame` takes the first complete frame off the stream, and fails if there is none. -/
theorem readFrame_eq_split (r : Bytes) :
    readFrame r = match wire.split r with
      | some pr => .ok pr
      | none => .error ⟨.unexpectedEof, "failed to fill whole buffer"⟩ := by
  unfold readFrame readExact LEN_PREFIX
  by_cases h2 : r.length < 2
  · rw [wire_split_short r h2, if_neg (by omega)]
  · obtain ⟨hi, lo, body, rfl⟩ := exists_length_prefix r h2
    rw [if_pos (by simp), wire_split_cons]
    simp only [List.take_succ_cons, List.take_zero, List.drop_succ_cons, List.drop_zero]
    by_cases h3 : body.length < (fromBeBytes hi lo).toNat
    · rw [if_pos h3, if_neg (by omega)]
    · rw [if_neg h3, if_pos (by omega)]

end RickyNet
