import RickyNet.Lib.ByteStream
import RickyNet.Wire.Codec

/-!
# A frame on its way, piece by piece

A stream accepts and delivers a frame in pieces of any size.  `FrameWrite` is a frame being
written: `write_frame` and `writer_task` both make one write call for the two length bytes and
one for the packet.  `FrameRead` is a frame being read: `read_frame` and `reader_task` both read
the two length bytes and then a body of that length.  Neither can be built in a state that the
code cannot be in (a finished write, a full buffer that is still being filled).

`FrameWrite.accept_some`, `FrameWrite.accept_none` and `FrameRead.feed_spec` say what one piece
does to the bytes that are `out` or `got`.
-/

namespace RickyNet

/-! ## Writing -/

/-- `k` bytes of the frame of `packet` are out. -/
structure FrameWrite where
  packet : Bytes
  k : Nat
  fits : packet.length ≤ MAX_FRAME
  unfinished : k < LEN_PREFIX + packet.length

namespace FrameWrite

def start (packet : Bytes) (h : packet.length ≤ MAX_FRAME) : FrameWrite :=
  ⟨packet, 0, h, by unfold LEN_PREFIX; omega⟩

/-- What the write call in progress has still to write: first the length, then the packet. -/
def pending (w : FrameWrite) : Bytes :=
  if w.k < LEN_PREFIX then (toBeBytes (asU16 w.packet.length)).drop w.k
  else w.packet.drop (w.k - LEN_PREFIX)

/-- `n` more bytes are out; `none` when that is the whole frame. -/
def accept (w : FrameWrite) (n : Nat) : Option FrameWrite :=
  if h : w.k + n < LEN_PREFIX + w.packet.length then some ⟨w.packet, w.k + n, w.fits, h⟩ else none

/-- The bytes that are out. -/
def out (w : FrameWrite) : Bytes := (wire.frame w.packet).take w.k

@[simp] theorem start_packet (p : Bytes) (h : p.length ≤ MAX_FRAME) : (start p h).packet = p := rfl

@[simp] theorem start_out (p : Bytes) (h : p.length ≤ MAX_FRAME) : (start p h).out = [] := rfl

theorem pending_prefix (w : FrameWrite) : w.pending <+: (wire.frame w.packet).drop w.k := by
  have hL : LEN_PREFIX = 2 := rfl
  unfold pending
  rw [wire_frame]
  by_cases h : w.k < LEN_PREFIX
  · rw [if_pos h, List.drop_append_of_le_length (by rw [toBeBytes_length]; omega)]
    exact List.prefix_append _ _
  · have hd : (toBeBytes (asU16 w.packet.length)).drop w.k = [] :=
      List.drop_eq_nil_of_le (by rw [toBeBytes_length]; omega)
    rw [if_neg h, List.drop_append, hd, List.nil_append, toBeBytes_length, hL]

theorem out_take (w : FrameWrite) (n : Nat) (hn : n ≤ w.pending.length) :
    w.out ++ w.pending.take n = (wire.frame w.packet).take (w.k + n) := by
  have hp : w.pending.take n = ((wire.frame w.packet).drop w.k).take n := by
    obtain ⟨t, ht⟩ := w.pending_prefix
    rw [← ht, List.take_append_of_le_length hn]
  unfold out
  rw [hp, ← List.take_add]

/-- A piece that does not finish the frame. -/
theorem accept_some (w w' : FrameWrite) (n : Nat) (hn : n ≤ w.pending.length)
    (h : w.accept n = some w') : w'.packet = w.packet ∧ w'.out = w.out ++ w.pending.take n := by
  unfold accept at h
  split at h
  · cases h
    exact ⟨rfl, (w.out_take n hn).symm⟩
  · cases h

/-- The piece that finishes the frame. -/
theorem accept_none (w : FrameWrite) (n : Nat) (hn : n ≤ w.pending.length)
    (h : w.accept n = none) : w.out ++ w.pending.take n = wire.frame w.packet := by
  unfold accept at h
  split at h
  · cases h
  · next hk =>
    rw [w.out_take n hn, List.take_of_length_le]
    rw [Framing.LengthHeader.frame_length, wire_width]
    unfold LEN_PREFIX at hk
    omega

/-- What is out of an unfinished frame is not a frame. -/
theorem split_out (w : FrameWrite) : wire.split w.out = none :=
  Framing.LengthHeader.split_take_frame w.packet w.k w.fits w.unfinished

end FrameWrite

/-! ## Reading -/

/-- A frame of which `got` has been read: its length, or the body behind the length `len`. -/
inductive FrameRead
  | length (got : Bytes) (h : got.length < LEN_PREFIX)
  | body (len : UInt16) (got : Bytes) (h : got.length < len.toNat)

namespace FrameRead

def start : FrameRead := .length [] (by decide)

/-- How many bytes the read call in progress still wants. -/
def need : FrameRead → Nat
  | .length got _ => LEN_PREFIX - got.length
  | .body len got _ => len.toNat - got.length

/-- All bytes of the frame that have been read. -/
def got : FrameRead → Bytes
  | .length got _ => got
  | .body len got _ => toBeBytes len ++ got

/-- The body buffer holds `buf`: go on reading, or the packet is complete. -/
def ofBody (len : UInt16) (buf : Bytes) : FrameRead ⊕ Bytes :=
  if h : buf.length < len.toNat then .inl (.body len buf h) else .inr buf

/-- The length buffer holds `buf`: go on reading, or turn to the body. -/
def ofLength (buf : Bytes) : FrameRead ⊕ Bytes :=
  match buf with
  | [] => .inl (.length [] (by decide))
  | [b] => .inl (.length [b] (by unfold LEN_PREFIX; simp))
  | hi :: lo :: _ => ofBody (fromBeBytes hi lo) []

/-- The read call in progress gets `bs`. -/
def feed : FrameRead → Bytes → FrameRead ⊕ Bytes
  | .length got _, bs => ofLength (got ++ bs)
  | .body len got _, bs => ofBody len (got ++ bs)

@[simp] theorem start_got : start.got = [] := rfl

theorem need_pos (r : FrameRead) : 0 < r.need := by
  cases r with
  | length got h =>
    show 0 < LEN_PREFIX - got.length
    omega
  | body len got h =>
    show 0 < len.toNat - got.length
    omega

theorem ofBody_spec (len : UInt16) (buf : Bytes) (h : buf.length ≤ len.toNat) :
    (∃ r, ofBody len buf = .inl r ∧ r.got = toBeBytes len ++ buf) ∨
      (ofBody len buf = .inr buf ∧ wire.frame buf = toBeBytes len ++ buf ∧
        buf.length ≤ MAX_FRAME) := by
  unfold ofBody
  by_cases hb : buf.length < len.toNat
  · rw [dif_pos hb]
    exact Or.inl ⟨_, rfl, rfl⟩
  · rw [dif_neg hb]
    have hlen : buf.length = len.toNat := by omega
    have hlt := len.toNat_lt
    refine Or.inr ⟨rfl, ?_, by unfold MAX_FRAME; omega⟩
    rw [wire_frame, hlen]
    unfold asU16
    rw [UInt16.ofNat_toNat]

/-- **One piece.**  The frame is still incomplete, or what has been read is the frame of the
packet handed out. -/
theorem feed_spec (r : FrameRead) (bs : Bytes) (h : bs.length ≤ r.need) :
    (∃ r', r.feed bs = .inl r' ∧ r'.got = r.got ++ bs) ∨
      (∃ p, r.feed bs = .inr p ∧ wire.frame p = r.got ++ bs ∧ p.length ≤ MAX_FRAME) := by
  cases r with
  | length got hg =>
    have hL : LEN_PREFIX = 2 := rfl
    have h2 : (got ++ bs).length ≤ 2 := by
      have : bs.length ≤ LEN_PREFIX - got.length := h
      rw [List.length_append]
      omega
    show (∃ r' : FrameRead, ofLength (got ++ bs) = _ ∧ r'.got = got ++ bs) ∨
      ∃ p, ofLength (got ++ bs) = _ ∧ wire.frame p = got ++ bs ∧ _
    match got ++ bs, h2 with
    | [], _ => exact Or.inl ⟨_, rfl, rfl⟩
    | [b], _ => exact Or.inl ⟨_, rfl, rfl⟩
    | [hi, lo], _ =>
      -- both length bytes are there: an empty body is complete at once
      rcases ofBody_spec (fromBeBytes hi lo) [] (Nat.zero_le _) with ⟨r', h1, h3⟩ | ⟨h1, h3, h4⟩
      · exact Or.inl ⟨r', h1, by rw [h3, toBeBytes_fromBeBytes]; rfl⟩
      · exact Or.inr ⟨[], h1, by rw [h3, toBeBytes_fromBeBytes]; rfl, h4⟩
    | _ :: _ :: _ :: _, h2 => simp at h2
  | body len got hg =>
    have hb : (got ++ bs).length ≤ len.toNat := by
      have : bs.length ≤ len.toNat - got.length := h
      rw [List.length_append]
      omega
    show (∃ r' : FrameRead, ofBody len (got ++ bs) = _ ∧ r'.got = toBeBytes len ++ got ++ bs) ∨
      ∃ p, ofBody len (got ++ bs) = _ ∧ wire.frame p = toBeBytes len ++ got ++ bs ∧ _
    rw [List.append_assoc]
    rcases ofBody_spec len (got ++ bs) hb with ⟨r', h1, h2⟩ | ⟨h1, h2, h3⟩
    · exact Or.inl ⟨r', h1, h2⟩
    · exact Or.inr ⟨got ++ bs, h1, h2, h3⟩

/-- What has been read of an incomplete frame is not a frame. -/
theorem split_got (r : FrameRead) : wire.split r.got = none := by
  cases r with
  | length got h => exact wire_split_short got h
  | body len got h =>
    show wire.split (UInt8.ofNat (len.toNat / 256) :: UInt8.ofNat len.toNat :: got) = none
    rw [wire_split_cons, fromBeBytes_toBeBytes, if_pos h]

end FrameRead

end RickyNet
