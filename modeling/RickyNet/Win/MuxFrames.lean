import RickyNet.Win.Handshake
import RickyNet.Wire.Decoder

/-!
# Frames of the usbmux client, both ways

What `send_plist` writes is what `recv_plist` reads, and how far `recv_plist` reads on any stream.
`recvPlistFrom` is `recv_plist` with what it leaves unread also where it fails, and with the
subtraction of the header checked; `recvPlistFrom_spec` lists its outcomes, `mux_framing` is the round
trip.
-/

namespace RickyNet

open Plist (Dictionary Value)

namespace Usbmux

variable (crate : PlistCrate)

/-- `a - b` on `u32`. -/
def checkedSub32 (a b : UInt32) : Except Fault UInt32 :=
  if b ≤ a then .ok (a - b) else .error .subtract

/-- The four fields of the header. -/
def readHeader (hdr : Bytes) : Except IoError (UInt32 × UInt32 × UInt32 × UInt32) := do
  let (length, c) ← readU32 hdr
  let (version, c) ← readU32 c
  let (message, c) ← readU32 c
  let (tag, _) ← readU32 c
  return (length, version, message, tag)

/-- `recv_plist`: its result, and what is left of the stream.  A `read_exact` that fails has come to
the end of the stream. -/
def recvPlistFrom (r : Bytes) : Except Fault (Except IoError Value × Bytes) :=
  match readExact 16 r with
  | .error e => .ok (.error e, [])
  | .ok (hdr, r) =>
    match readHeader hdr with
    | .error e => .ok (.error e, r)
    | .ok (length, _version, _message, _tag) =>
      if length < HEADER_LEN then
        .ok (.error ⟨.invalidData, "usbmux: short frame length"⟩, r)
      else do
        let bodyLen ← checkedSub32 length HEADER_LEN
        match readExact bodyLen.toNat r with
        | .error e => return (.error e, [])
        | .ok (body, r) => return ((crate.fromReader body).mapError plistErr, r)

/-- Send the messages, each with its tag, in order. -/
def sendAll (w : Socket) : List (UInt32 × Dictionary) → Except IoError Socket
  | [] => .ok w
  | (tag, dict) :: msgs => do
    let w ← sendPlist crate w tag dict
    sendAll w msgs

/-- Receive `n` messages. -/
def recvAll : Nat → Bytes → Except IoError (List Value × Bytes)
  | 0, r => .ok ([], r)
  | n + 1, r => do
    let (value, r) ← recvPlist crate r
    let (values, r) ← recvAll n r
    return (value :: values, r)

/-! ## How far `recv_plist` reads -/

/-- The outcomes of `recv_plist` on a stream. -/
inductive Outcome (r : Bytes) : Except IoError Value → Bytes → Prop
  /-- the stream ends in the header -/
  | noHeader (h : r.length < 16) : Outcome r (.error ⟨.unexpectedEof, "failed to fill whole buffer"⟩) []
  /-- 16 bytes are read -/
  | short (length v m t : UInt32) (s : Bytes) (hr : r = header length v m t ++ s)
      (h : length.toNat < 16) :
      Outcome r (.error ⟨.invalidData, "usbmux: short frame length"⟩) (r.drop 16)
  /-- the stream ends in the body -/
  | noBody (length v m t : UInt32) (s : Bytes) (hr : r = header length v m t ++ s)
      (h : 16 ≤ length.toNat) (hlen : r.length < length.toNat) :
      Outcome r (.error ⟨.unexpectedEof, "failed to fill whole buffer"⟩) []
  /-- `length` bytes are read -/
  | frame (length v m t : UInt32) (s : Bytes) (hr : r = header length v m t ++ s)
      (h : 16 ≤ length.toNat) (hlen : length.toNat ≤ r.length) :
      Outcome r ((crate.fromReader ((r.take length.toNat).drop 16)).mapError plistErr)
        (r.drop length.toNat)

section
variable {crate}

theorem readHeader_header (l v m t : UInt32) : readHeader (header l v m t) = .ok (l, v, m, t) := by
  have htag : readU32 (toLeBytes t) = .ok (t, []) := by
    simpa using readU32_toLeBytes t []
  unfold readHeader header
  rw [readU32_toLeBytes, ok_bind]
  simp only
  rw [readU32_toLeBytes, ok_bind]
  simp only
  rw [readU32_toLeBytes, ok_bind]
  simp only
  rw [htag]
  rfl

/-- `recv_plist` behind a complete header. -/
theorem recvPlistFrom_header (l v m t : UInt32) (s : Bytes) :
    recvPlistFrom crate (header l v m t ++ s) =
      if l.toNat < 16 then .ok (.error ⟨.invalidData, "usbmux: short frame length"⟩, s)
      else if l.toNat - 16 ≤ s.length then
        .ok ((crate.fromReader (s.take (l.toNat - 16))).mapError plistErr, s.drop (l.toNat - 16))
      else .ok (.error ⟨.unexpectedEof, "failed to fill whole buffer"⟩, []) := by
  unfold recvPlistFrom
  rw [readExact_header]
  simp only [readHeader_header]
  by_cases hl : l.toNat < 16
  · rw [if_pos (UInt32.lt_iff_toNat_lt.2 hl), if_pos hl]
  · have hle : HEADER_LEN ≤ l := UInt32.le_iff_toNat_le.2 (Nat.le_of_not_lt hl)
    have hsub : (l - HEADER_LEN).toNat = l.toNat - 16 := UInt32.toNat_sub_of_le l HEADER_LEN hle
    rw [if_neg (fun h => hl (UInt32.lt_iff_toNat_lt.1 h)), if_neg hl]
    unfold checkedSub32 readExact
    rw [if_pos hle]
    simp only [bind, Except.bind, hsub]
    by_cases hlen : l.toNat - 16 ≤ s.length
    · rw [if_pos hlen, if_pos hlen]
      rfl
    · rw [if_neg hlen, if_neg hlen]
      rfl

/-- Both readings of `recv_plist` agree; there is no other outcome, and no panic. -/
theorem recvPlistFrom_spec (r : Bytes) : ∃ result rest,
    recvPlistFrom crate r = .ok (result, rest) ∧ recvPlist crate r = result.map (·, rest) ∧
      Outcome crate r result rest := by
  by_cases h16 : r.length < 16
  · have hread : readExact 16 r = .error ⟨.unexpectedEof, "failed to fill whole buffer"⟩ := by
      unfold readExact
      rw [if_neg (by omega)]
    refine ⟨_, [], ?_, ?_, .noHeader h16⟩
    · unfold recvPlistFrom
      rw [hread]
    · unfold recvPlist
      rw [hread]
      rfl
  obtain ⟨l, v, m, t, s, hr⟩ := exists_header (Nat.le_of_not_lt h16)
  have hfrom : recvPlistFrom crate (header l v m t ++ s) = _ := recvPlistFrom_header l v m t s
  have hrecv : recvPlist crate (header l v m t ++ s) = _ := recvPlist_header l v m t s
  have hhead := header_length l v m t
  have hlength : r.length = 16 + s.length := by rw [hr, List.length_append, hhead]
  by_cases hl : l.toNat < 16
  · rw [if_pos hl] at hfrom
    rw [if_pos (UInt32.lt_iff_toNat_lt.2 hl)] at hrecv
    have hdrop : r.drop 16 = s := by rw [hr, List.drop_left' hhead]
    refine ⟨_, r.drop 16, ?_, ?_, .short l v m t s hr hl⟩
    · rw [hdrop, hr, hfrom]
    · rw [hr, hrecv]
      rfl
  · have hle : HEADER_LEN ≤ l := UInt32.le_iff_toNat_le.2 (Nat.le_of_not_lt hl)
    have hsub : (l - HEADER_LEN).toNat = l.toNat - 16 := UInt32.toNat_sub_of_le l HEADER_LEN hle
    rw [if_neg hl] at hfrom
    rw [if_neg (fun h => hl (UInt32.lt_iff_toNat_lt.1 h)), hsub] at hrecv
    unfold readExact at hrecv
    by_cases hlen : l.toNat - 16 ≤ s.length
    · rw [if_pos hlen] at hfrom hrecv
      have hbody : (r.take l.toNat).drop 16 = s.take (l.toNat - 16) := by
        rw [List.drop_take, hr, List.drop_left' hhead]
      have hdrop : r.drop l.toNat = s.drop (l.toNat - 16) := by
        rw [hr, List.drop_append, hhead, List.drop_eq_nil_of_le (by omega), List.nil_append]
      refine ⟨_, r.drop l.toNat, ?_, ?_, .frame l v m t s hr (by omega) (by omega)⟩
      · rw [hbody, hdrop, hr, hfrom]
      · simp only at hrecv
        rw [hbody, hdrop, hr, hrecv]
        cases crate.fromReader (s.take (l.toNat - 16)) with
        | error e => rfl
        | ok value => rfl
    · rw [if_neg hlen] at hfrom hrecv
      refine ⟨_, [], ?_, ?_, .noBody l v m t s hr (by omega) (by omega)⟩
      · rw [hr, hfrom]
      · rw [hr, hrecv]
        rfl

/-! ## What is sent is received -/

theorem recvPlistFrom_muxFrame (v m t : UInt32) {body : Bytes} {value : Value} (rest : Bytes)
    (hfit : 16 + body.length < 2 ^ 32) (hread : crate.fromReader body = .ok value) :
    recvPlistFrom crate (muxFrame v m t body ++ rest) = .ok (.ok value, rest) := by
  have hlen := length_field hfit
  unfold muxFrame
  rw [List.append_assoc, recvPlistFrom_header, if_neg (by omega), hlen, Nat.add_sub_cancel_left,
    if_pos (by rw [List.length_append]; omega), List.take_left' rfl, List.drop_left' rfl, hread]
  rfl

/-- A sequence of messages, received as it was sent. -/
theorem recvAll_sendAll {msgs : List (UInt32 × Dictionary)} (h : ∀ m ∈ msgs, Sends crate m.2) :
    ∃ bytes, (∀ s, sendAll crate s msgs = .ok { s with sent := s.sent ++ bytes }) ∧
      ∀ rest, recvAll crate msgs.length (bytes ++ rest) =
        .ok (msgs.map fun m => .dictionary m.2, rest) := by
  induction msgs with
  | nil => exact ⟨[], fun s => by simp [sendAll], fun rest => rfl⟩
  | cons msg msgs ih =>
    obtain ⟨tag, dict⟩ := msg
    obtain ⟨body, hwrite, hfit, hread⟩ := h (tag, dict) List.mem_cons_self
    obtain ⟨bytes, hsend, hrecv⟩ := ih fun m hm => h m (List.mem_cons_of_mem _ hm)
    refine ⟨muxFrame VERSION_PLIST MSG_PLIST tag body ++ bytes, fun s => ?_, fun rest => ?_⟩
    · unfold sendAll
      rw [sendPlist_muxFrame s tag hwrite, ok_bind, hsend]
      simp only [List.append_assoc]
    · have hfirst : recvPlist crate (muxFrame VERSION_PLIST MSG_PLIST tag body ++ (bytes ++ rest)) =
          .ok (.dictionary dict, bytes ++ rest) :=
        recvPlist_ok_iff.2 ⟨_, _, _, body, hfit, hread, rfl⟩
      show recvAll crate (msgs.length + 1) _ = _
      unfold recvAll
      rw [List.append_assoc, hfirst, ok_bind]
      simp only
      rw [hrecv, ok_bind]
      rfl

end

end Usbmux

open Usbmux

/-- **usbmux framing.**  A message that the crate writes in at most 2³² - 17 bytes and reads back: its
frame begins with its own length, and `recv_plist` takes it off the stream and nothing else; messages
sent in a row are received in a row.  On any stream `recv_plist` ends in one of its outcomes, with no
panic. -/
theorem mux_framing (crate : PlistCrate) :
    (∀ tag dict, Sends crate dict → ∃ frame,
      (∀ s, sendPlist crate s tag dict = .ok { s with sent := s.sent ++ frame }) ∧
      (∃ l more, frame = toLeBytes l ++ more ∧ l.toNat = frame.length) ∧
      ∀ rest, recvPlistFrom crate (frame ++ rest) = .ok (.ok (.dictionary dict), rest)) ∧
    (∀ msgs : List (UInt32 × Dictionary), (∀ m ∈ msgs, Sends crate m.2) → ∃ bytes,
      (∀ s, sendAll crate s msgs = .ok { s with sent := s.sent ++ bytes }) ∧
      ∀ rest, recvAll crate msgs.length (bytes ++ rest) =
        .ok (msgs.map fun m => .dictionary m.2, rest)) ∧
    ∀ r, ∃ result rest, recvPlistFrom crate r = .ok (result, rest) ∧
      recvPlist crate r = result.map (·, rest) ∧ Outcome crate r result rest := by
  refine ⟨?_, fun msgs h => recvAll_sendAll h, recvPlistFrom_spec⟩
  rintro tag dict ⟨body, hwrite, hfit, hread⟩
  refine ⟨muxFrame VERSION_PLIST MSG_PLIST tag body, fun s => sendPlist_muxFrame s tag hwrite, ?_,
    fun rest => recvPlistFrom_muxFrame _ _ _ rest hfit hread⟩
  refine ⟨_, _, List.append_assoc _ _ _, ?_⟩
  unfold muxFrame
  rw [length_field hfit, List.length_append, header_length]

/-- The first message of the client. -/
theorem mux_framing_run : ∃ frame, ∀ rest, recvPlistFrom sampleCrate (frame ++ rest) =
    .ok (.ok (.dictionary (baseMessage "ListDevices")), rest) := by
  obtain ⟨frame, -, -, h⟩ := (mux_framing sampleCrate).1 1 (baseMessage "ListDevices")
    ⟨listXml, rfl, by decide +kernel, sampleCrate_list⟩
  exact ⟨frame, h⟩

end RickyNet
