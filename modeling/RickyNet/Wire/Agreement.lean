import RickyNet.Core.Device
import RickyNet.Wire.Decoder

/-!
# One codec

The wire format has three writers (`encode_frame`, `write_frame`, `writer_task`) and three readers
(`read_frame`, `reader_task`, `FrameDecoder`).  Every writer puts `wire.frames` of the packets it
lets through on the stream (`encodeMix_eq`), every reader computes `wire.parse`
(`readFrames_eq_parse`, `readerTask_eq_parse`, `drainDecoder_spec`); `one_codec` is what follows.
-/

namespace RickyNet

/-! ## Writers on lists of packets -/

/-- `encode_frame` for each packet in turn: the buffer, and the numbers returned. -/
def encodeFrames : List Bytes → Bytes → Bytes × List Nat
  | [], out => (out, [])
  | p :: ps, out =>
    let (out, n) := encodeFrame p out
    let (out, ns) := encodeFrames ps out
    (out, n :: ns)

/-- `write_frame` for each packet in turn, going on after an error. -/
def writeFrames (w : Sink) (ps : List Bytes) : Sink := ps.foldl (fun w p => (writeFrame w p).1) w

/-- The three writers. -/
inductive Encoder
  | encodeFrame
  | writeFrame
  | writerTask

/-- One packet through one of the writers. -/
def Encoder.write (w : Sink) : Encoder → Bytes → Sink
  | .encodeFrame, p => { w with bytes := (RickyNet.encodeFrame p w.bytes).1 }
  | .writeFrame, p => (RickyNet.writeFrame w p).1
  | .writerTask, p => RickyNet.writerTask w [p]

/-- What the writer puts on the stream for `p`: an oversize packet is cut by `encode_frame`, and
refused or dropped by the others. -/
def Encoder.passes : Encoder → Bytes → Option Bytes
  | .encodeFrame, p => some (p.take MAX_FRAME)
  | .writeFrame, p => if framable p then some p else none
  | .writerTask, p => if framable p then some p else none

/-- Packets through any mix of the writers, onto one sink. -/
def encodeMix (w : Sink) (l : List (Encoder × Bytes)) : Sink :=
  l.foldl (fun w x => x.1.write w x.2) w

/-- What the mix puts on the stream. -/
def passed (l : List (Encoder × Bytes)) : List Bytes := l.filterMap fun x => x.1.passes x.2

theorem encodeFrames_eq (ps : List Bytes) (out : Bytes) (hp : wire.Fits ps) :
    encodeFrames ps out = (out ++ wire.frames ps, ps.map fun p => (wire.frame p).length) := by
  induction ps generalizing out with
  | nil => simp [encodeFrames]
  | cons p ps ih =>
    rw [Framing.LengthHeader.fits_cons] at hp
    have hcut : p.take MAX_FRAME = p := List.take_of_length_le hp.1
    simp only [encodeFrames, encodeFrame_eq, hcut, ih _ hp.2, Framing.LengthHeader.frames_cons,
      List.append_assoc, List.map_cons]

theorem writeFrames_eq (ps : List Bytes) (w : Sink) (hw : w.room = none) :
    writeFrames w ps = { w with bytes := w.bytes ++ wire.frames (ps.filter framable) } := by
  induction ps generalizing w with
  | nil => simp [writeFrames]
  | cons p ps ih =>
    show writeFrames (writeFrame w p).1 ps = _
    have hf := framable_iff p
    by_cases hp : p.length ≤ 65535
    · rw [writeFrame_fits w p hw hp, ih _ (by exact hw), List.filter_cons_of_pos (by rw [hf]; exact hp),
        Framing.LengthHeader.frames_cons]
      simp only [List.append_assoc]
    · rw [writeFrame_oversize w p (by unfold MAX_FRAME; omega), ih w hw,
        List.filter_cons_of_neg (by rw [hf]; exact hp)]

theorem Encoder.write_eq (w : Sink) (e : Encoder) (p : Bytes) (hw : w.room = none) :
    e.write w p = { w with bytes := w.bytes ++ wire.frames (e.passes p).toList } := by
  have hf := framable_iff p
  cases e with
  | encodeFrame =>
    show ({ w with bytes := (RickyNet.encodeFrame p w.bytes).1 } : Sink) = _
    rw [encodeFrame_eq]
    simp [Encoder.passes]
  | writeFrame =>
    show writeFrames w [p] = _
    rw [writeFrames_eq [p] w hw]
    by_cases hp : framable p <;> simp [Encoder.passes, hp]
  | writerTask =>
    show RickyNet.writerTask w [p] = _
    rw [writerTask_eq [p] w hw]
    by_cases hp : framable p <;> simp [Encoder.passes, hp]

theorem encodeMix_eq (l : List (Encoder × Bytes)) (w : Sink) (hw : w.room = none) :
    encodeMix w l = { w with bytes := w.bytes ++ wire.frames (passed l) } := by
  induction l generalizing w with
  | nil => simp [encodeMix, passed]
  | cons x l ih =>
    show encodeMix (x.1.write w x.2) l = _
    rw [x.1.write_eq w x.2 hw, ih _ (by exact hw)]
    unfold passed
    cases hx : x.1.passes x.2 <;> simp [hx]

theorem passed_fits (l : List (Encoder × Bytes)) : wire.Fits (passed l) := by
  intro p hp
  obtain ⟨⟨e, q⟩, -, hq⟩ := List.mem_filterMap.1 hp
  have hf := framable_iff q
  cases e with
  | encodeFrame =>
    cases hq
    simp only [wire_max, List.length_take, MAX_FRAME]
    omega
  | writeFrame =>
    simp only [Encoder.passes] at hq
    split at hq
    · next h => cases hq; exact hf.1 h
    · cases hq
  | writerTask =>
    simp only [Encoder.passes] at hq
    split at hq
    · next h => cases hq; exact hf.1 h
    · cases hq

/-- A packet that fits passes every writer unchanged. -/
theorem passed_of_fits (l : List (Encoder × Bytes)) (h : ∀ x ∈ l, x.2.length ≤ MAX_FRAME) :
    passed l = l.map Prod.snd := by
  induction l with
  | nil => rfl
  | cons x l ih =>
    have hx := h x List.mem_cons_self
    have hpass : x.1.passes x.2 = some x.2 := by
      obtain ⟨e, p⟩ := x
      have hf : framable p = true := (framable_iff p).2 hx
      cases e with
      | encodeFrame => simp only [Encoder.passes, List.take_of_length_le hx]
      | writeFrame => simp only [Encoder.passes, hf, if_true]
      | writerTask => simp only [Encoder.passes, hf, if_true]
    have ih' := ih fun y hy => h y (List.mem_cons_of_mem _ hy)
    unfold passed at ih' ⊢
    simp only [List.filterMap_cons, hpass, ih', List.map_cons]

/-! ## Readers on whole streams -/

/-- `read_frame` until its first error: the packets, and the stream where that call began. -/
def readFramesLoop : Nat → Bytes → List Bytes × Bytes
  | 0, r => ([], r)
  | fuel + 1, r =>
    match readFrame r with
    | .error _ => ([], r)
    | .ok (p, r) => (p :: (readFramesLoop fuel r).1, (readFramesLoop fuel r).2)

/-- Every `read_frame` that succeeds reads at least two bytes. -/
def readFrames (r : Bytes) : List Bytes × Bytes := readFramesLoop r.length r

/-- `next_frame` until it returns `None`: the frames, and the decoder afterwards. -/
def drainLoop : Nat → FrameDecoder → Except Fault (List Bytes × FrameDecoder)
  | 0, d => .ok ([], d)
  | fuel + 1, d => do
    match ← d.nextFrame with
    | (none, d) => return ([], d)
    | (some p, d) =>
      let (ps, d) ← drainLoop fuel d
      return (p :: ps, d)

/-- Push the stream into a new decoder and drain it. -/
def drainDecoder (s : Bytes) : Except Fault (List Bytes × FrameDecoder) :=
  drainLoop (s.length + 1) (FrameDecoder.new.push s)

theorem readFramesLoop_eq_parse (fuel : Nat) (r : Bytes) :
    readFramesLoop fuel r = wire.parseFuel fuel r := by
  induction fuel generalizing r with
  | zero => rfl
  | succ fuel ih =>
    unfold readFramesLoop Framing.LengthHeader.parseFuel
    rw [readFrame_eq_split]
    cases wire.split r with
    | none => rfl
    | some pr => simp only [ih]

theorem readFrames_eq_parse (r : Bytes) : readFrames r = wire.parse r :=
  readFramesLoop_eq_parse r.length r

theorem drainLoop_spec (fuel : Nat) (d : FrameDecoder) (hd : d.Ok) :
    ∃ d', drainLoop fuel d = .ok ((wire.parseFuel fuel d.remainder).1, d') ∧ d'.Ok ∧
      d'.remainder = (wire.parseFuel fuel d.remainder).2 := by
  induction fuel generalizing d with
  | zero => exact ⟨d, rfl, hd, rfl⟩
  | succ fuel ih =>
    obtain ⟨d1, h1, h2, h3⟩ := d.nextFrame_spec hd
    unfold FrameDecoder.plainNext at h1 h3
    unfold drainLoop Framing.LengthHeader.parseFuel
    cases hs : wire.split d.remainder with
    | none =>
      rw [hs] at h1 h3
      exact ⟨d1, by rw [h1]; rfl, h2, h3⟩
    | some pr =>
      obtain ⟨p, r⟩ := pr
      rw [hs] at h1 h3
      obtain ⟨d2, h4, h5, h6⟩ := ih d1 h2
      rw [show d1.remainder = r from h3] at h4 h6
      refine ⟨d2, ?_, h5, h6⟩
      rw [h1]
      simp only [bind, Except.bind]
      rw [h4]
      rfl

theorem drainDecoder_spec (s : Bytes) :
    ∃ d, drainDecoder s = .ok ((wire.parse s).1, d) ∧ d.remainder = (wire.parse s).2 := by
  have hok : (FrameDecoder.new.push s).Ok := FrameDecoder.push_ok _ s (Nat.le_refl _)
  have hrem : (FrameDecoder.new.push s).remainder = s := FrameDecoder.push_remainder _ s (Nat.le_refl _)
  obtain ⟨d, h1, -, h3⟩ := drainLoop_spec (s.length + 1) _ hok
  rw [hrem, Framing.LengthHeader.parseFuel_eq (s.length + 1) s.length s (by omega) (Nat.le_refl _)]
    at h1 h3
  exact ⟨d, h1, h3⟩

/-! ## The codec -/

/-- **All writers and readers of the wire format are one codec.** -/
theorem one_codec :
    -- the writers write the same bytes for packets that fit; `encode_frame` keeps what was in its
    -- buffer and returns the number of bytes it appends
    (∀ ps : List Bytes, (∀ p ∈ ps, p.length ≤ MAX_FRAME) → ∀ out : Bytes,
      (encodeFrames ps out).1 = out ++ (writeFrames ⟨[], none⟩ ps).bytes ∧
      (writeFrames ⟨[], none⟩ ps).bytes = (writerTask ⟨[], none⟩ ps).bytes ∧
      ∀ p ∈ ps, encodeFrame p out = (out ++ frame p, (frame p).length) ∧
        encodeFrameDebug p out = some (encodeFrame p out) ∧
        (writeFrame ⟨[], none⟩ p).1.bytes = frame p ∧
        (writerTask ⟨[], none⟩ [p]).bytes = frame p) ∧
    -- the readers read the same packets off every stream; encoded again, with the tail they could
    -- not decode, these are the stream, and no complete frame begins the tail
    (∀ s : Bytes, ∃ ps tail d,
      readFrames s = (ps, tail) ∧ readerTask s = (ps, tail) ∧
      drainDecoder s = .ok (ps, d) ∧ d.remainder = tail ∧
      (encodeFrames ps []).1 ++ tail = s ∧
      ∀ f, f.length ≤ MAX_FRAME → ¬ (toBeBytes (asU16 f.length) ++ f <+: tail)) ∧
    -- what any mix of the writers writes is read back completely: the packets that fit, and of an
    -- oversize one what its writer passes
    (∀ l : List (Encoder × Bytes),
      readerTask (encodeMix ⟨[], none⟩ l).bytes = (passed l, []) ∧
      ((∀ x ∈ l, x.2.length ≤ MAX_FRAME) → passed l = l.map Prod.snd)) := by
  refine ⟨?_, ?_, ?_⟩
  · intro ps hp out
    have hall : ps.filter framable = ps :=
      List.filter_eq_self.2 fun p h => (framable_iff p).2 (hp p h)
    refine ⟨?_, ?_, ?_⟩
    · rw [encodeFrames_eq ps out hp, writeFrames_eq ps _ rfl, hall]
      rfl
    · rw [writeFrames_eq ps _ rfl, writerTask_eq ps _ rfl]
    · intro p h
      have hf : [p].filter framable = [p] :=
        List.filter_eq_self.2 fun q hq => by
          rw [List.mem_singleton.1 hq]
          exact (framable_iff p).2 (hp p h)
      have hframe : frame p = wire.frame p := by
        unfold frame
        rw [encodeFrame_eq, List.take_of_length_le (hp p h), List.nil_append]
      rw [hframe]
      refine ⟨?_, encodeFrameDebug_eq p out (hp p h), ?_, ?_⟩
      · rw [encodeFrame_eq, List.take_of_length_le (hp p h)]
      · rw [writeFrame_fits _ p rfl (hp p h)]
        rfl
      · rw [writerTask_eq [p] _ rfl, hf]
        simp
  · intro s
    obtain ⟨d, h1, h2⟩ := drainDecoder_spec s
    refine ⟨(wire.parse s).1, (wire.parse s).2, d, readFrames_eq_parse s, readerTask_eq_parse s, h1, h2,
      ?_, ?_⟩
    · rw [encodeFrames_eq _ [] (Framing.LengthHeader.parse_fits s)]
      exact Framing.LengthHeader.frames_parse s
    · rintro f hf ⟨t, ht⟩
      have h3 := Framing.LengthHeader.split_parse (H := wire) s
      rw [← ht] at h3
      have h4 := Framing.LengthHeader.split_frame_append (H := wire) f t hf
      rw [wire_frame, h3] at h4
      cases h4
  · intro l
    refine ⟨?_, passed_of_fits l⟩
    rw [encodeMix_eq l _ rfl, readerTask_eq_parse]
    exact Framing.LengthHeader.parse_frames _ (passed_fits l)

end RickyNet
