import RickyNet.Wire.Codec

/-!
# `FrameDecoder`

The incremental decoder: a buffer and a read cursor into it.  Every operation that panics in Rust
when it is out of range (a `usize` subtraction, an index, a slice, `drain`) is checked here and
yields a `Fault`, so that "no panic" is a theorem and not an assumption.

Against the plain stream parser, whose only state is the unconsumed bytes:

* `nextFrame_spec`: on a decoder with `start ≤ buf.len()`, `next_frame` does not panic, returns
  what `wire.split` finds at the front of the remainder, and keeps the rest as the remainder;
* `run_spec`: so for every sequence of calls.  `compact`, the 4096 threshold and the reset when
  the buffer is drained do not show.
-/

namespace RickyNet

/-- A panic. -/
inductive Fault
  | subtract
  | index
  | slice
deriving DecidableEq

/-- `a - b` on `usize`. -/
def checkedSub (a b : Nat) : Except Fault Nat := if b ≤ a then .ok (a - b) else .error .subtract

/-- `v[i]`. -/
def checkedIndex (v : Bytes) (i : Nat) : Except Fault UInt8 :=
  match v[i]? with
  | some x => .ok x
  | none => .error .index

/-- `v[a..b]`. -/
def checkedSlice (v : Bytes) (a b : Nat) : Except Fault Bytes :=
  if a ≤ b ∧ b ≤ v.length then .ok ((v.take b).drop a) else .error .slice

/-- `v.drain(..n)`: what is left of `v`. -/
def checkedDrain (v : Bytes) (n : Nat) : Except Fault Bytes :=
  if n ≤ v.length then .ok (v.drop n) else .error .slice

/-- The decoder.  The capacity of `buf` is not modelled. -/
structure FrameDecoder where
  buf : Bytes
  /-- read cursor into `buf`; bytes before it have been consumed -/
  start : Nat
deriving DecidableEq

namespace FrameDecoder

def new : FrameDecoder := ⟨[], 0⟩

/-- Append received bytes. -/
def push (d : FrameDecoder) (data : Bytes) : FrameDecoder := { d with buf := d.buf ++ data }

/-- Number of unconsumed bytes. -/
def buffered (d : FrameDecoder) : Except Fault Nat := checkedSub d.buf.length d.start

/-- Drop the consumed bytes once there are enough of them. -/
def compact (d : FrameDecoder) : Except Fault FrameDecoder :=
  if d.start = 0 then .ok d
  else if d.start = d.buf.length then .ok ⟨[], 0⟩
  else if d.start ≥ 4096 then do
    let buf ← checkedDrain d.buf d.start
    return ⟨buf, 0⟩
  else .ok d

/-- `next_frame`: the frame, if one is complete, and the decoder afterwards. -/
def nextFrame (d : FrameDecoder) : Except Fault (Option Bytes × FrameDecoder) := do
  let avail ← checkedSub d.buf.length d.start
  if avail < LEN_PREFIX then
    return (none, ← d.compact)
  let hi ← checkedIndex d.buf d.start
  let lo ← checkedIndex d.buf (d.start + 1)
  let len := (fromBeBytes hi lo).toNat
  if avail < LEN_PREFIX + len then
    return (none, ← d.compact)
  let bodyStart := d.start + LEN_PREFIX
  let frame ← checkedSlice d.buf bodyStart (bodyStart + len)
  let start := bodyStart + len
  -- everything drained: reset to reuse the allocation
  if start = d.buf.length then
    return (some frame, ⟨[], 0⟩)
  return (some frame, { d with start := start })

/-- The cursor is inside the buffer. -/
def Ok (d : FrameDecoder) : Prop := d.start ≤ d.buf.length

/-- The unconsumed bytes, `buf[start..]`. -/
def remainder (d : FrameDecoder) : Bytes := d.buf.drop d.start

theorem buffered_eq (d : FrameDecoder) (h : d.Ok) : d.buffered = .ok d.remainder.length := by
  unfold Ok at h
  unfold buffered checkedSub remainder
  rw [if_pos h, List.length_drop]

theorem push_ok (d : FrameDecoder) (data : Bytes) (h : d.Ok) : (d.push data).Ok := by
  unfold Ok push at *
  simp only [List.length_append]
  omega

theorem push_remainder (d : FrameDecoder) (data : Bytes) (h : d.Ok) :
    (d.push data).remainder = d.remainder ++ data := by
  unfold remainder push
  exact List.drop_append_of_le_length h

/-- `compact` does not panic and does not touch the remainder. -/
theorem compact_spec (d : FrameDecoder) (h : d.Ok) :
    ∃ d', d.compact = .ok d' ∧ d'.Ok ∧ d'.remainder = d.remainder := by
  unfold Ok at h
  unfold compact
  split
  · exact ⟨d, rfl, h, rfl⟩
  split
  · next _ he =>
    refine ⟨⟨[], 0⟩, rfl, Nat.le_refl _, ?_⟩
    unfold remainder
    rw [he, List.drop_length, List.drop_nil]
  split
  · refine ⟨⟨d.buf.drop d.start, 0⟩, ?_, Nat.zero_le _, rfl⟩
    unfold checkedDrain
    rw [if_pos h]
    rfl
  · exact ⟨d, rfl, h, rfl⟩

theorem remainder_length (d : FrameDecoder) : d.remainder.length = d.buf.length - d.start := by
  unfold remainder
  rw [List.length_drop]

/-- The plain stream parser: its state is the unconsumed bytes. -/
def plainNext (s : Bytes) : Option Bytes × Bytes :=
  match wire.split s with
  | none => (none, s)
  | some (p, r) => (some p, r)

/-- **What `next_frame` does**, in terms of the unconsumed bytes: without a complete frame it
compacts, with one it moves the cursor behind it, to the front if nothing is left. -/
theorem nextFrame_eq (d : FrameDecoder) (h : d.Ok) :
    d.nextFrame =
      match wire.split d.remainder with
      | none => d.compact.map fun d' => (none, d')
      | some (f, r) =>
        .ok (some f, if r = [] then ⟨[], 0⟩ else { d with start := d.start + LEN_PREFIX + f.length }) := by
  have hlen := remainder_length d
  have hsub : checkedSub d.buf.length d.start = .ok d.remainder.length := d.buffered_eq h
  unfold Ok at h
  have hget : ∀ i, d.buf[d.start + i]? = d.remainder[i]? := by
    intro i
    unfold remainder
    rw [List.getElem?_drop]
  have hcompact : (do return (none, ← d.compact) : Except Fault (Option Bytes × FrameDecoder)) =
      d.compact.map fun d' => (none, d') := by
    cases d.compact with
    | ok d' => rfl
    | error e => rfl
  unfold nextFrame
  simp only [hsub, bind, Except.bind] at hcompact ⊢
  have hL : LEN_PREFIX = 2 := rfl
  -- fewer bytes than a length prefix
  by_cases h2 : d.remainder.length < LEN_PREFIX
  · rw [wire_split_short _ h2, if_pos h2]
    exact hcompact
  rw [if_neg h2]
  obtain ⟨hi, lo, body, hr⟩ := exists_length_prefix _ h2
  have h0 : checkedIndex d.buf d.start = .ok hi := by
    have := hget 0
    rw [Nat.add_zero] at this
    unfold checkedIndex
    rw [this, hr]
    rfl
  have h1 : checkedIndex d.buf (d.start + 1) = .ok lo := by
    unfold checkedIndex
    rw [hget 1, hr]
    rfl
  have hbody : d.buf.drop (d.start + LEN_PREFIX) = body := by
    rw [← List.drop_drop]
    show d.remainder.drop 2 = body
    rw [hr]
    rfl
  rw [hr, List.length_cons, List.length_cons] at hlen
  simp only [h0, h1, hr, wire_split_cons, List.length_cons]
  -- the body is not complete
  by_cases h3 : body.length < (fromBeBytes hi lo).toNat
  · rw [if_pos h3, if_pos (by omega)]
    exact hcompact
  rw [if_neg h3, if_neg (by omega)]
  have hsl : checkedSlice d.buf (d.start + LEN_PREFIX) (d.start + LEN_PREFIX + (fromBeBytes hi lo).toNat) =
      .ok (body.take (fromBeBytes hi lo).toNat) := by
    unfold checkedSlice
    rw [if_pos (by omega), List.drop_take, hbody, Nat.add_sub_cancel_left]
  have htake : (body.take (fromBeBytes hi lo).toNat).length = (fromBeBytes hi lo).toNat := by
    rw [List.length_take]
    omega
  simp only [hsl, htake]
  -- a frame: everything is drained exactly if nothing is behind it
  by_cases h4 : d.start + LEN_PREFIX + (fromBeBytes hi lo).toNat = d.buf.length
  · rw [if_pos h4, if_pos (List.drop_eq_nil_of_le (by omega))]
    rfl
  · rw [if_neg h4, if_neg (fun hnil => ?_)]
    · rfl
    · have := List.drop_eq_nil_iff.1 hnil
      omega

/-- **`next_frame` is the plain parser on the remainder.** -/
theorem nextFrame_spec (d : FrameDecoder) (h : d.Ok) :
    ∃ d', d.nextFrame = .ok ((plainNext d.remainder).1, d') ∧ d'.Ok ∧
      d'.remainder = (plainNext d.remainder).2 := by
  have heq := d.nextFrame_eq h
  unfold plainNext
  cases hs : wire.split d.remainder with
  | none =>
    obtain ⟨dc, hc1, hc2, hc3⟩ := compact_spec d h
    rw [hs, hc1] at heq
    exact ⟨dc, heq, hc2, hc3⟩
  | some fr =>
    obtain ⟨f, r⟩ := fr
    rw [hs] at heq
    refine ⟨_, heq, ?_⟩
    have hr : d.remainder = wire.frame f ++ r := (Framing.LengthHeader.split_some _ f r hs).1
    have hlen := remainder_length d
    rw [hr, List.length_append, wire_frame_length] at hlen
    by_cases hnil : r = []
    · rw [if_pos hnil]
      exact ⟨Nat.le_refl _, hnil.symm⟩
    · rw [if_neg hnil]
      have hpos := List.length_pos_of_ne_nil hnil
      refine ⟨?_, ?_⟩
      · show d.start + LEN_PREFIX + f.length ≤ d.buf.length
        omega
      · show d.buf.drop (d.start + LEN_PREFIX + f.length) = r
        rw [Nat.add_assoc, ← List.drop_drop]
        show d.remainder.drop _ = r
        rw [hr]
        exact List.drop_left' (wire_frame_length f)

end FrameDecoder

/-! ## Sequences of calls -/

/-- One call on a decoder. -/
inductive DecoderCall
  | push (chunk : Bytes)
  | nextFrame

/-- A decoder with the history of its calls. -/
structure DecoderRun where
  dec : FrameDecoder
  /-- the chunks pushed so far, concatenated -/
  pushed : Bytes
  /-- what each `next_frame` returned -/
  results : List (Option Bytes)

namespace DecoderRun

def init : DecoderRun := ⟨FrameDecoder.new, [], []⟩

def call (s : DecoderRun) : DecoderCall → Except Fault DecoderRun
  | .push chunk => .ok { s with dec := s.dec.push chunk, pushed := s.pushed ++ chunk }
  | .nextFrame => do
    let (r, dec) ← s.dec.nextFrame
    return { s with dec := dec, results := s.results ++ [r] }

/-- Make the calls in order. -/
def run : DecoderRun → List DecoderCall → Except Fault DecoderRun
  | s, [] => .ok s
  | s, c :: cs => do
    let s ← s.call c
    run s cs

/-- The frames returned so far. -/
def frames (s : DecoderRun) : List Bytes := s.results.filterMap id

end DecoderRun

/-- What the plain parser returns for the same calls, from the unconsumed bytes `s`. -/
def plainResults : Bytes → List DecoderCall → List (Option Bytes)
  | _, [] => []
  | s, .push chunk :: cs => plainResults (s ++ chunk) cs
  | s, .nextFrame :: cs =>
    (FrameDecoder.plainNext s).1 :: plainResults (FrameDecoder.plainNext s).2 cs

/-- What holds of a decoder between two calls. -/
structure DecoderRun.Inv (s : DecoderRun) : Prop where
  ok : s.dec.Ok
  fits : wire.Fits s.frames
  stream : s.pushed = wire.frames s.frames ++ s.dec.remainder

theorem plainNext_inv (s : Bytes) :
    (∃ p r, FrameDecoder.plainNext s = (some p, r) ∧ s = wire.frame p ++ r ∧ p.length ≤ wire.max) ∨
      (FrameDecoder.plainNext s = (none, s) ∧ wire.split s = none) := by
  unfold FrameDecoder.plainNext
  cases hs : wire.split s with
  | none => exact Or.inr ⟨rfl, rfl⟩
  | some pr =>
    obtain ⟨h1, h2⟩ := Framing.LengthHeader.split_some s pr.1 pr.2 hs
    exact Or.inl ⟨pr.1, pr.2, rfl, h1, h2⟩

/-- One call keeps the invariant and answers like the plain parser. -/
theorem DecoderRun.call_spec (s : DecoderRun) (c : DecoderCall) (cs : List DecoderCall)
    (h : s.Inv) :
    ∃ s', s.call c = .ok s' ∧ s'.Inv ∧
      s.results ++ plainResults s.dec.remainder (c :: cs) =
        s'.results ++ plainResults s'.dec.remainder cs := by
  cases c with
  | push chunk =>
    refine ⟨{ s with dec := s.dec.push chunk, pushed := s.pushed ++ chunk }, rfl, ?_, ?_⟩
    · refine ⟨s.dec.push_ok chunk h.ok, h.fits, ?_⟩
      simp only [s.dec.push_remainder chunk h.ok, ← List.append_assoc]
      rw [h.stream]
      rfl
    · simp only [plainResults, s.dec.push_remainder chunk h.ok]
  | nextFrame =>
    obtain ⟨d', h1, h2, h3⟩ := s.dec.nextFrame_spec h.ok
    refine ⟨{ s with dec := d', results := s.results ++ [(FrameDecoder.plainNext s.dec.remainder).1] },
      by simp only [DecoderRun.call, h1]; rfl, ⟨h2, ?_, ?_⟩, ?_⟩
    · rcases plainNext_inv s.dec.remainder with ⟨p, r, hp, _, hfit⟩ | ⟨hp, _⟩
      · simp only [hp, DecoderRun.frames, List.filterMap_append]
        exact (Framing.LengthHeader.fits_append _ _).2 ⟨h.fits, by simpa using hfit⟩
      · have hf : (s.results ++ [none]).filterMap id = s.frames := by simp [DecoderRun.frames]
        simp only [hp, DecoderRun.frames, hf]
        exact h.fits
    · rcases plainNext_inv s.dec.remainder with ⟨p, r, hp, hsplit, _⟩ | ⟨hp, _⟩
      · have hst := h.stream
        rw [hsplit] at hst
        simp only [hp, DecoderRun.frames, List.filterMap_append] at h3 ⊢
        rw [hst, h3]
        simp [DecoderRun.frames]
      · have hst := h.stream
        simp only [hp, DecoderRun.frames, List.filterMap_append] at h3 ⊢
        rw [hst, h3]
        simp [DecoderRun.frames]
    · simp only [plainResults, h3, List.append_assoc]
      rfl

/-- **Runs.**  No sequence of calls panics, and every sequence is answered like the plain parser
answers it. -/
theorem DecoderRun.run_spec (cs : List DecoderCall) (s : DecoderRun) (h : s.Inv) :
    ∃ s', s.run cs = .ok s' ∧ s'.Inv ∧
      s'.results = s.results ++ plainResults s.dec.remainder cs := by
  induction cs generalizing s with
  | nil => exact ⟨s, rfl, h, by simp [plainResults]⟩
  | cons c cs ih =>
    obtain ⟨s1, h1, h2, h3⟩ := s.call_spec c cs h
    obtain ⟨s2, h4, h5, h6⟩ := ih s1 h2
    refine ⟨s2, ?_, h5, h6.trans h3.symm⟩
    simp only [DecoderRun.run, h1]
    exact h4

theorem DecoderRun.init_inv : DecoderRun.init.Inv :=
  ⟨Nat.le_refl _, by simp [DecoderRun.init, DecoderRun.frames], rfl⟩

/-- **`FrameDecoder` refines the plain stream parser**, for every sequence of calls on a new
decoder. -/
theorem decoder_refines_parse (cs : List DecoderCall) :
    ∃ s, DecoderRun.init.run cs = .ok s ∧
      -- the bytes pushed are the frames returned, encoded, and then the remainder
      s.pushed = s.frames.flatMap (fun f => toBeBytes (asU16 f.length) ++ f) ++ s.dec.remainder ∧
      (∀ f ∈ s.frames, f.length ≤ MAX_FRAME) ∧
      s.dec.buffered = .ok s.dec.remainder.length ∧
      s.dec.start ≤ s.dec.buf.length ∧
      -- the next answer is the frame at the front of the remainder, if it is complete
      (∃ r d, s.dec.nextFrame = .ok (r, d) ∧ ∀ f, r = some f ↔
        f.length ≤ MAX_FRAME ∧ toBeBytes (asU16 f.length) ++ f <+: s.dec.remainder) ∧
      -- and all answers are those of the plain parser
      s.results = plainResults [] cs := by
  obtain ⟨s, h1, h2, h3⟩ := DecoderRun.run_spec cs DecoderRun.init DecoderRun.init_inv
  obtain ⟨d, h4, -, -⟩ := s.dec.nextFrame_spec h2.ok
  refine ⟨s, h1, h2.stream, h2.fits, s.dec.buffered_eq h2.ok, h2.ok, ⟨_, d, h4, ?_⟩, h3⟩
  intro f
  rcases plainNext_inv s.dec.remainder with ⟨p, r, hp, hsplit, hfit⟩ | ⟨hp, hnone⟩
  · rw [hp]
    constructor
    · rintro h
      cases h
      exact ⟨hfit, by rw [hsplit, wire_frame]; exact List.prefix_append _ _⟩
    · rintro ⟨hf, t, ht⟩
      have := Framing.LengthHeader.split_frame_append (H := wire) f t hf
      rw [wire_frame, ht, hsplit, Framing.LengthHeader.split_frame_append p r hfit] at this
      simp only [Option.some.injEq, Prod.mk.injEq] at this
      rw [this.1]
  · rw [hp]
    constructor
    · intro h
      cases h
    · rintro ⟨hf, t, ht⟩
      have := Framing.LengthHeader.split_frame_append (H := wire) f t hf
      rw [wire_frame, ht, hnone] at this
      cases this

end RickyNet
