import RickyNet.Lib.Runs
import RickyNet.Wire.Decoder

/-!
# The memory of `FrameDecoder`

`buf` holds the unconsumed bytes and, in front of them, the consumed ones.  `next_frame` compacts only
on its way to `None`; with a frame it resets the buffer if nothing is behind the frame, and otherwise
leaves the consumed bytes where they are.

* Between two `None`s the buffer grows by what is pushed (`memory_between_drains`).
* A caller that does not drain to `None` has to be lucky: `memory_bounded` says how far the cursor may
  go, and `grows` is a stream on which it goes on for ever.
-/

namespace RickyNet

/-- A decoder and what has been measured of its run. -/
structure DecoderMeter where
  dec : FrameDecoder
  /-- the largest value of `buffered()` so far -/
  peak : Nat
  /-- the bytes pushed since the last `None` -/
  fresh : Nat
deriving DecidableEq

namespace DecoderMeter

def init : DecoderMeter := ⟨.new, 0, 0⟩

/-- `buffered()` is read after every call. -/
def measure (s : DecoderMeter) (dec : FrameDecoder) (fresh : Nat) : Except Fault DecoderMeter := do
  let n ← dec.buffered
  return ⟨dec, max s.peak n, fresh⟩

def call (s : DecoderMeter) : DecoderCall → Except Fault DecoderMeter
  | .push chunk => s.measure (s.dec.push chunk) (s.fresh + chunk.length)
  | .nextFrame => do
    let (r, dec) ← s.dec.nextFrame
    s.measure dec (if r = none then 0 else s.fresh)

/-- A call that does not panic. -/
def step (s : DecoderMeter) (c : DecoderCall) : Option DecoderMeter := (s.call c).toOption

/-- What a call does. -/
inductive Moves (s : DecoderMeter) : DecoderCall → DecoderMeter → Prop
  | push (chunk : Bytes) :
      Moves s (.push chunk) ⟨s.dec.push chunk, max s.peak (s.dec.remainder.length + chunk.length),
        s.fresh + chunk.length⟩
  | none (dec : FrameDecoder) (hsplit : wire.split s.dec.remainder = none)
      (hc : s.dec.compact = .ok dec) :
      Moves s .nextFrame ⟨dec, max s.peak s.dec.remainder.length, 0⟩
  | drained (f : Bytes) (hsplit : wire.split s.dec.remainder = some (f, [])) :
      Moves s .nextFrame ⟨⟨[], 0⟩, s.peak, s.fresh⟩
  | frame (f r : Bytes) (hsplit : wire.split s.dec.remainder = some (f, r)) (hr : r ≠ []) :
      Moves s .nextFrame ⟨{ s.dec with start := s.dec.start + LEN_PREFIX + f.length },
        max s.peak r.length, s.fresh⟩

theorem measure_eq (s : DecoderMeter) {dec : FrameDecoder} (fresh : Nat) (h : dec.Ok) :
    s.measure dec fresh = .ok ⟨dec, max s.peak dec.remainder.length, fresh⟩ := by
  unfold measure
  rw [dec.buffered_eq h]
  rfl

theorem step_push (s : DecoderMeter) (chunk : Bytes) (h : s.dec.Ok) :
    s.step (.push chunk) = some ⟨s.dec.push chunk,
      max s.peak (s.dec.remainder.length + chunk.length), s.fresh + chunk.length⟩ := by
  show (s.measure (s.dec.push chunk) (s.fresh + chunk.length)).toOption = _
  rw [measure_eq s _ (s.dec.push_ok chunk h), s.dec.push_remainder chunk h, List.length_append]
  rfl

theorem step_nextFrame (s : DecoderMeter) {r : Option Bytes} {dec : FrameDecoder}
    (h : s.dec.nextFrame = .ok (r, dec)) (hok : dec.Ok) :
    s.step .nextFrame =
      some ⟨dec, max s.peak dec.remainder.length, if r = none then 0 else s.fresh⟩ := by
  have hcall : s.call .nextFrame = s.measure dec (if r = none then 0 else s.fresh) := by
    simp only [call, h]
    rfl
  unfold step
  rw [hcall, measure_eq s _ hok]
  rfl

/-- No call panics. -/
theorem step_moves {s : DecoderMeter} (h : s.dec.Ok) (c : DecoderCall) :
    ∃ s', s.step c = some s' ∧ s'.dec.Ok ∧ s.Moves c s' := by
  cases c with
  | push chunk => exact ⟨_, s.step_push chunk h, s.dec.push_ok chunk h, .push chunk⟩
  | nextFrame =>
    have heq := s.dec.nextFrame_eq h
    obtain ⟨dec, hnext, hok, hrem⟩ := s.dec.nextFrame_spec h
    have hstep := s.step_nextFrame hnext hok
    refine ⟨_, hstep, hok, ?_⟩
    rw [hnext] at heq
    unfold FrameDecoder.plainNext at heq hrem ⊢
    rw [hrem]
    cases hs : wire.split s.dec.remainder with
    | none =>
      obtain ⟨dc, hc, -, -⟩ := s.dec.compact_spec h
      rw [hs, hc] at heq
      cases heq
      exact .none dec hs hc
    | some fr =>
      obtain ⟨f, r⟩ := fr
      rw [hs] at heq
      simp only [Except.ok.injEq, Prod.mk.injEq, true_and] at heq
      by_cases hnil : r = []
      · subst hnil
        rw [if_pos rfl] at heq
        rw [heq]
        simpa using Moves.drained f hs
      · rw [if_neg hnil] at heq
        rw [heq]
        exact .frame f r hs hnil

theorem moves_of_step {s s' : DecoderMeter} {c : DecoderCall} (h : s.dec.Ok)
    (hstep : s.step c = some s') : s'.dec.Ok ∧ s.Moves c s' := by
  obtain ⟨t, ht, hok, hm⟩ := step_moves h c
  rw [hstep] at ht
  cases ht
  exact ⟨hok, hm⟩

/-- The whole buffer: the consumed bytes and the others. -/
theorem buf_length {d : FrameDecoder} (h : d.Ok) : d.buf.length = d.start + d.remainder.length := by
  rw [d.remainder_length]
  exact (Nat.add_sub_cancel' h).symm

/-! ## Between two `None`s -/

/-- `compact` leaves fewer than 4096 consumed bytes. -/
theorem compact_start {d d' : FrameDecoder} (h : d.compact = .ok d') : d'.start ≤ 4095 := by
  unfold FrameDecoder.compact at h
  split at h
  · next h0 =>
    cases h
    omega
  split at h
  · cases h
    exact Nat.zero_le _
  split at h
  · unfold checkedDrain at h
    split at h
    · cases h
      exact Nat.zero_le _
    · cases h
  · next hlt =>
    cases h
    omega

/-- What `None` leaves behind. -/
theorem compact_bound {d d' : FrameDecoder} (h : d.Ok) (hs : wire.split d.remainder = none)
    (hc : d.compact = .ok d') : d'.start ≤ 4095 ∧ d'.buf.length ≤ 4095 + 65536 := by
  obtain ⟨dc, hdc, hok, hrem⟩ := d.compact_spec h
  rw [hc] at hdc
  cases hdc
  have hstart := compact_start hc
  have hlen := length_of_split_none hs
  rw [← hrem] at hlen
  have hbuf := buf_length hok
  exact ⟨hstart, by omega⟩

/-- What holds between two calls. -/
structure Inv (s : DecoderMeter) : Prop where
  ok : s.dec.Ok
  peak : s.dec.remainder.length ≤ s.peak
  buf : s.dec.buf.length ≤ 4095 + 65536 + s.fresh

theorem init_inv : init.Inv := ⟨Nat.le_refl _, Nat.le_refl _, Nat.zero_le _⟩

theorem step_inv (s : DecoderMeter) (c : DecoderCall) (s' : DecoderMeter) (hs : s.Inv)
    (h : s.step c = some s') : s'.Inv := by
  obtain ⟨hok, hm⟩ := moves_of_step hs.ok h
  cases hm with
  | push chunk =>
    have hbuf := hs.buf
    refine ⟨hok, ?_, ?_⟩
    · show (s.dec.push chunk).remainder.length ≤ _
      rw [s.dec.push_remainder chunk hs.ok, List.length_append]
      exact Nat.le_max_right _ _
    · show (s.dec.buf ++ chunk).length ≤ 4095 + 65536 + (s.fresh + chunk.length)
      rw [List.length_append]
      omega
  | none dec hsplit hc =>
    obtain ⟨dc, hdc, -, hrem⟩ := s.dec.compact_spec hs.ok
    rw [hc] at hdc
    cases hdc
    refine ⟨hok, ?_, ?_⟩
    · show dec.remainder.length ≤ _
      rw [hrem]
      exact Nat.le_max_right _ _
    · show dec.buf.length ≤ 4095 + 65536 + 0
      rw [Nat.add_zero]
      exact (compact_bound hs.ok hsplit hc).2
  | drained f hsplit => exact ⟨hok, Nat.zero_le _, Nat.zero_le _⟩
  | frame f r hsplit hr =>
    refine ⟨hok, ?_, hs.buf⟩
    have hlen := buf_length hok
    obtain ⟨hrem, -⟩ := Framing.LengthHeader.split_some _ f r hsplit
    have hbuf := buf_length hs.ok
    rw [hrem, List.length_append, wire_frame_length] at hbuf
    simp only at hlen ⊢
    omega

/-- Every sequence of calls goes through. -/
theorem exec_total (cs : List DecoderCall) {s : DecoderMeter} (h : s.Inv) :
    ∃ s', Runs.exec step s cs = some s' := by
  induction cs generalizing s with
  | nil => exact ⟨s, rfl⟩
  | cons c cs ih =>
    obtain ⟨s1, h1, -, -⟩ := step_moves h.ok c
    obtain ⟨s2, h2⟩ := ih (step_inv s c s1 h h1)
    exact ⟨s2, (Runs.exec_cons_iff step s s2 c cs).2 ⟨s1, h1, h2⟩⟩

/-- The caller drains to `None` before each push, of at most `max` bytes. -/
def Drains (max : Nat) (s : DecoderMeter) (c : DecoderCall) : Prop :=
  ∀ chunk, c = .push chunk → s.fresh = 0 ∧ chunk.length ≤ max

/-- A caller that drains never has more than one push behind it. -/
theorem fresh_le {max : Nat} {cs : List DecoderCall}
    (h : Runs.Along step (Drains max) init cs) :
    Runs.Throughout step (fun s => s.Inv ∧ s.fresh ≤ max) init cs := by
  refine Runs.throughout_of_along _ ?_ ⟨init_inv, Nat.zero_le _⟩ h
  intro s c s' hs hd hstep
  refine ⟨step_inv s c s' hs.1 hstep, ?_⟩
  obtain ⟨-, hm⟩ := moves_of_step hs.1.ok hstep
  cases hm with
  | push chunk =>
    obtain ⟨h0, hlen⟩ := hd chunk rfl
    show s.fresh + chunk.length ≤ max
    omega
  | none dec hsplit hc => exact Nat.zero_le _
  | drained f hsplit => exact hs.2
  | frame f r hsplit hr => exact hs.2

/-! ## Without draining -/

/-- The buffer is no longer than the backlog accounts for. -/
def Bounded (s : DecoderMeter) : Prop := s.dec.buf.length ≤ s.peak + 4096 + 65537

/-- A frame that has more bytes behind it does not bring the consumed bytes in front of them to more
than a compaction threshold and a longest frame. -/
def Sheds (s : DecoderMeter) (c : DecoderCall) : Prop :=
  c = .nextFrame → ∀ f r, wire.split s.dec.remainder = some (f, r) → r ≠ [] →
    s.dec.start + LEN_PREFIX + f.length ≤ 4096 + 65537

instance (s : DecoderMeter) (c : DecoderCall) : Decidable (s.Sheds c) :=
  match c with
  | .push _ => isTrue fun h => by cases h
  | .nextFrame =>
    decidable_of_iff (∀ fr ∈ wire.split s.dec.remainder, fr.2 ≠ [] →
        s.dec.start + LEN_PREFIX + fr.1.length ≤ 4096 + 65537)
      ⟨fun h _ f r hfr => h (f, r) hfr, fun h fr hfr => h rfl fr.1 fr.2 hfr⟩

theorem bounded_of_sheds {cs : List DecoderCall} (h : Runs.Along step Sheds init cs) :
    Runs.Throughout step Bounded init cs := by
  have hinv : Runs.Throughout step (fun s => s.Inv ∧ s.dec.start ≤ 4096 + 65537) init cs := by
    refine Runs.throughout_of_along _ ?_ ⟨init_inv, Nat.zero_le _⟩ h
    intro s c s' hs hc hstep
    refine ⟨step_inv s c s' hs.1 hstep, ?_⟩
    obtain ⟨-, hm⟩ := moves_of_step hs.1.ok hstep
    cases hm with
    | push chunk => exact hs.2
    | none dec hsplit hcompact => exact (compact_start hcompact).trans (by omega)
    | drained f hsplit => exact Nat.zero_le _
    | frame f r hsplit hr => exact hc rfl f r hsplit hr
  refine hinv.mono fun s hs => ?_
  have hlen := buf_length hs.1.ok
  have hpeak := hs.1.peak
  unfold Bounded
  omega

/-- Past that point, filling up to the backlog there has been is enough to leave the bound. -/
theorem unbounded_of_not_sheds {s s' : DecoderMeter} {c : DecoderCall} (hs : s.Inv)
    (hc : ¬ s.Sheds c) (h : s.step c = some s') :
    ∃ chunk s'', s'.step (.push chunk) = some s'' ∧ ¬ s''.Bounded := by
  have hinv := step_inv s c s' hs h
  have hstart : 4096 + 65537 < s'.dec.start := by
    unfold Sheds at hc
    push Not at hc
    obtain ⟨rfl, f, r, hsplit, hr, hlt⟩ := hc
    obtain ⟨-, hm⟩ := moves_of_step hs.ok h
    cases hm with
    | none dec hsplit' hcompact =>
      rw [hsplit] at hsplit'
      cases hsplit'
    | drained f' hsplit' =>
      rw [hsplit] at hsplit'
      cases hsplit'
      exact absurd rfl hr
    | frame f' r' hsplit' hr' =>
      rw [hsplit] at hsplit'
      cases hsplit'
      exact hlt
  have hlen := buf_length hinv.ok
  have hpeak := hinv.peak
  refine ⟨List.replicate (s'.peak - s'.dec.remainder.length) 0, _,
    s'.step_push _ hinv.ok, ?_⟩
  unfold Bounded FrameDecoder.push
  simp only [List.length_append, List.length_replicate]
  omega

/-- One frame of one byte, and the first byte of the next. -/
def oneFrame : Bytes := [1, 7, 0]

/-- A caller that takes one frame after each read.  A read completes a frame and ends one byte into
the next. -/
def oneFramePerPush (n : Nat) : List DecoderCall :=
  .push [0] :: (List.replicate n [.push oneFrame, .nextFrame]).flatten

theorem oneFrame_step {s : DecoderMeter} (hs : s.Inv) (hrem : s.dec.remainder = [0]) :
    ∃ s', Runs.exec step s [.push oneFrame, .nextFrame] = some s' ∧ s'.dec.remainder = [0] ∧
      s'.dec.buf.length = s.dec.buf.length + 3 ∧ s'.peak ≤ max s.peak 4 := by
  have h1 := s.step_push oneFrame hs.ok
  obtain ⟨s2, h2, hok, hm⟩ := step_moves (step_inv s _ _ hs h1).ok .nextFrame
  have hrem1 : (s.dec.push oneFrame).remainder = [0, 1, 7, 0] := by
    rw [s.dec.push_remainder _ hs.ok, hrem]
    rfl
  have hsplit : wire.split (s.dec.push oneFrame).remainder = some ([7], [0]) := by
    rw [hrem1]
    decide
  have hlen : (s.dec.push oneFrame).buf.length = s.dec.buf.length + 3 := List.length_append
  refine ⟨s2, (Runs.exec_cons_iff step _ _ _ _).2 ⟨_, h1, (Runs.exec_cons_iff step _ _ _ _).2
    ⟨s2, h2, rfl⟩⟩, ?_⟩
  cases hm with
  | none dec hsplit' hc =>
    rw [hsplit] at hsplit'
    cases hsplit'
  | drained f hsplit' =>
    rw [hsplit] at hsplit'
    cases hsplit'
  | frame f r hsplit' hr =>
    rw [hsplit] at hsplit'
    cases hsplit'
    refine ⟨?_, hlen, ?_⟩
    · show ((s.dec.push oneFrame).buf.drop ((s.dec.push oneFrame).start + LEN_PREFIX + 1)) = [0]
      rw [Nat.add_assoc, ← List.drop_drop]
      show (s.dec.push oneFrame).remainder.drop 3 = [0]
      rw [hrem1]
      rfl
    · rw [hrem]
      show max (max s.peak 4) 1 ≤ max s.peak 4
      omega

/-- **The buffer grows with the number of frames**, with never more than four unconsumed bytes. -/
theorem grows (n : Nat) : ∃ s, Runs.exec step init (oneFramePerPush n) = some s ∧
    s.dec.buf.length = 3 * n + 1 ∧ s.peak ≤ 4 := by
  have key : ∀ (n : Nat) (s : DecoderMeter), s.Inv → s.dec.remainder = [0] → s.peak ≤ 4 →
      ∃ s', Runs.exec step s (List.replicate n [.push oneFrame, .nextFrame]).flatten = some s' ∧
        s'.dec.buf.length = s.dec.buf.length + 3 * n ∧ s'.peak ≤ 4 := by
    intro n
    induction n with
    | zero => exact fun s _ _ hpeak => ⟨s, rfl, rfl, hpeak⟩
    | succ n ih =>
      intro s hs hrem hpeak
      obtain ⟨s1, h1, hrem1, hlen1, hpeak1⟩ := oneFrame_step hs hrem
      have hs1 := Runs.exec_inv step Inv step_inv hs h1
      obtain ⟨s2, h2, hlen2, hpeak2⟩ := ih s1 hs1 hrem1 (by omega)
      refine ⟨s2, ?_, by omega, hpeak2⟩
      rw [List.replicate_succ, List.flatten_cons]
      exact Runs.exec_trans step h1 h2
  have h0 := init.step_push [0] init_inv.ok
  obtain ⟨s, hs, hlen, hpeak⟩ := key n _ (step_inv _ _ _ init_inv h0) rfl (by decide)
  refine ⟨s, (Runs.exec_cons_iff step _ _ _ _).2 ⟨_, h0, hs⟩, ?_, hpeak⟩
  rw [hlen]
  exact Nat.add_comm _ _

end DecoderMeter

/-- **Memory between drains.**  After any sequence of calls: a `next_frame` that returns `None` leaves
`start ≤ 4095` and at most 4095 + 65536 bytes, until the next one the buffer grows by what is pushed,
and a caller that drains to `None` after each read of at most `max` bytes never holds more than
69631 + `max`. -/
theorem memory_between_drains (cs : List DecoderCall) :
    ∃ s, Runs.exec DecoderMeter.step .init cs = some s ∧
      (∀ d, s.dec.nextFrame = .ok (none, d) → d.start ≤ 4095 ∧ d.buf.length ≤ 4095 + 65536) ∧
      s.dec.buf.length ≤ 4095 + 65536 + s.fresh ∧
      ∀ max, Runs.Along DecoderMeter.step (DecoderMeter.Drains max) .init cs →
        Runs.Throughout DecoderMeter.step (fun t => t.dec.buf.length ≤ 69631 + max) .init cs := by
  obtain ⟨s, hs⟩ := DecoderMeter.exec_total cs DecoderMeter.init_inv
  have hinv := Runs.exec_inv DecoderMeter.step DecoderMeter.Inv DecoderMeter.step_inv
    DecoderMeter.init_inv hs
  refine ⟨s, hs, fun d hd => ?_, hinv.buf, fun max hmax => ?_⟩
  · have heq := s.dec.nextFrame_eq hinv.ok
    rw [hd] at heq
    cases hsplit : wire.split s.dec.remainder with
    | none =>
      obtain ⟨dc, hc, -, -⟩ := s.dec.compact_spec hinv.ok
      rw [hsplit, hc] at heq
      cases heq
      exact DecoderMeter.compact_bound hinv.ok hsplit hc
    | some fr =>
      rw [hsplit] at heq
      cases heq
  · refine (DecoderMeter.fresh_le hmax).mono fun t ht => ?_
    have hbuf := ht.1.buf
    omega

/-- **Memory and backlog.**  In a run in which no frame with bytes behind it brings the consumed bytes
to more than 4096 + 65537, the buffer is never longer than that plus the largest backlog there has
been.  After a call that does, one more push makes it longer. -/
theorem memory_bounded (cs : List DecoderCall) :
    (Runs.Along DecoderMeter.step DecoderMeter.Sheds .init cs →
      Runs.Throughout DecoderMeter.step DecoderMeter.Bounded .init cs) ∧
    ∀ s c s', Runs.exec DecoderMeter.step .init cs = some s → ¬ s.Sheds c → s.step c = some s' →
      ∃ chunk s'', s'.step (.push chunk) = some s'' ∧ ¬ s''.Bounded := by
  refine ⟨DecoderMeter.bounded_of_sheds, fun s c s' hs hc h => ?_⟩
  have hinv := Runs.exec_inv DecoderMeter.step DecoderMeter.Inv DecoderMeter.step_inv
    DecoderMeter.init_inv hs
  exact DecoderMeter.unbounded_of_not_sheds hinv hc h

/-- Two frames in one push, taken one by one. -/
theorem memory_bounded_run : ∃ s, Runs.exec DecoderMeter.step .init
      [.push [0, 1, 7, 0, 0], .nextFrame, .nextFrame, .nextFrame] = some s ∧ s.peak = 5 ∧
    Runs.Throughout DecoderMeter.step DecoderMeter.Bounded .init
      [.push [0, 1, 7, 0, 0], .nextFrame, .nextFrame, .nextFrame] :=
  ⟨_, rfl, rfl, (memory_bounded _).1 (by decide)⟩

/-- 30000 frames of one byte, each taken as soon as it is complete: 90001 bytes in the buffer, never
more than four of them unconsumed. -/
theorem outgrows_backlog : ∃ s, Runs.exec DecoderMeter.step .init
    (DecoderMeter.oneFramePerPush 30000) = some s ∧ s.peak ≤ 4 ∧ ¬ s.Bounded := by
  obtain ⟨s, hs, hlen, hpeak⟩ := DecoderMeter.grows 30000
  refine ⟨s, hs, hpeak, ?_⟩
  unfold DecoderMeter.Bounded
  omega

end RickyNet
