import RickyNet.Core.Inbound

/-!
# `poll_read` and EOF

ipstack takes a `poll_read` that is ready with 0 bytes for EOF, and spins on it.  The device does
not report the end of the stream, but it hands on every frame as a packet, one of length 0 too, and
that is the same answer.

* `reaches_delivery`: every complete frame on the stream can be delivered, so a zero-length one is.
* `Fed`: with no zero-length frame on the stream, no answer is empty.
* `never_eof_iff`: so the absence of zero-length frames is the exact condition.
-/

namespace RickyNet

namespace Inbound

/-- The peer is gone, and everything queued has been read by ipstack. -/
def Drained (i : Inbound) : Prop :=
  (∃ rest, i.reader = .ended rest) ∧
    ∀ d, i.device = some d → d.incoming = [] ∧ d.leftover = none

/-- Waiting for the next frame, with nothing queued. -/
def Idle (i : Inbound) : Prop :=
  i.reader = .start ∧ ∃ d, i.device = some d ∧ d.incoming = [] ∧ d.leftover = none

end Inbound

/-- The device never reports EOF for the stream `t`: no answer is ready with 0 bytes, and once the
peer is gone and the queue is drained every further answer is `Pending`. -/
def NeverEof (t : Bytes) : Prop :=
  ∀ acts i, Runs.exec Inbound.step (.start (.ofSent t)) acts = some i →
    PollRead.ready [] ∉ i.answers ∧
      (i.Drained → ∀ acts' i', Runs.exec Inbound.step i acts' = some i' →
        ∀ x ∈ i'.answers.drop i.answers.length, x = .pending)

namespace Inbound

/-! ## Every complete frame can be delivered -/

/-- A frame that begins the stream, part of it already read, can be read to its end. -/
theorem reaches_count (i : Inbound) (f : FrameRead) (p r : Bytes) (hr : i.reader = .reading f)
    (hp : p.length ≤ wire.max) (hg : f.got ++ i.stream.flight = wire.frame p ++ r) :
    ∃ acts i', Runs.exec step i acts = some i' ∧ i'.reader = .count p ∧ i'.stream.flight = r ∧
      i'.device = i.device ∧ i'.answers = i.answers := by
  induction hn : i.stream.flight.length generalizing i f with
  | zero =>
    -- then the frame would have been read already
    have hs := Framing.LengthHeader.split_frame_append p r hp
    rw [← hg, List.length_eq_zero_iff.1 hn, List.append_nil, f.split_got] at hs
    cases hs
  | succ n ih =>
    have hpos := f.need_pos
    have hstep : i.step (.read 1) = some (i.readPiece 1) := by
      simp only [step, hr]
      rw [if_pos ⟨by omega, by omega, by omega⟩]
    have hflight : (i.readPiece 1).stream.flight = i.stream.flight.drop 1 := rfl
    rcases i.readPiece_cases f 1 hr (by omega) with ⟨f', h1, h2, -⟩ | ⟨q, h1, h2, h3, -⟩
    · obtain ⟨acts, i', h4, h5, h6, h7, h8⟩ := ih (i.readPiece 1) f' h1
        (by rw [h2, hflight, List.append_assoc, List.take_append_drop, hg])
        (by rw [hflight, List.length_drop]; omega)
      exact ⟨.read 1 :: acts, i', (Runs.exec_cons_iff step _ _ _ _).2 ⟨_, hstep, h4⟩, h5, h6, h7, h8⟩
    · have hq : wire.split (wire.frame q ++ i.stream.flight.drop 1) =
          wire.split (wire.frame p ++ r) := by
        rw [h2, List.append_assoc, List.take_append_drop, hg]
      rw [Framing.LengthHeader.split_frame_append q _ h3,
        Framing.LengthHeader.split_frame_append p r hp] at hq
      simp only [Option.some.injEq, Prod.mk.injEq] at hq
      exact ⟨[.read 1], i.readPiece 1, (Runs.exec_cons_iff step _ _ _ _).2 ⟨_, hstep, rfl⟩,
        by rw [h1, hq.1], by rw [hflight, hq.2], rfl, rfl⟩

/-- **A complete frame is delivered.** -/
theorem reaches_delivery (i : Inbound) (p r : Bytes) (hi : i.Idle) (hp : p.length ≤ wire.max)
    (hf : i.stream.flight = wire.frame p ++ r) :
    ∃ acts i', Runs.exec step i acts = some i' ∧ i'.Idle ∧ i'.stream.flight = r ∧
      i'.answers = i.answers ++ [.ready p] := by
  obtain ⟨hr, d, hd, hq, hl⟩ := hi
  obtain ⟨acts, i1, h1, h2, h3, h4, h5⟩ := i.reaches_count .start p r hr hp hf
  rw [hd] at h4
  have hpoll := (d.enqueue p).pollRead_whole 65535 hl p []
    (by show d.incoming ++ [p] = [p]; rw [hq]; rfl) hp
  have hrest : Runs.exec step i1 [.count, .send, .poll 65535] = some { i1 with
      reader := .start
      txBytes := i1.txBytes + UInt64.ofNat p.length
      device := some { d.enqueue p with incoming := [] }
      answers := i1.answers ++ [.ready p] } := by
    have hroom : d.incoming.length < INCOMING_CAP := by rw [hq]; decide
    simp only [Runs.exec, step, h2, h4, Option.bind_some, if_pos hroom, polled, hpoll]
    rfl
  refine ⟨_, _, Runs.exec_trans step h1 hrest, ⟨rfl, _, rfl, rfl, hl⟩, h3, ?_⟩
  show i1.answers ++ [.ready p] = i.answers ++ [.ready p]
  rw [h5]

theorem reaches_deliveries (ps : List Bytes) (i : Inbound) (r : Bytes) (hi : i.Idle)
    (hps : wire.Fits ps) (hf : i.stream.flight = wire.frames ps ++ r) :
    ∃ acts i', Runs.exec step i acts = some i' ∧ i'.answers = i.answers ++ ps.map .ready := by
  induction ps generalizing i with
  | nil => exact ⟨[], i, rfl, (List.append_nil _).symm⟩
  | cons p ps ih =>
    rw [Framing.LengthHeader.fits_cons] at hps
    rw [Framing.LengthHeader.frames_cons, List.append_assoc] at hf
    obtain ⟨acts1, i1, h1, h2, h3, h4⟩ := i.reaches_delivery p _ hi hps.1 hf
    obtain ⟨acts2, i2, h5, h6⟩ := ih i1 h2 hps.2 h3
    refine ⟨acts1 ++ acts2, i2, Runs.exec_trans step h1 h5, ?_⟩
    rw [h6, h4, List.append_assoc, List.map_cons]
    rfl

/-! ## Without zero-length frames -/

/-- Nothing between the stream and ipstack is empty. -/
structure Fed (i : Inbound) : Prop where
  holding : [] ∉ i.reader.holding
  incoming : ∀ d, i.device = some d → [] ∉ d.incoming
  leftover : ∀ d pkt pos, i.device = some d → d.leftover = some (pkt, pos) → pos < pkt.length
  answers : PollRead.ready [] ∉ i.answers

/-- A device with no empty packet in it answers with at least one byte. -/
theorem fed_poll {i : Inbound} {d : FramedDevice} (hi : i.Fed) (hd : i.device = some d)
    {remaining : Nat} (hpos : 0 < remaining) : (i.polled d remaining).Fed := by
  obtain ⟨h1, h2, h3, h4⟩ := hi
  have hq := h2 d hd
  have key : (d.pollRead remaining).1 ≠ .ready [] ∧ [] ∉ (d.pollRead remaining).2.incoming ∧
      ∀ pkt pos, (d.pollRead remaining).2.leftover = some (pkt, pos) → pos < pkt.length := by
    unfold FramedDevice.pollRead
    split
    · next pkt pos hl =>
      have hlt := h3 d pkt pos hd hl
      refine ⟨fun h => ?_, hq, fun pkt' pos' h => ?_⟩
      · have hlen := congrArg List.length (PollRead.ready.inj h)
        simp only [List.length_take, List.length_drop, List.length_nil] at hlen
        omega
      · simp only at h
        split at h
        · next hn => cases h; exact hn
        · cases h
    · next hl =>
      split
      · next pkt rest hin =>
        rw [hin, List.mem_cons] at hq
        have hne : pkt.length ≠ 0 := fun h => hq (Or.inl (List.length_eq_zero_iff.1 h).symm)
        refine ⟨fun h => ?_, fun h => hq (Or.inr h), fun pkt' pos' h => ?_⟩
        · have hlen := congrArg List.length (PollRead.ready.inj h)
          simp only [List.length_take, List.length_nil] at hlen
          omega
        · simp only at h
          split at h
          · next hn => cases h; exact hn
          · cases h
      · have hnone : ∀ pkt pos, d.leftover = some (pkt, pos) → pos < pkt.length :=
          fun pkt pos h => h3 d pkt pos hd h
        by_cases hc : d.closed
        · rw [if_pos hc]
          exact ⟨by simp, hq, hnone⟩
        · rw [if_neg hc]
          exact ⟨by simp, hq, hnone⟩
  refine ⟨h1, fun d' hd' => ?_, fun d' pkt pos hd' => ?_, ?_⟩
  · cases hd'
    exact key.2.1
  · cases hd'
    exact key.2.2 pkt pos
  · rw [polled_answers, List.mem_append, List.mem_singleton]
    rintro (h | h)
    · exact h4 h
    · exact key.1 h.symm

theorem fed_step {written : List Bytes} {out : Bytes} {i i' : Inbound} {a : Act}
    (hw : [] ∉ written) (hc : i'.Carrying written out) (hi : i.Fed) (h : i.step a = some i') :
    i'.Fed := by
  have hrec : [] ∉ i'.received :=
    fun hm => hw ((ByteStream.Carries.received_prefix hc).subset hm)
  obtain ⟨h1, h2, h3, h4⟩ := hi
  cases moves_of_step h with
  | cut n => exact ⟨h1, h2, h3, h4⟩
  | read f n hr hpos hn hfl =>
    refine ⟨?_, h2, h3, h4⟩
    rcases i.readPiece_cases f n hr hn with ⟨f', h5, -⟩ | ⟨p, h5, -, -, h8⟩
    · rw [h5]
      simp [ReaderTask.holding]
    · rw [h5]
      rw [h8] at hrec
      intro hm
      rw [← List.mem_singleton.1 hm] at hrec
      simp at hrec
  | readErr f hr =>
    refine ⟨by simp [ReaderTask.holding], fun d hd => ?_, fun d pkt pos hd hl => ?_, h4⟩
    · obtain ⟨d0, hd0, rfl⟩ := Option.map_eq_some_iff.1 hd
      exact h2 d0 hd0
    · obtain ⟨d0, hd0, rfl⟩ := Option.map_eq_some_iff.1 hd
      exact h3 d0 pkt pos hd0 hl
  | count buf hr =>
    rw [hr] at h1
    exact ⟨h1, h2, h3, h4⟩
  | send buf d hr hd hroom =>
    rw [hr] at h1
    refine ⟨by simp, fun d' hd' => ?_, fun d' pkt pos hd' hl => ?_, h4⟩
    · cases hd'
      show [] ∉ d.incoming ++ [buf]
      rw [List.mem_append]
      rintro (hm | hm)
      · exact h2 d hd hm
      · exact h1 hm
    · cases hd'
      exact h3 d pkt pos hd hl
  | sendErr buf hr hd => exact ⟨by simp [ReaderTask.holding], h2, h3, h4⟩
  | poll d remaining hd hpos => exact fed_poll ⟨h1, h2, h3, h4⟩ hd hpos
  | drop => exact ⟨h1, fun d hd => (by cases hd), fun d pkt pos hd => (by cases hd), h4⟩

theorem fed_run {t : Bytes} (ht : [] ∉ (wire.parse t).1) {acts : List Act} {i : Inbound}
    (h : Runs.exec step (.start (.ofSent t)) acts = some i) : i.Fed := by
  have hrun : i.Carrying (wire.parse t).1 (wire.parse t).2 ∧ i.Fed := by
    refine Runs.exec_inv step (fun i => i.Carrying (wire.parse t).1 (wire.parse t).2 ∧ i.Fed) ?_ ?_ h
    · rintro s a s' ⟨h1, h2⟩ hs
      have hc := carries_step h1 hs
      exact ⟨hc, fed_step ht hc h2 hs⟩
    · refine ⟨ByteStream.carries_ofSent t, by simp [start], fun d hd => ?_, fun d pkt pos hd hl => ?_,
        by simp [start]⟩
      · cases hd
        simp [FramedDevice.new]
      · cases hd
        cases hl
  exact hrun.2

/-! ## After the peer is gone -/

/-- A drained device stays drained, and answers `Pending`. -/
theorem drained_step {i i' : Inbound} {a : Act} (hi : i.Drained) (h : i.step a = some i') :
    i'.Drained ∧ (i'.answers = i.answers ∨ i'.answers = i.answers ++ [.pending]) := by
  obtain ⟨⟨rest, hr⟩, hd⟩ := hi
  cases moves_of_step h with
  | cut n => exact ⟨⟨⟨rest, hr⟩, hd⟩, Or.inl rfl⟩
  | read f n hr' hpos hn hfl => rw [hr] at hr'; cases hr'
  | readErr f hr' => rw [hr] at hr'; cases hr'
  | count buf hr' => rw [hr] at hr'; cases hr'
  | send buf d hr' hd' hroom => rw [hr] at hr'; cases hr'
  | sendErr buf hr' hd' => rw [hr] at hr'; cases hr'
  | poll d remaining hd' hpos =>
    obtain ⟨hq, hl⟩ := hd d hd'
    have hp := d.pollRead_pending remaining hl hq
    refine ⟨⟨⟨rest, hr⟩, fun d2 hd2 => ?_⟩, Or.inr (by rw [polled_answers, hp])⟩
    rw [polled_device, hp] at hd2
    cases hd2
    exact ⟨hq, hl⟩
  | drop => exact ⟨⟨⟨rest, hr⟩, fun d hd => (by cases hd)⟩, Or.inl rfl⟩

theorem drained_run {i i' : Inbound} {acts : List Act} (hi : i.Drained)
    (h : Runs.exec step i acts = some i') : ∃ k, i'.answers = i.answers ++ List.replicate k .pending := by
  have hrun : i'.Drained ∧ ∃ k, i'.answers = i.answers ++ List.replicate k .pending := by
    refine Runs.exec_inv step
      (fun j => j.Drained ∧ ∃ k, j.answers = i.answers ++ List.replicate k .pending) ?_ ?_ h
    · rintro s a s' ⟨h1, k, h2⟩ hs
      obtain ⟨h3, h4 | h4⟩ := drained_step h1 hs
      · exact ⟨h3, k, by rw [h4, h2]⟩
      · exact ⟨h3, k + 1, by rw [h4, h2, List.append_assoc, List.replicate_succ']⟩
    · exact ⟨hi, 0, (List.append_nil _).symm⟩
  exact hrun.2

end Inbound

/-- **The device reports EOF exactly for zero-length frames.** -/
theorem never_eof_iff (t : Bytes) : NeverEof t ↔ ∀ f ∈ (wire.parse t).1, f ≠ [] := by
  constructor
  · rintro h f hf rfl
    obtain ⟨acts, i, h1, h2⟩ := Inbound.reaches_deliveries (wire.parse t).1 (.start (.ofSent t))
      (wire.parse t).2 ⟨rfl, _, rfl, rfl, rfl⟩ (Framing.LengthHeader.parse_fits t)
      (Framing.LengthHeader.frames_parse t).symm
    apply (h acts i h1).1
    rw [h2]
    exact List.mem_append_right _ (List.mem_map_of_mem hf)
  · intro ht acts i h
    refine ⟨(Inbound.fed_run (fun hm => ht [] hm rfl) h).answers, fun hd acts' i' h' x hx => ?_⟩
    obtain ⟨k, hk⟩ := Inbound.drained_run hd h'
    rw [hk, List.drop_left] at hx
    exact List.eq_of_mem_replicate hx

/-- The frame of an empty packet, read, queued and polled for. -/
theorem zero_length_frame_is_eof : ¬ NeverEof [0, 0] :=
  fun h => (h [.read 2, .count, .send, .poll 1500] _ rfl).1 (by decide)

end RickyNet
