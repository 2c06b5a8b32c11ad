import RickyNet.Lib.Framing

/-!
# An ordered stream between two ends

`ByteStream α` is one direction of a connection.  The writing end puts symbols, the reading end
takes them in the same order and in pieces of any size, and the stream may be cut: a cut drops
what is in flight behind some point, and whatever is put afterwards.

`sent` and `taken` record the two ends' whole history.  The fields `part` and `whole` say what the
medium promises: what came out and what is in flight is a prefix of what went in, and all of it
as long as there was no cut.

`Carries` is a stream of frames seen from both ends: `put_part`, `put_last`, `take_part`,
`take_last` and `cut` keep it, `received_prefix`, `written_eq` and `lost` are what it gives.
-/

/-- One direction of a connection. -/
structure ByteStream (α : Type*) where
  /-- everything accepted from the writing end -/
  sent : List α
  /-- everything handed to the reading end -/
  taken : List α
  /-- on the way -/
  flight : List α
  /-- the stream was cut -/
  cut : Bool
  part : taken ++ flight <+: sent
  whole : cut = false → taken ++ flight = sent

namespace ByteStream

variable {α : Type*}

/-- A fresh stream. -/
def empty : ByteStream α := ⟨[], [], [], false, List.prefix_refl _, fun _ => rfl⟩

/-- A stream on which `s` has been put and nothing has been read. -/
def ofSent (s : List α) : ByteStream α := ⟨s, [], s, false, List.prefix_refl _, fun _ => rfl⟩

/-- The writing end puts `bs`; after a cut they are accepted and never arrive. -/
def put (s : ByteStream α) (bs : List α) : ByteStream α where
  sent := s.sent ++ bs
  taken := s.taken
  flight := if s.cut then s.flight else s.flight ++ bs
  cut := s.cut
  part := by
    cases hc : s.cut with
    | true => exact s.part.trans (List.prefix_append _ _)
    | false =>
      simp only [Bool.false_eq_true, if_false, ← List.append_assoc, s.whole hc]
      exact List.prefix_refl _
  whole := by
    intro hc
    simp only [hc, Bool.false_eq_true, if_false, ← List.append_assoc, s.whole hc]

/-- The reading end takes the next `n` symbols. -/
def take (s : ByteStream α) (n : Nat) : ByteStream α where
  sent := s.sent
  taken := s.taken ++ s.flight.take n
  flight := s.flight.drop n
  cut := s.cut
  part := by simpa using s.part
  whole := by simpa using s.whole

/-- The stream is cut behind the next `n` symbols in flight. -/
def cutAt (s : ByteStream α) (n : Nat) : ByteStream α where
  sent := s.sent
  taken := s.taken
  flight := s.flight.take n
  cut := true
  part := (List.prefix_append_right_inj s.taken |>.2 (List.take_prefix n s.flight)).trans s.part
  whole := by intro h; cases h

@[simp] theorem sent_put (s : ByteStream α) (bs : List α) : (s.put bs).sent = s.sent ++ bs := rfl

@[simp] theorem taken_take (s : ByteStream α) (n : Nat) :
    (s.take n).taken = s.taken ++ s.flight.take n := rfl

/-! ## A stream of frames -/

variable {H : Framing.LengthHeader α}

/-- The stream carries frames: the writing end has put the frames of `written` and the beginning
`out` of one more, the reading end has taken the frames of `received` and the beginning `got` of
one more. -/
structure Carries (H : Framing.LengthHeader α) (s : ByteStream α) (written : List (List α))
    (out : List α) (received : List (List α)) (got : List α) : Prop where
  sent : s.sent = H.frames written ++ out
  taken : s.taken = H.frames received ++ got
  fits_written : H.Fits written
  fits_received : H.Fits received
  out_open : H.split out = none
  got_open : H.split got = none

/-- The bodies on the stream, the one that is being read included. -/
def onStream (H : Framing.LengthHeader α) (s : ByteStream α) (got : List α) : List (List α) :=
  (H.parse (got ++ s.flight)).1

section
variable {s : ByteStream α} {written received : List (List α)} {out got : List α}

theorem carries_empty : Carries H (empty : ByteStream α) [] [] [] [] where
  sent := rfl
  taken := rfl
  fits_written := by simp
  fits_received := by simp
  out_open := Framing.LengthHeader.split_nil
  got_open := Framing.LengthHeader.split_nil

/-- A stream on which anything at all has been put carries the frames in it. -/
theorem carries_ofSent (t : List α) : Carries H (ofSent t) (H.parse t).1 (H.parse t).2 [] [] where
  sent := (Framing.LengthHeader.frames_parse t).symm
  taken := rfl
  fits_written := Framing.LengthHeader.parse_fits t
  fits_received := by simp
  out_open := Framing.LengthHeader.split_parse t
  got_open := Framing.LengthHeader.split_nil

theorem Carries.put_part (h : Carries H s written out received got) {bs out' : List α}
    (ho : out' = out ++ bs) (hopen : H.split out' = none) :
    Carries H (s.put bs) written out' received got where
  sent := by rw [sent_put, h.sent, ho, List.append_assoc]
  taken := h.taken
  fits_written := h.fits_written
  fits_received := h.fits_received
  out_open := hopen
  got_open := h.got_open

theorem Carries.put_last (h : Carries H s written out received got) {bs p : List α}
    (ho : out ++ bs = H.frame p) (hp : p.length ≤ H.max) :
    Carries H (s.put bs) (written ++ [p]) [] received got where
  sent := by
    rw [sent_put, h.sent, List.append_assoc, ho]
    simp
  taken := h.taken
  fits_written := by simpa using ⟨h.fits_written, hp⟩
  fits_received := h.fits_received
  out_open := Framing.LengthHeader.split_nil
  got_open := h.got_open

theorem Carries.take_part (h : Carries H s written out received got) {n : Nat} {got' : List α}
    (hg : got' = got ++ s.flight.take n) (hopen : H.split got' = none) :
    Carries H (s.take n) written out received got' where
  sent := h.sent
  taken := by rw [taken_take, h.taken, hg, List.append_assoc]
  fits_written := h.fits_written
  fits_received := h.fits_received
  out_open := h.out_open
  got_open := hopen

theorem Carries.take_last (h : Carries H s written out received got) {n : Nat} {p : List α}
    (hg : H.frame p = got ++ s.flight.take n) (hp : p.length ≤ H.max) :
    Carries H (s.take n) written out (received ++ [p]) [] where
  sent := h.sent
  taken := by
    rw [taken_take, h.taken, List.append_assoc, ← hg]
    simp
  fits_written := h.fits_written
  fits_received := by simpa using ⟨h.fits_received, hp⟩
  out_open := h.out_open
  got_open := Framing.LengthHeader.split_nil

theorem Carries.cut (h : Carries H s written out received got) (n : Nat) :
    Carries H (s.cutAt n) written out received got where
  sent := h.sent
  taken := h.taken
  fits_written := h.fits_written
  fits_received := h.fits_received
  out_open := h.out_open
  got_open := h.got_open

/-- Cut or not, what has been read and what is on the stream begins what has been written. -/
theorem Carries.onStream_prefix (h : Carries H s written out received got) :
    received ++ s.onStream H got <+: written := by
  have hp := Framing.LengthHeader.parse_prefix (H := H) _ _ s.part
  rw [h.sent, Framing.LengthHeader.parse_unique written out h.fits_written h.out_open, h.taken,
    List.append_assoc, Framing.LengthHeader.parse_frames_append received _ h.fits_received] at hp
  exact hp

/-- The bodies that have been read begin the bodies that have been written. -/
theorem Carries.received_prefix (h : Carries H s written out received got) : received <+: written :=
  (List.prefix_append _ _).trans h.onStream_prefix

/-- **Without a cut nothing is missing.**  What has been written is what has been read and what
is on the stream. -/
theorem Carries.written_eq (h : Carries H s written out received got) (hcut : s.cut = false) :
    written = received ++ s.onStream H got := by
  have hw : H.parse s.sent = H.parse (s.taken ++ s.flight) := by rw [s.whole hcut]
  rw [h.sent, Framing.LengthHeader.parse_unique written out h.fits_written h.out_open, h.taken,
    List.append_assoc, Framing.LengthHeader.parse_frames_append received _ h.fits_received] at hw
  exact congrArg Prod.fst hw

/-- What has been written and is neither read nor on the stream was lost by a cut. -/
theorem Carries.lost (h : Carries H s written out received got) :
    ∃ lost, (lost ≠ [] → s.cut = true) ∧ written = received ++ s.onStream H got ++ lost := by
  obtain ⟨lost, hlost⟩ := h.onStream_prefix
  refine ⟨lost, fun hne => ?_, hlost.symm⟩
  by_contra hcut
  rw [h.written_eq (by simpa using hcut)] at hlost
  exact hne (List.append_right_eq_self.1 hlost)

/-- With nothing in flight no complete frame is on the stream. -/
theorem Carries.onStream_nil (h : Carries H s written out received got) (hf : s.flight = []) :
    s.onStream H got = [] := by
  have hp := Framing.LengthHeader.parse_unique (H := H) [] got (by simp) h.got_open
  unfold onStream
  rw [hf, List.append_nil]
  simpa using congrArg Prod.fst hp

end

end ByteStream
