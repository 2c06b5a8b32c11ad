import Mathlib.Data.List.Flatten
import Mathlib.Data.List.Infix
import Mathlib.Tactic.Cases

/-!
# Length-prefixed framing

A frame is a header of fixed width that spells the length of the body, followed by the body.
The header code is a `LengthHeader`; everything else is derived from it:

* `frame`, `frames`: one body framed, a list of bodies framed one after another;
* `split`: the first complete frame of a stream and what follows it;
* `parse`: all complete frames of a stream, and the tail that holds none.

Main facts, for any header code:

    split s = some (p, r) → s = frame p ++ r ∧ p.length ≤ max             (split_some)
    p.length ≤ max → split (frame p ++ r) = some (p, r)                   (split_frame_append)
    s = frames ps ++ t, bodies ≤ max, split t = none → parse s = (ps, t)  (parse_unique)
    frames (parse s).1 ++ (parse s).2 = s                                 (frames_parse)
    s <+: t → (parse s).1 <+: (parse t).1                                 (parse_prefix)
-/

namespace Framing

/-- A header code: `width` symbols spell a body length of at most `max`. -/
structure LengthHeader (α : Type*) where
  width : Nat
  max : Nat
  enc : Nat → List α
  dec : List α → Nat
  width_pos : 0 < width
  enc_length : ∀ n, (enc n).length = width
  dec_le : ∀ h, h.length = width → dec h ≤ max
  dec_enc : ∀ n, n ≤ max → dec (enc n) = n
  enc_dec : ∀ h, h.length = width → enc (dec h) = h

namespace LengthHeader

variable {α : Type*} (H : LengthHeader α)

/-- The body `p` behind its header. -/
def frame (p : List α) : List α := H.enc p.length ++ p

/-- The bodies framed one after another. -/
def frames (ps : List (List α)) : List α := ps.flatMap H.frame

/-- The first complete frame of `s` and the rest; `none` if there is none yet. -/
def split (s : List α) : Option (List α × List α) :=
  if s.length < H.width then none
  else if s.length < H.width + H.dec (s.take H.width) then none
  else some ((s.drop H.width).take (H.dec (s.take H.width)),
    (s.drop H.width).drop (H.dec (s.take H.width)))

/-- `parse` with a bound on the number of frames. -/
def parseFuel : Nat → List α → List (List α) × List α
  | 0, s => ([], s)
  | fuel + 1, s =>
    match H.split s with
    | none => ([], s)
    | some (p, r) => (p :: (parseFuel fuel r).1, (parseFuel fuel r).2)

/-- All complete frames of `s`, in order, and the tail behind the last one. -/
def parse (s : List α) : List (List α) × List α := H.parseFuel s.length s

/-- Every body fits its header. -/
def Fits (ps : List (List α)) : Prop := ∀ p ∈ ps, p.length ≤ H.max

variable {H}

/-! ## `frames` and `Fits` -/

@[simp] theorem frames_nil : H.frames [] = [] := rfl

@[simp] theorem frames_cons (p : List α) (ps : List (List α)) :
    H.frames (p :: ps) = H.frame p ++ H.frames ps := by simp [frames]

@[simp] theorem frames_append (ps qs : List (List α)) :
    H.frames (ps ++ qs) = H.frames ps ++ H.frames qs := by simp [frames]

@[simp] theorem frame_length (p : List α) : (H.frame p).length = H.width + p.length := by
  simp [frame, H.enc_length]

@[simp] theorem fits_nil : H.Fits [] := by simp [Fits]

@[simp] theorem fits_cons (p : List α) (ps : List (List α)) :
    H.Fits (p :: ps) ↔ p.length ≤ H.max ∧ H.Fits ps := by simp [Fits]

@[simp] theorem fits_append (ps qs : List (List α)) :
    H.Fits (ps ++ qs) ↔ H.Fits ps ∧ H.Fits qs := by
  simp [Fits, or_imp, forall_and]

/-! ## `split` -/

theorem split_frame_append (p r : List α) (hp : p.length ≤ H.max) :
    H.split (H.frame p ++ r) = some (p, r) := by
  have hw : (H.enc p.length ++ (p ++ r)).take H.width = H.enc p.length := by
    rw [List.take_append_of_le_length (by rw [H.enc_length]), List.take_of_length_le
      (by rw [H.enc_length])]
  have hd : (H.enc p.length ++ (p ++ r)).drop H.width = p ++ r := by
    rw [List.drop_append_of_le_length (by rw [H.enc_length]), List.drop_of_length_le
      (by rw [H.enc_length]), List.nil_append]
  unfold split frame
  rw [List.append_assoc, hw, hd, H.dec_enc _ hp, if_neg, if_neg]
  · simp
  · simp [H.enc_length]
  · simp [H.enc_length]

/-- A complete frame is its header followed by its body. -/
theorem split_some (s p r : List α) (h : H.split s = some (p, r)) :
    s = H.frame p ++ r ∧ p.length ≤ H.max := by
  unfold split at h
  split at h
  · cases h
  split at h
  · cases h
  next h1 h2 =>
  have hw : (s.take H.width).length = H.width := by simp; omega
  have hdl := H.dec_le _ hw
  cases h
  have hlen : ((s.drop H.width).take (H.dec (s.take H.width))).length = H.dec (s.take H.width) := by
    simp; omega
  refine ⟨?_, by rw [hlen]; exact hdl⟩
  unfold frame
  rw [hlen, H.enc_dec _ hw, List.append_assoc, List.take_append_drop, List.take_append_drop]

theorem split_append (s p r t : List α) (h : H.split s = some (p, r)) :
    H.split (s ++ t) = some (p, r ++ t) := by
  obtain ⟨rfl, hp⟩ := split_some s p r h
  rw [List.append_assoc]
  exact split_frame_append p (r ++ t) hp

theorem split_nil : H.split [] = none := by
  have := H.width_pos
  unfold split
  rw [if_pos (by simpa using this)]

/-- The beginning of a frame, short of its end, holds no complete frame. -/
theorem split_take_frame (p : List α) (k : Nat) (hp : p.length ≤ H.max)
    (hk : k < H.width + p.length) : H.split ((H.frame p).take k) = none := by
  cases hs : H.split ((H.frame p).take k) with
  | none => rfl
  | some pr =>
    have hlen := congrArg List.length (split_some _ _ _ hs).1
    have happ := split_append _ _ _ ((H.frame p).drop k) hs
    have hfull := split_frame_append (H := H) p [] hp
    rw [List.append_nil] at hfull
    rw [List.take_append_drop, hfull] at happ
    simp only [Option.some.injEq, Prod.mk.injEq] at happ
    rw [← happ.1] at hlen
    simp at hlen
    omega

/-! ## `parse` -/

theorem parseFuel_none (fuel : Nat) (s : List α) (h : H.split s = none) :
    H.parseFuel fuel s = ([], s) := by
  cases fuel with
  | zero => rfl
  | succ fuel => simp [parseFuel, h]

/-- Any fuel that covers the stream gives the same result. -/
theorem parseFuel_eq (fuel fuel' : Nat) (s : List α) (h : s.length ≤ fuel)
    (h' : s.length ≤ fuel') : H.parseFuel fuel s = H.parseFuel fuel' s := by
  induction fuel generalizing s fuel' with
  | zero =>
    have hs : s = [] := List.length_eq_zero_iff.1 (by omega)
    subst hs
    rw [parseFuel_none _ _ split_nil, parseFuel_none _ _ split_nil]
  | succ fuel ih =>
    cases hs : H.split s with
    | none => rw [parseFuel_none _ _ hs, parseFuel_none _ _ hs]
    | some pr =>
      obtain ⟨p, r⟩ := pr
      have hlen := congrArg List.length (split_some s p r hs).1
      have hw := H.width_pos
      simp only [List.length_append, frame_length] at hlen
      cases fuel' with
      | zero => omega
      | succ fuel' =>
        simp only [parseFuel, hs]
        rw [ih fuel' r (by omega) (by omega)]

theorem parse_none (s : List α) (h : H.split s = none) : H.parse s = ([], s) :=
  parseFuel_none _ s h

theorem parse_some (s p r : List α) (h : H.split s = some (p, r)) :
    H.parse s = (p :: (H.parse r).1, (H.parse r).2) := by
  have hlen := congrArg List.length (split_some s p r h).1
  have hw := H.width_pos
  simp only [List.length_append, frame_length] at hlen
  obtain ⟨n, hn⟩ : ∃ n, s.length = n + 1 := ⟨s.length - 1, by omega⟩
  unfold parse
  rw [hn]
  simp only [parseFuel, h]
  rw [parseFuel_eq n r.length r (by omega) (Nat.le_refl _)]

@[simp] theorem parse_nil : H.parse [] = ([], []) := parse_none [] split_nil

/-- **Nothing is lost.**  The complete frames and the tail make up the stream. -/
theorem frames_parse (s : List α) : H.frames (H.parse s).1 ++ (H.parse s).2 = s := by
  induction hn : s.length using Nat.strong_induction_on generalizing s with
  | _ n ih =>
    cases hs : H.split s with
    | none => rw [parse_none s hs]; simp
    | some pr =>
      obtain ⟨p, r⟩ := pr
      have hsp := (split_some s p r hs).1
      have hlen := congrArg List.length hsp
      have hw := H.width_pos
      simp only [List.length_append, frame_length] at hlen
      rw [parse_some s p r hs]
      simp only [frames_cons, List.append_assoc]
      rw [ih r.length (by omega) r rfl]
      exact hsp.symm

theorem parse_fits (s : List α) : H.Fits (H.parse s).1 := by
  induction hn : s.length using Nat.strong_induction_on generalizing s with
  | _ n ih =>
    cases hs : H.split s with
    | none => rw [parse_none s hs]; simp
    | some pr =>
      obtain ⟨p, r⟩ := pr
      obtain ⟨hsp, hp⟩ := split_some s p r hs
      have hlen := congrArg List.length hsp
      have hw := H.width_pos
      simp only [List.length_append, frame_length] at hlen
      rw [parse_some s p r hs, fits_cons]
      exact ⟨hp, ih r.length (by omega) r rfl⟩

theorem parse_frames_append (ps : List (List α)) (t : List α) (hp : H.Fits ps) :
    H.parse (H.frames ps ++ t) = (ps ++ (H.parse t).1, (H.parse t).2) := by
  induction ps with
  | nil => simp
  | cons p ps ih =>
    rw [fits_cons] at hp
    rw [frames_cons, List.append_assoc, parse_some _ p _ (split_frame_append p _ hp.1), ih hp.2]
    rfl

/-- **The tail is incomplete.** -/
theorem split_parse (s : List α) : H.split (H.parse s).2 = none := by
  cases hs : H.split (H.parse s).2 with
  | none => rfl
  | some pr =>
    obtain ⟨p, r⟩ := pr
    -- a frame in the tail would be one more frame of the whole stream
    have h := parse_frames_append (H := H) _ (H.parse s).2 (parse_fits s)
    rw [frames_parse, parse_some _ p r hs] at h
    have h1 := congrArg (fun x => x.1.length) h
    simp only [List.length_append, List.length_cons] at h1
    omega

/-- **Uniqueness.**  A stream is read in one way only. -/
theorem parse_unique (ps : List (List α)) (t : List α) (hp : H.Fits ps) (ht : H.split t = none) :
    H.parse (H.frames ps ++ t) = (ps, t) := by
  rw [parse_frames_append ps t hp, parse_none t ht, List.append_nil]

theorem parse_frames (ps : List (List α)) (hp : H.Fits ps) : H.parse (H.frames ps) = (ps, []) := by
  have := parse_unique ps [] hp split_nil
  rwa [List.append_nil] at this

/-- Reading on after more has arrived: start again from the tail. -/
theorem parse_append (s t : List α) :
    H.parse (s ++ t) = ((H.parse s).1 ++ (H.parse ((H.parse s).2 ++ t)).1,
      (H.parse ((H.parse s).2 ++ t)).2) := by
  conv => lhs; rw [← frames_parse (H := H) s, List.append_assoc]
  exact parse_frames_append _ _ (parse_fits s)

theorem parse_prefix (s t : List α) (h : s <+: t) : (H.parse s).1 <+: (H.parse t).1 := by
  obtain ⟨u, rfl⟩ := h
  rw [parse_append s u]
  exact List.prefix_append _ _

end LengthHeader

end Framing
