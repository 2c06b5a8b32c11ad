import RickyNet.Core.Outbound
import RickyNet.Lib.Runs

/-!
# The download path, end to end

Packets that ipstack writes to the device leave the phone as frames (`Outbound`); pump thread B
reads the frames and injects the packets into Wintun.

`Inv` accounts for every packet `poll_write` has accepted; `download_exact` is what it gives.
-/

namespace RickyNet

/-- Where pump thread B is. -/
inductive PumpRx
  /-- in `read_frame` -/
  | read (f : FrameRead)
  /-- `read_frame` has returned `pkt` -/
  | check (pkt : Bytes)
  /-- in `allocate_send_packet(pkt.len() as u16)` -/
  | allocate (pkt : Bytes)
  /-- before `copy_from_slice` into the packet `send` -/
  | copy (pkt send : Bytes)
  /-- before `shared.rx.fetch_add` -/
  | count (pkt : Bytes)
  /-- out of the loop; `rest` is what it had read of an unfinished frame -/
  | ended (rest : Bytes)
  /-- `copy_from_slice` has met two lengths -/
  | panicked

namespace PumpRx

/-- What it has read of a frame that is not complete. -/
def got : PumpRx → Bytes
  | .read f => f.got
  | .ended rest => rest
  | _ => []

/-- The packet it has read and not yet skipped or injected. -/
def holding : PumpRx → List Bytes
  | .check pkt => [pkt]
  | .allocate pkt => [pkt]
  | .copy pkt _ => [pkt]
  | _ => []

/-- It is out of the loop. -/
def isEnded : PumpRx → Bool
  | .ended _ => true
  | _ => false

end PumpRx

/-- `copy_from_slice`: the destination afterwards, `none` if it panics. -/
def copyFromSlice (dst src : Bytes) : Option Bytes := if dst.length = src.length then some src else none

structure Download where
  phone : Outbound
  pump : PumpRx
  /-- `shared.rx` -/
  rx : UInt64
  /-- the packets `read_frame` has returned, in order -/
  received : List Bytes
  /-- of these, the packets the pump is done with -/
  handled : List Bytes
  /-- the packets injected into Wintun, in order -/
  injected : List Bytes
  /-- `allocate_send_packet` has failed -/
  failed : Bool
  /-- the packet it failed for -/
  refused : List Bytes

namespace Download

def init : Download := ⟨.start, .read .start, 0, [], [], [], false, []⟩

inductive Act
  /-- the phone does something -/
  | phone (a : Outbound.Act)
  /-- the stream is cut behind the next `n` bytes in flight -/
  | cut (n : Nat)
  /-- the read call in progress gets `n` bytes -/
  | read (n : Nat)
  /-- the read call in progress fails, or meets the end of the stream -/
  | readErr
  /-- the test for a bogus frame -/
  | check
  /-- `allocate_send_packet` returns a packet, with whatever was in that memory -/
  | allocate (send : Bytes)
  | allocateErr
  /-- `copy_from_slice` and `send_packet` -/
  | copy
  /-- `shared.rx.fetch_add` -/
  | count
deriving DecidableEq

/-- The read call in progress, reading the frame `f`, takes `n` bytes off the stream. -/
def readPiece (s : Download) (f : FrameRead) (n : Nat) : Download :=
  let phone := { s.phone with stream := s.phone.stream.take n }
  match f.feed (s.phone.stream.flight.take n) with
  | .inl f => { s with phone := phone, pump := .read f }
  | .inr pkt => { s with phone := phone, pump := .check pkt, received := s.received ++ [pkt] }

def step (s : Download) : Act → Option Download
  | .phone a =>
    match s.phone.step a with
    | some phone => some { s with phone := phone }
    | none => none
  | .cut n => some { s with phone := { s.phone with stream := s.phone.stream.cutAt n } }
  | .read n =>
    match s.pump with
    | .read f =>
      if 0 < n ∧ n ≤ f.need ∧ n ≤ s.phone.stream.flight.length then some (s.readPiece f n) else none
    | _ => none
  | .readErr =>
    match s.pump with
    | .read f => some { s with pump := .ended f.got }
    | _ => none
  | .check =>
    match s.pump with
    | .check pkt =>
      if pkt.isEmpty ∨ pkt.length > 65535 then
        some { s with pump := .read .start, handled := s.handled ++ [pkt] }
      else some { s with pump := .allocate pkt }
    | _ => none
  | .allocate send =>
    match s.pump with
    | .allocate pkt =>
      if send.length = (asU16 pkt.length).toNat then some { s with pump := .copy pkt send } else none
    | _ => none
  | .allocateErr =>
    match s.pump with
    | .allocate pkt => some { s with pump := .ended [], failed := true, refused := [pkt] }
    | _ => none
  | .copy =>
    match s.pump with
    | .copy pkt send =>
      match copyFromSlice send pkt with
      | some send => some { s with
          pump := .count pkt
          handled := s.handled ++ [pkt]
          injected := s.injected ++ [send] }
      | none => some { s with pump := .panicked }
    | _ => none
  | .count =>
    match s.pump with
    | .count pkt => some { s with pump := .read .start, rx := s.rx + UInt64.ofNat pkt.length }
    | _ => none

/-- What thread B does with the packets it has read. -/
structure Pumped (s : Download) : Prop where
  received : s.received = s.handled ++ s.pump.holding ++ s.refused
  injected : s.injected = s.handled.filter fun p => !p.isEmpty
  refused : s.refused ≠ [] → s.failed = true
  failed : s.failed = true → ∃ rest, s.pump = .ended rest
  length : ∀ pkt, s.pump = .allocate pkt → pkt ≠ [] ∧ pkt.length ≤ 65535
  copied : ∀ pkt send, s.pump = .copy pkt send → pkt ≠ [] ∧ send.length = pkt.length
  panic : s.pump ≠ .panicked

structure Inv (s : Download) : Prop where
  carrying : s.phone.Carrying s.received s.pump.got
  queued : s.phone.Queued
  pumped : s.Pumped

theorem init_inv : init.Inv where
  carrying := ByteStream.carries_empty
  queued := Outbound.start_queued
  pumped := by
    refine ⟨rfl, rfl, fun h => absurd rfl h, fun h => (by cases h), ?_, ?_, ?_⟩
    all_goals simp [init]

/-- While thread B runs it has refused nothing. -/
theorem Pumped.nothing_refused {s : Download} (h : s.Pumped) (hp : ∀ rest, s.pump ≠ .ended rest) :
    s.refused = [] ∧ s.failed = false := by
  have hf : s.failed = false := by
    by_contra hne
    obtain ⟨rest, hr⟩ := h.failed (by simpa using hne)
    exact hp rest hr
  refine ⟨?_, hf⟩
  by_contra hne
  rw [h.refused hne] at hf
  cases hf

/-- A step after which thread B goes on. -/
theorem Pumped.go_on {s s' : Download} (hm : s.Pumped) (hp : ∀ rest, s.pump ≠ .ended rest)
    (href : s'.refused = s.refused) (hfail : s'.failed = s.failed)
    (hrec : s'.received = s'.handled ++ s'.pump.holding)
    (hinj : s'.injected = s'.handled.filter fun p => !p.isEmpty)
    (hlen : ∀ pkt, s'.pump = .allocate pkt → pkt ≠ [] ∧ pkt.length ≤ 65535)
    (hcopy : ∀ pkt send, s'.pump = .copy pkt send → pkt ≠ [] ∧ send.length = pkt.length)
    (hpanic : s'.pump ≠ .panicked) : s'.Pumped := by
  obtain ⟨h1, h2⟩ := hm.nothing_refused hp
  refine ⟨?_, hinj, fun h => ?_, fun h => ?_, hlen, hcopy, hpanic⟩
  · rw [href, h1, List.append_nil]
    exact hrec
  · rw [href, h1] at h
    exact absurd rfl h
  · rw [hfail, h2] at h
    cases h

/-- **One piece.**  The reader stays in step, and a packet that is now complete is held. -/
theorem readPiece_inv {s : Download} (hs : s.Inv) {f : FrameRead} (hp : s.pump = .read f) {n : Nat}
    (hn : n ≤ f.need) : (s.readPiece f n).Inv := by
  obtain ⟨hc, hq, hm⟩ := hs
  have hrun : ∀ rest, s.pump ≠ .ended rest := by rw [hp]; simp
  have hrec := hm.received
  rw [hp] at hc
  rw [hp, (hm.nothing_refused hrun).1, List.append_nil] at hrec
  have hq' : Outbound.Queued { s.phone with stream := s.phone.stream.take n } :=
    hq.of_eq rfl rfl rfl rfl rfl rfl rfl rfl
  have hlen : (s.phone.stream.flight.take n).length ≤ f.need := by
    rw [List.length_take]
    omega
  unfold readPiece
  rcases f.feed_spec _ hlen with ⟨f', h1, h2⟩ | ⟨pkt, h1, h2, h3⟩
  · rw [h1]
    exact ⟨ByteStream.Carries.take_part hc h2 f'.split_got, hq',
      hm.go_on hrun rfl rfl hrec hm.injected (by simp) (by simp) (by simp)⟩
  · rw [h1]
    refine ⟨ByteStream.Carries.take_last hc h2 h3, hq',
      hm.go_on hrun rfl rfl ?_ hm.injected (by simp) (by simp) (by simp)⟩
    show s.received ++ [pkt] = s.handled ++ [pkt]
    rw [hrec]
    simp [PumpRx.holding]

/-- The test passes a frame of at least one byte, and skips no other than an empty one. -/
theorem check_inv {s s' : Download} (hs : s.Inv) (h : s.step .check = some s') : s'.Inv := by
  obtain ⟨hc, hq, hm⟩ := hs
  simp only [step] at h
  split at h
  · next pkt hp =>
    have hrun : ∀ rest, s.pump ≠ .ended rest := by rw [hp]; simp
    have hrec := hm.received
    rw [hp] at hc
    rw [hp, (hm.nothing_refused hrun).1, List.append_nil] at hrec
    have hfits : pkt.length ≤ 65535 := hc.fits_received pkt (by rw [hrec]; simp [PumpRx.holding])
    split at h
    · next hb =>
      have hempty : pkt.isEmpty = true := by
        rcases hb with hb | hb
        · exact hb
        · omega
      cases h
      refine ⟨hc, hq, hm.go_on hrun rfl rfl ?_ ?_ (by simp) (by simp) (by simp)⟩
      · simpa [PumpRx.holding] using hrec
      · show s.injected = (s.handled ++ [pkt]).filter _
        rw [List.filter_append, hm.injected]
        simp [hempty]
    · next hb =>
      cases h
      refine ⟨hc, hq, hm.go_on hrun rfl rfl hrec hm.injected ?_ (by simp) (by simp)⟩
      intro q hq'
      cases hq'
      exact ⟨fun he => hb (Or.inl (by rw [he]; rfl)), hfits⟩
  · cases h

/-- The packet that Wintun hands out is as long as the frame: the cast is exact. -/
theorem allocate_inv {s s' : Download} (hs : s.Inv) {send : Bytes}
    (h : s.step (.allocate send) = some s') : s'.Inv := by
  obtain ⟨hc, hq, hm⟩ := hs
  simp only [step] at h
  split at h
  · next pkt hp =>
    split at h
    · next hlen =>
      cases h
      obtain ⟨hne, hfits⟩ := hm.length pkt hp
      have hrun : ∀ rest, s.pump ≠ .ended rest := by rw [hp]; simp
      have hrec := hm.received
      rw [hp] at hc
      rw [hp, (hm.nothing_refused hrun).1, List.append_nil] at hrec
      refine ⟨hc, hq, hm.go_on hrun rfl rfl hrec hm.injected (by simp) ?_ (by simp)⟩
      intro q sq hq'
      cases hq'
      exact ⟨hne, by rw [hlen, asU16_toNat _ hfits]⟩
    · cases h
  · cases h

/-- `copy_from_slice` does not panic, and what is injected is the frame's packet. -/
theorem copy_inv {s s' : Download} (hs : s.Inv) (h : s.step .copy = some s') : s'.Inv := by
  obtain ⟨hc, hq, hm⟩ := hs
  simp only [step] at h
  split at h
  · next pkt send hp =>
    obtain ⟨hne, hlen⟩ := hm.copied pkt send hp
    have hrun : ∀ rest, s.pump ≠ .ended rest := by rw [hp]; simp
    have hrec := hm.received
    rw [hp] at hc
    rw [hp, (hm.nothing_refused hrun).1, List.append_nil] at hrec
    have hcopy : copyFromSlice send pkt = some pkt := by
      unfold copyFromSlice
      rw [if_pos hlen]
    rw [hcopy] at h
    cases h
    refine ⟨hc, hq, hm.go_on hrun rfl rfl ?_ ?_ (by simp) (by simp) (by simp)⟩
    · simpa [PumpRx.holding] using hrec
    · show s.injected ++ [pkt] = (s.handled ++ [pkt]).filter _
      rw [List.filter_append, hm.injected]
      simp [hne]
  · cases h

theorem step_inv (s : Download) (a : Act) (s' : Download) (hs : s.Inv) (h : s.step a = some s') :
    s'.Inv := by
  cases a with
  | phone a =>
    simp only [step] at h
    split at h
    · next phone hph =>
      cases h
      obtain ⟨hc, hq, hm⟩ := hs
      exact ⟨Outbound.carries_step hc hph, Outbound.queued_step hq hph, ⟨hm.received, hm.injected,
        hm.refused, hm.failed, hm.length, hm.copied, hm.panic⟩⟩
    · cases h
  | cut n =>
    cases h
    obtain ⟨hc, hq, hm⟩ := hs
    exact ⟨ByteStream.Carries.cut hc n, hq.of_eq rfl rfl rfl rfl rfl rfl rfl rfl, ⟨hm.received,
      hm.injected, hm.refused, hm.failed, hm.length, hm.copied, hm.panic⟩⟩
  | read n =>
    simp only [step] at h
    split at h
    · next f hp =>
      split at h
      · next hn => cases h; exact readPiece_inv hs hp hn.2.1
      · cases h
    · cases h
  | readErr =>
    simp only [step] at h
    split at h
    · next f hp =>
      cases h
      obtain ⟨hc, hq, hm⟩ := hs
      have hrec := hm.received
      rw [hp] at hc hrec
      exact ⟨hc, hq, ⟨hrec, hm.injected, hm.refused, fun _ => ⟨f.got, rfl⟩, by simp, by simp, by simp⟩⟩
    · cases h
  | check => exact check_inv hs h
  | allocate send => exact allocate_inv hs h
  | allocateErr =>
    simp only [step] at h
    split at h
    · next pkt hp =>
      cases h
      obtain ⟨hc, hq, hm⟩ := hs
      obtain ⟨href, -⟩ := hm.nothing_refused (by rw [hp]; simp)
      have hrec := hm.received
      rw [hp] at hc hrec
      refine ⟨hc, hq, ⟨?_, hm.injected, fun _ => rfl, fun _ => ⟨[], rfl⟩, by simp, by simp, by simp⟩⟩
      rw [href] at hrec
      simpa [PumpRx.holding] using hrec
    · cases h
  | copy => exact copy_inv hs h
  | count =>
    simp only [step] at h
    split at h
    · next pkt hp =>
      cases h
      obtain ⟨hc, hq, hm⟩ := hs
      have hrun : ∀ rest, s.pump ≠ .ended rest := by rw [hp]; simp
      have hrec := hm.received
      rw [hp] at hc
      rw [hp, (hm.nothing_refused hrun).1, List.append_nil] at hrec
      exact ⟨hc, hq, hm.go_on hrun rfl rfl hrec hm.injected (by simp) (by simp) (by simp)⟩
    · cases h

theorem run_inv {acts : List Act} {s : Download} (h : Runs.exec step init acts = some s) : s.Inv :=
  Runs.exec_inv step Inv step_inv init_inv h

/-- What the pump is done with begins what `poll_write` has been called with, the packets that do
not fit a frame left out. -/
theorem Inv.handled_prefix {s : Download} (hs : s.Inv) :
    s.handled <+: s.phone.calls.filter framable := by
  obtain ⟨hc, hq, hm⟩ := hs
  have h1 : s.handled <+: s.received := by
    rw [hm.received, List.append_assoc]
    exact List.prefix_append _ _
  have h2 : s.phone.written <+: s.phone.accepted.filter framable := by
    rw [hq.packets, List.append_assoc, List.append_assoc]
    exact List.prefix_append _ _
  exact (h1.trans (ByteStream.Carries.received_prefix hc)).trans (h2.trans (hq.accepted.filter framable))

/-- Every accepted packet that fits a frame is in one place; `lost` is what a cut has taken off the
stream. -/
theorem Inv.places {s : Download} (hs : s.Inv) :
    ∃ lost, (lost ≠ [] → s.phone.stream.cut = true) ∧
      s.phone.accepted.filter framable = s.handled ++ s.pump.holding ++ s.refused ++
        s.phone.stream.onStream wire s.pump.got ++ lost ++ s.phone.writer.holding ++
        s.phone.queue.filter framable ++ s.phone.dropped.filter framable := by
  obtain ⟨hc, hq, hm⟩ := hs
  obtain ⟨lost, hlost, hw⟩ := ByteStream.Carries.lost hc
  refine ⟨lost, hlost, ?_⟩
  rw [hq.packets, hw, hm.received]

end Download

/-- A packet that is carried all the way: the phone drops oversize packets, the desktop skips
empty ones. -/
def carried (p : Bytes) : Bool := framable p && !p.isEmpty

/-- **The download path delivers what was accepted.**  In every state of every run the packets
injected into Wintun begin the packets of the `poll_write` calls, those of length 0 and of more than
65535 bytes left out; the accepted packets begin those of the calls, and are all of them until
`writer_task` has ended; what is on the stream is frames of accepted packets, in order; every accepted
packet that fits a frame is in exactly one place; the casts to `u16` are exact, and
`copy_from_slice` does not panic. -/
theorem download_exact (acts : List Download.Act) (s : Download)
    (h : Runs.exec Download.step Download.init acts = some s) :
    s.injected <+: s.phone.calls.filter carried ∧
      (s.phone.accepted <+: s.phone.calls ∧
        (s.phone.writer.isEnded = false → s.phone.accepted = s.phone.calls)) ∧
      (s.phone.stream.sent = wire.frames s.phone.written ++ s.phone.writer.out ∧
        s.phone.written <+: s.phone.accepted.filter framable) ∧
      (∃ lost, s.phone.accepted.filter framable = s.handled ++ s.pump.holding ++ s.refused ++
          s.phone.stream.onStream wire s.pump.got ++ lost ++ s.phone.writer.holding ++
          s.phone.queue.filter framable ++ s.phone.dropped.filter framable ∧
        s.injected = s.handled.filter (fun p => !p.isEmpty) ∧
        (s.refused ≠ [] → s.failed = true) ∧ (lost ≠ [] → s.phone.stream.cut = true) ∧
        (s.phone.dropped ≠ [] → s.phone.failed = true)) ∧
      (∀ w, s.phone.writer = .write w → (asU16 w.packet.length).toNat = w.packet.length) ∧
      (∀ pkt, s.pump = .allocate pkt → (asU16 pkt.length).toNat = pkt.length) ∧
      (∀ pkt send, s.pump = .copy pkt send → copyFromSlice send pkt = some pkt) ∧
      s.pump ≠ .panicked := by
  have hs := Download.run_inv h
  refine ⟨?_, ⟨hs.queued.accepted, hs.queued.all⟩, ⟨hs.carrying.sent, ?_⟩, ?_, ?_, ?_, ?_, hs.pumped.panic⟩
  · have hcar : s.phone.calls.filter carried =
        (s.phone.calls.filter framable).filter fun p => !p.isEmpty := by
      rw [List.filter_filter]
      congr 1
      funext p
      unfold carried
      rw [Bool.and_comm]
    rw [hs.pumped.injected, hcar]
    exact hs.handled_prefix.filter _
  · rw [hs.queued.packets, List.append_assoc, List.append_assoc]
    exact List.prefix_append _ _
  · obtain ⟨lost, h1, h2⟩ := hs.places
    exact ⟨lost, h2, hs.pumped.injected, hs.pumped.refused, h1, hs.queued.dropped⟩
  · intro w _
    exact asU16_toNat _ w.fits
  · intro pkt hp
    exact asU16_toNat _ (hs.pumped.length pkt hp).2
  · intro pkt send hp
    unfold copyFromSlice
    rw [if_pos (hs.pumped.copied pkt send hp).2]

/-- An empty packet, one that is injected, and one that the writer fails on. -/
theorem download_exact_run : ∃ acts s, Runs.exec Download.step .init acts = some s ∧
    s.injected = [[7, 8]] ∧ s.phone.dropped = [[9], [10]] ∧
    s.injected <+: s.phone.calls.filter carried := by
  have h : Runs.exec Download.step .init
      [.phone (.pollWrite []), .phone (.pollWrite [7, 8]), .phone .recv, .phone (.write 2),
        .read 1, .phone .count, .phone .recv, .phone (.write 1), .phone (.write 1), .read 1, .check,
        .phone (.write 2), .read 2, .phone (.pollWrite [9]), .read 2, .check, .allocate [0, 0],
        .phone .count, .phone .recv, .copy, .phone (.pollWrite [10]), .phone (.write 1),
        .phone .writeErr, .count] = some _ := rfl
  exact ⟨_, _, h, rfl, rfl, (download_exact _ _ h).1⟩

end RickyNet
