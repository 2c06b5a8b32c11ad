import RickyNet.Core.Inbound

/-!
# The upload path, end to end

Packets leave the desktop through Wintun: pump thread A receives them and writes their frames to
the stream, the phone's receiving end (`Inbound`) takes them off again.

`Inv` accounts for every packet Wintun has handed out, in every state between the two ends;
`upload_exact` is what it gives.
-/

namespace RickyNet

/-- Where pump thread A is. -/
inductive PumpTx
  /-- in `receive_blocking` -/
  | receive
  /-- in `write_frame` -/
  | write (w : FrameWrite)
  /-- before `shared.tx.fetch_add` -/
  | count (packet : Bytes)
  /-- out of the loop; `part` is what it had written of an unfinished frame -/
  | ended (part : Bytes)

namespace PumpTx

/-- What it has written of a frame that is not complete. -/
def out : PumpTx → Bytes
  | .write w => w.out
  | .ended part => part
  | _ => []

/-- It is out of the loop. -/
def isEnded : PumpTx → Bool
  | .ended _ => true
  | _ => false

/-- `write_frame` of the packet: it refuses what does not fit a frame. -/
def writeFrame (packet : Bytes) : PumpTx :=
  if h : packet.length ≤ MAX_FRAME then .write (.start packet h) else .ended []

theorem writeFrame_fits {packet : Bytes} (h : packet.length ≤ MAX_FRAME) :
    writeFrame packet = .write (.start packet h) := by
  unfold writeFrame
  rw [dif_pos h]

theorem writeFrame_oversize {packet : Bytes} (h : ¬ packet.length ≤ MAX_FRAME) :
    writeFrame packet = .ended [] := by
  unfold writeFrame
  rw [dif_neg h]

end PumpTx

structure Upload where
  pump : PumpTx
  /-- `shared.tx` -/
  tx : UInt64
  phone : Inbound
  /-- the packets Wintun has handed to the pump, in order -/
  handed : List Bytes
  /-- the packets whose frames the pump has written completely, in order -/
  written : List Bytes

namespace Upload

def init : Upload := ⟨.receive, 0, .start .empty, [], []⟩

inductive Act
  /-- `receive_blocking` returns a packet -/
  | receive (packet : Bytes)
  /-- `receive_blocking` fails: the session has ended -/
  | receiveErr
  /-- the write call in progress gets `n` bytes out -/
  | write (n : Nat)
  /-- the write call in progress fails -/
  | writeErr
  /-- `shared.tx.fetch_add` -/
  | count
  /-- the stream or the phone does something -/
  | phone (a : Inbound.Act)
deriving DecidableEq

/-- The write call in progress, writing the frame of `w`, gets `n` bytes out. -/
def writePiece (s : Upload) (w : FrameWrite) (n : Nat) : Upload :=
  let phone := { s.phone with stream := s.phone.stream.put (w.pending.take n) }
  match w.accept n with
  | some w => { s with pump := .write w, phone := phone }
  | none => { s with pump := .count w.packet, phone := phone, written := s.written ++ [w.packet] }

def step (s : Upload) : Act → Option Upload
  | .receive packet =>
    match s.pump with
    | .receive =>
      if packet ≠ [] then
        some { s with pump := .writeFrame packet, handed := s.handed ++ [packet] }
      else none
    | _ => none
  | .receiveErr =>
    match s.pump with
    | .receive => some { s with pump := .ended [] }
    | _ => none
  | .write n =>
    match s.pump with
    | .write w => if 0 < n ∧ n ≤ w.pending.length then some (s.writePiece w n) else none
    | _ => none
  | .writeErr =>
    match s.pump with
    | .write w => some { s with pump := .ended w.out }
    | _ => none
  | .count =>
    match s.pump with
    | .count packet =>
      some { s with pump := .receive, tx := s.tx + UInt64.ofNat packet.length }
    | _ => none
  | .phone a =>
    if a.whole then
      match s.phone.step a with
      | some phone => some { s with phone := phone }
      | none => none
    else none

/-- What Wintun has handed out is what has been written and the packet that is being written. -/
def Handed (s : Upload) : Prop :=
  match s.pump with
  | .write w => s.handed = s.written ++ [w.packet]
  | .ended _ => s.written <+: s.handed
  | _ => s.handed = s.written

structure Inv (s : Upload) : Prop where
  carrying : s.phone.Carrying s.written s.pump.out
  whole : s.phone.Whole
  handed : s.Handed

theorem init_inv : init.Inv where
  carrying := ByteStream.carries_empty
  whole := ⟨rfl, rfl, Nat.zero_le _⟩
  handed := rfl

theorem Handed.written_prefix {s : Upload} (h : s.Handed) : s.written <+: s.handed := by
  unfold Handed at h
  split at h
  · rw [h]
    exact List.prefix_append _ _
  · exact h
  · rw [h]

theorem receive_inv {s : Upload} (hs : s.Inv) (hp : s.pump = .receive) (packet : Bytes) :
    Inv { s with pump := .writeFrame packet, handed := s.handed ++ [packet] } := by
  obtain ⟨hc, hw, hh⟩ := hs
  unfold Handed at hh
  rw [hp] at hc hh
  by_cases h : packet.length ≤ MAX_FRAME
  · rw [PumpTx.writeFrame_fits h]
    exact ⟨hc, hw, congrArg (· ++ [packet]) hh⟩
  · rw [PumpTx.writeFrame_oversize h]
    refine ⟨hc, hw, ?_⟩
    show s.written <+: s.handed ++ [packet]
    rw [hh]
    exact List.prefix_append _ _

/-- **One piece.**  The bytes that go out are the next bytes of the frame. -/
theorem writePiece_inv {s : Upload} (hs : s.Inv) {w : FrameWrite} (hp : s.pump = .write w) {n : Nat}
    (hn : n ≤ w.pending.length) : (s.writePiece w n).Inv := by
  obtain ⟨hc, hw, hh⟩ := hs
  unfold Handed at hh
  rw [hp] at hc hh
  unfold writePiece
  have hq : Inbound.Whole { s.phone with stream := s.phone.stream.put (w.pending.take n) } :=
    hw.of_eq rfl rfl rfl rfl
  cases ha : w.accept n with
  | some w' =>
    obtain ⟨h1, h2⟩ := w.accept_some w' n hn ha
    refine ⟨ByteStream.Carries.put_part hc h2 w'.split_out, hq, ?_⟩
    show s.handed = s.written ++ [w'.packet]
    rw [h1]
    exact hh
  | none =>
    exact ⟨ByteStream.Carries.put_last hc (w.accept_none n hn ha) w.fits, hq, hh⟩

/-- The pump ends where it is. -/
theorem ended_inv {s : Upload} (hs : s.Inv) : Inv { s with pump := .ended s.pump.out } :=
  ⟨hs.carrying, hs.whole, hs.handed.written_prefix⟩

theorem step_inv (s : Upload) (a : Act) (s' : Upload) (hs : s.Inv) (h : s.step a = some s') :
    s'.Inv := by
  cases a with
  | receive packet =>
    simp only [step] at h
    split at h
    · next hp =>
      split at h
      · cases h
        exact receive_inv hs hp packet
      · cases h
    · cases h
  | receiveErr =>
    simp only [step] at h
    split at h
    · next hp =>
      cases h
      have hended := ended_inv hs
      rw [hp] at hended
      exact hended
    · cases h
  | write n =>
    simp only [step] at h
    split at h
    · next w hp =>
      split at h
      · next hn =>
        cases h
        exact writePiece_inv hs hp hn.2
      · cases h
    · cases h
  | writeErr =>
    simp only [step] at h
    split at h
    · next w hp =>
      cases h
      have hended := ended_inv hs
      rw [hp] at hended
      exact hended
    · cases h
  | count =>
    simp only [step] at h
    split at h
    · next packet hp =>
      cases h
      obtain ⟨hc, hw, hh⟩ := hs
      unfold Handed at hh
      rw [hp] at hc hh
      exact ⟨hc, hw, hh⟩
    · cases h
  | phone a =>
    simp only [step] at h
    split at h
    · next ha =>
      split at h
      · next phone hph =>
        cases h
        obtain ⟨hc, hw, hh⟩ := hs
        exact ⟨Inbound.carries_step hc hph, Inbound.whole_step hw hc.fits_received ha hph, hh⟩
      · cases h
    · cases h

theorem run_inv {acts : List Act} {s : Upload} (h : Runs.exec step init acts = some s) : s.Inv :=
  Runs.exec_inv step Inv step_inv init_inv h

end Upload

/-- **The upload path delivers what was written.**  In every state of every run the packets that
`poll_read` has delivered begin the packets written, which begin the packets Wintun has handed out.
While the phone has its device the channel is within its bound, and unless the stream has been cut,
every packet written is delivered, queued, held by `reader_task`, or on the stream. -/
theorem upload_exact (acts : List Upload.Act) (s : Upload)
    (h : Runs.exec Upload.step Upload.init acts = some s) :
    s.phone.delivered <+: s.written ∧ s.written <+: s.handed ∧
      ∀ d, s.phone.device = some d → d.incoming.length ≤ INCOMING_CAP ∧
        (s.phone.stream.cut = false →
          s.written = s.phone.delivered ++ d.incoming ++ s.phone.reader.holding ++
            s.phone.stream.onStream wire s.phone.reader.got) := by
  obtain ⟨hc, hw, hh⟩ := Upload.run_inv h
  refine ⟨hw.delivered_prefix.trans (ByteStream.Carries.received_prefix hc), hh.written_prefix, ?_⟩
  intro d hd
  obtain ⟨h1, -, h3⟩ := (Inbound.whole_iff_some hd).1 hw
  refine ⟨h3, fun hcut => ?_⟩
  rw [← h1]
  exact ByteStream.Carries.written_eq hc hcut

/-- A packet that goes through in five pieces, and one that is cut behind its first length byte. -/
theorem upload_exact_run : ∃ acts s, Runs.exec Upload.step .init acts = some s ∧
    s.phone.delivered = [[1, 2, 3]] ∧ s.written = [[1, 2, 3], [4]] ∧ s.phone.delivered <+: s.written := by
  have h : Runs.exec Upload.step .init
      [.receive [1, 2, 3], .write 1, .phone (.read 1), .write 1, .write 3, .count, .phone (.read 1),
        .phone (.read 2), .phone (.read 1), .phone .count, .phone .send, .receive [4], .write 2,
        .phone (.poll 65535), .write 1, .phone (.cut 1), .phone (.read 1), .phone .readErr,
        .phone (.poll 65535)] = some _ := rfl
  exact ⟨_, _, h, rfl, rfl, (upload_exact _ _ h).1⟩

end RickyNet
