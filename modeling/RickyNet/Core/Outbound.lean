import RickyNet.Core.Device

/-!
# The phone's sending end

The `poll_write` of the device, the unbounded channel behind it and `writer_task`, which puts
frames on the stream that goes out on the cable.  A write call may get any number of bytes out, and
may fail after any number of bytes; then the task ends and what is still queued is dropped.

* `carries_step`: whole frames go out, in order; a packet that is not framed leaves no trace.
* `Queued`: every accepted packet that fits a frame is written, held, queued, or was dropped by a
  failed writer.
-/

namespace RickyNet

structure Outbound where
  /-- the device has not been dropped -/
  device : Bool
  /-- the unbounded channel -/
  queue : List Bytes
  writer : WriterTask
  /-- `RX_BYTES` -/
  rxBytes : UInt64
  stream : ByteStream UInt8
  /-- the packets of all `poll_write` calls, in order -/
  calls : List Bytes
  /-- the packets `poll_write` has accepted, in order -/
  accepted : List Bytes
  /-- the packets whose frames `writer_task` has written completely, in order -/
  written : List Bytes
  /-- a write or a flush has failed -/
  failed : Bool
  /-- what was held and queued at the failure -/
  dropped : List Bytes

/-- `writer_task` has ended and dropped its receiver. -/
def WriterTask.isEnded : WriterTask → Bool
  | .ended _ => true
  | _ => false

namespace Outbound

def start : Outbound := ⟨true, [], .recv, 0, .empty, [], [], [], false, []⟩

inductive Act
  | pollWrite (packet : Bytes)
  /-- the device is dropped -/
  | drop
  /-- `rx.recv()` completes -/
  | recv
  /-- the write call in progress gets `n` bytes out -/
  | write (n : Nat)
  /-- the write call in progress fails -/
  | writeErr
  /-- `RX_BYTES.fetch_add` -/
  | count
  | flush
  | flushErr
deriving DecidableEq

/-- `poll_write`: accepted as long as the receiver is there. -/
def pollWrite (o : Outbound) (packet : Bytes) : Outbound :=
  if o.writer.isEnded then { o with calls := o.calls ++ [packet] }
  else { o with
    queue := o.queue ++ [packet]
    calls := o.calls ++ [packet]
    accepted := o.accepted ++ [packet] }

/-- The next packet comes off the queue: a frame is begun, or the packet is dropped. -/
def received (o : Outbound) (packet : Bytes) (rest : List Bytes) : Outbound :=
  if h : packet.length > 65535 then { o with queue := rest }
  else { o with queue := rest, writer := .write (.start packet (Nat.le_of_not_lt h)) }

/-- The write call in progress, writing the frame of `w`, gets `n` bytes out. -/
def writePiece (o : Outbound) (w : FrameWrite) (n : Nat) : Outbound :=
  let stream := o.stream.put (w.pending.take n)
  match w.accept n with
  | some w => { o with writer := .write w, stream := stream }
  | none =>
    { o with writer := .count w.packet, stream := stream, written := o.written ++ [w.packet] }

/-- The task ends on an error, with its queue. -/
def fail (o : Outbound) : Outbound :=
  { o with
    queue := []
    writer := .ended o.writer.out
    failed := true
    dropped := o.writer.holding ++ o.queue }

def step (o : Outbound) : Act → Option Outbound
  | .pollWrite packet => if o.device then some (o.pollWrite packet) else none
  | .drop => some { o with device := false }
  | .recv =>
    match o.writer with
    | .recv =>
      match o.queue with
      | packet :: rest => some (o.received packet rest)
      | [] => if o.device then none else some { o with writer := .ended [] }
    | _ => none
  | .write n =>
    match o.writer with
    | .write w => if 0 < n ∧ n ≤ w.pending.length then some (o.writePiece w n) else none
    | _ => none
  | .writeErr =>
    match o.writer with
    | .write _ => some o.fail
    | _ => none
  | .count =>
    match o.writer with
    | .count packet =>
      some { o with
        writer := if o.queue.isEmpty then .flush else .recv
        rxBytes := o.rxBytes + UInt64.ofNat packet.length }
    | _ => none
  | .flush =>
    match o.writer with
    | .flush => some { o with writer := .recv }
    | _ => none
  | .flushErr =>
    match o.writer with
    | .flush => some o.fail
    | _ => none

/-- What a step does. -/
inductive Moves (o : Outbound) : Act → Outbound → Prop
  | pollWrite (packet : Bytes) (hd : o.device = true) : Moves o (.pollWrite packet) (o.pollWrite packet)
  | drop : Moves o .drop { o with device := false }
  | recv (packet : Bytes) (rest : List Bytes) (hw : o.writer = .recv) (hq : o.queue = packet :: rest) :
      Moves o .recv (o.received packet rest)
  | closed (hw : o.writer = .recv) (hq : o.queue = []) (hd : o.device = false) :
      Moves o .recv { o with writer := .ended [] }
  | write (w : FrameWrite) (n : Nat) (hw : o.writer = .write w) (hpos : 0 < n)
      (hn : n ≤ w.pending.length) : Moves o (.write n) (o.writePiece w n)
  | writeErr (w : FrameWrite) (hw : o.writer = .write w) : Moves o .writeErr o.fail
  | count (packet : Bytes) (hw : o.writer = .count packet) : Moves o .count
      { o with
        writer := if o.queue.isEmpty then .flush else .recv
        rxBytes := o.rxBytes + UInt64.ofNat packet.length }
  | flush (hw : o.writer = .flush) : Moves o .flush { o with writer := .recv }
  | flushErr (hw : o.writer = .flush) : Moves o .flushErr o.fail

theorem moves_of_step {o o' : Outbound} {a : Act} (h : o.step a = some o') : o.Moves a o' := by
  cases a with
  | pollWrite packet =>
    simp only [step] at h
    split at h
    · next hd => cases h; exact .pollWrite packet hd
    · cases h
  | drop => cases h; exact .drop
  | recv =>
    simp only [step] at h
    split at h
    · next hw =>
      split at h
      · next packet rest hq => cases h; exact .recv packet rest hw hq
      · next hq =>
        split at h
        · cases h
        · next hd => cases h; exact .closed hw hq (Bool.eq_false_iff.2 hd)
    · cases h
  | write n =>
    simp only [step] at h
    split at h
    · next w hw =>
      split at h
      · next hn => cases h; exact .write w n hw hn.1 hn.2
      · cases h
    · cases h
  | writeErr =>
    simp only [step] at h
    split at h
    · next w hw => cases h; exact .writeErr w hw
    · cases h
  | count =>
    simp only [step] at h
    split at h
    · next packet hw => cases h; exact .count packet hw
    · cases h
  | flush =>
    simp only [step] at h
    split at h
    · next hw => cases h; exact .flush hw
    · cases h
  | flushErr =>
    simp only [step] at h
    split at h
    · next hw => cases h; exact .flushErr hw
    · cases h

/-! ## What goes out on the stream -/

/-- The frames of `written` are on the stream, and the beginning of one more that `writer_task` is
writing; `received` and `got` is what the other end has read. -/
def Carrying (received : List Bytes) (got : Bytes) (o : Outbound) : Prop :=
  o.stream.Carries wire o.written o.writer.out received got

/-- **The writer stays in step.** -/
theorem carries_step {received : List Bytes} {got : Bytes} {o o' : Outbound} {a : Act}
    (ho : o.Carrying received got) (h : o.step a = some o') : o'.Carrying received got := by
  unfold Carrying at ho ⊢
  cases moves_of_step h with
  | pollWrite packet hd =>
    unfold Outbound.pollWrite
    by_cases he : o.writer.isEnded
    · rw [if_pos he]
      exact ho
    · rw [if_neg he]
      exact ho
  | drop => exact ho
  | recv packet rest hw hq =>
    rw [hw] at ho
    unfold Outbound.received
    by_cases hp : packet.length > 65535
    · rw [dif_pos hp]
      show o.stream.Carries wire o.written o.writer.out received got
      rw [hw]
      exact ho
    · rw [dif_neg hp]
      exact ho
  | closed hw hq hd =>
    rw [hw] at ho
    exact ho
  | write w n hw hpos hn =>
    rw [hw] at ho
    unfold writePiece
    cases ha : w.accept n with
    | some w' =>
      exact ho.put_part (w.accept_some w' n hn ha).2 w'.split_out
    | none => exact ho.put_last (w.accept_none n hn ha) w.fits
  | writeErr w hw => exact ho
  | count packet hw =>
    rw [hw] at ho
    by_cases hq : o.queue.isEmpty
    · simp only [hq, if_true]
      exact ho
    · simp only [hq]
      exact ho
  | flush hw =>
    rw [hw] at ho
    exact ho
  | flushErr hw => exact ho

/-! ## Where the packets are -/

/-- Every accepted packet that fits a frame is accounted for. -/
structure Queued (o : Outbound) : Prop where
  packets : o.accepted.filter framable = o.written ++ o.writer.holding ++
    o.queue.filter framable ++ o.dropped.filter framable
  dropped : o.dropped ≠ [] → o.failed = true
  held : ∀ p ∈ o.writer.holding, framable p = true
  ended : o.failed = true → o.writer.isEnded = true
  accepted : o.accepted <+: o.calls
  all : o.writer.isEnded = false → o.accepted = o.calls

theorem start_queued : start.Queued where
  packets := rfl
  dropped := fun h => absurd rfl h
  held := by simp [start, WriterTask.holding]
  ended := by simp [start]
  accepted := List.prefix_refl _
  all := fun _ => rfl

/-- While the task runs it has dropped nothing. -/
theorem Queued.nothing_dropped {o : Outbound} (h : o.Queued) (he : o.writer.isEnded = false) :
    o.dropped = [] := by
  by_contra hne
  rw [h.ended (h.dropped hne)] at he
  cases he

/-- A step that moves no packet. -/
theorem Queued.of_eq {o o' : Outbound} (h : o.Queued) (hw : o'.written = o.written)
    (hq : o'.queue = o.queue) (hd : o'.dropped = o.dropped) (hf : o'.failed = o.failed)
    (ha : o'.accepted = o.accepted) (hc : o'.calls = o.calls)
    (hh : o'.writer.holding = o.writer.holding) (he : o'.writer.isEnded = o.writer.isEnded) :
    o'.Queued where
  packets := by rw [ha, hw, hh, hq, hd]; exact h.packets
  dropped := by rw [hd, hf]; exact h.dropped
  held := by rw [hh]; exact h.held
  ended := by rw [hf, he]; exact h.ended
  accepted := by rw [ha, hc]; exact h.accepted
  all := by rw [he, ha, hc]; exact h.all

theorem queued_pollWrite {o : Outbound} (ho : o.Queued) (packet : Bytes) :
    (o.pollWrite packet).Queued := by
  unfold pollWrite
  by_cases he : o.writer.isEnded
  · rw [if_pos he]
    refine ⟨ho.packets, ho.dropped, ho.held, ho.ended, ?_, fun h => absurd he (by simpa using h)⟩
    exact ho.accepted.trans (List.prefix_append _ _)
  · rw [if_neg he]
    rw [Bool.not_eq_true] at he
    have hall := ho.all he
    have hpk := ho.packets
    rw [ho.nothing_dropped he] at hpk
    refine ⟨?_, ho.dropped, ho.held, ho.ended, ?_, fun _ => ?_⟩
    · show (o.accepted ++ [packet]).filter framable = o.written ++ o.writer.holding ++
        (o.queue ++ [packet]).filter framable ++ o.dropped.filter framable
      rw [ho.nothing_dropped he, List.filter_append, hpk, List.filter_append]
      simp only [List.filter_nil, List.append_nil, List.append_assoc]
    · show o.accepted ++ [packet] <+: o.calls ++ [packet]
      rw [hall]
    · show o.accepted ++ [packet] = o.calls ++ [packet]
      rw [hall]

/-- An oversize packet leaves the queue and nothing else changes. -/
theorem queued_received {o : Outbound} (ho : o.Queued) (hw : o.writer = .recv) {packet : Bytes}
    {rest : List Bytes} (hq : o.queue = packet :: rest) : (o.received packet rest).Queued := by
  have hpk := ho.packets
  have hall := ho.all (by rw [hw]; rfl)
  have hfail : o.failed = false := by
    by_contra hne
    have := ho.ended (by simpa using hne)
    rw [hw] at this
    cases this
  rw [hw, hq] at hpk
  unfold received
  have hf := framable_iff packet
  by_cases hp : packet.length > 65535
  · rw [dif_pos hp]
    rw [List.filter_cons_of_neg (by rw [hf]; omega)] at hpk
    refine ⟨?_, ho.dropped, ho.held, ho.ended, ho.accepted, ho.all⟩
    show o.accepted.filter framable = o.written ++ o.writer.holding ++ rest.filter framable ++
      o.dropped.filter framable
    rw [hw]
    exact hpk
  · rw [dif_neg hp]
    rw [List.filter_cons_of_pos (by rw [hf]; omega)] at hpk
    refine ⟨?_, ho.dropped, ?_, ?_, ho.accepted, fun _ => hall⟩
    · show o.accepted.filter framable = o.written ++ [packet] ++ rest.filter framable ++
        o.dropped.filter framable
      rw [hpk]
      simp [WriterTask.holding]
    · intro p hmem
      rw [List.mem_singleton.1 hmem]
      exact hf.2 (Nat.le_of_not_lt hp)
    · intro h
      rw [show o.failed = true from h] at hfail
      cases hfail

theorem queued_fail {o : Outbound} (ho : o.Queued) (he : o.writer.isEnded = false) :
    o.fail.Queued := by
  have hpk := ho.packets
  have hall := ho.all he
  rw [ho.nothing_dropped he] at hpk
  refine ⟨?_, fun _ => rfl, by simp [fail, WriterTask.holding], fun _ => rfl, ho.accepted, fun _ => hall⟩
  show o.accepted.filter framable = o.written ++ [] ++ ([] : List Bytes).filter framable ++
    (o.writer.holding ++ o.queue).filter framable
  rw [hpk, List.filter_append, List.filter_eq_self.2 ho.held]
  simp

theorem queued_writePiece {o : Outbound} (ho : o.Queued) {w : FrameWrite} (hw : o.writer = .write w)
    {n : Nat} (hn : n ≤ w.pending.length) : (o.writePiece w n).Queued := by
  have hpk := ho.packets
  have hall := ho.all (by rw [hw]; rfl)
  have hheld := ho.held
  have hend := ho.ended
  rw [hw] at hpk hheld hend
  unfold writePiece
  cases ha : w.accept n with
  | some w' =>
    have hpacket : w'.packet = w.packet := (w.accept_some w' n hn ha).1
    refine ho.of_eq rfl rfl rfl rfl rfl rfl ?_ (by rw [hw]; rfl)
    show [w'.packet] = o.writer.holding
    rw [hpacket, hw]
    rfl
  | none =>
    refine ⟨?_, ho.dropped, by simp [WriterTask.holding], hend, ho.accepted, fun _ => hall⟩
    show o.accepted.filter framable = (o.written ++ [w.packet]) ++ [] ++ o.queue.filter framable ++
      o.dropped.filter framable
    rw [hpk, List.append_nil]
    rfl

theorem queued_step {o o' : Outbound} {a : Act} (ho : o.Queued) (h : o.step a = some o') :
    o'.Queued := by
  cases moves_of_step h with
  | pollWrite packet hd => exact queued_pollWrite ho packet
  | drop => exact ho.of_eq rfl rfl rfl rfl rfl rfl rfl rfl
  | recv packet rest hw hq => exact queued_received ho hw hq
  | closed hw hq hd =>
    have hpk := ho.packets
    rw [hw] at hpk
    exact ⟨hpk, ho.dropped, by simp [WriterTask.holding], fun _ => rfl, ho.accepted,
      fun h => by cases h⟩
  | write w n hw hpos hn => exact queued_writePiece ho hw hn
  | writeErr w hw => exact queued_fail ho (by rw [hw]; rfl)
  | count packet hw =>
    have hhold : o.writer.holding = [] := by rw [hw]; rfl
    have hrun : o.writer.isEnded = false := by rw [hw]; rfl
    cases hq : o.queue.isEmpty with
    | true =>
      exact ho.of_eq rfl rfl rfl rfl rfl rfl (by rw [hhold]; rfl) (by rw [hrun]; rfl)
    | false =>
      exact ho.of_eq rfl rfl rfl rfl rfl rfl (by rw [hhold]; rfl) (by rw [hrun]; rfl)
  | flush hw => exact ho.of_eq rfl rfl rfl rfl rfl rfl (by rw [hw]; rfl) (by rw [hw]; rfl)
  | flushErr hw => exact queued_fail ho (by rw [hw]; rfl)

end Outbound

end RickyNet
