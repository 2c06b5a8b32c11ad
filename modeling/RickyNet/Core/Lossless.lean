import RickyNet.Core.Device
import RickyNet.Lib.Runs

/-!
# `poll_read` with buffers of any size

Packets arrive in the channel, and ipstack polls with whatever room it has.  A packet that does not
fit is kept as the leftover and finished before the next one is taken.

`Inv` groups the fills by the packet they come from; `poll_read_lossless` is what it gives.
-/

namespace RickyNet

/-- What `poll_read` takes from next: a packet, and how much of it has gone out. -/
def FramedDevice.current (d : FramedDevice) : Option (Bytes × Nat) :=
  match d.leftover with
  | some (pkt, pos) => some (pkt, pos)
  | none =>
    match d.incoming with
    | pkt :: _ => some (pkt, 0)
    | [] => none

/-- What is left of a packet that has been begun. -/
def FramedDevice.unread (d : FramedDevice) : Bytes :=
  match d.leftover with
  | some (pkt, pos) => pkt.drop pos
  | none => []

/-- The device with its history. -/
structure Polling where
  device : FramedDevice
  /-- the packets that have arrived in the channel, in order -/
  arrived : List Bytes
  /-- what the `Ready` calls have put into their buffers, in order -/
  fills : List Bytes

namespace Polling

def start : Polling := ⟨.new, [], []⟩

inductive Act
  /-- `reader_task` queues a packet -/
  | arrive (pkt : Bytes)
  /-- `poll_read` with `remaining` free bytes -/
  | poll (remaining : Nat)
  /-- `reader_task` ends -/
  | close
deriving DecidableEq

def step (s : Polling) : Act → Option Polling
  | .arrive pkt =>
    if s.device.closed = false ∧ pkt ≠ [] then
      some { s with device := s.device.enqueue pkt, arrived := s.arrived ++ [pkt] }
    else none
  | .poll remaining =>
    if 0 < remaining then
      match s.device.pollRead remaining with
      | (.ready put, d) => some { s with device := d, fills := s.fills ++ [put] }
      | (.pending, d) => some { s with device := d }
    else none
  | .close => some { s with device := s.device.close }

/-- The packet that has been begun, as a list of at most one. -/
def begun (s : Polling) : List Bytes :=
  match s.device.leftover with
  | some (pkt, _) => [pkt]
  | none => []

/-- `done` are the fills of the packets that are finished, one list for each; `last` are those of the
packet that has been begun. -/
structure Grouped (s : Polling) (done : List (List Bytes)) (last : List Bytes) : Prop where
  fills : s.fills = done.flatten ++ last
  arrived : s.arrived = done.map List.flatten ++ s.begun ++ s.device.incoming
  begun : ∀ pkt pos, s.device.leftover = some (pkt, pos) →
    last.flatten = pkt.take pos ∧ 0 < pos ∧ pos < pkt.length
  between : s.device.leftover = none → last = []

structure Inv (s : Polling) : Prop where
  grouped : ∃ done last, s.Grouped done last
  nonempty : ∀ pkt ∈ s.device.incoming, pkt ≠ []
  filled : ∀ put ∈ s.fills, put ≠ []

theorem init_inv : start.Inv where
  grouped := ⟨[], [], rfl, rfl, fun _ _ h => (by cases h), fun _ => rfl⟩
  nonempty := by simp [start, FramedDevice.new]
  filled := by simp [start]

/-- **One call with a leftover.**  It takes what fits, and the queue is not touched. -/
theorem pollRead_leftover (d : FramedDevice) (remaining : Nat) {pkt : Bytes} {pos : Nat}
    (hl : d.leftover = some (pkt, pos)) :
    d.pollRead remaining = (.ready ((pkt.drop pos).take remaining),
      { d with leftover :=
        if pos + remaining < pkt.length then some (pkt, pos + remaining) else none }) := by
  unfold FramedDevice.pollRead
  rw [hl]
  simp only [Prod.mk.injEq, PollRead.ready.injEq]
  rcases Nat.lt_or_ge (pos + remaining) pkt.length with h | h
  · have hn : min (pkt.length - pos) remaining = remaining := by omega
    rw [hn]
    exact ⟨rfl, rfl⟩
  · have hn : min (pkt.length - pos) remaining = pkt.length - pos := by omega
    rw [hn, if_neg (by omega), if_neg (by omega)]
    refine ⟨?_, rfl⟩
    rw [List.take_of_length_le (by rw [List.length_drop]),
      List.take_of_length_le (by rw [List.length_drop]; omega)]

/-- **One call without a leftover.**  It takes the next packet, and as much of it as fits. -/
theorem pollRead_next (d : FramedDevice) (remaining : Nat) (hl : d.leftover = none) {pkt : Bytes}
    {rest : List Bytes} (hq : d.incoming = pkt :: rest) :
    d.pollRead remaining = (.ready (pkt.take remaining),
      { d with
        incoming := rest
        leftover := if remaining < pkt.length then some (pkt, remaining) else none }) := by
  unfold FramedDevice.pollRead
  rw [hl, hq]
  simp only [Prod.mk.injEq, PollRead.ready.injEq]
  rcases Nat.lt_or_ge remaining pkt.length with h | h
  · have hn : min pkt.length remaining = remaining := by omega
    rw [hn]
    exact ⟨rfl, rfl⟩
  · have hn : min pkt.length remaining = pkt.length := by omega
    rw [hn, if_neg (by omega), if_neg (by omega)]
    refine ⟨?_, rfl⟩
    rw [List.take_length, List.take_of_length_le h]

/-- The packet that is being read goes on or is finished. -/
theorem grouped_poll {s : Polling} {done : List (List Bytes)} {last : List Bytes} {pkt : Bytes}
    {pos : Nat} {rest : List Bytes} (remaining : Nat) (hfills : s.fills = done.flatten ++ last)
    (harr : s.arrived = done.map List.flatten ++ [pkt] ++ rest) (hlast : last.flatten = pkt.take pos)
    (hrem : 0 < remaining) (d : FramedDevice) (hinc : d.incoming = rest)
    (hl : d.leftover = if pos + remaining < pkt.length then some (pkt, pos + remaining) else none) :
    ∃ done last, Grouped
      { s with device := d, fills := s.fills ++ [(pkt.drop pos).take remaining] } done last := by
  have hput : (last ++ [(pkt.drop pos).take remaining]).flatten = pkt.take (pos + remaining) := by
    rw [List.flatten_append, hlast, List.flatten_singleton, ← List.take_add]
  by_cases hmore : pos + remaining < pkt.length
  · rw [if_pos hmore] at hl
    refine ⟨done, last ++ [(pkt.drop pos).take remaining], ?_, ?_, ?_, ?_⟩
    · show s.fills ++ _ = _
      rw [hfills, List.append_assoc]
    · show s.arrived = _
      rw [harr, ← hinc]
      unfold begun
      simp only [hl]
    · intro p q hpq
      rw [hl] at hpq
      cases hpq
      exact ⟨hput, by omega, hmore⟩
    · intro h
      rw [hl] at h
      cases h
  · rw [if_neg hmore] at hl
    rw [List.take_of_length_le (by omega : pkt.length ≤ pos + remaining)] at hput
    refine ⟨done ++ [last ++ [(pkt.drop pos).take remaining]], [], ?_, ?_, ?_, fun _ => rfl⟩
    · show s.fills ++ _ = _
      rw [hfills]
      simp
    · show s.arrived = _
      rw [harr, ← hinc, List.map_append, List.map_singleton, hput]
      unfold begun
      simp only [hl, List.append_nil]
    · intro p q hpq
      rw [hl] at hpq
      cases hpq

theorem Inv.filled_concat {s : Polling} (hs : s.Inv) {put : Bytes} (hput : 0 < put.length) :
    ∀ p ∈ s.fills ++ [put], p ≠ [] := by
  intro p hp
  rcases List.mem_append.1 hp with hp | hp
  · exact hs.filled p hp
  · rw [List.mem_singleton.1 hp]
    exact List.ne_nil_of_length_pos hput

theorem poll_inv {s s' : Polling} (hs : s.Inv) {remaining : Nat}
    (h : s.step (.poll remaining) = some s') : s'.Inv := by
  obtain ⟨done, last, hg⟩ := hs.grouped
  have hne := hs.nonempty
  simp only [step] at h
  split at h
  · next hrem =>
    have harr := hg.arrived
    unfold begun at harr
    cases hl : s.device.leftover with
    | some current =>
      obtain ⟨pkt, pos⟩ := current
      obtain ⟨h1, h2, h3⟩ := hg.begun pkt pos hl
      rw [pollRead_leftover s.device remaining hl] at h
      cases h
      simp only [hl] at harr
      have hput : 0 < ((pkt.drop pos).take remaining).length := by
        rw [List.length_take, List.length_drop]
        omega
      exact ⟨grouped_poll remaining hg.fills harr h1 hrem _ rfl rfl, hne, hs.filled_concat hput⟩
    | none =>
      simp only [hl, List.append_nil] at harr
      cases hq : s.device.incoming with
      | cons pkt rest =>
        rw [pollRead_next s.device remaining hl hq] at h
        cases h
        rw [hq] at hne harr
        have hpkt : 0 < pkt.length := List.length_pos_iff.2 (hne pkt List.mem_cons_self)
        have hput : 0 < (pkt.take remaining).length := by
          rw [List.length_take]
          omega
        refine ⟨?_, fun p hp => hne p (List.mem_cons_of_mem _ hp), hs.filled_concat hput⟩
        have := grouped_poll remaining hg.fills (by simpa using harr)
          (by rw [hg.between hl]; rfl) hrem
          { s.device with
            incoming := rest
            leftover := if 0 + remaining < pkt.length then some (pkt, 0 + remaining) else none } rfl rfl
        simpa using this
      | nil =>
        rw [s.device.pollRead_pending remaining hl hq] at h
        cases h
        exact ⟨⟨done, last, hg⟩, hne, hs.filled⟩
  · cases h

theorem step_inv (s : Polling) (a : Act) (s' : Polling) (hs : s.Inv) (h : s.step a = some s') :
    s'.Inv := by
  cases a with
  | arrive pkt =>
    simp only [step] at h
    split at h
    · next hp =>
      cases h
      obtain ⟨⟨done, last, hg⟩, hne, hfilled⟩ := hs
      refine ⟨⟨done, last, hg.fills, ?_, hg.begun, hg.between⟩, fun q hq => ?_, hfilled⟩
      · show s.arrived ++ [pkt] = done.map List.flatten ++ s.begun ++ (s.device.incoming ++ [pkt])
        rw [hg.arrived, List.append_assoc _ s.device.incoming]
      · rcases List.mem_append.1 hq with hq | hq
        · exact hne q hq
        · rw [List.mem_singleton.1 hq]
          exact hp.2
    · cases h
  | poll remaining => exact poll_inv hs h
  | close =>
    cases h
    obtain ⟨⟨done, last, hg⟩, hne, hfilled⟩ := hs
    exact ⟨⟨done, last, hg.fills, hg.arrived, hg.begun, hg.between⟩, hne, hfilled⟩

theorem run_inv {acts : List Act} {s : Polling} (h : Runs.exec step start acts = some s) : s.Inv :=
  Runs.exec_inv step Inv step_inv init_inv h

/-- What has gone out, what is left of the packet that has been begun, and what is queued. -/
theorem Grouped.flatten_eq {s : Polling} {done : List (List Bytes)} {last : List Bytes}
    (h : s.Grouped done last) :
    s.fills.flatten ++ s.device.unread ++ s.device.incoming.flatten = s.arrived.flatten := by
  have hfills : s.fills.flatten = (done.map List.flatten).flatten ++ last.flatten := by
    rw [h.fills, List.flatten_append, List.flatten_flatten]
  have hmid : last.flatten ++ s.device.unread = s.begun.flatten := by
    unfold FramedDevice.unread Polling.begun
    cases hl : s.device.leftover with
    | some current =>
      obtain ⟨pkt, pos⟩ := current
      rw [(h.begun pkt pos hl).1, List.flatten_singleton]
      exact List.take_append_drop pos pkt
    | none =>
      rw [h.between hl]
      rfl
  rw [h.arrived, hfills, List.append_assoc _ last.flatten, hmid, List.flatten_append,
    List.flatten_append]

/-- The packet that is read next has bytes left. -/
theorem Inv.current_lt {s : Polling} (hs : s.Inv) {pkt : Bytes} {pos : Nat}
    (hc : s.device.current = some (pkt, pos)) : pos < pkt.length := by
  obtain ⟨⟨done, last, hg⟩, hne, -⟩ := hs
  unfold FramedDevice.current at hc
  split at hc
  · next p q hl =>
    cases hc
    exact (hg.begun pkt pos hl).2.2
  · split at hc
    · next p rest hq =>
      cases hc
      exact List.length_pos_iff.2 (hne pkt (by rw [hq]; exact List.mem_cons_self))
    · cases hc

end Polling

/-- What a call answers, by what is there to be read. -/
theorem FramedDevice.pollRead_current (d : FramedDevice) (remaining : Nat) :
    (d.pollRead remaining).1 = match d.current with
      | some (pkt, pos) => .ready ((pkt.drop pos).take remaining)
      | none => .pending := by
  unfold FramedDevice.current
  cases hl : d.leftover with
  | some current =>
    rw [Polling.pollRead_leftover d remaining hl]
  | none =>
    cases hq : d.incoming with
    | cons pkt rest => rw [Polling.pollRead_next d remaining hl hq]; rfl
    | nil => rw [d.pollRead_pending remaining hl hq]

/-- **`poll_read` loses nothing, whatever the buffers.**  In every state of every run a leftover has
been begun and is not finished; what the calls have put into their buffers, the unread part of the
leftover and the queued packets are the packets that have arrived; the fills fall into groups, one for
each packet, in order, and only the last packet touched can be unfinished; and a call with room puts
`min(room, bytes left)` bytes of exactly the current packet, or nothing if there is none. -/
theorem poll_read_lossless (acts : List Polling.Act) (s : Polling)
    (h : Runs.exec Polling.step Polling.start acts = some s) :
    (∀ pkt pos, s.device.leftover = some (pkt, pos) → 0 < pos ∧ pos < pkt.length) ∧
      s.fills.flatten ++ s.device.unread ++ s.device.incoming.flatten = s.arrived.flatten ∧
      (∃ done last, s.Grouped done last) ∧ (∀ put ∈ s.fills, put ≠ []) ∧
      ∀ remaining, 0 < remaining → match s.device.current with
        | some (pkt, pos) => pos + min remaining (pkt.length - pos) ≤ pkt.length ∧ pos < pkt.length ∧
          ∃ put, (s.device.pollRead remaining).1 = .ready put ∧
            put = (pkt.drop pos).take remaining ∧ put.length = min remaining (pkt.length - pos)
        | none => (s.device.pollRead remaining).1 = .pending := by
  have hs := Polling.run_inv h
  obtain ⟨done, last, hg⟩ := hs.grouped
  refine ⟨fun pkt pos hl => (hg.begun pkt pos hl).2, hg.flatten_eq, ⟨done, last, hg⟩, hs.filled, ?_⟩
  intro remaining _
  rw [FramedDevice.pollRead_current]
  cases hc : s.device.current with
  | none => rfl
  | some current =>
    obtain ⟨pkt, pos⟩ := current
    have hpos := hs.current_lt hc
    exact ⟨by omega, hpos, _, rfl, rfl, by rw [List.length_take, List.length_drop]⟩

/-- Two packets through buffers of two bytes. -/
theorem poll_read_lossless_run : ∃ acts s, Runs.exec Polling.step .start acts = some s ∧
    s.fills = [[1, 2], [3], [4, 5]] ∧
    s.fills.flatten ++ s.device.unread ++ s.device.incoming.flatten = s.arrived.flatten := by
  have h : Runs.exec Polling.step .start
      [.poll 2, .arrive [1, 2, 3], .poll 2, .arrive [4, 5, 6], .poll 2, .close, .poll 2] = some _ := rfl
  exact ⟨_, _, h, rfl, (poll_read_lossless _ _ h).2.1⟩

end RickyNet
