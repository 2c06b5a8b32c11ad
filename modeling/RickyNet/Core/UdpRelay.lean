import RickyNet.Lib.Runs
import RickyNet.Wire.Codec

/-!
# The UDP relay

`handle_udp` with its cellular socket open: the `up` loop and the `down` loop race under `select!`,
and the first one to end ends the flow.  Both loops move one datagram at a time through a buffer of
65535 bytes; a write to the netstack takes the whole of it.

`Relayed` says that no datagram is lost and the flow is up; `relayed_iff` says when this is so in a
run without errors.
-/

namespace RickyNet

/-- The largest UDP payload: what the 16 bits of the length leave behind the header, over IPv6.  Over IPv4
it is 20 bytes less. -/
def MAX_DATAGRAM : Nat := 65527

/-- The buffers of the two loops. -/
def UDP_BUF : Nat := 65535

/-- Where the `up` loop is. -/
inductive UdpUp
  /-- in `udp_r.read` -/
  | read
  /-- in `real_up.send` -/
  | send (buf : Bytes)
deriving DecidableEq

/-- Where the `down` loop is. -/
inductive UdpDown
  /-- in `real.recv` -/
  | recv
  /-- in `udp_w.write_all` -/
  | write (buf : Bytes)
deriving DecidableEq

inductive UdpSide
  | desktop
  | internet
deriving DecidableEq

structure UdpFlow where
  up : UdpUp
  down : UdpDown
  /-- the loop that has ended, and with it the flow -/
  endedBy : Option UdpSide
  /-- on the real socket, not yet received -/
  queue : List Bytes
  upBytes : UInt64
  downBytes : UInt64
  /-- the datagrams that have arrived on the real socket, in order -/
  arrived : List Bytes
  /-- the datagrams written to the desktop, in order -/
  written : List Bytes
  /-- the datagrams read from the desktop, in order -/
  fromDesktop : List Bytes
  /-- the datagrams sent on the real socket, in order -/
  sent : List Bytes
deriving DecidableEq

def UdpUp.holding : UdpUp → List Bytes
  | .send buf => [buf]
  | .read => []

def UdpDown.holding : UdpDown → List Bytes
  | .write buf => [buf]
  | .recv => []

namespace UdpFlow

def start : UdpFlow := ⟨.read, .recv, none, [], 0, 0, [], [], [], []⟩

inductive Act
  /-- a datagram arrives on the real socket -/
  | arrive (datagram : Bytes)
  /-- `udp_r.read` returns a datagram of the desktop -/
  | read (datagram : Bytes)
  /-- `udp_r.read` fails, or the desktop side has ended -/
  | readEnd
  /-- `real_up.send` returns -/
  | send (ok : Bool)
  /-- `real.recv` returns the first datagram -/
  | recv
  | recvErr
  /-- `udp_w.write_all` returns -/
  | write (ok : Bool)
deriving DecidableEq

/-- The `up` loop has read into its buffer. -/
def upRead (s : UdpFlow) (datagram : Bytes) : UdpFlow :=
  let buf := datagram.take UDP_BUF
  if buf.length = 0 then { s with endedBy := some .desktop }
  else { s with up := .send buf, fromDesktop := s.fromDesktop ++ [datagram] }

/-- The `down` loop has received into its buffer. -/
def downRecv (s : UdpFlow) (datagram : Bytes) (rest : List Bytes) : UdpFlow :=
  let buf := datagram.take UDP_BUF
  if buf.length > 0 then { s with down := .write buf, queue := rest }
  else { s with queue := rest, endedBy := some .internet }

def step (s : UdpFlow) (a : Act) : Option UdpFlow :=
  if s.endedBy ≠ none then none
  else
    match a with
    | .arrive datagram =>
      if datagram.length ≤ MAX_DATAGRAM then
        some { s with queue := s.queue ++ [datagram], arrived := s.arrived ++ [datagram] }
      else none
    | .read datagram =>
      match s.up with
      | .read => if datagram.length ≤ MAX_DATAGRAM then some (s.upRead datagram) else none
      | _ => none
    | .readEnd =>
      match s.up with
      | .read => some { s with endedBy := some .desktop }
      | _ => none
    | .send ok =>
      match s.up with
      | .send buf =>
        if ok then some { s with
          up := .read
          upBytes := s.upBytes + UInt64.ofNat buf.length
          sent := s.sent ++ [buf] }
        else some { s with endedBy := some .desktop }
      | _ => none
    | .recv =>
      match s.down, s.queue with
      | .recv, datagram :: rest => some (s.downRecv datagram rest)
      | _, _ => none
    | .recvErr =>
      match s.down with
      | .recv => some { s with endedBy := some .internet }
      | _ => none
    | .write ok =>
      match s.down with
      | .write buf =>
        if ok then some { s with
          down := .recv
          downBytes := s.downBytes + UInt64.ofNat buf.length
          written := s.written ++ [buf] }
        else some { s with endedBy := some .internet }
      | _ => none

/-- No operation fails, and the desktop side does not end. -/
def Act.calm : Act → Bool
  | .readEnd => false
  | .send ok => ok
  | .recvErr => false
  | .write ok => ok
  | _ => true

/-- The flow is up; what has arrived is what has been written to the desktop, what is being written
and what has not been received, and what has been read is what has been sent and what is being
sent. -/
structure Relayed (s : UdpFlow) : Prop where
  up : s.endedBy = none
  down : s.arrived = s.written ++ s.down.holding ++ s.queue
  sent : s.fromDesktop = s.sent ++ s.up.holding

/-- Neither loop takes an empty datagram. -/
def NotEmpty (s : UdpFlow) (a : Act) : Prop :=
  a ≠ .read [] ∧ (a = .recv → s.queue.head? ≠ some [])

/-- Datagrams fit the buffers. -/
structure Inv (s : UdpFlow) : Prop where
  relayed : s.Relayed
  fits : ∀ d ∈ s.queue, d.length ≤ MAX_DATAGRAM

theorem start_inv : start.Inv := ⟨⟨rfl, rfl, rfl⟩, by simp [start]⟩

theorem take_buf {d : Bytes} (h : d.length ≤ MAX_DATAGRAM) : d.take UDP_BUF = d := by
  apply List.take_of_length_le
  unfold UDP_BUF
  unfold MAX_DATAGRAM at h
  omega

theorem upRead_eq (s : UdpFlow) {d : Bytes} (h : d.length ≤ MAX_DATAGRAM) :
    s.upRead d = if d = [] then { s with endedBy := some .desktop }
      else { s with up := .send d, fromDesktop := s.fromDesktop ++ [d] } := by
  unfold upRead
  simp only [take_buf h, List.length_eq_zero_iff]

theorem downRecv_eq (s : UdpFlow) {d : Bytes} (rest : List Bytes) (h : d.length ≤ MAX_DATAGRAM) :
    s.downRecv d rest = if d = [] then { s with queue := rest, endedBy := some .internet }
      else { s with down := .write d, queue := rest } := by
  unfold downRecv
  rw [take_buf h]
  by_cases hd : d = []
  · simp [hd]
  · have hpos := List.length_pos_of_ne_nil hd
    rw [if_neg hd]
    simp [hpos]

/-- A step of a run without errors. -/
theorem step_inv {s s' : UdpFlow} {a : Act} (hs : s.Inv) (hcalm : a.calm = true)
    (ha : s.NotEmpty a) (h : s.step a = some s') : s'.Inv := by
  obtain ⟨⟨hup, hdown, hsent⟩, hfits⟩ := hs
  unfold step at h
  rw [if_neg (by simp [hup])] at h
  cases a with
  | arrive d =>
    simp only at h
    split at h
    · next hd =>
      cases h
      refine ⟨⟨hup, ?_, hsent⟩, ?_⟩
      · show s.arrived ++ [d] = s.written ++ s.down.holding ++ (s.queue ++ [d])
        rw [hdown, List.append_assoc _ s.queue]
      · intro x hx
        rcases List.mem_append.1 hx with hx | hx
        · exact hfits x hx
        · rw [List.mem_singleton.1 hx]
          exact hd
    · cases h
  | read d =>
    simp only at h
    split at h
    · next hu =>
      split at h
      · next hd =>
        cases h
        rw [hu] at hsent
        have hne : d ≠ [] := fun he => ha.1 (by rw [he])
        rw [upRead_eq s hd, if_neg hne]
        refine ⟨⟨hup, hdown, ?_⟩, hfits⟩
        show s.fromDesktop ++ [d] = s.sent ++ [d]
        rw [hsent]
        simp [UdpUp.holding]
      · cases h
    · cases h
  | readEnd => cases hcalm
  | send ok =>
    obtain rfl : ok = true := hcalm
    simp only [if_true] at h
    split at h
    · next buf hu =>
      cases h
      rw [hu] at hsent
      refine ⟨⟨hup, hdown, ?_⟩, hfits⟩
      show s.fromDesktop = s.sent ++ [buf] ++ []
      rw [hsent, List.append_nil]
      rfl
    · cases h
  | recv =>
    simp only at h
    split at h
    · next d rest hd hq =>
      cases h
      rw [hd, hq] at hdown
      have hdl : d.length ≤ MAX_DATAGRAM := hfits d (by rw [hq]; exact List.mem_cons_self)
      have hne : d ≠ [] := fun he => ha.2 rfl (by rw [hq, he]; rfl)
      rw [downRecv_eq s rest hdl, if_neg hne]
      refine ⟨⟨hup, ?_, hsent⟩, fun x hx => hfits x (by rw [hq]; exact List.mem_cons_of_mem _ hx)⟩
      show s.arrived = s.written ++ [d] ++ rest
      rw [hdown]
      simp [UdpDown.holding]
    · cases h
  | recvErr => cases hcalm
  | write ok =>
    obtain rfl : ok = true := hcalm
    simp only [if_true] at h
    split at h
    · next buf hd =>
      cases h
      rw [hd] at hdown
      refine ⟨⟨hup, ?_, hsent⟩, hfits⟩
      show s.arrived = s.written ++ [buf] ++ [] ++ s.queue
      rw [hdown, List.append_nil]
      rfl
    · cases h

/-- An empty datagram ends the flow. -/
theorem ended_of_empty {s s' : UdpFlow} {a : Act} (ha : ¬ s.NotEmpty a) (h : s.step a = some s') :
    s'.endedBy ≠ none := by
  unfold step at h
  split at h
  · cases h
  by_cases hr : a = .read []
  · subst hr
    simp only at h
    split at h
    · split at h
      · cases h
        exact Option.some_ne_none _
      · cases h
    · cases h
  · obtain ⟨rfl, hq⟩ : a = .recv ∧ s.queue.head? = some [] := by
      by_contra hcon
      refine ha ⟨hr, fun he hh => hcon ⟨he, hh⟩⟩
    simp only at h
    split at h
    · next d rest hd hqueue =>
      rw [hqueue] at hq
      cases hq
      cases h
      exact Option.some_ne_none _
    · cases h

end UdpFlow

/-- **When the relay keeps every datagram.**  In a run in which no operation fails and the desktop
side does not end: the flow stays up, and every datagram that arrives is written to the desktop, one
write each, in order and unchanged, or is still on the way, if and only if neither loop takes an
empty datagram. -/
theorem relayed_iff (acts : List UdpFlow.Act) (hcalm : ∀ a ∈ acts, a.calm = true) :
    Runs.Throughout UdpFlow.step UdpFlow.Relayed .start acts ↔
      Runs.Along UdpFlow.step UdpFlow.NotEmpty .start acts := by
  constructor
  · intro h pre a t t' hp ht ha
    by_contra hne
    exact UdpFlow.ended_of_empty hne ha (h.after hp ht ha).up
  · intro h
    have hboth : Runs.Along UdpFlow.step (fun s a => a.calm = true ∧ s.NotEmpty a) .start acts :=
      fun pre a t t' hp ht ha =>
        ⟨hcalm a (hp.subset (by simp)), h pre a t t' hp ht ha⟩
    have hinv := Runs.throughout_of_along UdpFlow.Inv
      (fun s a s' hs ha hst => UdpFlow.step_inv hs ha.1 ha.2 hst) UdpFlow.start_inv hboth
    exact hinv.mono fun s hs => hs.relayed

/-- Both loops at work. -/
theorem relayed_iff_run : ∃ acts s, Runs.exec UdpFlow.step .start acts = some s ∧
    s.written = [[1, 2]] ∧ s.sent = [[9]] ∧
    (Runs.Throughout UdpFlow.step UdpFlow.Relayed .start acts ↔
      Runs.Along UdpFlow.step UdpFlow.NotEmpty .start acts) :=
  ⟨[.read [9], .arrive [1, 2], .recv, .send true, .arrive [3], .write true], _, rfl, rfl, rfl,
    relayed_iff [.read [9], .arrive [1, 2], .recv, .send true, .arrive [3], .write true] (by decide)⟩

/-- No operation fails and the desktop side does not end; an empty datagram between two others ends
the flow, and the last one is never written. -/
theorem empty_datagram_ends_flow : ∃ acts s, (∀ a ∈ acts, UdpFlow.Act.calm a = true) ∧
    Runs.exec UdpFlow.step .start acts = some s ∧ s.endedBy = some .internet ∧
    s.arrived = [[1], [], [2]] ∧ s.written = [[1]] ∧ ¬ s.Relayed :=
  ⟨[.arrive [1], .arrive [], .arrive [2], .recv, .write true, .recv], _, by decide, rfl, rfl, rfl, rfl,
    fun h => by cases h.up⟩

end RickyNet
