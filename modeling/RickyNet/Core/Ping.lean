import RickyNet.Lib.Runs
import RickyNet.Win.Transport

/-!
# Ping

`handle_unknown` re-originates an ICMP echo of the desktop over a datagram socket of its own.  What
`etherparse` reads and writes is a parameter (`Icmp`); what the kernel delivers to a socket is any
sequence of datagrams, from anywhere.

A `PingFlow` is one call of `handle_unknown`, `Pings.step` interleaves any number of them.
`Genuine` says which datagrams answer a request; `ping_honest_iff` says when only those make the
flow reply.
-/

namespace RickyNet

/-- `etherparse::IcmpEchoHeader`. -/
structure IcmpEchoHeader where
  id : UInt16
  seq : UInt16
deriving DecidableEq

/-- `etherparse::Icmpv4Type`. -/
inductive Icmpv4Type
  | echoRequest (echo : IcmpEchoHeader)
  | echoReply (echo : IcmpEchoHeader)
  | other (typeU8 codeU8 : UInt8)
deriving DecidableEq

/-- `etherparse`, and the platform's ping socket. -/
structure Icmp where
  /-- `Icmpv4Header::from_slice`: the type and the data behind the header -/
  fromSlice : Bytes → Except String (Icmpv4Type × Bytes)
  /-- the header with its checksum over the data -/
  toBytes : Icmpv4Type → Bytes → Bytes
  /-- the echo reply in a datagram that a ping socket has received, behind an IP header where the
  platform puts one -/
  echoReply : Bytes → Option IcmpEchoHeader

/-- `ipstack::IpStackUnknownTransport`. -/
structure UnknownTransport where
  ipProtocol : UInt8
  srcAddr : IpAddr
  dstAddr : IpAddr
  payload : Bytes
deriving DecidableEq

/-- `IpNumber::ICMP`. -/
def ICMP : UInt8 := 1

/-- What `handle_unknown` has read of an echo request. -/
structure EchoRequest where
  dst : Ipv4Addr
  echo : IcmpEchoHeader
  data : Bytes
deriving DecidableEq

/-- A datagram as `recv_from` hands it out. -/
structure Datagram where
  source : IpAddr
  bytes : Bytes
deriving DecidableEq

/-- Where a call of `handle_unknown` is. -/
inductive PingPc
  /-- at its beginning -/
  | called
  /-- in `sock.send_to` -/
  | sendTo (r : EchoRequest)
  /-- in `sock.recv_from`, with the timeout running -/
  | recvFrom (r : EchoRequest)
  | returned
deriving DecidableEq

structure PingFlow where
  u : UnknownTransport
  pc : PingPc
  /-- the datagrams that the kernel has delivered to the socket, in order -/
  inbox : List Datagram
  /-- the reply sent to the desktop after an answer on the socket -/
  relayed : Option Bytes
  /-- the reply sent to the desktop for want of a socket -/
  answeredLocally : Option Bytes
deriving DecidableEq

namespace PingFlow

variable (icmp : Icmp)

def call (u : UnknownTransport) : PingFlow := ⟨u, .called, [], none, none⟩

/-- The checks up to the socket; `none` if the packet is dropped. -/
def echoRequest (u : UnknownTransport) : Option EchoRequest :=
  match u.srcAddr with
  | .v6 _ => none
  | .v4 _ =>
    if u.ipProtocol ≠ ICMP then none
    else
      match u.dstAddr with
      | .v6 _ => none
      | .v4 dst =>
        match icmp.fromSlice u.payload with
        | .ok (.echoRequest echo, data) => some ⟨dst, echo, data⟩
        | _ => none

/-- The payload that `reply_to_desktop` sends. -/
def replyToDesktop (r : EchoRequest) : Bytes := icmp.toBytes (.echoReply r.echo) r.data ++ r.data

inductive Act
  /-- from the call to the socket, if there is one -/
  | open (socket : Bool)
  /-- `send_to` returns -/
  | sendTo (ok : Bool)
  /-- the kernel delivers a datagram to the socket -/
  | deliver (d : Datagram)
  /-- `recv_from` returns the first datagram -/
  | recvFrom
  /-- `recv_from` fails, or the two seconds are over -/
  | recvErr
deriving DecidableEq

def step (f : PingFlow) : Act → Option PingFlow
  | .open socket =>
    match f.pc with
    | .called =>
      match echoRequest icmp f.u with
      | none => some { f with pc := .returned }
      | some r =>
        if socket then some { f with pc := .sendTo r }
        else some { f with pc := .returned, answeredLocally := some (replyToDesktop icmp r) }
    | _ => none
  | .sendTo ok =>
    match f.pc with
    | .sendTo r => some { f with pc := if ok then .recvFrom r else .returned }
    | _ => none
  | .deliver d =>
    match f.pc with
    | .sendTo _ => some { f with inbox := f.inbox ++ [d] }
    | .recvFrom _ => some { f with inbox := f.inbox ++ [d] }
    | _ => none
  | .recvFrom =>
    match f.pc, f.inbox with
    | .recvFrom r, d :: _ =>
      let n := min d.bytes.length 2048
      if n > 0 then some { f with pc := .returned, relayed := some (replyToDesktop icmp r) }
      else some { f with pc := .returned }
    | _, _ => none
  | .recvErr =>
    match f.pc with
    | .recvFrom _ => some { f with pc := .returned }
    | _ => none

/-- What a step does. -/
inductive Moves (f : PingFlow) : Act → PingFlow → Prop
  | dropped (socket : Bool) (hpc : f.pc = .called) (hr : echoRequest icmp f.u = none) :
      Moves f (.open socket) { f with pc := .returned }
  | socket (r : EchoRequest) (hpc : f.pc = .called) (hr : echoRequest icmp f.u = some r) :
      Moves f (.open true) { f with pc := .sendTo r }
  | noSocket (r : EchoRequest) (hpc : f.pc = .called) (hr : echoRequest icmp f.u = some r) :
      Moves f (.open false)
        { f with pc := .returned, answeredLocally := some (replyToDesktop icmp r) }
  | sendTo (ok : Bool) (r : EchoRequest) (hpc : f.pc = .sendTo r) :
      Moves f (.sendTo ok) { f with pc := if ok then .recvFrom r else .returned }
  | deliver (d : Datagram) (r : EchoRequest) (hpc : f.pc = .sendTo r ∨ f.pc = .recvFrom r) :
      Moves f (.deliver d) { f with inbox := f.inbox ++ [d] }
  | answer (r : EchoRequest) (d : Datagram) (rest : List Datagram) (hpc : f.pc = .recvFrom r)
      (hin : f.inbox = d :: rest) (hd : d.bytes ≠ []) :
      Moves f .recvFrom { f with pc := .returned, relayed := some (replyToDesktop icmp r) }
  | empty (r : EchoRequest) (d : Datagram) (rest : List Datagram) (hpc : f.pc = .recvFrom r)
      (hin : f.inbox = d :: rest) (hd : d.bytes = []) :
      Moves f .recvFrom { f with pc := .returned }
  | recvErr (r : EchoRequest) (hpc : f.pc = .recvFrom r) :
      Moves f .recvErr { f with pc := .returned }

variable {icmp}

theorem moves_of_step {f f' : PingFlow} {a : Act} (h : f.step icmp a = some f') :
    f.Moves icmp a f' := by
  cases a with
  | «open» socket =>
    simp only [step] at h
    split at h
    · next hpc =>
      split at h
      · next hr => cases h; exact .dropped socket hpc hr
      · next r hr =>
        cases socket with
        | true => cases h; exact .socket r hpc hr
        | false => cases h; exact .noSocket r hpc hr
    · cases h
  | sendTo ok =>
    simp only [step] at h
    split at h
    · next r hpc => cases h; exact .sendTo ok r hpc
    · cases h
  | deliver d =>
    simp only [step] at h
    split at h
    · next r hpc => cases h; exact .deliver d r (Or.inl hpc)
    · next r hpc => cases h; exact .deliver d r (Or.inr hpc)
    · cases h
  | recvFrom =>
    simp only [step] at h
    split at h
    · next r d rest hpc hin =>
      by_cases hd : d.bytes = []
      · rw [if_neg (by simp [hd])] at h
        cases h
        exact .empty r d rest hpc hin hd
      · have hlen := List.length_pos_of_ne_nil hd
        rw [if_pos (by omega)] at h
        cases h
        exact .answer r d rest hpc hin hd
    · cases h
  | recvErr =>
    simp only [step] at h
    split at h
    · next r hpc => cases h; exact .recvErr r hpc
    · cases h

/-- The datagram comes from the host that was asked, and is an echo reply to the request. -/
def Genuine (icmp : Icmp) (u : UnknownTransport) (d : Datagram) : Prop :=
  ∃ r, echoRequest icmp u = some r ∧ d.source = .v4 r.dst ∧ icmp.echoReply d.bytes = some r.echo

/-- An answer on the socket is relayed only if a genuine one has been received. -/
def Honest (icmp : Icmp) (f : PingFlow) : Prop :=
  f.relayed ≠ none → ∃ d ∈ f.inbox, Genuine icmp f.u d

theorem honest_step {f f' : PingFlow} {a : Act} (hf : f.Honest icmp)
    (ha : ∀ d rest, a = .recvFrom → f.inbox = d :: rest → d.bytes ≠ [] →
      ∃ g ∈ f.inbox, Genuine icmp f.u g) (h : f.step icmp a = some f') : f'.Honest icmp := by
  cases moves_of_step h with
  | dropped socket hpc hr => exact hf
  | socket r hpc hr => exact hf
  | noSocket r hpc hr => exact hf
  | sendTo ok r hpc => exact hf
  | deliver d r hpc =>
    intro hrel
    obtain ⟨g, hg, hgen⟩ := hf hrel
    exact ⟨g, List.mem_append_left _ hg, hgen⟩
  | answer r d rest hpc hin hd => exact fun _ => ha d rest rfl hin hd
  | empty r d rest hpc hin hd => exact hf
  | recvErr r hpc => exact hf

/-- A datagram that is not empty makes the flow reply, whatever it is. -/
theorem relayed_of_recvFrom {f f' : PingFlow} {d : Datagram} {rest : List Datagram}
    (hin : f.inbox = d :: rest) (hd : d.bytes ≠ []) (h : f.step icmp .recvFrom = some f') :
    f'.relayed ≠ none ∧ f'.inbox = f.inbox ∧ f'.u = f.u := by
  cases moves_of_step h with
  | answer r d' rest' hpc hin' hd' => exact ⟨Option.some_ne_none _, rfl, rfl⟩
  | empty r d' rest' hpc hin' hd' =>
    rw [hin] at hin'
    cases hin'
    exact absurd hd' hd

end PingFlow

/-! ## Any number of flows -/

namespace Pings

inductive Act
  /-- `handle_unknown` is spawned for a packet -/
  | accept (u : UnknownTransport)
  /-- the `i`th flow does something -/
  | flow (i : Nat) (a : PingFlow.Act)
deriving DecidableEq

variable (icmp : Icmp)

def step (s : List PingFlow) : Act → Option (List PingFlow)
  | .accept u => some (s ++ [.call u])
  | .flow i a =>
    match s[i]? with
    | some f =>
      match f.step icmp a with
      | some f => some (s.set i f)
      | none => none
    | none => none

/-- No flow relays what the host it has asked did not answer. -/
def Honest (s : List PingFlow) : Prop := ∀ f ∈ s, f.Honest icmp

/-- When `recv_from` takes a datagram that is not empty, a genuine answer is on the socket. -/
def Answered (s : List PingFlow) (a : Act) : Prop :=
  ∀ i f d rest, a = .flow i .recvFrom → s[i]? = some f → f.inbox = d :: rest → d.bytes ≠ [] →
    ∃ g ∈ f.inbox, PingFlow.Genuine icmp f.u g

variable {icmp}

theorem flow_of_step {s s' : List PingFlow} {i : Nat} {a : PingFlow.Act}
    (h : step icmp s (.flow i a) = some s') :
    ∃ f f', s[i]? = some f ∧ f.step icmp a = some f' ∧ s' = s.set i f' := by
  simp only [step] at h
  split at h
  · next f hf =>
    split at h
    · next f' hf' => cases h; exact ⟨f, f', hf, hf', rfl⟩
    · cases h
  · cases h

theorem honest_step {s s' : List PingFlow} {a : Act} (hs : Honest icmp s) (ha : Answered icmp s a)
    (h : step icmp s a = some s') : Honest icmp s' := by
  cases a with
  | accept u =>
    cases h
    intro f hf
    rcases List.mem_append.1 hf with hf | hf
    · exact hs f hf
    · rw [List.mem_singleton.1 hf]
      exact fun hrel => absurd rfl hrel
  | flow i a =>
    obtain ⟨f, f', hf, hstep, rfl⟩ := flow_of_step h
    intro g hg
    rcases List.mem_or_eq_of_mem_set hg with hg | rfl
    · exact hs g hg
    · refine PingFlow.honest_step (hs f (List.mem_of_getElem? hf)) ?_ hstep
      intro d rest hact
      exact ha i f d rest (by rw [hact]) hf

theorem answered_of_honest {s s' : List PingFlow} {a : Act} (h : step icmp s a = some s')
    (hs : Honest icmp s') : Answered icmp s a := by
  rintro i f d rest rfl hf hin hd
  obtain ⟨g, g', hg, hstep, rfl⟩ := flow_of_step h
  rw [hf] at hg
  cases hg
  obtain ⟨hrel, hbox, hu⟩ := PingFlow.relayed_of_recvFrom hin hd hstep
  have hi : i < s.length := (List.getElem?_eq_some_iff.1 hf).1
  have hmem : g' ∈ s.set i g' := List.mem_iff_getElem.2 ⟨i, by simpa using hi, by simp⟩
  have hgen := hs g' hmem hrel
  rw [hbox, hu] at hgen
  exact hgen

end Pings

/-- **When pings are honest.**  However many flows run, and whatever the kernel delivers to their
sockets: a flow with a socket sends an echo reply only after a genuine answer, in every state of the
run, if and only if a genuine answer is there whenever `recv_from` takes a datagram that is not
empty. -/
theorem ping_honest_iff (icmp : Icmp) (acts : List Pings.Act) :
    Runs.Throughout (Pings.step icmp) (Pings.Honest icmp) [] acts ↔
      Runs.Along (Pings.step icmp) (Pings.Answered icmp) [] acts := by
  constructor
  · intro h pre a t t' hp ht ha
    exact Pings.answered_of_honest ha (h.after hp ht ha)
  · intro h
    exact Runs.throughout_of_along (Pings.Honest icmp) (fun _ _ _ hs ha hst =>
      Pings.honest_step hs ha hst) (by intro f hf; cases hf) h

/-- The sum of the 16-bit words. -/
def wordSum : Bytes → Nat
  | hi :: lo :: rest => (fromBeBytes hi lo).toNat + wordSum rest
  | [hi] => (fromBeBytes hi 0).toNat
  | [] => 0

/-- The internet checksum. -/
def checksum (bytes : Bytes) : UInt16 :=
  let sum := wordSum bytes
  let sum := sum % 65536 + sum / 65536
  asU16 (65535 - (sum % 65536 + sum / 65536))

/-- Echo requests and replies as they are on the wire, on a platform that puts no IP header in
front. -/
def Icmp.plain : Icmp where
  fromSlice
    | ty :: code :: _ :: _ :: i1 :: i2 :: s1 :: s2 :: data =>
      let echo : IcmpEchoHeader := ⟨fromBeBytes i1 i2, fromBeBytes s1 s2⟩
      .ok (if ty = 8 ∧ code = 0 then .echoRequest echo
        else if ty = 0 ∧ code = 0 then .echoReply echo else .other ty code, data)
    | _ => .error "not enough bytes"
  toBytes ty data :=
    let (head, rest) : Bytes × Bytes := match ty with
      | .echoRequest echo => ([8, 0], toBeBytes echo.id ++ toBeBytes echo.seq)
      | .echoReply echo => ([0, 0], toBeBytes echo.id ++ toBeBytes echo.seq)
      | .other ty code => ([ty, code], [0, 0, 0, 0])
    head ++ toBeBytes (checksum (head ++ rest ++ data)) ++ rest
  echoReply
    | 0 :: 0 :: _ :: _ :: i1 :: i2 :: s1 :: s2 :: _ =>
      some ⟨fromBeBytes i1 i2, fromBeBytes s1 s2⟩
    | _ => none

/-- Two pings at once: the kernel shows the reply of 1.1.1.1 to both sockets, and the desktop is
told that 8.8.8.8 has answered. -/
theorem stray_reply_relayed : ∃ acts s, Runs.exec (Pings.step .plain) [] acts = some s ∧
    s.map PingFlow.relayed = [some [0, 0, 0xFF, 0xFD, 0, 1, 0, 1], none] ∧
    ¬ Pings.Honest .plain s :=
  ⟨[.accept ⟨ICMP, .v4 ⟨10, 0, 0, 2⟩, .v4 ⟨8, 8, 8, 8⟩, [8, 0, 0xF7, 0xFD, 0, 1, 0, 1]⟩,
      .accept ⟨ICMP, .v4 ⟨10, 0, 0, 2⟩, .v4 ⟨1, 1, 1, 1⟩, [8, 0, 0xF7, 0xFC, 0, 2, 0, 1]⟩,
      .flow 0 (.open true), .flow 1 (.open true), .flow 0 (.sendTo true), .flow 1 (.sendTo true),
      .flow 1 (.deliver ⟨.v4 ⟨1, 1, 1, 1⟩, [0, 0, 0xFF, 0xFC, 0, 2, 0, 1]⟩),
      .flow 0 (.deliver ⟨.v4 ⟨1, 1, 1, 1⟩, [0, 0, 0xFF, 0xFC, 0, 2, 0, 1]⟩), .flow 0 .recvFrom],
    _, rfl, by decide +kernel, by
      intro h
      obtain ⟨d, hd, r, hr, hsrc, -⟩ := h _ List.mem_cons_self (Option.some_ne_none _)
      obtain rfl := List.mem_singleton.1 hd
      cases hr
      exact absurd hsrc (by decide)⟩

end RickyNet
