import Mathlib.Algebra.Ring.Nat
import Mathlib.Data.List.TakeWhile
import RickyNet.Lib.Progress

/-!
# Cellular egress

Every socket that the phone re-originates is confined to the cellular interface, if there is one, by an
option that is set before the kernel chooses the route.  `EgressFlow` is one call of
`connect_tcp_cellular`, `connect_udp_cellular` or `icmp_v4_socket_cellular`, one system call a step, and
`Egress.step` interleaves any number of them; what they share is `LOGGED`.

The kernel goes by the calls it has seen (`scope`, `route`).  `Bound` says what it makes of those of a
flow, and `egress_scoped` that a socket in use leaves over another interface only where no cellular one
was to be seen or the option was refused.
-/

namespace RickyNet

/-! ## Finding the interface -/

/-- One entry of `getifaddrs`, with what `if_nametoindex` answers for its name. -/
structure IfAddr where
  /-- `none`: a null pointer, or no UTF-8 -/
  name : Option String
  index : UInt32
deriving DecidableEq

/-- What one call of `cellular_ifindex` is told. -/
structure Interfaces where
  /-- `if_nametoindex("pdp_ip0")` -/
  pdpIp0 : UInt32
  /-- `none`: `getifaddrs` fails -/
  ifaddrs : Option (List IfAddr)
deriving DecidableEq

/-- `name.starts_with("pdp_ip")`. -/
def startsWithPdpIp (name : String) : Bool := "pdp_ip".toList.isPrefixOf name.toList

/-- How a call of `cellular_ifindex` turns out. -/
inductive Probed
  | found (name : String) (idx : UInt32)
  | missing
  /-- `getifaddrs` has failed -/
  | unknown
deriving DecidableEq

/-- The loop over the list of `getifaddrs`. -/
def scanIfAddrs : List IfAddr → Probed
  | [] => .missing
  | ifa :: rest =>
    match ifa.name with
    | none => scanIfAddrs rest
    | some name =>
      if startsWithPdpIp name then
        if ifa.index ≠ 0 then .found name ifa.index else scanIfAddrs rest
      else scanIfAddrs rest

/-- `cellular_ifindex`, but for what it logs. -/
def cellularIfindex (ifs : Interfaces) : Probed :=
  if ifs.pdpIp0 ≠ 0 then .found "pdp_ip0" ifs.pdpIp0
  else
    match ifs.ifaddrs with
    | none => .unknown
    | some l => scanIfAddrs l

/-- What `cellular_ifindex` returns. -/
def Probed.index : Probed → Option UInt32
  | .found _ idx => some idx
  | .missing => none
  | .unknown => none

/-- A cellular interface that is up. -/
def IfAddr.Cellular (ifa : IfAddr) : Prop :=
  ∃ name, ifa.name = some name ∧ startsWithPdpIp name = true ∧ ifa.index ≠ 0

/-- There is a cellular interface to be seen. -/
def Interfaces.Cellular (ifs : Interfaces) : Prop :=
  ifs.pdpIp0 ≠ 0 ∨ ∃ l, ifs.ifaddrs = some l ∧ ∃ ifa ∈ l, ifa.Cellular

theorem scanIfAddrs_found {l : List IfAddr} {name : String} {idx : UInt32}
    (h : scanIfAddrs l = .found name idx) : ∃ ifa ∈ l, ifa.Cellular ∧ ifa.index = idx := by
  induction l with
  | nil => cases h
  | cons ifa rest ih =>
    have hrest : scanIfAddrs rest = .found name idx →
        ∃ ifa' ∈ ifa :: rest, ifa'.Cellular ∧ ifa'.index = idx := fun h => by
      obtain ⟨x, hx, hc⟩ := ih h
      exact ⟨x, List.mem_cons_of_mem _ hx, hc⟩
    unfold scanIfAddrs at h
    split at h
    · exact hrest h
    · next n hn =>
      split at h
      · next hp =>
        split at h
        · next hi =>
          cases h
          exact ⟨ifa, List.mem_cons_self, ⟨_, hn, hp, hi⟩, rfl⟩
        · exact hrest h
      · exact hrest h

theorem scanIfAddrs_missing {l : List IfAddr} (h : (scanIfAddrs l).index = none) :
    ∀ ifa ∈ l, ¬ ifa.Cellular := by
  induction l with
  | nil => simp
  | cons ifa rest ih =>
    intro x hx
    rcases List.mem_cons.1 hx with rfl | hx
    · rintro ⟨name, hn, hp, hi⟩
      unfold scanIfAddrs at h
      simp only [hn, hp, hi, if_true, ne_eq, not_false_eq_true] at h
      cases h
    · refine ih ?_ x hx
      unfold scanIfAddrs at h
      repeat' split at h
      all_goals first
        | exact h
        | cases h

/-- **The interface is found if there is one**, and its index is that of one there is. -/
theorem cellularIfindex_spec (ifs : Interfaces) :
    ((cellularIfindex ifs).index = none → ¬ ifs.Cellular) ∧
    ∀ idx, (cellularIfindex ifs).index = some idx → idx ≠ 0 ∧ (idx = ifs.pdpIp0 ∨
      ∃ l, ifs.ifaddrs = some l ∧ ∃ ifa ∈ l, ifa.Cellular ∧ ifa.index = idx) := by
  unfold cellularIfindex
  by_cases h0 : ifs.pdpIp0 = 0
  · rw [if_neg (not_not_intro h0)]
    cases hl : ifs.ifaddrs with
    | none =>
      refine ⟨fun _ => ?_, fun idx h => by cases h⟩
      rintro (h | ⟨l, h, -⟩)
      · exact h h0
      · rw [hl] at h
        cases h
    | some l =>
      simp only
      constructor
      · rintro hnone (h | ⟨l', h, ifa, hmem, hc⟩)
        · exact h h0
        · rw [hl] at h
          cases h
          exact scanIfAddrs_missing hnone ifa hmem hc
      · intro idx hidx
        cases hs : scanIfAddrs l with
        | found name i =>
          rw [hs] at hidx
          cases hidx
          obtain ⟨ifa, hmem, hc, hi⟩ := scanIfAddrs_found hs
          have hne : ifa.index ≠ 0 := by
            obtain ⟨_, -, -, hne⟩ := hc
            exact hne
          exact ⟨hi ▸ hne, Or.inr ⟨l, rfl, ifa, hmem, hc, hi⟩⟩
        | missing => rw [hs] at hidx; cases hidx
        | unknown => rw [hs] at hidx; cases hidx
  · rw [if_pos h0]
    refine ⟨fun h => ?_, fun idx h => ?_⟩
    · cases h
    · cases h
      exact ⟨h0, Or.inl rfl⟩

/-! ## The sockets -/

inductive Family
  | v4
  | v6
deriving DecidableEq

/-- What is re-originated, by the family of its destination. -/
inductive SocketKind
  | tcp (dst : Family)
  | udp (dst : Family)
  | icmp
deriving DecidableEq

def SocketKind.family : SocketKind → Family
  | .tcp dst => dst
  | .udp dst => dst
  | .icmp => .v4

/-- `(IPPROTO_IP, IP_BOUND_IF)` and `(IPPROTO_IPV6, IPV6_BOUND_IF)`. -/
def Family.boundIf : Family → UInt32 × UInt32
  | .v4 => (0, 25)
  | .v6 => (41, 125)

/-- A system call that has succeeded. -/
inductive Syscall
  | socket (kind : SocketKind)
  | setsockopt (level name optval : UInt32)
  | setNonblocking
  | bind (addr : String)
  | connect
deriving DecidableEq

/-- The address that a datagram socket is bound to. -/
def Family.anyAddr : Family → String
  | .v4 => "0.0.0.0:0"
  | .v6 => "[::]:0"

/-- The interface that an option of this family has set. -/
def Syscall.sets (family : Family) : Syscall → Option UInt32
  | .setsockopt level name optval => if (level, name) = family.boundIf then some optval else none
  | _ => none

/-- The option that is set is that of the socket's family. -/
theorem Family.sets_own (family : Family) (idx : UInt32) :
    (Syscall.setsockopt family.boundIf.1 family.boundIf.2 idx).sets family = some idx := by
  unfold Syscall.sets
  exact if_pos rfl

/-- The interface that a socket is confined to after these calls. -/
def scope (family : Family) (calls : List Syscall) : Option UInt32 :=
  (calls.filterMap (Syscall.sets family)).getLast?

/-- What the call does next. -/
inductive EgressPc
  | socket
  /-- `cellular_ifindex` -/
  | probe
  /-- `LOGGED.swap` -/
  | swap (r : Probed)
  | log (r : Probed)
  | setsockopt (idx : UInt32)
  /-- the warning that `setsockopt` has failed -/
  | warn
  | nonblocking
  | bind
  /-- `UdpSocket::from_std` -/
  | fromStd
  | connect
  /-- the socket is handed out -/
  | ready
  | failed
deriving DecidableEq

structure EgressFlow where
  kind : SocketKind
  pc : EgressPc
  /-- what `cellular_ifindex` has been told -/
  interfaces : Option Interfaces
  /-- `setsockopt` has failed -/
  refused : Bool
  calls : List Syscall
deriving DecidableEq

inductive EgressLine
  | found (name : String) (idx : UInt32)
  | missing
  | refused
deriving DecidableEq

structure Egress where
  /-- `LOGGED` -/
  logged : UInt8
  lines : List EgressLine
  flows : List EgressFlow

/-- Where `bind_fd_to_cellular` returns to. -/
def SocketKind.bound : SocketKind → EgressPc
  | .tcp _ => .connect
  | .udp _ => .nonblocking
  | .icmp => .nonblocking

/-- Where `UdpSocket::from_std` returns to. -/
def SocketKind.wrapped : SocketKind → EgressPc
  | .tcp _ => .connect
  | .udp _ => .connect
  | .icmp => .ready

/-- `bind_fd_to_cellular` with what `cellular_ifindex` has returned. -/
def SocketKind.use (kind : SocketKind) (r : Probed) : EgressPc :=
  match r.index with
  | some idx => .setsockopt idx
  | none => kind.bound

/-- What is written to `LOGGED`. -/
def Probed.mark : Probed → UInt8
  | .found _ _ => 1
  | _ => 2

def Probed.line : Probed → EgressLine
  | .found name idx => .found name idx
  | _ => .missing

namespace EgressFlow

def call (kind : SocketKind) : EgressFlow := ⟨kind, .socket, none, false, []⟩

/-- A system call, and what comes after it if it succeeds. -/
def does (f : EgressFlow) (ok : Bool) (call : Syscall) (next : EgressPc) : EgressFlow :=
  if ok then { f with pc := next, calls := f.calls ++ [call] } else { f with pc := .failed }

/-- The next step; `ok` is how its call ends, `ifs` what `cellular_ifindex` is told. -/
def step (f : EgressFlow) (ok : Bool) (ifs : Interfaces) (logged : UInt8) :
    Option (EgressFlow × UInt8 × List EgressLine) :=
  match f.pc with
  | .socket => some (f.does ok (.socket f.kind) .probe, logged, [])
  | .probe =>
    let r := cellularIfindex ifs
    let f := { f with interfaces := some ifs }
    if r = .unknown then some ({ f with pc := f.kind.use r }, logged, [])
    else some ({ f with pc := .swap r }, logged, [])
  | .swap r => some ({ f with pc := if logged ≠ r.mark then .log r else f.kind.use r }, r.mark, [])
  | .log r => some ({ f with pc := f.kind.use r }, logged, [r.line])
  | .setsockopt idx =>
    if ok then
      some (f.does ok (.setsockopt f.kind.family.boundIf.1 f.kind.family.boundIf.2 idx) f.kind.bound,
        logged, [])
    else some ({ f with pc := .warn, refused := true }, logged, [])
  | .warn => some ({ f with pc := f.kind.bound }, logged, [.refused])
  | .nonblocking => some (f.does ok .setNonblocking .bind, logged, [])
  | .bind => some (f.does ok (.bind f.kind.family.anyAddr) .fromStd, logged, [])
  | .fromStd => some ({ f with pc := if ok then f.kind.wrapped else .failed }, logged, [])
  | .connect => some (f.does ok .connect .ready, logged, [])
  | .ready => none
  | .failed => none

/-- The interface of the route: it is chosen by `connect`, and on a ping socket, which is not connected,
for each datagram. -/
def route (f : EgressFlow) : Option UInt32 :=
  scope f.kind.family (f.calls.takeWhile fun c => c ≠ .connect)

end EgressFlow

namespace Egress

def start : Egress := ⟨0, [], []⟩

inductive Act
  /-- one of the three functions is called -/
  | call (kind : SocketKind)
  /-- the next step of flow `i` -/
  | go (i : Nat) (ok : Bool) (ifs : Interfaces)
deriving DecidableEq

def step (s : Egress) : Act → Option Egress
  | .call kind => some { s with flows := s.flows ++ [.call kind] }
  | .go i ok ifs =>
    match s.flows[i]? with
    | none => none
    | some f =>
      match f.step ok ifs s.logged with
      | none => none
      | some (f, logged, lines) => some ⟨logged, s.lines ++ lines, s.flows.set i f⟩

end Egress

/-! ## What the kernel makes of a flow -/

theorem scope_append (family : Family) (calls : List Syscall) (c : Syscall) :
    scope family (calls ++ [c]) = (c.sets family).or (scope family calls) := by
  unfold scope
  rw [List.filterMap_append]
  cases hc : c.sets family with
  | none => simp [hc]
  | some idx => simp [hc]

namespace EgressFlow

/-- What the interfaces and the option come to. -/
def outcome (f : EgressFlow) (ifs : Interfaces) : Option UInt32 :=
  if f.refused then none else (cellularIfindex ifs).index

/-- The option is set, or it is not to be. -/
def Bound (f : EgressFlow) : Prop := ∃ ifs, f.interfaces = some ifs ∧
  scope f.kind.family f.calls = f.outcome ifs ∧ .connect ∉ f.calls

/-- How far the option is at each point of a call. -/
def Placed (f : EgressFlow) : Prop :=
  match f.pc with
  | .socket => f.refused = false ∧ f.calls = []
  | .probe => f.refused = false ∧ f.calls = [.socket f.kind]
  | .swap r | .log r => f.refused = false ∧ f.calls = [.socket f.kind] ∧
      ∃ ifs, f.interfaces = some ifs ∧ cellularIfindex ifs = r
  | .setsockopt idx => f.refused = false ∧ f.calls = [.socket f.kind] ∧
      ∃ ifs, f.interfaces = some ifs ∧ (cellularIfindex ifs).index = some idx
  | .warn => f.refused = true ∧ f.calls = [.socket f.kind] ∧ ∃ ifs, f.interfaces = some ifs
  | .nonblocking | .bind | .fromStd | .connect => f.Bound
  | .ready => ∃ ifs, f.interfaces = some ifs ∧ f.route = f.outcome ifs
  | .failed => True

theorem placed_call (kind : SocketKind) : (call kind).Placed := ⟨rfl, rfl⟩

variable {f f' : EgressFlow} {ok : Bool} {ifs : Interfaces} {logged logged' : UInt8}
  {lines : List EgressLine}

theorem Bound.placed (h : f.Bound) : Placed { f with pc := f.kind.bound } := by
  obtain ⟨kind, pc, interfaces, refused, calls⟩ := f
  cases kind <;> exact h

/-- A socket without the option. -/
theorem bound_of_unscoped (hcalls : f.calls = [.socket f.kind]) (hifs : f.interfaces = some ifs)
    (hout : f.outcome ifs = none) : f.Bound := by
  refine ⟨ifs, hifs, ?_, ?_⟩
  · rw [hcalls, hout]
    rfl
  · rw [hcalls]
    simp

/-- What `cellular_ifindex` has returned is made use of. -/
theorem placed_use {r : Probed} (hr : f.refused = false) (hcalls : f.calls = [.socket f.kind])
    (hifs : f.interfaces = some ifs) (hp : cellularIfindex ifs = r) :
    Placed { f with pc := f.kind.use r } := by
  unfold SocketKind.use
  cases hi : r.index with
  | some idx => exact ⟨hr, hcalls, ifs, hifs, by rw [hp]; exact hi⟩
  | none =>
    refine Bound.placed (bound_of_unscoped hcalls hifs ?_)
    unfold outcome
    rw [hr, hp]
    exact hi

/-- A call that is none of the options leaves the socket as it is. -/
theorem Bound.does (h : f.Bound) {c : Syscall} (hs : c.sets f.kind.family = none) (hc : c ≠ .connect)
    (pc : EgressPc) : Bound { f with pc := pc, calls := f.calls ++ [c] } := by
  obtain ⟨ifs, hifs, hscope, hno⟩ := h
  refine ⟨ifs, hifs, ?_, ?_⟩
  · show scope f.kind.family (f.calls ++ [c]) = f.outcome ifs
    rw [scope_append, hs, Option.none_or]
    exact hscope
  · show .connect ∉ f.calls ++ [c]
    rw [List.mem_append, List.mem_singleton]
    rintro (hm | rfl)
    · exact hno hm
    · exact hc rfl

theorem takeWhile_of_notMem {calls : List Syscall} (h : .connect ∉ calls) :
    calls.takeWhile (fun c => c ≠ .connect) = calls :=
  List.takeWhile_eq_self_iff.2 fun c hc => by
    have hne : c ≠ .connect := fun he => h (he ▸ hc)
    simpa using hne

/-- The route of a socket that is connected now. -/
theorem Bound.connected (h : f.Bound) :
    Placed { f with pc := .ready, calls := f.calls ++ [.connect] } := by
  obtain ⟨ifs, hifs, hscope, hno⟩ := h
  refine ⟨ifs, hifs, ?_⟩
  show scope f.kind.family ((f.calls ++ [Syscall.connect]).takeWhile fun c => c ≠ .connect) = f.outcome ifs
  rw [List.takeWhile_append, takeWhile_of_notMem hno, if_pos rfl]
  simpa using hscope

/-- The route of a ping socket. -/
theorem Bound.wrapped (h : f.Bound) : Placed { f with pc := f.kind.wrapped } := by
  have hready : Placed { f with pc := .ready } := by
    obtain ⟨ifs, hifs, hscope, hno⟩ := h
    refine ⟨ifs, hifs, ?_⟩
    show scope f.kind.family (f.calls.takeWhile fun c => c ≠ .connect) = f.outcome ifs
    rw [takeWhile_of_notMem hno]
    exact hscope
  obtain ⟨kind, pc, interfaces, refused, calls⟩ := f
  cases kind with
  | icmp => exact hready
  | _ => exact h

theorem placed_step (hp : f.Placed) (h : f.step ok ifs logged = some (f', logged', lines)) :
    f'.Placed := by
  unfold Placed at hp
  cases hpc : f.pc with
  | socket =>
    simp only [hpc] at hp
    simp only [step, hpc] at h
    cases h
    unfold EgressFlow.does
    cases ok with
    | true => exact ⟨hp.1, by rw [hp.2]; rfl⟩
    | false => trivial
  | probe =>
    simp only [hpc] at hp
    simp only [step, hpc] at h
    split at h
    · cases h
      exact placed_use (f := { f with interfaces := some ifs }) hp.1 hp.2 rfl rfl
    · cases h
      exact ⟨hp.1, hp.2, ifs, rfl, rfl⟩
  | swap r =>
    simp only [hpc] at hp
    simp only [step, hpc] at h
    cases h
    obtain ⟨hr, hcalls, ifs', hifs, hi⟩ := hp
    split
    · exact ⟨hr, hcalls, ifs', hifs, hi⟩
    · exact placed_use hr hcalls hifs hi
  | log r =>
    simp only [hpc] at hp
    simp only [step, hpc] at h
    cases h
    obtain ⟨hr, hcalls, ifs', hifs, hi⟩ := hp
    exact placed_use hr hcalls hifs hi
  | setsockopt idx =>
    simp only [hpc] at hp
    obtain ⟨hr, hcalls, ifs', hifs, hi⟩ := hp
    simp only [step, hpc] at h
    split at h
    · next hok =>
      cases h
      unfold EgressFlow.does
      rw [if_pos hok]
      refine Bound.placed (f := { f with calls := f.calls ++
        [.setsockopt f.kind.family.boundIf.1 f.kind.family.boundIf.2 idx] }) ⟨ifs', hifs, ?_, ?_⟩
      · show scope f.kind.family (f.calls ++ _) = _
        rw [scope_append, Family.sets_own, Option.some_or]
        unfold outcome
        simp only [hr, hi, Bool.false_eq_true, if_false]
      · show .connect ∉ f.calls ++ _
        rw [hcalls]
        simp
    · cases h
      exact ⟨rfl, hcalls, ifs', hifs⟩
  | warn =>
    simp only [hpc] at hp
    obtain ⟨hr, hcalls, ifs', hifs⟩ := hp
    simp only [step, hpc] at h
    cases h
    refine Bound.placed (bound_of_unscoped hcalls hifs ?_)
    unfold outcome
    rw [hr]
    rfl
  | nonblocking =>
    simp only [hpc] at hp
    simp only [step, hpc] at h
    cases h
    unfold EgressFlow.does
    cases ok with
    | true => exact hp.does rfl (by simp) _
    | false => trivial
  | bind =>
    simp only [hpc] at hp
    simp only [step, hpc] at h
    cases h
    unfold EgressFlow.does
    cases ok with
    | true => exact hp.does rfl (by simp) _
    | false => trivial
  | fromStd =>
    simp only [hpc] at hp
    simp only [step, hpc] at h
    cases h
    cases ok with
    | true => exact hp.wrapped
    | false => trivial
  | connect =>
    simp only [hpc] at hp
    simp only [step, hpc] at h
    cases h
    unfold EgressFlow.does
    cases ok with
    | true => exact hp.connected
    | false => trivial
  | ready => simp only [step, hpc] at h; cases h
  | failed => simp only [step, hpc] at h; cases h

end EgressFlow

/-! ## Any number of flows -/

namespace Egress

variable {s s' : Egress} {a : Act}

theorem step_go {i : Nat} {ok : Bool} {ifs : Interfaces} (h : s.step (.go i ok ifs) = some s') :
    ∃ f f' logged lines, s.flows[i]? = some f ∧ f.step ok ifs s.logged = some (f', logged, lines) ∧
      s' = ⟨logged, s.lines ++ lines, s.flows.set i f'⟩ := by
  simp only [step] at h
  split at h
  · cases h
  · next f hf =>
    split at h
    · cases h
    · next f' logged lines hs =>
      cases h
      exact ⟨f, f', logged, lines, hf, hs, rfl⟩

theorem placed_step (hp : ∀ f ∈ s.flows, f.Placed) (h : s.step a = some s') :
    ∀ f ∈ s'.flows, f.Placed := by
  cases a with
  | call kind =>
    cases h
    intro f hf
    rcases List.mem_append.1 hf with hf | hf
    · exact hp f hf
    · rw [List.mem_singleton.1 hf]
      exact EgressFlow.placed_call kind
  | go i ok ifs =>
    obtain ⟨f, f', logged, lines, hf, hs, rfl⟩ := step_go h
    intro g hg
    rcases List.mem_or_eq_of_mem_set hg with hg | rfl
    · exact hp g hg
    · exact EgressFlow.placed_step (hp f (List.mem_of_getElem? hf)) hs

end Egress

/-- **Nothing leaves over Wi-Fi that could leave over the cellular network.**  However the calls for any
number of flows interleave, and however they end: a socket that is in use has asked for the interfaces,
and the kernel's route for it is confined to a cellular interface that was there, unless none was to be
seen or the option was refused. -/
theorem egress_scoped (acts : List Egress.Act) (s : Egress)
    (h : Runs.exec Egress.step .start acts = some s) (f : EgressFlow) (hf : f ∈ s.flows)
    (hr : f.pc = .ready) : ∃ ifs, f.interfaces = some ifs ∧
      (f.route = none → f.refused = true ∨ ¬ ifs.Cellular) ∧
      ∀ idx, f.route = some idx → f.refused = false ∧ idx ≠ 0 ∧ (idx = ifs.pdpIp0 ∨
        ∃ l, ifs.ifaddrs = some l ∧ ∃ ifa ∈ l, ifa.Cellular ∧ ifa.index = idx) := by
  have hp : f.Placed := Runs.exec_inv Egress.step (fun s => ∀ f ∈ s.flows, f.Placed)
    (fun _ _ _ => Egress.placed_step) (fun _ h => by cases h) h f hf
  unfold EgressFlow.Placed at hp
  rw [hr] at hp
  obtain ⟨ifs, hifs, hroute⟩ := hp
  obtain ⟨hnone, hsome⟩ := cellularIfindex_spec ifs
  unfold EgressFlow.outcome at hroute
  refine ⟨ifs, hifs, fun h0 => ?_, fun idx hidx => ?_⟩
  · cases hrf : f.refused with
    | true => exact Or.inl rfl
    | false =>
      rw [hrf, if_neg Bool.false_ne_true, h0] at hroute
      exact Or.inr (hnone hroute.symm)
  · cases hrf : f.refused with
    | true =>
      rw [hrf, if_pos rfl, hidx] at hroute
      cases hroute
    | false =>
      rw [hrf, if_neg Bool.false_ne_true, hidx] at hroute
      exact ⟨rfl, hsome idx hroute.symm⟩

/-- A UDP flow over IPv6 finds `pdp_ip1` behind other interfaces, with a TCP flow that finds none beside it. -/
theorem egress_scoped_run : ∃ acts s, Runs.exec Egress.step .start acts = some s ∧ ∃ f ∈ s.flows,
    f.route = some 5 ∧ ∃ ifs, f.interfaces = some ifs ∧
      ∀ idx, f.route = some idx → f.refused = false ∧ idx ≠ 0 ∧ (idx = ifs.pdpIp0 ∨
        ∃ l, ifs.ifaddrs = some l ∧ ∃ ifa ∈ l, ifa.Cellular ∧ ifa.index = idx) := by
  have h : Runs.exec Egress.step .start ([.call (.udp .v6), .call (.tcp .v4)] ++
      List.replicate 9 (.go 0 true ⟨0, some [⟨none, 0⟩, ⟨some "en0", 2⟩, ⟨some "pdp_ip0", 0⟩,
        ⟨some "pdp_ip1", 5⟩]⟩) ++ List.replicate 5 (.go 1 true ⟨0, some [⟨some "en0", 2⟩]⟩)) = some _ := rfl
  obtain ⟨ifs, hifs, -, hidx⟩ := egress_scoped _ _ h _ List.mem_cons_self rfl
  exact ⟨_, _, h, _, List.mem_cons_self, by decide, ifs, hifs, hidx⟩

/-! ## What is logged -/

def EgressLine.isFound : EgressLine → Bool
  | .found _ _ => true
  | _ => false

def EgressLine.isMissing : EgressLine → Bool
  | .missing => true
  | _ => false

def EgressLine.isRefused : EgressLine → Bool
  | .refused => true
  | _ => false

/-- The line that is about to be logged. -/
def EgressPc.pending : EgressPc → List EgressLine
  | .log r => [r.line]
  | .warn => [.refused]
  | _ => []

theorem SocketKind.bound_pending (kind : SocketKind) : kind.bound.pending = [] := by
  cases kind <;> rfl

theorem SocketKind.wrapped_pending (kind : SocketKind) : kind.wrapped.pending = [] := by
  cases kind <;> rfl

theorem SocketKind.use_pending (kind : SocketKind) (r : Probed) : (kind.use r).pending = [] := by
  cases r <;> cases kind <;> rfl

namespace EgressFlow

/-- What a step makes due to be logged: a line for a new value of `LOGGED`, or that the option is refused. -/
inductive Due (f f' : EgressFlow) (logged logged' : UInt8) : List EgressLine → Prop
  | none (hl : logged' = logged) (hr : f'.refused = f.refused) : Due f f' logged logged' []
  | swapped (r : Probed) (hne : logged ≠ r.mark) (hl : logged' = r.mark) (hr : f'.refused = f.refused) :
      Due f f' logged logged' [r.line]
  | refused (hl : logged' = logged) (hr : f.refused = false) (hr' : f'.refused = true) :
      Due f f' logged logged' [.refused]

variable {f f' : EgressFlow} {ok : Bool} {ifs : Interfaces} {logged logged' : UInt8}
  {lines : List EgressLine}

/-- **What is due is what gets logged**, now or with the next step. -/
theorem step_due (hp : f.Placed) (h : f.step ok ifs logged = some (f', logged', lines)) :
    ∃ due, Due f f' logged logged' due ∧ lines ++ f'.pc.pending = f.pc.pending ++ due := by
  cases hpc : f.pc with
  | swap r =>
    simp only [step, hpc] at h
    cases h
    by_cases hne : logged = r.mark
    · refine ⟨[], .none hne.symm rfl, ?_⟩
      rw [if_neg (not_not_intro hne)]
      exact f.kind.use_pending r
    · refine ⟨[r.line], .swapped r hne rfl rfl, ?_⟩
      rw [if_pos hne]
      rfl
  | setsockopt idx =>
    unfold Placed at hp
    simp only [hpc] at hp
    simp only [step, hpc] at h
    split at h
    · next hok =>
      cases h
      unfold EgressFlow.does
      rw [if_pos hok]
      exact ⟨[], .none rfl rfl, f.kind.bound_pending⟩
    · cases h
      exact ⟨[.refused], .refused rfl hp.1 rfl, rfl⟩
  | probe =>
    simp only [step, hpc] at h
    split at h
    · cases h
      exact ⟨[], .none rfl rfl, f.kind.use_pending _⟩
    · cases h
      exact ⟨[], .none rfl rfl, rfl⟩
  | fromStd =>
    simp only [step, hpc] at h
    cases h
    cases ok with
    | true => exact ⟨[], .none rfl rfl, f.kind.wrapped_pending⟩
    | false => exact ⟨[], .none rfl rfl, rfl⟩
  | log r =>
    simp only [step, hpc] at h
    cases h
    exact ⟨[], .none rfl rfl, congrArg (List.cons r.line) (f.kind.use_pending r)⟩
  | warn =>
    simp only [step, hpc] at h
    cases h
    exact ⟨[], .none rfl rfl, congrArg (List.cons EgressLine.refused) f.kind.bound_pending⟩
  | ready => simp only [step, hpc] at h; cases h
  | failed => simp only [step, hpc] at h; cases h
  | _ =>
    simp only [step, hpc] at h
    cases h
    unfold EgressFlow.does
    cases ok <;> exact ⟨[], .none rfl rfl, rfl⟩

end EgressFlow

namespace Egress

/-- The lines logged, and those about to be, that satisfy `p`. -/
def counted (p : EgressLine → Bool) (s : Egress) : Nat :=
  s.lines.countP p + Runs.total (fun f => f.pc.pending.countP p) s.flows

/-- What `LOGGED` says of the lines of the two outcomes, which come in turn. -/
def Turn (logged : UInt8) (found missing : Nat) : Prop :=
  logged = 0 ∧ found = 0 ∧ missing = 0 ∨ logged = 1 ∧ (found = missing ∨ found = missing + 1) ∨
    logged = 2 ∧ (missing = found ∨ missing = found + 1)

/-- The outcomes come in turn, and every refusal has its line. -/
structure Alternates (s : Egress) : Prop where
  turn : Turn s.logged (s.counted EgressLine.isFound) (s.counted EgressLine.isMissing)
  refused : s.counted EgressLine.isRefused = Runs.total (fun f => f.refused.toNat) s.flows

variable {s s' : Egress} {a : Act}

theorem counted_call (p : EgressLine → Bool) (s : Egress) (kind : SocketKind) :
    counted p { s with flows := s.flows ++ [.call kind] } = s.counted p := by
  unfold counted
  rw [Runs.total_append]
  rfl

/-- What is due is counted. -/
theorem counted_set (p : EgressLine → Bool) {i : Nat} {f f' : EgressFlow} {logged : UInt8}
    {lines due : List EgressLine} (hf : s.flows[i]? = some f)
    (hd : lines ++ f'.pc.pending = f.pc.pending ++ due) :
    counted p ⟨logged, s.lines ++ lines, s.flows.set i f'⟩ = s.counted p + due.countP p := by
  have hset := Runs.total_set (fun f : EgressFlow => f.pc.pending.countP p) hf f'
  have hcount := congrArg (List.countP p) hd
  rw [List.countP_append, List.countP_append] at hcount
  unfold counted
  rw [List.countP_append]
  simp only
  omega

/-- A line for a new value of `LOGGED`. -/
theorem Turn.swap {logged : UInt8} {found missing : Nat} (h : Turn logged found missing) (r : Probed)
    (hne : logged ≠ r.mark) : Turn r.mark (found + [r.line].countP EgressLine.isFound)
      (missing + [r.line].countP EgressLine.isMissing) := by
  have hfound : logged ≠ 1 → Turn 1 (found + 1) (missing + 0) := by
    intro hne
    refine Or.inr (Or.inl ⟨rfl, ?_⟩)
    rcases h with ⟨-, h1, h2⟩ | ⟨hl, -⟩ | ⟨-, h⟩
    · omega
    · exact absurd hl hne
    · omega
  have hmissing : logged ≠ 2 → Turn 2 (found + 0) (missing + 1) := by
    intro hne
    refine Or.inr (Or.inr ⟨rfl, ?_⟩)
    rcases h with ⟨-, h1, h2⟩ | ⟨-, h⟩ | ⟨hl, -⟩
    · omega
    · omega
    · exact absurd hl hne
  cases r with
  | found name idx => exact hfound hne
  | missing => exact hmissing hne
  | unknown => exact hmissing hne

theorem alternates_step (hi : s.Alternates) (hp : ∀ f ∈ s.flows, f.Placed) (h : s.step a = some s') :
    s'.Alternates := by
  cases a with
  | call kind =>
    cases h
    refine ⟨?_, ?_⟩
    · simp only [counted_call]
      exact hi.turn
    · rw [counted_call, hi.refused, Runs.total_append]
      rfl
  | go i ok ifs =>
    obtain ⟨f, f', logged, lines, hf, hs, rfl⟩ := step_go h
    obtain ⟨due, hdue, hd⟩ := EgressFlow.step_due (hp f (List.mem_of_getElem? hf)) hs
    have hrefused := Runs.total_set (fun f : EgressFlow => f.refused.toNat) hf f'
    have hturn := hi.turn
    have hline := hi.refused
    refine ⟨?_, ?_⟩
    · simp only [counted_set _ hf hd]
      cases hdue with
      | none hl hr => rw [hl]; exact hturn
      | refused hl hr hr' => rw [hl]; exact hturn
      | swapped r hne hl hr =>
        rw [hl]
        exact hturn.swap r hne
    · rw [counted_set _ hf hd]
      show _ = Runs.total (fun f => f.refused.toNat) (s.flows.set i f')
      cases hdue with
      | none hl hr =>
        rw [hr] at hrefused
        show _ + 0 = _
        omega
      | refused hl hr hr' =>
        rw [hr, hr'] at hrefused
        simp only [Bool.toNat_true, Bool.toNat_false] at hrefused
        show _ + 1 = _
        omega
      | swapped r hne hl hr =>
        rw [hr] at hrefused
        have hnot : [r.line].countP EgressLine.isRefused = 0 := by cases r <;> rfl
        omega

end Egress

/-- **The log tells each change once.**  Whatever the flows were told and however their steps interleave: when
no line is about to be logged, the lines that say that the cellular interface is in use and those that say
that there is none differ in number by one at most, and there are as many warnings as refused options. -/
theorem egress_logged (acts : List Egress.Act) (s : Egress)
    (h : Runs.exec Egress.step .start acts = some s) (hrest : ∀ f ∈ s.flows, f.pc.pending = []) :
    s.lines.countP EgressLine.isFound ≤ s.lines.countP EgressLine.isMissing + 1 ∧
    s.lines.countP EgressLine.isMissing ≤ s.lines.countP EgressLine.isFound + 1 ∧
    s.lines.countP EgressLine.isRefused = s.flows.countP fun f => f.refused := by
  obtain ⟨hp, hi⟩ : (∀ f ∈ s.flows, f.Placed) ∧ s.Alternates :=
    Runs.exec_inv Egress.step (fun s => (∀ f ∈ s.flows, f.Placed) ∧ s.Alternates)
      (fun _ _ _ hi hs => ⟨Egress.placed_step hi.1 hs, Egress.alternates_step hi.2 hi.1 hs⟩)
      ⟨fun _ h => (by cases h), Or.inl ⟨rfl, rfl, rfl⟩, rfl⟩ h
  have hcounted : ∀ p, s.counted p = s.lines.countP p := by
    intro p
    have hnone : Runs.total (fun f => f.pc.pending.countP p) s.flows ≤ 0 * s.flows.length :=
      Runs.total_le fun f hf => by rw [hrest f hf]; exact Nat.le_refl _
    unfold Egress.counted
    omega
  have hturn := hi.turn
  have hrefused := hi.refused
  unfold Egress.Turn at hturn
  simp only [hcounted, Runs.total_toNat] at hturn hrefused
  exact ⟨by omega, by omega, hrefused⟩

/-- A flow that finds `pdp_ip0` between two that find nothing, and an option that is refused. -/
theorem egress_logged_run : ∃ acts s, Runs.exec Egress.step .start acts = some s ∧
    s.lines = [.missing, .found "pdp_ip0" 3, .refused, .missing] ∧
    s.lines.countP EgressLine.isRefused = s.flows.countP fun f => f.refused := by
  have h : Runs.exec Egress.step .start [[.call .icmp, .call (.udp .v4), .call (.tcp .v6)],
      List.replicate 4 (.go 0 true ⟨0, some []⟩), List.replicate 4 (.go 1 true ⟨3, none⟩),
      [.go 1 false ⟨0, none⟩, .go 1 true ⟨0, none⟩], List.replicate 4 (.go 2 true ⟨0, some []⟩)].flatten =
    some _ := rfl
  exact ⟨_, _, h, rfl, (egress_logged _ _ h (by decide)).2.2⟩

end RickyNet
