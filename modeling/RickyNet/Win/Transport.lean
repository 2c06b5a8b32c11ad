import RickyNet.Win.Routing

/-!
# Transport selection

`transport::connect` over a `Net`: the resolver, the remote ends and the usbmux client are what the
machine answers, the order in which they are asked is the code's.  `parseIpv4` is
`Ipv4Addr::from_str`, which accepts four decimal octets without leading zeros.
-/

namespace RickyNet

inductive TransportKind
  | usb
  | wifi
deriving DecidableEq

abbrev Ipv6Addr := BitVec 128

inductive IpAddr
  | v4 (addr : Ipv4Addr)
  | v6 (addr : Ipv6Addr)
deriving DecidableEq

/-- A connected stream, by its remote end. -/
structure TcpStream where
  peer : IpAddr
  port : UInt16
deriving DecidableEq

/-! ## Address literals -/

/-- The value of decimal digits. -/
def decimal (digits : List Char) : Nat := digits.foldl (fun n c => 10 * n + (c.toNat - '0'.toNat)) 0

/-- One octet: at most three digits, no leading zero, at most 255. -/
def parseOctet (digits : List Char) : Option UInt8 :=
  if digits ≠ [] ∧ digits.all Char.isDigit ∧ digits.length ≤ 3 ∧
      (digits.length = 1 ∨ digits.head? ≠ some '0') ∧ decimal digits ≤ 255 then
    some (UInt8.ofNat (decimal digits))
  else none

/-- `s.parse::<Ipv4Addr>().ok()`. -/
def parseIpv4 (s : String) : Option Ipv4Addr :=
  match (s.toList.splitOn '.').map parseOctet with
  | [some a, some b, some c, some d] => some ⟨a, b, c, d⟩
  | _ => none

/-! ## Dialling -/

/-- What the machine answers. -/
structure Net where
  /-- `s.parse::<Ipv6Addr>().ok()` -/
  parseIpv6 : String → Option Ipv6Addr
  /-- the addresses of a host name -/
  lookupHost : String → Except IoError (List IpAddr)
  /-- why a connection cannot be made; `none` if it can -/
  tcpConnect : IpAddr → UInt16 → Option IoError
  /-- `usbmux::connect_first_device` -/
  connectFirstDevice : UInt16 → Except IoError TcpStream

/-- A machine that knows no host names and reaches every address, and the phone over USB. -/
def Net.reachable : Net where
  parseIpv6 _ := none
  lookupHost _ := .error ⟨.notFound, "No such host is known. (os error 11001)"⟩
  tcpConnect _ _ := none
  connectFirstDevice _ := .ok ⟨.v4 ⟨127, 0, 0, 1⟩, 27015⟩

namespace Net

variable (net : Net)

/-- `(host, port).to_socket_addrs()`: a literal is taken as it is, anything else is looked up. -/
def toSocketAddrs (host : String) : Except IoError (List IpAddr) :=
  match parseIpv4 host with
  | some addr => .ok [.v4 addr]
  | none =>
    match net.parseIpv6 host with
    | some addr => .ok [.v6 addr]
    | none => net.lookupHost host

/-- The first address that can be connected to, otherwise the last error. -/
def connectEach (port : UInt16) (last : IoError) : List IpAddr → Except IoError TcpStream
  | [] => .error last
  | addr :: rest =>
    match net.tcpConnect addr port with
    | none => .ok ⟨addr, port⟩
    | some e => connectEach port e rest

/-- `TcpStream::connect((host, port))`. -/
def dial (host : String) (port : UInt16) : Except IoError TcpStream :=
  match net.toSocketAddrs host with
  | .error e => .error e
  | .ok addrs => net.connectEach port ⟨.invalidInput, "could not resolve to any addresses"⟩ addrs

/-- `transport::connect`. -/
def connect (kind : TransportKind) (phoneIp : Option String) (port : UInt16) :
    Except IoError TcpStream :=
  match kind with
  | .usb => net.connectFirstDevice port
  | .wifi =>
    match phoneIp with
    | none => .error ⟨.invalidInput, "Wi-Fi transport requires --phone-ip"⟩
    | some ip => net.dial ip port

theorem connectEach_peer {port : UInt16} {last : IoError} {addrs : List IpAddr} {stream : TcpStream}
    (h : net.connectEach port last addrs = .ok stream) : stream.peer ∈ addrs := by
  induction addrs generalizing last with
  | nil => cases h
  | cons addr rest ih =>
    unfold connectEach at h
    split at h
    · cases h
      exact List.mem_cons_self
    · exact List.mem_cons_of_mem _ (ih h)

/-- A dotted-quad literal is dialled as it stands. -/
theorem dial_literal {host : String} {addr : Ipv4Addr} (hp : parseIpv4 host = some addr)
    {port : UInt16} {stream : TcpStream} (h : net.dial host port = .ok stream) :
    stream.peer = .v4 addr := by
  unfold dial toSocketAddrs at h
  rw [hp] at h
  exact List.mem_singleton.1 (net.connectEach_peer h)

end Net

end RickyNet
