import Mathlib.Algebra.Ring.Int.Defs
import Mathlib.Algebra.Ring.Nat
import RickyNet.Wire.Codec

/-!
# The usbmux client

`usbmux.rs` over two connections to the daemon.  What the `plist` crate does with bytes is a
parameter (`PlistCrate`); a plist is its tree of values, and the client's own part, the 16-byte
header, the messages, the search of the device list and the switch to a raw pipe, is as the source
has it.

Calls that set socket options succeed, and a write to the daemon is accepted whole.
-/

namespace RickyNet

/-! ## Plists -/

namespace Plist

/-- `plist::Integer`: any value of an `i64` or a `u64`. -/
structure Integer where
  value : Int
  lo : -2 ^ 63 ≤ value
  hi : value < 2 ^ 64
deriving DecidableEq

/-- `plist::Value`; the contents of the kinds that nothing reads are left out. -/
inductive Value
  | array (list : List Value)
  | boolean
  | data
  | date
  | dictionary (entries : List (String × Value))
  | integer (n : Integer)
  | real
  | string (s : String)
  | uid

/-- `plist::Dictionary`, in the order of insertion. -/
abbrev Dictionary := List (String × Value)

def Dictionary.get (d : Dictionary) (key : String) : Option Value := d.lookup key

/-- A key that is there keeps its place. -/
def Dictionary.insert (d : Dictionary) (key : String) (v : Value) : Dictionary :=
  if d.any (·.1 == key) then d.map fun e => if e.1 == key then (key, v) else e
  else d ++ [(key, v)]

namespace Integer

/-- `Integer::as_unsigned`. -/
def asUnsigned (n : Integer) : Option UInt64 :=
  if 0 ≤ n.value then some (UInt64.ofNat n.value.toNat) else none

/-- `Integer::as_signed`, as an `i64`. -/
def asSigned (n : Integer) : Option Int := if n.value < 2 ^ 63 then some n.value else none

/-- `Integer::from(u64)`. -/
def ofU64 (n : UInt64) : Integer where
  value := n.toNat
  lo := by omega
  hi := by
    have := n.toNat_lt
    omega

end Integer

namespace Value

def asArray : Value → Option (List Value)
  | array list => some list
  | _ => none

def asDictionary : Value → Option Dictionary
  | dictionary entries => some entries
  | _ => none

def asString : Value → Option String
  | string s => some s
  | _ => none

def asUnsignedInteger : Value → Option UInt64
  | integer n => n.asUnsigned
  | _ => none

def asSignedInteger : Value → Option Int
  | integer n => n.asSigned
  | _ => none

end Value

end Plist

open Plist (Dictionary Value)

/-- The `plist` crate; an error is its text. -/
structure PlistCrate where
  /-- `Value::to_writer_xml` into a `Vec` -/
  toWriterXml : Value → Except String Bytes
  /-- `Value::from_reader` -/
  fromReader : Bytes → Except String Value

/-! ## Header fields -/

/-- `u32::to_le_bytes`. -/
def toLeBytes (n : UInt32) : Bytes :=
  [UInt8.ofNat n.toNat, UInt8.ofNat (n.toNat / 2 ^ 8), UInt8.ofNat (n.toNat / 2 ^ 16),
    UInt8.ofNat (n.toNat / 2 ^ 24)]

/-- `u32::from_le_bytes`. -/
def fromLeBytes (a b c d : UInt8) : UInt32 :=
  UInt32.ofNat (a.toNat + b.toNat * 2 ^ 8 + c.toNat * 2 ^ 16 + d.toNat * 2 ^ 24)

/-- `read_u32::<LittleEndian>`. -/
def readU32 (s : Bytes) : Except IoError (UInt32 × Bytes) :=
  match readExact 4 s with
  | .ok ([a, b, c, d], s) => .ok (fromLeBytes a b c d, s)
  | .ok _ => .error ⟨.other, ""⟩  -- `read_exact` has filled all four bytes
  | .error e => .error e

theorem fromLeBytes_toNat (a b c d : UInt8) : (fromLeBytes a b c d).toNat =
    a.toNat + b.toNat * 2 ^ 8 + c.toNat * 2 ^ 16 + d.toNat * 2 ^ 24 := by
  have ha := a.toNat_lt
  have hb := b.toNat_lt
  have hc := c.toNat_lt
  have hd := d.toNat_lt
  unfold fromLeBytes
  rw [UInt32.toNat_ofNat']
  omega

theorem toLeBytes_fromLeBytes (a b c d : UInt8) : toLeBytes (fromLeBytes a b c d) = [a, b, c, d] := by
  have ha := a.toNat_lt
  have hb := b.toNat_lt
  have hc := c.toNat_lt
  have hd := d.toNat_lt
  unfold toLeBytes
  rw [fromLeBytes_toNat]
  simp only [List.cons.injEq, and_true, ← UInt8.toNat_inj, UInt8.toNat_ofNat']
  omega

/-- Any four bytes are a `u32`. -/
theorem exists_toLeBytes {s : Bytes} (k : Nat) (h : 4 + k ≤ s.length) :
    ∃ n rest, s = toLeBytes n ++ rest ∧ k ≤ rest.length := by
  have h4 : 4 ≤ s.length := by omega
  match s, h4, h with
  | a :: b :: c :: d :: rest, _, h =>
    refine ⟨fromLeBytes a b c d, rest, by rw [toLeBytes_fromLeBytes]; rfl, ?_⟩
    simp only [List.length_cons] at h
    omega

@[simp] theorem readU32_toLeBytes (n : UInt32) (s : Bytes) :
    readU32 (toLeBytes n ++ s) = .ok (n, s) := by
  have hn := n.toNat_lt
  have hback : fromLeBytes (UInt8.ofNat n.toNat) (UInt8.ofNat (n.toNat / 2 ^ 8))
      (UInt8.ofNat (n.toNat / 2 ^ 16)) (UInt8.ofNat (n.toNat / 2 ^ 24)) = n := by
    rw [← UInt32.toNat_inj, fromLeBytes_toNat]
    simp only [UInt8.toNat_ofNat']
    omega
  unfold readU32 readExact toLeBytes
  rw [if_pos (by simp)]
  simp only [List.cons_append, List.nil_append, List.take_succ_cons, List.take_zero,
    List.drop_succ_cons, List.drop_zero, hback]

/-- `u16::swap_bytes`. -/
def swapBytes (n : UInt16) : UInt16 :=
  fromBeBytes (UInt8.ofNat n.toNat) (UInt8.ofNat (n.toNat / 256))

/-! ## The client -/

namespace Usbmux

def HEADER_LEN : UInt32 := 16
def VERSION_PLIST : UInt32 := 1
def MSG_PLIST : UInt32 := 8

structure DeviceInfo where
  deviceId : UInt64
  serial : String
deriving DecidableEq

def plistErr (e : String) : IoError := ⟨.invalidData, "plist: " ++ e⟩

/-- `u64::try_from(i64).ok()`. -/
def u64TryFrom (i : Int) : Option UInt64 := if 0 ≤ i then some (UInt64.ofNat i.toNat) else none

def asU64 (v : Value) : Option UInt64 :=
  v.asUnsignedInteger.or (v.asSignedInteger.bind u64TryFrom)

def portNetworkOrder (port : UInt16) : UInt64 := (swapBytes port).toUInt64

example : portNetworkOrder 5555 = 45845 ∧ portNetworkOrder 22 = 5632 := by decide

def baseMessage (msgType : String) : Dictionary :=
  let d : Dictionary := []
  let d := d.insert "MessageType" (.string msgType)
  let d := d.insert "ClientVersionString" (.string "rickynet-usbmux 0.1")
  let d := d.insert "ProgName" (.string "RickyNet")
  d.insert "kLibUSBMuxVersion" (.integer (.ofU64 3))

/-- A connection to the daemon. -/
structure Socket where
  /-- what is still to be read -/
  rest : Bytes
  /-- what has been written -/
  sent : Bytes
deriving DecidableEq

variable (crate : PlistCrate)

def sendPlist (w : Socket) (tag : UInt32) (dict : Dictionary) : Except IoError Socket :=
  match crate.toWriterXml (.dictionary dict) with
  | .error e => .error (plistErr e)
  | .ok body =>
    let length := HEADER_LEN + UInt32.ofNat body.length
    .ok { w with
      sent := w.sent ++ toLeBytes length ++ toLeBytes VERSION_PLIST ++ toLeBytes MSG_PLIST ++
        toLeBytes tag ++ body }

/-- `recv_plist`: the value and the rest of the stream. -/
def recvPlist (r : Bytes) : Except IoError (Value × Bytes) := do
  let (hdr, r) ← readExact 16 r
  let (length, c) ← readU32 hdr
  let (_version, c) ← readU32 c
  let (_message, c) ← readU32 c
  let (_tag, _) ← readU32 c
  if length < HEADER_LEN then
    .error ⟨.invalidData, "usbmux: short frame length"⟩
  let bodyLen := (length - HEADER_LEN).toNat
  let (body, r) ← readExact bodyLen r
  match crate.fromReader body with
  | .error e => .error (plistErr e)
  | .ok value => .ok (value, r)

/-- `recv_plist` on a socket. -/
def Socket.recvPlist (s : Socket) : Except IoError (Value × Socket) :=
  match Usbmux.recvPlist crate s.rest with
  | .error e => .error e
  | .ok (value, rest) => .ok (value, { s with rest := rest })

/-- `connect_muxd`, given what the daemon will answer on the connection. -/
def connectMuxd (answer : Except IoError Bytes) : Except IoError Socket :=
  match answer with
  | .error e => .error e
  | .ok rest => .ok ⟨rest, []⟩

/-- The loop body of `parse_device_list`; `none` is its `continue`. -/
def parseDevice (item : Value) : Option DeviceInfo :=
  match (item.asDictionary.bind (·.get "Properties")).bind Value.asDictionary with
  | none => none
  | some props =>
    let conn := ((props.get "ConnectionType").bind Value.asString).getD ""
    if conn ≠ "USB" then none
    else
      match (props.get "DeviceID").bind asU64 with
      | none => none
      | some deviceId =>
        some ⟨deviceId, ((props.get "SerialNumber").bind Value.asString).getD ""⟩

def parseDeviceList (resp : Value) : List DeviceInfo :=
  match (resp.asDictionary.bind (·.get "DeviceList")).bind Value.asArray with
  | none => []
  | some list => list.filterMap parseDevice

def listDevices (answer : Except IoError Bytes) : Except IoError (List DeviceInfo) := do
  let s ← connectMuxd answer
  let s ← sendPlist crate s 1 (baseMessage "ListDevices")
  let (resp, _) ← s.recvPlist crate
  .ok (parseDeviceList resp)

/-- The dictionary of a `Connect` message. -/
def connectMessage (deviceId : UInt64) (port : UInt16) : Dictionary :=
  let d := baseMessage "Connect"
  let d := d.insert "DeviceID" (.integer (.ofU64 deviceId))
  d.insert "PortNumber" (.integer (.ofU64 (portNetworkOrder port)))

def connectDevice (answer : Except IoError Bytes) (deviceId : UInt64) (port : UInt16) :
    Except IoError Socket := do
  let s ← connectMuxd answer
  let s ← sendPlist crate s 2 (connectMessage deviceId port)
  let (resp, s) ← s.recvPlist crate
  let number := ((resp.asDictionary.bind (·.get "Number")).bind asU64).getD 0xFFFFFFFFFFFFFFFF
  if number ≠ 0 then
    .error ⟨.connectionRefused, "usbmux Connect failed (Number=" ++ toString number.toNat ++
      "; 3=connection refused — is the RickyNet app open and Started on the phone?)"⟩
  .ok s

/-- `connect_first_device`; `first` and `second` are the daemon's answers on the two connections. -/
def connectFirstDevice (first second : Except IoError Bytes) (port : UInt16) :
    Except IoError Socket := do
  let devices ← listDevices crate first
  match devices.head? with
  | none => .error ⟨.notFound, "no USB iPhone found via usbmux — plug in the phone, tap Trust, and make sure iTunes / Apple Devices (Apple Mobile Device Service) is installed"⟩
  | some dev => connectDevice crate second dev.deviceId port

end Usbmux

end RickyNet
