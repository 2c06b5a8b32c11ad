import RickyNet.Win.Usbmux

/-!
# The usbmux handshake

What the daemon's two answers must be for `connect_first_device` to return a stream, said without
the client's code: `StartsWith` is a well-formed frame at the start of an answer, `Usable` an entry of
the device list, `Accepts` a Result with number 0.

    recvPlist r = .ok (value, rest) ↔ StartsWith r value rest            (recvPlist_ok_iff)
    Usable item id ↔ parseDevice item has the DeviceID `id`              (parseDevice_some_iff)
    FirstUsable reply id ↔ the head of parseDeviceList reply is `id`     (firstUsable_iff)

`handshake_sound` puts them together.
-/

namespace RickyNet

open Plist (Dictionary Value)

namespace Usbmux

theorem ok_bind {α β : Type} (a : α) (f : α → Except IoError β) : (Except.ok a >>= f) = f a := rfl

/-! ## Frames -/

def header (length version message tag : UInt32) : Bytes :=
  toLeBytes length ++ (toLeBytes version ++ (toLeBytes message ++ toLeBytes tag))

theorem header_length (l v m t : UInt32) : (header l v m t).length = 16 := rfl

/-- A frame; its length field counts the header. -/
def muxFrame (version message tag : UInt32) (body : Bytes) : Bytes :=
  header (HEADER_LEN + UInt32.ofNat body.length) version message tag ++ body

theorem header_append (l v m t : UInt32) (s : Bytes) : header l v m t ++ s =
    toLeBytes l ++ (toLeBytes v ++ (toLeBytes m ++ (toLeBytes t ++ s))) := by
  unfold header
  rw [List.append_assoc, List.append_assoc, List.append_assoc]

theorem exists_header {r : Bytes} (h : 16 ≤ r.length) : ∃ l v m t s, r = header l v m t ++ s := by
  obtain ⟨l, r1, hr, h1⟩ := exists_toLeBytes 12 h
  obtain ⟨v, r2, hr1, h2⟩ := exists_toLeBytes 8 h1
  obtain ⟨m, r3, hr2, h3⟩ := exists_toLeBytes 4 h2
  obtain ⟨t, s, hr3, -⟩ := exists_toLeBytes 0 h3
  exact ⟨l, v, m, t, s, by rw [header_append, hr, hr1, hr2, hr3]⟩

theorem readExact_header (l v m t : UInt32) (s : Bytes) :
    readExact 16 (header l v m t ++ s) = .ok (header l v m t, s) := by
  have hl := header_length l v m t
  unfold readExact
  rw [if_pos (by rw [List.length_append]; omega), List.take_left' hl, List.drop_left' hl]

/-- The length field counts the header. -/
theorem length_field {n : Nat} (h : 16 + n < 2 ^ 32) :
    (HEADER_LEN + UInt32.ofNat n).toNat = 16 + n := by
  show (16 + (UInt32.ofNat n).toNat) % 2 ^ 32 = _
  rw [UInt32.toNat_ofNat']
  omega

section
variable {crate : PlistCrate}

/-- `recv_plist` behind a complete header: version, message and tag are read and not looked at. -/
theorem recvPlist_header (l v m t : UInt32) (s : Bytes) :
    recvPlist crate (header l v m t ++ s) =
      if l < HEADER_LEN then .error ⟨.invalidData, "usbmux: short frame length"⟩
      else match readExact (l - HEADER_LEN).toNat s with
        | .error e => .error e
        | .ok (body, r) =>
          match crate.fromReader body with
          | .error e => .error (plistErr e)
          | .ok value => .ok (value, r) := by
  have htag : readU32 (toLeBytes t) = .ok (t, []) := by
    simpa using readU32_toLeBytes t []
  unfold recvPlist
  rw [readExact_header, ok_bind]
  simp only
  rw [header, readU32_toLeBytes, ok_bind]
  simp only
  rw [readU32_toLeBytes, ok_bind]
  simp only
  rw [readU32_toLeBytes, ok_bind]
  simp only
  rw [htag, ok_bind]
  by_cases hl : l < HEADER_LEN
  · rw [if_pos hl, if_pos hl]
    rfl
  · rw [if_neg hl, if_neg hl]
    cases readExact (l - HEADER_LEN).toNat s with
    | error e => rfl
    | ok br => rfl

/-- `stream` starts with a well-formed frame that holds `value`, and `rest` is what follows it. -/
def StartsWith (crate : PlistCrate) (stream : Bytes) (value : Value) (rest : Bytes) : Prop :=
  ∃ version message tag body, 16 + body.length < 2 ^ 32 ∧ crate.fromReader body = .ok value ∧
    stream = muxFrame version message tag body ++ rest

/-- `recv_plist` takes one well-formed frame off the stream, and fails if there is none. -/
theorem recvPlist_ok_iff {r rest : Bytes} {value : Value} :
    recvPlist crate r = .ok (value, rest) ↔ StartsWith crate r value rest := by
  constructor
  · intro h
    by_cases hlen : 16 ≤ r.length
    · obtain ⟨l, v, m, t, s, rfl⟩ := exists_header hlen
      rw [recvPlist_header] at h
      split at h
      · cases h
      next hl =>
      unfold readExact at h
      split at h
      · next e hs => cases h
      next body r hs =>
      split at hs
      · next hn =>
        cases hs
        split at h
        · cases h
        next value' hv =>
        cases h
        have hl' : 16 ≤ l.toNat := Nat.le_of_not_lt hl
        have hsub : (l - HEADER_LEN).toNat = l.toNat - 16 :=
          UInt32.toNat_sub_of_le l HEADER_LEN (UInt32.not_lt.1 hl)
        have hbody : (s.take (l - HEADER_LEN).toNat).length = l.toNat - 16 := by
          rw [List.length_take, Nat.min_eq_left hn, hsub]
        have hlt := l.toNat_lt
        refine ⟨v, m, t, _, by rw [hbody]; omega, hv, ?_⟩
        have hfield : HEADER_LEN + UInt32.ofNat (s.take (l - HEADER_LEN).toNat).length = l := by
          rw [hbody, ← UInt32.toNat_inj, length_field (by omega)]
          omega
        unfold muxFrame
        rw [hfield, List.append_assoc, List.take_append_drop]
      · cases hs
    · unfold recvPlist readExact at h
      rw [if_neg hlen] at h
      cases h
  · rintro ⟨v, m, t, body, hfit, hv, rfl⟩
    have hfield := length_field hfit
    have hle : ¬ HEADER_LEN + UInt32.ofNat body.length < HEADER_LEN := by
      rw [UInt32.lt_iff_toNat_lt, hfield]
      show ¬ 16 + body.length < 16
      omega
    have hsub : (HEADER_LEN + UInt32.ofNat body.length - HEADER_LEN).toNat = body.length := by
      rw [UInt32.toNat_sub_of_le _ _ (UInt32.not_lt.1 hle), hfield]
      show 16 + body.length - 16 = _
      omega
    unfold muxFrame
    rw [List.append_assoc, recvPlist_header, if_neg hle, hsub]
    unfold readExact
    rw [if_pos (by rw [List.length_append]; omega), List.take_left' rfl, List.drop_left' rfl]
    simp only [hv]

/-- The crate writes the message, and reads back what it has written; the text is short. -/
def Sends (crate : PlistCrate) (dict : Dictionary) : Prop :=
  ∃ body, crate.toWriterXml (.dictionary dict) = .ok body ∧ 16 + body.length < 2 ^ 32 ∧
    crate.fromReader body = .ok (.dictionary dict)

/-- `send_plist` writes one frame. -/
theorem sendPlist_muxFrame {body : Bytes} {dict : Dictionary} (s : Socket) (tag : UInt32)
    (h : crate.toWriterXml (.dictionary dict) = .ok body) :
    sendPlist crate s tag dict =
      .ok { s with sent := s.sent ++ muxFrame VERSION_PLIST MSG_PLIST tag body } := by
  unfold sendPlist muxFrame
  rw [h]
  simp only [header, List.append_assoc]

/-! ## The device list -/

theorem asU64_eq_some_iff {v : Value} {n : UInt64} :
    asU64 v = some n ↔ ∃ i : Plist.Integer, v = .integer i ∧ i.value = n.toNat := by
  cases v with
  | integer i =>
    have hi := i.hi
    have hn := n.toNat_lt
    simp only [Value.integer.injEq, exists_eq_left']
    unfold asU64
    simp only [Value.asUnsignedInteger, Value.asSignedInteger]
    unfold Plist.Integer.asUnsigned Plist.Integer.asSigned
    by_cases h0 : 0 ≤ i.value
    · rw [if_pos h0, Option.some_or, Option.some_inj, ← UInt64.toNat_inj, UInt64.toNat_ofNat']
      omega
    · have hneg : ((if i.value < 2 ^ 63 then some i.value else none).bind u64TryFrom) = none := by
        rw [if_pos (by omega), Option.bind_some, u64TryFrom, if_neg h0]
      rw [if_neg h0, Option.none_or, hneg]
      constructor
      · intro h
        cases h
      · intro h
        omega
  | _ =>
    constructor
    · intro h
      cases h
    · rintro ⟨i, h, -⟩
      cases h

/-- An entry of the device list for a device on USB. -/
def Usable (entry : Value) (id : UInt64) : Prop :=
  ∃ (dict props : Dictionary) (i : Plist.Integer), entry = .dictionary dict ∧
    dict.get "Properties" = some (.dictionary props) ∧
    props.get "ConnectionType" = some (.string "USB") ∧
    props.get "DeviceID" = some (.integer i) ∧ i.value = id.toNat

theorem asDictionary_eq_some_iff {v : Value} {d : Dictionary} :
    v.asDictionary = some d ↔ v = .dictionary d := by
  cases v <;> simp [Value.asDictionary]

theorem asArray_eq_some_iff {v : Value} {l : List Value} : v.asArray = some l ↔ v = .array l := by
  cases v <;> simp [Value.asArray]

theorem asString_eq_some_iff {v : Value} {s : String} : v.asString = some s ↔ v = .string s := by
  cases v <;> simp [Value.asString]

/-- The entries that `parse_device_list` keeps. -/
theorem parseDevice_some_iff {item : Value} {id : UInt64} :
    (parseDevice item).map DeviceInfo.deviceId = some id ↔ Usable item id := by
  constructor
  · intro h
    unfold parseDevice at h
    split at h
    · cases h
    next props hprops =>
    simp only at h
    split at h
    · cases h
    next hconn =>
    split at h
    · cases h
    next n hn =>
    cases h
    obtain ⟨v, hv, hvd⟩ := Option.bind_eq_some_iff.1 hprops
    obtain ⟨dict, hitem, hget⟩ := Option.bind_eq_some_iff.1 hv
    obtain ⟨w, hw, hwn⟩ := Option.bind_eq_some_iff.1 hn
    obtain ⟨i, rfl, hi⟩ := asU64_eq_some_iff.1 hwn
    refine ⟨dict, props, i, asDictionary_eq_some_iff.1 hitem, ?_, ?_, hw, hi⟩
    · rw [hget, asDictionary_eq_some_iff.1 hvd]
    · -- the default for a missing type is not "USB"
      cases hc : (props.get "ConnectionType").bind Value.asString with
      | none => exact absurd (by decide) (hc ▸ hconn)
      | some c =>
        obtain ⟨x, hx, hxc⟩ := Option.bind_eq_some_iff.1 hc
        have hcu : c = "USB" := by simpa [hc] using hconn
        rw [hx, asString_eq_some_iff.1 hxc, hcu]
  · rintro ⟨dict, props, i, rfl, hprops, hconn, hid, hi⟩
    have hn : asU64 (.integer i) = some id := asU64_eq_some_iff.2 ⟨i, rfl, hi⟩
    unfold parseDevice
    simp only [Value.asDictionary, Option.bind_some, hprops, hconn, Value.asString, Option.getD_some,
      hid, hn, ne_eq, not_true_eq_false, if_false, Option.map_some]

/-- `list` is what the reply's `DeviceList` holds. -/
def Lists (reply : Value) (list : List Value) : Prop :=
  ∃ dict : Dictionary, reply = .dictionary dict ∧ dict.get "DeviceList" = some (.array list)

/-- The first usable entry of the list, in its order, has device id `id`. -/
def FirstUsable (reply : Value) (id : UInt64) : Prop :=
  ∃ before entry after, Lists reply (before ++ entry :: after) ∧ Usable entry id ∧
    ∀ e ∈ before, ∀ i, ¬ Usable e i

theorem parseDeviceList_lists {reply : Value} {list : List Value} (h : Lists reply list) :
    parseDeviceList reply = list.filterMap parseDevice := by
  obtain ⟨dict, rfl, hget⟩ := h
  unfold parseDeviceList
  simp only [Value.asDictionary, Option.bind_some, hget, Value.asArray]

theorem lists_of_parseDeviceList {reply : Value} (h : parseDeviceList reply ≠ []) :
    ∃ list, Lists reply list := by
  unfold parseDeviceList at h
  split at h
  · exact absurd rfl h
  next list hl =>
  obtain ⟨v, hv, hvl⟩ := Option.bind_eq_some_iff.1 hl
  obtain ⟨dict, hr, hget⟩ := Option.bind_eq_some_iff.1 hv
  exact ⟨list, dict, asDictionary_eq_some_iff.1 hr, by rw [hget, asArray_eq_some_iff.1 hvl]⟩

theorem parseDevice_none_iff {item : Value} :
    parseDevice item = none ↔ ∀ i, ¬ Usable item i := by
  constructor
  · intro h i hu
    rw [← parseDevice_some_iff, h] at hu
    cases hu
  · intro h
    cases hp : parseDevice item with
    | none => rfl
    | some dev => exact absurd (parseDevice_some_iff.1 (by rw [hp]; rfl)) (h dev.deviceId)

/-- **The device that is connected to.**  Entries that are not usable are skipped, wherever they
stand. -/
theorem firstUsable_iff {reply : Value} {id : UInt64} :
    (parseDeviceList reply).head?.map DeviceInfo.deviceId = some id ↔ FirstUsable reply id := by
  constructor
  · intro h
    obtain ⟨dev, hhead, hid⟩ := Option.map_eq_some_iff.1 h
    have hne : parseDeviceList reply ≠ [] := by
      intro hnil
      rw [hnil] at hhead
      cases hhead
    obtain ⟨list, hlist⟩ := lists_of_parseDeviceList hne
    rw [parseDeviceList_lists hlist, List.head?_filterMap, List.findSome?_eq_some_iff] at hhead
    obtain ⟨before, entry, after, rfl, hentry, hbefore⟩ := hhead
    refine ⟨before, entry, after, hlist, parseDevice_some_iff.1 (by rw [hentry, ← hid]; rfl), ?_⟩
    intro e he
    exact parseDevice_none_iff.1 (hbefore e he)
  · rintro ⟨before, entry, after, hlist, hentry, hbefore⟩
    obtain ⟨dev, hdev, hid⟩ := Option.map_eq_some_iff.1 (parseDevice_some_iff.2 hentry)
    have hfind : (before ++ entry :: after).findSome? parseDevice = some dev :=
      List.findSome?_eq_some_iff.2 ⟨before, entry, after, rfl, hdev,
        fun e he => parseDevice_none_iff.2 (hbefore e he)⟩
    rw [parseDeviceList_lists hlist, List.head?_filterMap, hfind, Option.map_some, hid]

/-- One usable entry is enough. -/
theorem exists_firstUsable {reply entry : Value} {list : List Value} {id : UInt64}
    (hlist : Lists reply list) (hmem : entry ∈ list) (hentry : Usable entry id) :
    ∃ i, FirstUsable reply i := by
  obtain ⟨dev, hdev, -⟩ := Option.map_eq_some_iff.1 (parseDevice_some_iff.2 hentry)
  have hsome : (list.findSome? parseDevice).isSome := by
    rw [List.findSome?_isSome_iff]
    exact ⟨entry, hmem, by rw [hdev]; rfl⟩
  obtain ⟨first, hfirst⟩ := Option.isSome_iff_exists.1 hsome
  refine ⟨first.deviceId, firstUsable_iff.1 ?_⟩
  rw [parseDeviceList_lists hlist, List.head?_filterMap, hfirst, Option.map_some]

/-! ## The two connections -/

/-- A Result with number 0. -/
def Accepts (result : Value) : Prop :=
  ∃ (dict : Dictionary) (i : Plist.Integer), result = .dictionary dict ∧
    dict.get "Number" = some (.integer i) ∧ i.value = 0

theorem accepts_iff {result : Value} :
    ((result.asDictionary.bind (·.get "Number")).bind asU64).getD 0xFFFFFFFFFFFFFFFF = 0 ↔
      Accepts result := by
  constructor
  · intro h
    cases hn : (result.asDictionary.bind (·.get "Number")).bind asU64 with
    | none =>
      rw [hn] at h
      cases h
    | some n =>
      rw [hn] at h
      obtain ⟨v, hv, hvn⟩ := Option.bind_eq_some_iff.1 hn
      obtain ⟨dict, hr, hget⟩ := Option.bind_eq_some_iff.1 hv
      obtain ⟨i, rfl, hi⟩ := asU64_eq_some_iff.1 hvn
      have hn0 : n = 0 := h
      exact ⟨dict, i, asDictionary_eq_some_iff.1 hr, hget, by rw [hi, hn0]; rfl⟩
  · rintro ⟨dict, i, rfl, hget, hi⟩
    have hn : asU64 (.integer i) = some 0 := asU64_eq_some_iff.2 ⟨i, rfl, hi⟩
    simp only [Value.asDictionary, Option.bind_some, hget, hn, Option.getD_some]

theorem listDevices_ok_iff {r : Bytes} {devices : List DeviceInfo} {body : Bytes}
    (h : crate.toWriterXml (.dictionary (baseMessage "ListDevices")) = .ok body) :
    listDevices crate (.ok r) = .ok devices ↔
      ∃ reply rest, StartsWith crate r reply rest ∧ devices = parseDeviceList reply := by
  unfold listDevices
  simp only [connectMuxd]
  rw [ok_bind, sendPlist_muxFrame ⟨r, []⟩ 1 h, ok_bind]
  unfold Socket.recvPlist
  constructor
  · intro hr
    cases hrecv : recvPlist crate r with
    | error e =>
      rw [hrecv] at hr
      cases hr
    | ok vr =>
      rw [hrecv] at hr
      cases hr
      exact ⟨vr.1, vr.2, recvPlist_ok_iff.1 hrecv, rfl⟩
  · rintro ⟨reply, rest, hs, rfl⟩
    rw [recvPlist_ok_iff.2 hs]
    rfl

theorem connectDevice_ok_iff {r : Bytes} {id : UInt64} {port : UInt16} {s : Socket} {body : Bytes}
    (h : crate.toWriterXml (.dictionary (connectMessage id port)) = .ok body) :
    connectDevice crate (.ok r) id port = .ok s ↔
      (∃ result, StartsWith crate r result s.rest ∧ Accepts result) ∧
        s.sent = muxFrame VERSION_PLIST MSG_PLIST 2 body := by
  unfold connectDevice
  simp only [connectMuxd]
  rw [ok_bind, sendPlist_muxFrame ⟨r, []⟩ 2 h, ok_bind]
  unfold Socket.recvPlist
  constructor
  · intro hr
    cases hrecv : recvPlist crate r with
    | error e =>
      rw [hrecv] at hr
      cases hr
    | ok vr =>
      rw [hrecv, ok_bind] at hr
      simp only at hr
      split at hr
      · cases hr
      next hn =>
      cases hr
      exact ⟨⟨vr.1, recvPlist_ok_iff.1 hrecv, accepts_iff.1 (Classical.not_not.1 hn)⟩, rfl⟩
  · rintro ⟨⟨result, hs, hacc⟩, hsent⟩
    obtain ⟨rest, sent⟩ := s
    obtain rfl : sent = _ := hsent
    rw [recvPlist_ok_iff.2 hs, ok_bind]
    simp only
    rw [if_neg (by rw [accepts_iff.2 hacc]; simp), List.nil_append]

/-- `sent` is one `Connect` frame, for the device and for the port in network byte order. -/
def IsConnect (crate : PlistCrate) (sent : Bytes) (id : UInt64) (port : UInt16) : Prop :=
  ∃ (body : Bytes) (dict : Dictionary) (i n : Plist.Integer),
    sent = muxFrame VERSION_PLIST MSG_PLIST 2 body ∧ 16 + body.length < 2 ^ 32 ∧
    crate.fromReader body = .ok (.dictionary dict) ∧
    dict.get "MessageType" = some (.string "Connect") ∧
    dict.get "DeviceID" = some (.integer i) ∧ i.value = id.toNat ∧
    dict.get "PortNumber" = some (.integer n) ∧
    n.value = port.toNat % 256 * 256 + port.toNat / 256

theorem swapBytes_toNat (n : UInt16) : (swapBytes n).toNat = n.toNat % 256 * 256 + n.toNat / 256 := by
  have hn := n.toNat_lt
  unfold swapBytes
  rw [fromBeBytes_toNat, UInt8.toNat_ofNat', UInt8.toNat_ofNat']
  omega

theorem isConnect_muxFrame {id : UInt64} {port : UInt16} {body : Bytes} (hfit : 16 + body.length < 2 ^ 32)
    (hread : crate.fromReader body = .ok (.dictionary (connectMessage id port))) :
    IsConnect crate (muxFrame VERSION_PLIST MSG_PLIST 2 body) id port := by
  refine ⟨body, connectMessage id port, .ofU64 id, .ofU64 (portNetworkOrder port), rfl, hfit, hread,
    rfl, rfl, rfl, rfl, ?_⟩
  show ((portNetworkOrder port).toNat : Int) = _
  unfold portNetworkOrder
  rw [UInt16.toNat_toUInt64, swapBytes_toNat]
  omega

end

end Usbmux

open Usbmux

/-- **The usbmux handshake.**  Whatever the daemon answers on the two connections, a stream is
returned if and only if the first answer starts with a frame that lists a usable entry, and the
second with a Result of number 0.  Then what has been written on the second connection is one
`Connect` frame for the first usable entry, and what is left to be read is what follows the Result
frame. -/
theorem handshake_sound (crate : PlistCrate) (r1 r2 : Bytes) (port : UInt16)
    (hlist : Sends crate (baseMessage "ListDevices"))
    (hconnect : ∀ reply rest id, StartsWith crate r1 reply rest → FirstUsable reply id →
      Sends crate (connectMessage id port)) :
    ((∃ s, connectFirstDevice crate (.ok r1) (.ok r2) port = .ok s) ↔
      (∃ reply rest list, StartsWith crate r1 reply rest ∧ Lists reply list ∧
        ∃ entry ∈ list, ∃ id, Usable entry id) ∧
      (∃ result rest, StartsWith crate r2 result rest ∧ Accepts result)) ∧
    ∀ s, connectFirstDevice crate (.ok r1) (.ok r2) port = .ok s →
      ∃ reply rest id result, StartsWith crate r1 reply rest ∧ FirstUsable reply id ∧
        IsConnect crate s.sent id port ∧ StartsWith crate r2 result s.rest ∧ Accepts result := by
  obtain ⟨body, hbody, -, -⟩ := hlist
  have key : ∀ s, connectFirstDevice crate (.ok r1) (.ok r2) port = .ok s →
      ∃ reply rest id result, StartsWith crate r1 reply rest ∧ FirstUsable reply id ∧
        IsConnect crate s.sent id port ∧ StartsWith crate r2 result s.rest ∧ Accepts result := by
    intro s h
    unfold connectFirstDevice at h
    cases hl : listDevices crate (.ok r1) with
    | error e =>
      rw [hl] at h
      cases h
    | ok devices =>
      rw [hl, ok_bind] at h
      obtain ⟨reply, rest, hstart, rfl⟩ := (listDevices_ok_iff hbody).1 hl
      split at h
      · cases h
      next dev hdev =>
      have hfirst : FirstUsable reply dev.deviceId := firstUsable_iff.1 (by rw [hdev]; rfl)
      obtain ⟨text, htext, hfit, hread⟩ := hconnect reply rest _ hstart hfirst
      obtain ⟨⟨result, hres, hacc⟩, hsent⟩ := (connectDevice_ok_iff htext).1 h
      exact ⟨reply, rest, dev.deviceId, result, hstart, hfirst,
        by rw [hsent]; exact isConnect_muxFrame hfit hread, hres, hacc⟩
  refine ⟨⟨?_, ?_⟩, key⟩
  · rintro ⟨s, h⟩
    obtain ⟨reply, rest, id, result, hstart, hfirst, -, hres, hacc⟩ := key s h
    obtain ⟨before, entry, after, hlists, hentry, -⟩ := hfirst
    exact ⟨⟨reply, rest, _, hstart, hlists, entry, by simp, id, hentry⟩, result, s.rest, hres, hacc⟩
  · rintro ⟨⟨reply, rest, list, hstart, hlists, entry, hmem, i, hentry⟩, result, rest2, hres, hacc⟩
    obtain ⟨id, hfirst⟩ := exists_firstUsable hlists hmem hentry
    obtain ⟨text, htext, -, -⟩ := hconnect reply rest id hstart hfirst
    obtain ⟨dev, hdev, rfl⟩ := Option.map_eq_some_iff.1 (firstUsable_iff.2 hfirst)
    refine ⟨⟨rest2, muxFrame VERSION_PLIST MSG_PLIST 2 text⟩, ?_⟩
    unfold connectFirstDevice
    rw [(listDevices_ok_iff hbody).2 ⟨reply, rest, hstart, rfl⟩, ok_bind, hdev]
    exact (connectDevice_ok_iff htext).2 ⟨⟨result, hres, hacc⟩, rfl⟩

/-! ## A sample exchange -/

namespace Usbmux

def xml (lines : List String) : Bytes := [10].intercalate (lines.map fun l => l.toUTF8.data.toList)

/-- A message as the crate writes it. -/
def messageXml (entries : List String) : Bytes :=
  xml (["<?xml version=\"1.0\" encoding=\"UTF-8\"?>",
    "<!DOCTYPE plist PUBLIC \"-//Apple//DTD PLIST 1.0//EN\" \"http://www.apple.com/DTDs/PropertyList-1.0.dtd\">",
    "<plist version=\"1.0\">", "<dict>"] ++ entries ++ ["</dict>", "</plist>"])

def baseXml (msgType : String) : List String :=
  ["\t<key>MessageType</key>", "\t<string>" ++ msgType ++ "</string>",
    "\t<key>ClientVersionString</key>", "\t<string>rickynet-usbmux 0.1</string>",
    "\t<key>ProgName</key>", "\t<string>RickyNet</string>", "\t<key>kLibUSBMuxVersion</key>",
    "\t<integer>3</integer>"]

def listXml : Bytes := messageXml (baseXml "ListDevices")

/-- Device 11, port 5555. -/
def connectXml : Bytes := messageXml (baseXml "Connect" ++ ["\t<key>DeviceID</key>",
  "\t<integer>11</integer>", "\t<key>PortNumber</key>", "\t<integer>45845</integer>"])

/-- A network device without an id before a USB device. -/
def devicesXml : Bytes :=
  xml ["<plist version=\"1.0\"><dict><key>DeviceList</key><array>",
    "<dict><key>Properties</key><dict><key>ConnectionType</key><string>Network</string></dict></dict>",
    "<dict><key>Properties</key><dict><key>ConnectionType</key><string>USB</string>",
    "<key>DeviceID</key><integer>11</integer></dict></dict></array></dict></plist>"]

def entries : List Value :=
  [.dictionary [("Properties", .dictionary [("ConnectionType", .string "Network")])],
    .dictionary [("Properties",
      .dictionary [("ConnectionType", .string "USB"), ("DeviceID", .integer (.ofU64 11))])]]

def resultXml : Bytes :=
  xml ["<plist version=\"1.0\"><dict><key>Number</key><integer>0</integer></dict></plist>"]

/-- The crate on the texts of this exchange. -/
def sampleCrate : PlistCrate where
  toWriterXml v :=
    match (v.asDictionary.bind (·.get "MessageType")).bind Value.asString with
    | some msgType => .ok (if msgType = "Connect" then connectXml else listXml)
    | none => .error "not a message"
  fromReader body :=
    if body = listXml then .ok (.dictionary (baseMessage "ListDevices"))
    else if body = connectXml then .ok (.dictionary (connectMessage 11 5555))
    else if body = devicesXml then .ok (.dictionary [("DeviceList", .array entries)])
    else if body = resultXml then .ok (.dictionary [("Number", .integer (.ofU64 0))])
    else .error "unexpected text"

theorem sampleCrate_list :
    sampleCrate.fromReader listXml = .ok (.dictionary (baseMessage "ListDevices")) := by
  unfold sampleCrate
  simp only
  rw [if_pos trivial]

theorem sampleCrate_connect :
    sampleCrate.fromReader connectXml = .ok (.dictionary (connectMessage 11 5555)) := by
  unfold sampleCrate
  simp only
  rw [if_neg (by decide +kernel), if_pos trivial]

theorem sampleCrate_devices :
    sampleCrate.fromReader devicesXml = .ok (.dictionary [("DeviceList", .array entries)]) := by
  unfold sampleCrate
  simp only
  rw [if_neg (by decide +kernel), if_neg (by decide +kernel), if_pos trivial]

theorem sampleCrate_result :
    sampleCrate.fromReader resultXml = .ok (.dictionary [("Number", .integer (.ofU64 0))]) := by
  unfold sampleCrate
  simp only
  rw [if_neg (by decide +kernel), if_neg (by decide +kernel), if_neg (by decide +kernel),
    if_pos trivial]

end Usbmux

/-- The exchange, with three bytes of the raw pipe behind the Result frame. -/
theorem handshake_sound_run : ∃ s id,
    connectFirstDevice sampleCrate (.ok (muxFrame 1 8 1 devicesXml))
      (.ok (muxFrame 1 8 2 resultXml ++ [1, 2, 3])) 5555 = .ok s ∧
    IsConnect sampleCrate s.sent id 5555 ∧ s.rest = [1, 2, 3] := by
  have hdev : StartsWith sampleCrate (muxFrame 1 8 1 devicesXml)
      (.dictionary [("DeviceList", .array entries)]) [] :=
    ⟨1, 8, 1, devicesXml, by decide +kernel, sampleCrate_devices, (List.append_nil _).symm⟩
  have hres : StartsWith sampleCrate (muxFrame 1 8 2 resultXml ++ [1, 2, 3])
      (.dictionary [("Number", .integer (.ofU64 0))]) [1, 2, 3] :=
    ⟨1, 8, 2, resultXml, by decide +kernel, sampleCrate_result, rfl⟩
  have h := handshake_sound sampleCrate (muxFrame 1 8 1 devicesXml)
    (muxFrame 1 8 2 resultXml ++ [1, 2, 3]) 5555
    ⟨listXml, rfl, by decide +kernel, sampleCrate_list⟩ (by
      intro reply rest id hstart hfirst
      cases (recvPlist_ok_iff.2 hdev).symm.trans (recvPlist_ok_iff.2 hstart)
      have hid : some (11 : UInt64) = some id := firstUsable_iff.2 hfirst
      cases hid
      exact ⟨connectXml, rfl, by decide +kernel, sampleCrate_connect⟩)
  have hmem : entries[1] ∈ entries := List.getElem_mem _
  obtain ⟨s, hs⟩ := h.1.2 ⟨⟨_, _, entries, hdev, ⟨_, rfl, rfl⟩, entries[1], hmem, 11,
    ⟨_, _, .ofU64 11, rfl, rfl, rfl, rfl, rfl⟩⟩, _, _, hres, _, .ofU64 0, rfl, rfl, rfl⟩
  obtain ⟨-, -, id, result, -, -, hconn, hresult, -⟩ := h.2 s hs
  have hrest := (recvPlist_ok_iff.2 hresult).symm.trans (recvPlist_ok_iff.2 hres)
  rw [Except.ok.injEq, Prod.mk.injEq] at hrest
  exact ⟨s, id, hs, hconn, hrest.2⟩

end RickyNet
