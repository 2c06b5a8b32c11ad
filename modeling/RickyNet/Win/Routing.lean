import RickyNet.Lib.KeyedTable
import RickyNet.Wire.Codec

/-!
# Route table management

The IPv4 route table as a keyed table: Windows holds at most one row for an interface, a
destination and a next hop, and `CreateIpForwardEntry2` of a second one fails.
-/

namespace RickyNet

/-- The octets of an address. -/
structure Ipv4Addr where
  a : UInt8
  b : UInt8
  c : UInt8
  d : UInt8
deriving DecidableEq

/-- `MIB_IPFORWARD_ROW2`, as far as this program fills it in. -/
structure Row where
  luid : UInt64
  dest : Ipv4Addr
  prefixLen : UInt8
  nextHop : Ipv4Addr
  metric : UInt32
deriving DecidableEq

def Row.key (r : Row) : UInt64 × Ipv4Addr × UInt8 × Ipv4Addr := (r.luid, r.dest, r.prefixLen, r.nextHop)

abbrev RouteTable := Finset Row

/-- `CreateIpForwardEntry2`; `refusal` is what makes it fail besides a row with the same key. -/
def createIpForwardEntry2 (table : RouteTable) (row : Row) (refusal : Option IoError) :
    Except IoError RouteTable :=
  if KeyedTable.Free Row.key table row then
    match refusal with
    | some e => .error e
    | none => .ok (insert row table)
  else .error ⟨.other, "The object already exists. (os error 5010)"⟩

/-- `DeleteIpForwardEntry2`. -/
def deleteIpForwardEntry2 (table : RouteTable) (row : Row) : RouteTable :=
  KeyedTable.remove Row.key table row

/-- `best_route_to`: the gateway and its interface. -/
structure BestHop where
  gateway : Ipv4Addr
  ifaceLuid : UInt64
deriving DecidableEq

/-- The row of `add_onlink_route`. -/
def onlinkRow (luid : UInt64) (dest : Ipv4Addr) (prefixLen : UInt8) (metric : UInt32) : Row :=
  ⟨luid, dest, prefixLen, ⟨0, 0, 0, 0⟩, metric⟩

/-- The row of `add_gateway_route`. -/
def gatewayRow (luid : UInt64) (dest : Ipv4Addr) (prefixLen : UInt8) (gateway : Ipv4Addr)
    (metric : UInt32) : Row :=
  ⟨luid, dest, prefixLen, gateway, metric⟩

/-- The /32 that pins `ip` to the best hop. -/
def carveOutRow (hop : BestHop) (ip : Ipv4Addr) : Row := gatewayRow hop.ifaceLuid ip 32 hop.gateway 1

/-- `0.0.0.0/1` on the tunnel. -/
def lowRow (tunLuid : UInt64) : Row := onlinkRow tunLuid ⟨0, 0, 0, 0⟩ 1 5

/-- `128.0.0.0/1` on the tunnel. -/
def highRow (tunLuid : UInt64) : Row := onlinkRow tunLuid ⟨128, 0, 0, 0⟩ 1 5

theorem create_ok_iff (table table' : RouteTable) (row : Row) (refusal : Option IoError) :
    createIpForwardEntry2 table row refusal = .ok table' ↔
      KeyedTable.Free Row.key table row ∧ refusal = none ∧ table' = insert row table := by
  unfold createIpForwardEntry2
  by_cases hf : KeyedTable.Free Row.key table row
  · rw [if_pos hf]
    cases refusal with
    | none =>
      simp only [Except.ok.injEq, true_and, hf]
      exact eq_comm
    | some e => simp
  · rw [if_neg hf]
    simp [hf]

/-- The two halves and the carve-out have different keys. -/
theorem carveOutRow_key_ne_low (hop : BestHop) (ip : Ipv4Addr) (luid : UInt64) :
    (carveOutRow hop ip).key ≠ (lowRow luid).key := by
  simp [carveOutRow, lowRow, gatewayRow, onlinkRow, Row.key]

theorem carveOutRow_key_ne_high (hop : BestHop) (ip : Ipv4Addr) (luid : UInt64) :
    (carveOutRow hop ip).key ≠ (highRow luid).key := by
  simp [carveOutRow, highRow, gatewayRow, onlinkRow, Row.key]

theorem lowRow_key_ne_high (luid : UInt64) : (lowRow luid).key ≠ (highRow luid).key := by
  simp [lowRow, highRow, onlinkRow, Row.key]

end RickyNet
