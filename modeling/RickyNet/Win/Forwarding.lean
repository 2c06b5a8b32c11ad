import Mathlib.Algebra.Ring.Nat
import RickyNet.Lib.LongestPrefix
import RickyNet.Win.Install

/-!
# Where packets go

Windows forwards by the longest prefix.  Both halves of the split default together cover every
address, beat a default route and lose to everything more specific, the /32 of the carve-out
included.

A `SOCKADDR_INET` holds the octets of an address as a `u32` in the byte order of the machine;
`sockaddrV4_octets` says that they come back on either.
-/

namespace RickyNet

/-! ## Addresses in memory -/

inductive ByteOrder
  | little
  | big

/-- `u32::from_ne_bytes`. -/
def fromNeBytes : ByteOrder → Ipv4Addr → UInt32
  | .little, ⟨a, b, c, d⟩ =>
    UInt32.ofNat (((d.toNat * 256 + c.toNat) * 256 + b.toNat) * 256 + a.toNat)
  | .big, ⟨a, b, c, d⟩ => UInt32.ofNat (((a.toNat * 256 + b.toNat) * 256 + c.toNat) * 256 + d.toNat)

/-- `u32::to_ne_bytes`. -/
def toNeBytes (order : ByteOrder) (n : UInt32) : Ipv4Addr :=
  let b0 := UInt8.ofNat n.toNat
  let b1 := UInt8.ofNat (n.toNat / 256)
  let b2 := UInt8.ofNat (n.toNat / 65536)
  let b3 := UInt8.ofNat (n.toNat / 16777216)
  match order with
  | .little => ⟨b0, b1, b2, b3⟩
  | .big => ⟨b3, b2, b1, b0⟩

def AF_INET : UInt16 := 2

structure SockaddrInet where
  family : UInt16
  sAddr : UInt32

/-- `sockaddr_v4`. -/
def sockaddrV4 (order : ByteOrder) (octets : Ipv4Addr) : SockaddrInet :=
  ⟨AF_INET, fromNeBytes order octets⟩

/-- `MIB_IPFORWARD_ROW2` in memory. -/
structure MibIpforwardRow2 where
  interfaceLuid : UInt64
  prefixAddr : SockaddrInet
  prefixLength : UInt8
  nextHop : SockaddrInet
  metric : UInt32

/-- The row that `add_onlink_route` passes to the system. -/
def addOnlinkRoute (order : ByteOrder) (luid : UInt64) (dest : Ipv4Addr) (prefixLen : UInt8)
    (metric : UInt32) : MibIpforwardRow2 :=
  ⟨luid, sockaddrV4 order dest, prefixLen, sockaddrV4 order ⟨0, 0, 0, 0⟩, metric⟩

/-- The row that `add_gateway_route` passes to the system. -/
def addGatewayRoute (order : ByteOrder) (luid : UInt64) (dest : Ipv4Addr) (prefixLen : UInt8)
    (gateway : Ipv4Addr) (metric : UInt32) : MibIpforwardRow2 :=
  ⟨luid, sockaddrV4 order dest, prefixLen, sockaddrV4 order gateway, metric⟩

/-- What the system takes from a row. -/
def MibIpforwardRow2.read (order : ByteOrder) (row : MibIpforwardRow2) : Row :=
  ⟨row.interfaceLuid, toNeBytes order row.prefixAddr.sAddr, row.prefixLength,
    toNeBytes order row.nextHop.sAddr, row.metric⟩

/-- The last lines of `best_route_to`: what it takes from the row of `GetBestRoute2`. -/
def bestHopOf (order : ByteOrder) (row : MibIpforwardRow2) : BestHop :=
  ⟨toNeBytes order row.nextHop.sAddr, row.interfaceLuid⟩

/-- **The octets survive**, on either byte order. -/
theorem sockaddrV4_octets (order : ByteOrder) (octets : Ipv4Addr) :
    toNeBytes order (sockaddrV4 order octets).sAddr = octets := by
  obtain ⟨a, b, c, d⟩ := octets
  have ha := a.toNat_lt
  have hb := b.toNat_lt
  have hc := c.toNat_lt
  have hd := d.toNat_lt
  cases order with
  | little =>
    unfold toNeBytes sockaddrV4 fromNeBytes
    simp only [UInt32.toNat_ofNat', Ipv4Addr.mk.injEq, ← UInt8.toNat_inj, UInt8.toNat_ofNat']
    omega
  | big =>
    unfold toNeBytes sockaddrV4 fromNeBytes
    simp only [UInt32.toNat_ofNat', Ipv4Addr.mk.injEq, ← UInt8.toNat_inj, UInt8.toNat_ofNat']
    omega

theorem addOnlinkRoute_read (order : ByteOrder) (luid : UInt64) (dest : Ipv4Addr) (prefixLen : UInt8)
    (metric : UInt32) :
    (addOnlinkRoute order luid dest prefixLen metric).read order =
      onlinkRow luid dest prefixLen metric := by
  unfold MibIpforwardRow2.read addOnlinkRoute onlinkRow
  simp only [sockaddrV4_octets]

theorem addGatewayRoute_read (order : ByteOrder) (luid : UInt64) (dest : Ipv4Addr) (prefixLen : UInt8)
    (gateway : Ipv4Addr) (metric : UInt32) :
    (addGatewayRoute order luid dest prefixLen gateway metric).read order =
      gatewayRow luid dest prefixLen gateway metric := by
  unfold MibIpforwardRow2.read addGatewayRoute gatewayRow
  simp only [sockaddrV4_octets]

/-! ## Longest-prefix match -/

def Ipv4Addr.toNat (x : Ipv4Addr) : Nat :=
  ((x.a.toNat * 256 + x.b.toNat) * 256 + x.c.toNat) * 256 + x.d.toNat

/-- The row's prefix is one of the address. -/
def Row.Covers (r : Row) (x : Ipv4Addr) : Prop :=
  r.prefixLen.toNat ≤ 32 ∧
    x.toNat / 2 ^ (32 - r.prefixLen.toNat) = r.dest.toNat / 2 ^ (32 - r.prefixLen.toNat)

instance (r : Row) (x : Ipv4Addr) : Decidable (r.Covers x) := inferInstanceAs (Decidable (_ ∧ _))

/-- How specific a row is. -/
def Row.len (r : Row) : Nat := r.prefixLen.toNat

/-- The rows that forwarding chooses from. -/
def bestRows (table : RouteTable) (x : Ipv4Addr) : Finset Row :=
  LongestPrefix.best Row.Covers Row.len table x

/-- Interface and gateway for an address. -/
def route (k : LongestPrefix.Pick Row) (table : RouteTable) (x : Ipv4Addr) : Option BestHop :=
  (k.pick (bestRows table x)).map fun r => ⟨r.nextHop, r.luid⟩

/-- `best_route_to` finds the hop of the row that forwarding takes. -/
theorem route_eq_bestHopOf {k : LongestPrefix.Pick Row} {table : RouteTable} {x : Ipv4Addr}
    {order : ByteOrder} {row : MibIpforwardRow2}
    (h : k.pick (bestRows table x) = some (row.read order)) :
    route k table x = some (bestHopOf order row) := by
  unfold route
  rw [h]
  rfl

theorem toNat_inj {x y : Ipv4Addr} : x.toNat = y.toNat ↔ x = y := by
  obtain ⟨a, b, c, d⟩ := x
  obtain ⟨a', b', c', d'⟩ := y
  have ha := a.toNat_lt
  have hb := b.toNat_lt
  have hc := c.toNat_lt
  have hd := d.toNat_lt
  have ha' := a'.toNat_lt
  have hb' := b'.toNat_lt
  have hc' := c'.toNat_lt
  have hd' := d'.toNat_lt
  unfold Ipv4Addr.toNat
  simp only [Ipv4Addr.mk.injEq, ← UInt8.toNat_inj]
  omega

theorem carveOutRow_covers (hop : BestHop) (ip x : Ipv4Addr) :
    (carveOutRow hop ip).Covers x ↔ x = ip := by
  unfold Row.Covers carveOutRow gatewayRow
  simp [toNat_inj]

/-- The first bit of an address. -/
theorem toNat_half (x : Ipv4Addr) : x.toNat / 2 ^ 31 = x.a.toNat / 128 := by
  have hb := x.b.toNat_lt
  have hc := x.c.toNat_lt
  have hd := x.d.toNat_lt
  unfold Ipv4Addr.toNat
  omega

theorem lowRow_covers (luid : UInt64) (x : Ipv4Addr) : (lowRow luid).Covers x ↔ x.a.toNat < 128 := by
  have hx := toNat_half x
  have hdest : (lowRow luid).dest.toNat / 2 ^ 31 = 0 := toNat_half ⟨0, 0, 0, 0⟩
  show 1 ≤ 32 ∧ x.toNat / 2 ^ 31 = (lowRow luid).dest.toNat / 2 ^ 31 ↔ _
  rw [hx, hdest]
  omega

theorem highRow_covers (luid : UInt64) (x : Ipv4Addr) :
    (highRow luid).Covers x ↔ 128 ≤ x.a.toNat := by
  have ha := x.a.toNat_lt
  have hx := toNat_half x
  have hdest : (highRow luid).dest.toNat / 2 ^ 31 = 1 := toNat_half ⟨128, 0, 0, 0⟩
  show 1 ≤ 32 ∧ x.toNat / 2 ^ 31 = (highRow luid).dest.toNat / 2 ^ 31 ↔ _
  rw [hx, hdest]
  omega

@[simp] theorem carveOutRow_len (hop : BestHop) (ip : Ipv4Addr) : (carveOutRow hop ip).len = 32 := rfl

@[simp] theorem lowRow_len (luid : UInt64) : (lowRow luid).len = 1 := rfl

@[simp] theorem highRow_len (luid : UInt64) : (highRow luid).len = 1 := rfl

/-! ## The split default -/

/-- What forwarding does with the split default on top of `table`, and `ip` pinned to `hop`. -/
structure Captures (k : LongestPrefix.Pick Row) (table up : RouteTable) (tunLuid : UInt64)
    (ip : Ipv4Addr) (hop : BestHop) : Prop where
  /-- an address with nothing better than a default route goes through one half -/
  captured : ∀ x, x ≠ ip → (∀ row ∈ table, row.Covers x → row.len = 0) →
    route k up x = some ⟨⟨0, 0, 0, 0⟩, tunLuid⟩ ∧
      (bestRows up x = {lowRow tunLuid} ∧ ¬ (highRow tunLuid).Covers x ∨
        bestRows up x = {highRow tunLuid} ∧ ¬ (lowRow tunLuid).Covers x)
  phone : route k up ip = some hop
  /-- an address with something more specific than one half goes where it went -/
  kept : ∀ x, (∃ row ∈ table, row.Covers x ∧ 1 < row.len) → route k up x = route k table x

/-- `ip` is reached through another interface. -/
def OffTunnel (k : LongestPrefix.Pick Row) (table : RouteTable) (tunLuid : UInt64) (ip : Ipv4Addr) :
    Prop := ∃ hop, route k table ip = some hop ∧ hop.ifaceLuid ≠ tunLuid

section
variable {k : LongestPrefix.Pick Row} {table t : RouteTable} {tunLuid : UInt64} {ip : Ipv4Addr}
  {hop : BestHop}

theorem route_of_bestRows {x : Ipv4Addr} {r : Row} (h : bestRows t x = {r}) :
    route k t x = some ⟨r.nextHop, r.luid⟩ := by
  unfold route
  rw [h, k.singleton]
  rfl

/-- A /32 for `ip` is the only row for `ip` as long as it is the only /32 for it. -/
theorem bestRows_pinned (honly : ∀ row ∈ table, row.prefixLen = 32 → row.dest ≠ ip)
    (rows : List Row) (hc : carveOutRow hop ip ∈ rows)
    (hrows : ∀ row ∈ rows, row = carveOutRow hop ip ∨ row.len = 1) :
    bestRows (table ∪ rows.toFinset) ip = {carveOutRow hop ip} := by
  refine LongestPrefix.best_eq_singleton (Finset.mem_union_right _ (List.mem_toFinset.2 hc))
    ((carveOutRow_covers hop ip ip).2 rfl) fun row hrow hcov hne => ?_
  rcases Finset.mem_union.1 hrow with hrow | hrow
  · obtain ⟨hle, heq⟩ := hcov
    show row.prefixLen.toNat < 32
    by_contra hlt
    have h32 : row.prefixLen.toNat = 32 := by omega
    rw [h32, Nat.sub_self, Nat.pow_zero, Nat.div_one, Nat.div_one, toNat_inj] at heq
    exact honly row hrow (UInt8.toNat_inj.1 h32) heq.symm
  · rcases hrows row (List.mem_toFinset.1 hrow) with h | h
    · exact absurd h hne
    · rw [h, carveOutRow_len]
      decide

/-- Where nothing but a default route is left, the half that covers the address decides. -/
theorem bestRows_half (hop : BestHop) {x : Ipv4Addr} {r : Row} (hr : r = lowRow tunLuid ∨ r = highRow tunLuid)
    (hcov : r.Covers x) (hlow : (lowRow tunLuid).Covers x → lowRow tunLuid = r)
    (hhigh : (highRow tunLuid).Covers x → highRow tunLuid = r) (hx : x ≠ ip)
    (hdef : ∀ row ∈ table, row.Covers x → row.len = 0) :
    bestRows (table ∪ [carveOutRow hop ip, lowRow tunLuid, highRow tunLuid].toFinset) x = {r} := by
  have hlen : r.len = 1 := by
    rcases hr with rfl | rfl <;> rfl
  refine LongestPrefix.best_eq_singleton ?_ hcov fun row hrow hrcov hne => ?_
  · rcases hr with rfl | rfl <;> simp
  · rcases Finset.mem_union.1 hrow with hrow | hrow
    · rw [hdef row hrow hrcov, hlen]
      decide
    · simp only [List.mem_toFinset, List.mem_cons, List.not_mem_nil, or_false] at hrow
      rcases hrow with rfl | rfl | rfl
      · exact absurd ((carveOutRow_covers hop ip x).1 hrcov) hx
      · exact absurd (hlow hrcov) hne
      · exact absurd (hhigh hrcov) hne

/-- With the split default and the /32 on top, every address goes where it should. -/
theorem captures (honly : ∀ row ∈ table, row.prefixLen = 32 → row.dest ≠ ip)
    (hbest : route k table ip = some hop) :
    Captures k table
      (table ∪ [carveOutRow hop ip, lowRow tunLuid, highRow tunLuid].toFinset) tunLuid ip hop := by
  have hphone : route k (table ∪ [carveOutRow hop ip, lowRow tunLuid, highRow tunLuid].toFinset) ip =
      some hop := route_of_bestRows (bestRows_pinned honly _ List.mem_cons_self (by simp))
  refine ⟨fun x hx hdef => ?_, hphone, fun x hspec => ?_⟩
  · by_cases hhalf : x.a.toNat < 128
    · have hlow := (lowRow_covers tunLuid x).2 hhalf
      have hhigh : ¬ (highRow tunLuid).Covers x := by
        rw [highRow_covers]
        omega
      have hb := bestRows_half hop (Or.inl rfl) hlow (fun _ => rfl)
        (fun h => absurd h hhigh) hx hdef
      exact ⟨route_of_bestRows hb, Or.inl ⟨hb, hhigh⟩⟩
    · have hhigh := (highRow_covers tunLuid x).2 (Nat.le_of_not_lt hhalf)
      have hlow : ¬ (lowRow tunLuid).Covers x := by
        rw [lowRow_covers]
        exact hhalf
      have hb := bestRows_half hop (Or.inr rfl) hhigh (fun h => absurd h hlow)
        (fun _ => rfl) hx hdef
      exact ⟨route_of_bestRows hb, Or.inr ⟨hb, hlow⟩⟩
  · by_cases hx : x = ip
    · rw [hx, hphone, hbest]
    · obtain ⟨row, hrow, hcov, hlen⟩ := hspec
      unfold route bestRows
      rw [LongestPrefix.best_union_left]
      intro r hr hrcov
      refine ⟨row, hrow, hcov, ?_⟩
      simp only [List.mem_toFinset, List.mem_cons, List.not_mem_nil, or_false] at hr
      rcases hr with rfl | rfl | rfl
      · exact absurd ((carveOutRow_covers hop ip x).1 hrcov) hx
      · exact hlen
      · exact hlen

/-- The tables of an installation that has begun with the /32.  Only the rollback of a refused upper
half passes one that has the lower half and not the /32. -/
theorem install_tables (tunLuid : UInt64) {calls : InstallCalls} (hpin : Routes.Pins table calls ip hop) :
    match Routes.install tunLuid (some ip) calls (.start table) with
    | (.ok _, log) =>
      log.table = table ∪ [carveOutRow hop ip, lowRow tunLuid, highRow tunLuid].toFinset ∧
        ∀ t ∈ log.tables, ∃ rows, t = table ∪ rows.toFinset ∧
          (rows = [] ∨ carveOutRow hop ip ∈ rows ∧ ∀ row ∈ rows, row = carveOutRow hop ip ∨ row.len = 1)
    | (.error _, log) =>
      ∀ t ∈ log.tables, ∃ rows, t = table ∪ rows.toFinset ∧
        (rows = [] ∨ rows = [lowRow tunLuid] ∨
          carveOutRow hop ip ∈ rows ∧ ∀ row ∈ rows, row = carveOutRow hop ip ∨ row.len = 1) := by
  have hp : Routes.pin (some ip) calls (.start table) =
      ([carveOutRow hop ip], ⟨insert (carveOutRow hop ip) table, [table]⟩) := by
    rcases Routes.pin_cases (some ip) calls (.start table) with ⟨-, h⟩ | ⟨ip', hop', h1, h2, h3⟩
    · exact absurd hpin (h ip hop rfl)
    · cases h1
      have : hop' = hop := by
        have := h2.1.symm.trans hpin.1
        cases this
        rfl
      rw [h3, this]
      rfl
  have h1 : KeyedTable.OnTop Row.key table (insert (carveOutRow hop ip) table) [carveOutRow hop ip] :=
    KeyedTable.OnTop.nil.create hpin.2.1
  rcases Routes.install_cases tunLuid (some ip) calls (.start table) with
    ⟨e, rows, log, hr, h⟩ | ⟨e, rows, log, hr, hl, h⟩ | ⟨rows, log, hr, hl, hh, h⟩
  · rw [hp] at hr
    cases hr
    rw [h]
    intro t ht
    simp only [RouteLog.tables, Routes.remove, List.foldl_cons, List.foldl_nil, RouteLog.delete,
      List.mem_cons, List.not_mem_nil, or_false] at ht
    rcases ht with rfl | rfl | rfl
    · exact ⟨[], h1.remove.table, Or.inl rfl⟩
    · exact ⟨[carveOutRow hop ip], h1.table, Or.inr (Or.inr (by simp))⟩
    · exact ⟨[], by simp, Or.inl rfl⟩
  · rw [hp] at hr
    cases hr
    rw [h]
    have h2 := h1.create_last hl
    intro t ht
    simp only [RouteLog.tables, Routes.remove, List.singleton_append, List.foldl_cons, List.foldl_nil,
      RouteLog.delete, List.mem_cons, List.not_mem_nil, or_false] at ht
    rcases ht with rfl | rfl | rfl | rfl | rfl
    · exact ⟨[], h2.remove.remove.table, Or.inl rfl⟩
    · exact ⟨[lowRow tunLuid], h2.remove.table, Or.inr (Or.inl rfl)⟩
    · exact ⟨[carveOutRow hop ip, lowRow tunLuid], h2.table, Or.inr (Or.inr (by simp))⟩
    · exact ⟨[carveOutRow hop ip], h1.table, Or.inr (Or.inr (by simp))⟩
    · exact ⟨[], by simp, Or.inl rfl⟩
  · rw [hp] at hr
    cases hr
    rw [h]
    have h2 := h1.create_last hl
    have h3 := h2.create_last hh
    refine ⟨h3.table, fun t ht => ?_⟩
    simp only [RouteLog.tables, List.mem_cons, List.not_mem_nil, or_false] at ht
    rcases ht with rfl | rfl | rfl | rfl
    · exact ⟨[carveOutRow hop ip, lowRow tunLuid, highRow tunLuid], h3.table, Or.inr (by simp)⟩
    · exact ⟨[carveOutRow hop ip, lowRow tunLuid], h2.table, Or.inr (by simp)⟩
    · exact ⟨[carveOutRow hop ip], h1.table, Or.inr (by simp)⟩
    · exact ⟨[], by simp, Or.inl rfl⟩

/-- The lower half alone takes `ip` away only if it covers it and nothing more specific does. -/
theorem offTunnel_low (hbest : route k table ip = some hop) (hoff : hop.ifaceLuid ≠ tunLuid) :
    OffTunnel k (table ∪ [lowRow tunLuid].toFinset) tunLuid ip ∨
      (lowRow tunLuid).Covers ip ∧ ∀ row ∈ table, row.Covers ip → row.len ≤ 1 := by
  by_cases hex : (lowRow tunLuid).Covers ip ∧ ∀ row ∈ table, row.Covers ip → row.len ≤ 1
  · exact Or.inr hex
  · refine Or.inl ⟨hop, ?_, hoff⟩
    rw [← hbest]
    unfold route bestRows
    rw [LongestPrefix.best_union_left]
    intro r hr hcov
    obtain rfl : r = lowRow tunLuid := by simpa using hr
    by_contra hne
    refine hex ⟨hcov, fun row hrow hrcov => ?_⟩
    by_contra hlen
    exact hne ⟨row, hrow, hrcov, Nat.lt_of_not_le hlen⟩

end

/-- **What the split default captures.**  `GetBestRoute2` has found the hop that forwarding takes,
not on the tunnel, and the /32 is created, the only one for `ip`.  When `install` succeeds, an address
with at most a default route goes to the tunnel through exactly one half, `ip` goes where it went,
and so does every address with a more specific route.  In every table on the way `ip` is reached off
the tunnel, but for one table of the rollback: the /32 is removed before the lower half, which takes
`ip` in if it covers it and no more specific route does.  Octets survive both byte orders. -/
theorem split_default_exact (k : LongestPrefix.Pick Row) (table : RouteTable) (tunLuid : UInt64)
    (ip : Ipv4Addr) (hop : BestHop) (calls : InstallCalls) (hpin : Routes.Pins table calls ip hop)
    (hbest : route k table ip = some hop) (hoff : hop.ifaceLuid ≠ tunLuid)
    (honly : ∀ row ∈ table, row.prefixLen = 32 → row.dest ≠ ip) :
    (match Routes.install tunLuid (some ip) calls (.start table) with
      | (.ok _, log) =>
        Captures k table log.table tunLuid ip hop ∧ ∀ t ∈ log.tables, OffTunnel k t tunLuid ip
      | (.error _, log) => ∀ t ∈ log.tables, OffTunnel k t tunLuid ip ∨
        t = table ∪ {lowRow tunLuid} ∧ (lowRow tunLuid).Covers ip ∧
          ∀ row ∈ table, row.Covers ip → row.len ≤ 1) ∧
      ∀ order, (∀ octets, toNeBytes order (sockaddrV4 order octets).sAddr = octets) ∧
        (addGatewayRoute order hop.ifaceLuid ip 32 hop.gateway 1).read order = carveOutRow hop ip ∧
        (addOnlinkRoute order tunLuid ⟨0, 0, 0, 0⟩ 1 5).read order = lowRow tunLuid ∧
        (addOnlinkRoute order tunLuid ⟨128, 0, 0, 0⟩ 1 5).read order = highRow tunLuid := by
  have hpinned : ∀ rows : List Row, carveOutRow hop ip ∈ rows →
      (∀ row ∈ rows, row = carveOutRow hop ip ∨ row.len = 1) →
      OffTunnel k (table ∪ rows.toFinset) tunLuid ip := fun rows hc hrows =>
    ⟨hop, route_of_bestRows (bestRows_pinned honly rows hc hrows), hoff⟩
  have hnone : OffTunnel k (table ∪ [].toFinset) tunLuid ip := ⟨hop, by simpa using hbest, hoff⟩
  have htables := install_tables tunLuid hpin
  refine ⟨?_, fun order => ⟨sockaddrV4_octets order, addGatewayRoute_read order _ _ _ _ _,
    addOnlinkRoute_read order _ _ _ _, addOnlinkRoute_read order _ _ _ _⟩⟩
  cases hi : Routes.install tunLuid (some ip) calls (.start table) with
  | mk result log =>
  rw [hi] at htables
  cases result with
  | ok r =>
    obtain ⟨htable, hall⟩ := htables
    simp only at htable ⊢
    refine ⟨?_, fun t ht => ?_⟩
    · rw [htable]
      exact captures honly hbest
    · obtain ⟨rows, rfl, rfl | ⟨hc, hrows⟩⟩ := hall t ht
      · exact hnone
      · exact hpinned rows hc hrows
  | error e =>
    intro t ht
    obtain ⟨rows, rfl, rfl | rfl | ⟨hc, hrows⟩⟩ := htables t ht
    · exact Or.inl hnone
    · rcases offTunnel_low hbest hoff with h | ⟨h1, h2⟩
      · exact Or.inl h
      · exact Or.inr ⟨by simp, h1, h2⟩
    · exact Or.inl (hpinned rows hc hrows)

/-- A phone behind the default gateway. -/
theorem split_default_exact_run :
    (match Routes.install 7 (some ⟨10, 0, 0, 5⟩) ⟨.ok ⟨⟨192, 168, 1, 1⟩, 1⟩, none, none, none⟩
        (.start {⟨1, ⟨0, 0, 0, 0⟩, 0, ⟨192, 168, 1, 1⟩, 25⟩}) with
      | (.ok _, log) => Captures .any {⟨1, ⟨0, 0, 0, 0⟩, 0, ⟨192, 168, 1, 1⟩, 25⟩} log.table 7
          ⟨10, 0, 0, 5⟩ ⟨⟨192, 168, 1, 1⟩, 1⟩
      | (.error _, _) => False) := by
  have hbest : bestRows {⟨1, ⟨0, 0, 0, 0⟩, 0, ⟨192, 168, 1, 1⟩, 25⟩} ⟨10, 0, 0, 5⟩ =
      {⟨1, ⟨0, 0, 0, 0⟩, 0, ⟨192, 168, 1, 1⟩, 25⟩} := by decide
  have h := (split_default_exact .any {⟨1, ⟨0, 0, 0, 0⟩, 0, ⟨192, 168, 1, 1⟩, 25⟩} 7 ⟨10, 0, 0, 5⟩
    ⟨⟨192, 168, 1, 1⟩, 1⟩ ⟨.ok ⟨⟨192, 168, 1, 1⟩, 1⟩, none, none, none⟩ ⟨rfl, by decide, rfl⟩
    (route_of_bestRows hbest) (by decide) (by decide)).1
  exact h.1

/-- The upper half is refused: the rollback deletes the /32 and then the lower half, and in between
the phone is taken into the tunnel. -/
theorem phone_exposed : ∃ table calls ip hop, Routes.Pins table calls ip hop ∧
    hop.ifaceLuid ≠ 7 ∧ (∀ row ∈ table, row.prefixLen = 32 → row.dest ≠ ip) ∧
    ∀ k : LongestPrefix.Pick Row, route k table ip = some hop ∧
      ∃ t ∈ (Routes.install 7 (some ip) calls (.start table)).2.tables,
        route k t ip = some ⟨⟨0, 0, 0, 0⟩, 7⟩ ∧ ¬ OffTunnel k t 7 ip := by
  have hbest : bestRows {⟨1, ⟨0, 0, 0, 0⟩, 0, ⟨192, 168, 1, 1⟩, 25⟩} ⟨10, 0, 0, 5⟩ =
      {⟨1, ⟨0, 0, 0, 0⟩, 0, ⟨192, 168, 1, 1⟩, 25⟩} := by decide
  have hlow : bestRows {⟨1, ⟨0, 0, 0, 0⟩, 0, ⟨192, 168, 1, 1⟩, 25⟩, lowRow 7} ⟨10, 0, 0, 5⟩ =
      {lowRow 7} := by decide
  refine ⟨{⟨1, ⟨0, 0, 0, 0⟩, 0, ⟨192, 168, 1, 1⟩, 25⟩},
    ⟨.ok ⟨⟨192, 168, 1, 1⟩, 1⟩, none, none, some ⟨.other, ""⟩⟩, ⟨10, 0, 0, 5⟩, ⟨⟨192, 168, 1, 1⟩, 1⟩,
    ⟨rfl, by decide, rfl⟩, by decide, by decide, fun k => ⟨route_of_bestRows hbest,
      {⟨1, ⟨0, 0, 0, 0⟩, 0, ⟨192, 168, 1, 1⟩, 25⟩, lowRow 7}, by decide +kernel, ?_⟩⟩
  rw [route_of_bestRows hlow]
  refine ⟨rfl, ?_⟩
  rintro ⟨hop, h1, h2⟩
  rw [route_of_bestRows hlow] at h1
  cases h1
  exact h2 rfl

end RickyNet
