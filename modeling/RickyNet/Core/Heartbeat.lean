import Mathlib.Algebra.Ring.Nat
import RickyNet.Lib.Runs

/-!
# The throughput heartbeat

`RX_BYTES` and `TX_BYTES` are reset by `rn_start` and live through all its bridges; `last_rx` and
`last_tx` are variables of one `bridge`, 0 when it starts.  A heartbeat shows how far the counters are
ahead of them.

`base` and `since` are not in the code: the counter when the bridge came up, or at its last heartbeat,
and the bytes added from then on.  `delta_exact_iff` says when a heartbeat shows `since`.
-/

namespace RickyNet

/-- `u64::saturating_sub`. -/
def saturatingSub (a b : UInt64) : UInt64 := if b ≤ a then a - b else 0

theorem saturatingSub_toNat (a b : UInt64) : (saturatingSub a b).toNat = a.toNat - b.toNat := by
  unfold saturatingSub
  split
  · next h => exact UInt64.toNat_sub_of_le a b h
  · next h =>
    rw [UInt64.le_iff_toNat_le] at h
    show 0 = _
    omega

/-! ## One counter -/

/-- A counter, and what the bridge keeps of it. -/
structure Meter where
  /-- `RX_BYTES` or `TX_BYTES` -/
  bytes : UInt64
  /-- `last_rx` or `last_tx` -/
  last : UInt64
  /-- the bridge has had no heartbeat -/
  first : Bool
  /-- the counter at the heartbeat before, or when the bridge came up -/
  base : UInt64
  /-- the bytes added from then on -/
  since : Nat
  /-- the bytes added since `rn_start` -/
  total : Nat
deriving DecidableEq

namespace Meter

/-- What `rn_start` stores. -/
def start : Meter := ⟨0, 0, true, 0, 0, 0⟩

/-- `fetch_add`, which wraps. -/
def add (m : Meter) (n : UInt64) : Meter :=
  { m with bytes := m.bytes + n, since := m.since + n.toNat, total := m.total + n.toNat }

/-- `bridge` is entered. -/
def bridge (m : Meter) : Meter := { m with last := 0, first := true, base := m.bytes, since := 0 }

/-- What a heartbeat divides by the time. -/
def delta (m : Meter) : UInt64 := saturatingSub m.bytes m.last

/-- `last_rx = rx`. -/
def beat (m : Meter) : Meter := { m with last := m.bytes, first := false, base := m.bytes, since := 0 }

structure Inv (m : Meter) : Prop where
  bytes : m.bytes.toNat = (m.base.toNat + m.since) % 2 ^ 64
  last : m.last = if m.first then 0 else m.base

/-- The counter has not wrapped, and was 0 when a bridge without a heartbeat came up. -/
def Plain (m : Meter) : Prop := m.base.toNat + m.since < 2 ^ 64 ∧ (m.first = true → m.base = 0)

instance (m : Meter) : Decidable m.Plain := inferInstanceAs (Decidable (_ ∧ _))

theorem start_inv : start.Inv := ⟨rfl, rfl⟩

theorem add_inv {m : Meter} (hi : m.Inv) (n : UInt64) : (m.add n).Inv := by
  refine ⟨?_, hi.last⟩
  show (m.bytes + n).toNat = (m.base.toNat + (m.since + n.toNat)) % 2 ^ 64
  rw [UInt64.toNat_add, hi.bytes]
  omega

theorem bridge_inv (m : Meter) : m.bridge.Inv :=
  ⟨(Nat.mod_eq_of_lt m.bytes.toNat_lt).symm, rfl⟩

theorem beat_inv (m : Meter) : m.beat.Inv :=
  ⟨(Nat.mod_eq_of_lt m.bytes.toNat_lt).symm, rfl⟩

/-- **When a heartbeat shows what has been added.** -/
theorem delta_exact_iff {m : Meter} (hi : m.Inv) : m.delta.toNat = m.since ↔ m.Plain := by
  obtain ⟨hbytes, hlast⟩ := hi
  have hbase := m.base.toNat_lt
  unfold delta Plain
  rw [saturatingSub_toNat, hlast]
  cases hf : m.first with
  | true =>
    have hzero : (0 : UInt64).toNat = 0 := rfl
    rw [if_pos rfl, hzero, ← UInt64.toNat_inj, hzero]
    constructor
    · intro h
      omega
    · rintro ⟨hlt, h0⟩
      have := h0 rfl
      omega
  | false =>
    rw [if_neg Bool.false_ne_true]
    constructor
    · intro h
      exact ⟨by omega, fun hc => by cases hc⟩
    · rintro ⟨hlt, -⟩
      omega

end Meter

/-! ## Bridges and their heartbeats -/

/-- The byte differences of a heartbeat, and the bytes added in its time. -/
structure Beat where
  down : UInt64
  up : UInt64
  rxSince : Nat
  txSince : Nat
deriving DecidableEq

def Beat.Exact (b : Beat) : Prop := b.down.toNat = b.rxSince ∧ b.up.toNat = b.txSince

instance (b : Beat) : Decidable b.Exact := inferInstanceAs (Decidable (_ ∧ _))

structure Heartbeat where
  rx : Meter
  tx : Meter
  /-- `serve` is in a bridge -/
  bridged : Bool
  /-- the heartbeats since `rn_start` -/
  beats : List Beat

namespace Heartbeat

inductive Act
  /-- `serve` accepts a desktop and enters `bridge` -/
  | connect
  /-- `bridge` returns, or is dropped -/
  | disconnect
  /-- a writer task counts, of this bridge or of one before it -/
  | rx (n : UInt64)
  /-- a reader task counts -/
  | tx (n : UInt64)
  | heartbeat

def start : Heartbeat := ⟨.start, .start, false, []⟩

def step (s : Heartbeat) : Act → Option Heartbeat
  | .connect =>
    if s.bridged then none else some { s with rx := s.rx.bridge, tx := s.tx.bridge, bridged := true }
  | .disconnect => if s.bridged then some { s with bridged := false } else none
  | .rx n => some { s with rx := s.rx.add n }
  | .tx n => some { s with tx := s.tx.add n }
  | .heartbeat =>
    if s.bridged then
      some { s with
        rx := s.rx.beat
        tx := s.tx.beat
        beats := s.beats ++ [⟨s.rx.delta, s.tx.delta, s.rx.since, s.tx.since⟩] }
    else none

/-- Every heartbeat has shown what had been added. -/
def Exact (s : Heartbeat) : Prop := ∀ b ∈ s.beats, b.Exact

instance (s : Heartbeat) : Decidable s.Exact := inferInstanceAs (Decidable (∀ b ∈ s.beats, b.Exact))

/-- The heartbeats together have shown no more than was added. -/
def Within (s : Heartbeat) : Prop :=
  (s.beats.map (·.down.toNat)).sum ≤ s.rx.total ∧ (s.beats.map (·.up.toNat)).sum ≤ s.tx.total

instance (s : Heartbeat) : Decidable s.Within := inferInstanceAs (Decidable (_ ∧ _))

/-- What a heartbeat has to meet. -/
def Meets (s : Heartbeat) : Act → Prop
  | .heartbeat => s.rx.Plain ∧ s.tx.Plain
  | _ => True

instance (s : Heartbeat) (a : Act) : Decidable (s.Meets a) := by
  cases a <;> unfold Meets <;> infer_instance

structure Inv (s : Heartbeat) : Prop where
  rx : s.rx.Inv
  tx : s.tx.Inv
  rxSpent : (s.beats.map (·.rxSince)).sum + s.rx.since ≤ s.rx.total
  txSpent : (s.beats.map (·.txSince)).sum + s.tx.since ≤ s.tx.total

theorem start_inv : start.Inv := ⟨Meter.start_inv, Meter.start_inv, Nat.le_refl 0, Nat.le_refl 0⟩

theorem step_inv {s s' : Heartbeat} {a : Act} (hi : s.Inv) (h : s.step a = some s') : s'.Inv := by
  obtain ⟨hrx, htx, hrs, hts⟩ := hi
  cases a with
  | connect =>
    simp only [step] at h
    split at h
    · cases h
    · cases h
      exact ⟨s.rx.bridge_inv, s.tx.bridge_inv, (Nat.le_add_right _ _).trans hrs,
        (Nat.le_add_right _ _).trans hts⟩
  | disconnect =>
    simp only [step] at h
    split at h
    · cases h
      exact ⟨hrx, htx, hrs, hts⟩
    · cases h
  | rx n =>
    cases h
    refine ⟨Meter.add_inv hrx n, htx, ?_, hts⟩
    show (s.beats.map (·.rxSince)).sum + (s.rx.since + n.toNat) ≤ s.rx.total + n.toNat
    omega
  | tx n =>
    cases h
    refine ⟨hrx, Meter.add_inv htx n, hrs, ?_⟩
    show (s.beats.map (·.txSince)).sum + (s.tx.since + n.toNat) ≤ s.tx.total + n.toNat
    omega
  | heartbeat =>
    simp only [step] at h
    split at h
    · cases h
      -- what was added since the last one moves over to the heartbeats
      refine ⟨s.rx.beat_inv, s.tx.beat_inv, ?_, ?_⟩
      · rw [List.map_append, List.sum_append]
        exact hrs
      · rw [List.map_append, List.sum_append]
        exact hts
    · cases h

theorem run_inv {t : Heartbeat} {as : List Act} (h : Runs.exec step start as = some t) : t.Inv :=
  Runs.exec_inv step Inv (fun _ _ _ => step_inv) start_inv h

/-- A step adds no heartbeat, or one that shows the deltas. -/
theorem beats_step {s s' : Heartbeat} {a : Act} (h : s.step a = some s') :
    (a ≠ .heartbeat ∧ s'.beats = s.beats) ∨
    (a = .heartbeat ∧ s'.beats = s.beats ++ [⟨s.rx.delta, s.tx.delta, s.rx.since, s.tx.since⟩]) := by
  cases a with
  | connect =>
    simp only [step] at h
    split at h
    · cases h
    · cases h; exact Or.inl ⟨nofun, rfl⟩
  | disconnect =>
    simp only [step] at h
    split at h
    · cases h; exact Or.inl ⟨nofun, rfl⟩
    · cases h
  | rx n => cases h; exact Or.inl ⟨nofun, rfl⟩
  | tx n => cases h; exact Or.inl ⟨nofun, rfl⟩
  | heartbeat =>
    simp only [step] at h
    split at h
    · cases h; exact Or.inr ⟨rfl, rfl⟩
    · cases h

theorem exact_step {s s' : Heartbeat} {a : Act} (hi : s.Inv) (hx : s.Exact) (hm : s.Meets a)
    (h : s.step a = some s') : s'.Exact := by
  unfold Exact
  rcases beats_step h with ⟨-, hb⟩ | ⟨rfl, hb⟩
  · rw [hb]; exact hx
  · rw [hb]
    intro b hmem
    rcases List.mem_append.mp hmem with hmem | hmem
    · exact hx b hmem
    · obtain rfl := List.mem_singleton.mp hmem
      exact ⟨(Meter.delta_exact_iff hi.rx).mpr hm.1, (Meter.delta_exact_iff hi.tx).mpr hm.2⟩

theorem meets_of_exact {s s' : Heartbeat} {a : Act} (hi : s.Inv) (h : s.step a = some s')
    (hx : s'.Exact) : s.Meets a := by
  rcases beats_step h with ⟨hne, -⟩ | ⟨rfl, hb⟩
  · cases a with
    | heartbeat => exact absurd rfl hne
    | _ => trivial
  · obtain ⟨hdown, hup⟩ := hx _ (by rw [hb]; exact List.mem_append_right _ (List.mem_singleton_self _))
    exact ⟨(Meter.delta_exact_iff hi.rx).mp hdown, (Meter.delta_exact_iff hi.tx).mp hup⟩

theorem within_of_exact {s : Heartbeat} (hi : s.Inv) (hx : s.Exact) : s.Within := by
  have hdown : s.beats.map (·.down.toNat) = s.beats.map (·.rxSince) :=
    List.map_congr_left fun b hb => (hx b hb).1
  have hup : s.beats.map (·.up.toNat) = s.beats.map (·.txSince) :=
    List.map_congr_left fun b hb => (hx b hb).2
  unfold Within
  rw [hdown, hup]
  exact ⟨(Nat.le_add_right _ _).trans hi.rxSpent, (Nat.le_add_right _ _).trans hi.txSpent⟩

/-- **When the heartbeats show the actual traffic.**  In the runs in which no bridge has its first
heartbeat after traffic of another one, and no counter wraps between two heartbeats, every heartbeat
shows what was added in its time, and all together show no more than was added; in every other run a
heartbeat is wrong. -/
theorem heartbeats_exact (as : List Act) :
    Runs.Along step Meets start as ↔
      Runs.Throughout step (fun s => s.Exact ∧ s.Within) start as := by
  constructor
  · intro h
    have hinv : Runs.Throughout step (fun s => s.Inv ∧ s.Exact) start as :=
      Runs.throughout_of_along (P := Meets) _
        (fun _ _ _ hi hm hs => ⟨step_inv hi.1 hs, exact_step hi.1 hi.2 hm hs⟩)
        ⟨start_inv, fun b hb => by cases hb⟩ h
    exact hinv.mono fun t ht => ⟨ht.2, within_of_exact ht.1 ht.2⟩
  · intro h pre a t t' hp ht ha
    exact meets_of_exact (run_inv ht) ha (h.after hp ht ha).1

/-- A second desktop: its first heartbeat shows the bytes of the first one again. -/
theorem counted_twice : ∃ t,
    Runs.exec step start [.connect, .rx 100, .heartbeat, .disconnect, .connect, .heartbeat] = some t ∧
    ¬ t.Exact ∧ ¬ t.Within :=
  ⟨_, rfl, by decide, by decide⟩

end Heartbeat

end RickyNet
