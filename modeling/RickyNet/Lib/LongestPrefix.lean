import Mathlib.Data.Finset.Basic
import Mathlib.Data.Finset.Lattice.Lemmas

/-!
# Longest-prefix match

Entries cover addresses, and an entry has a length: the longer, the more specific.  `best` is what
remains of a table for one address: the entries that cover it, and of these the longest.  Which of
several is taken is left to a `Pick`.

Adding entries to a table changes nothing for an address that is covered by a longer one
(`best_union_left`).
-/

namespace LongestPrefix

variable {ρ α : Type*}

section
variable (covers : ρ → α → Prop) [∀ r a, Decidable (covers r a)] (len : ρ → Nat)

/-- The longest entries that cover `a`. -/
def best (t : Finset ρ) (a : α) : Finset ρ :=
  t.filter fun r => covers r a ∧ ∀ x ∈ t, covers x a → len x ≤ len r

variable {covers len} {t rows : Finset ρ} {a : α} {r : ρ}

theorem mem_best : r ∈ best covers len t a ↔
    r ∈ t ∧ covers r a ∧ ∀ x ∈ t, covers x a → len x ≤ len r := Finset.mem_filter

/-- One entry covers the address, or is longer than the others that do. -/
theorem best_eq_singleton (hr : r ∈ t) (hc : covers r a)
    (h : ∀ x ∈ t, covers x a → x ≠ r → len x < len r) : best covers len t a = {r} := by
  ext x
  rw [mem_best, Finset.mem_singleton]
  constructor
  · rintro ⟨hx, hxc, hmax⟩
    by_contra hne
    have h1 := h x hx hxc hne
    have h2 := hmax r hr hc
    omega
  · rintro rfl
    refine ⟨hr, hc, fun y hy hyc => ?_⟩
    by_cases hne : y = x
    · rw [hne]
    · exact Nat.le_of_lt (h y hy hyc hne)

variable [DecidableEq ρ]

/-- New entries that are beaten by an old one. -/
theorem best_union_left
    (h : ∀ r ∈ rows, covers r a → ∃ x ∈ t, covers x a ∧ len r < len x) :
    best covers len (t ∪ rows) a = best covers len t a := by
  ext x
  rw [mem_best, mem_best, Finset.mem_union]
  constructor
  · rintro ⟨hx | hx, hc, hmax⟩
    · exact ⟨hx, hc, fun y hy => hmax y (Finset.mem_union_left _ hy)⟩
    · obtain ⟨y, hy, hyc, hlt⟩ := h x hx hc
      have := hmax y (Finset.mem_union_left _ hy) hyc
      omega
  · rintro ⟨hx, hc, hmax⟩
    refine ⟨Or.inl hx, hc, fun y hy hyc => ?_⟩
    rcases Finset.mem_union.1 hy with hy | hy
    · exact hmax y hy hyc
    · obtain ⟨z, hz, hzc, hlt⟩ := h y hy hyc
      have := hmax z hz hzc
      omega

end

/-- How one of several entries is taken. -/
structure Pick (ρ : Type*) where
  pick : Finset ρ → Option ρ
  mem : ∀ s r, pick s = some r → r ∈ s
  total : ∀ s, s.Nonempty → ∃ r, pick s = some r

theorem Pick.singleton (k : Pick ρ) (r : ρ) : k.pick {r} = some r := by
  obtain ⟨x, hx⟩ := k.total {r} (Finset.singleton_nonempty r)
  have := Finset.mem_singleton.1 (k.mem _ _ hx)
  rw [hx, this]

/-- Any one of them. -/
noncomputable def Pick.any : Pick ρ where
  pick s := s.toList.head?
  mem _ _ h := Finset.mem_toList.1 (List.mem_of_head? h)
  total s h := by
    obtain ⟨x, hx⟩ := h
    cases hs : s.toList with
    | nil => exact absurd (Finset.mem_toList.2 hx) (by rw [hs]; exact List.not_mem_nil)
    | cons r rest => exact ⟨r, rfl⟩

end LongestPrefix
