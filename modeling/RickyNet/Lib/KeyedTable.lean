import Mathlib.Data.Finset.Basic
import Mathlib.Data.Finset.Lattice.Lemmas
import Mathlib.Data.List.Nodup
import Mathlib.Data.List.Perm.Basic

/-!
# A table with keys, and entries put on top of it

A table is a finite set of entries, and an entry has a key.  An entry can be created if its key is
free, and is removed by its key.

`OnTop base t rows` says that `t` is `base` with the entries `rows` added, all under keys of their
own.  Creating and removing entries keeps it (`create`, `remove`), the order of the added entries
does not matter (`perm`), removing them all gives back `base` (`foldl_remove`), and the table is back
at `base` exactly when nothing is left on top (`eq_base_iff`).
-/

namespace KeyedTable

variable {α κ : Type*} [DecidableEq α] (key : α → κ)

/-- No entry has the key of `r`. -/
def Free (t : Finset α) (r : α) : Prop := ∀ x ∈ t, key x ≠ key r

instance [DecidableEq κ] (t : Finset α) (r : α) : Decidable (Free key t r) :=
  inferInstanceAs (Decidable (∀ x ∈ t, key x ≠ key r))

/-- Remove the entry that has the key of `r`. -/
def remove [DecidableEq κ] (t : Finset α) (r : α) : Finset α := t.filter fun x => key x ≠ key r

/-- `t` is `base` and the entries `rows`, under keys of their own. -/
structure OnTop (base t : Finset α) (rows : List α) : Prop where
  table : t = base ∪ rows.toFinset
  nodup : (rows.map key).Nodup
  fresh : ∀ r ∈ rows, Free key base r

variable {key} {base t : Finset α} {rows rows' : List α} {r : α}

theorem OnTop.nil : OnTop key base base [] where
  table := by simp
  nodup := List.nodup_nil
  fresh := by simp

theorem OnTop.perm (h : OnTop key base t rows) (hp : rows.Perm rows') : OnTop key base t rows' where
  table := by rw [h.table, List.toFinset_eq_of_perm _ _ hp]
  nodup := (hp.map key).nodup_iff.1 h.nodup
  fresh := fun r hr => h.fresh r (hp.mem_iff.2 hr)

theorem OnTop.mem_base (h : OnTop key base t rows) {x : α} (hx : x ∈ base) : x ∈ t := by
  rw [h.table]
  exact Finset.mem_union_left _ hx

theorem OnTop.mem_rows (h : OnTop key base t rows) {x : α} (hx : x ∈ rows) : x ∈ t := by
  rw [h.table]
  exact Finset.mem_union_right _ (List.mem_toFinset.2 hx)

theorem OnTop.free_iff (h : OnTop key base t rows) (r : α) :
    Free key t r ↔ Free key base r ∧ ∀ x ∈ rows, key x ≠ key r := by
  unfold Free
  rw [h.table]
  constructor
  · intro hf
    exact ⟨fun x hx => hf x (Finset.mem_union_left _ hx),
      fun x hx => hf x (Finset.mem_union_right _ (List.mem_toFinset.2 hx))⟩
  · rintro ⟨h1, h2⟩ x hx
    rcases Finset.mem_union.1 hx with hx | hx
    · exact h1 x hx
    · exact h2 x (List.mem_toFinset.1 hx)

/-- An entry created under a free key is one more on top. -/
theorem OnTop.create (h : OnTop key base t rows) (hf : Free key t r) :
    OnTop key base (insert r t) (r :: rows) where
  table := by rw [h.table, List.toFinset_cons, Finset.union_insert]
  nodup := by
    rw [List.map_cons, List.nodup_cons]
    refine ⟨fun hm => ?_, h.nodup⟩
    obtain ⟨x, hx, hk⟩ := List.mem_map.1 hm
    exact hf x (h.mem_rows hx) hk
  fresh := by
    intro x hx
    rcases List.mem_cons.1 hx with rfl | hx
    · exact fun y hy => hf y (h.mem_base hy)
    · exact h.fresh x hx

/-- An entry that is on top is taken off by its key, and nothing else is. -/
theorem OnTop.remove [DecidableEq κ] (h : OnTop key base t (r :: rows)) : OnTop key base (remove key t r) rows where
  table := by
    have hnd := h.nodup
    rw [List.map_cons, List.nodup_cons] at hnd
    have hbase : ∀ x ∈ base, key x ≠ key r := h.fresh r List.mem_cons_self
    have hrows : ∀ x ∈ rows, key x ≠ key r :=
      fun x hx hk => hnd.1 (hk ▸ List.mem_map_of_mem hx)
    ext x
    rw [KeyedTable.remove, Finset.mem_filter, h.table, List.toFinset_cons, Finset.union_insert]
    simp only [Finset.mem_insert, Finset.mem_union, List.mem_toFinset]
    constructor
    · rintro ⟨rfl | hx, hk⟩
      · exact absurd rfl hk
      · exact hx
    · rintro (hx | hx)
      · exact ⟨Or.inr (Or.inl hx), hbase x hx⟩
      · exact ⟨Or.inr (Or.inr hx), hrows x hx⟩
  nodup := by
    have hnd := h.nodup
    rw [List.map_cons, List.nodup_cons] at hnd
    exact hnd.2
  fresh := fun x hx => h.fresh x (List.mem_cons_of_mem _ hx)

/-- The same, behind the others. -/
theorem OnTop.create_last (h : OnTop key base t rows) (hf : Free key t r) :
    OnTop key base (insert r t) (rows ++ [r]) :=
  (h.create hf).perm (List.perm_append_singleton r rows).symm

/-- Taking off all entries, one after the other, gives back the base. -/
theorem OnTop.foldl_remove [DecidableEq κ] (h : OnTop key base t rows) :
    rows.foldl (KeyedTable.remove key) t = base := by
  induction rows generalizing t with
  | nil =>
    rw [List.foldl_nil, h.table]
    simp
  | cons r rows ih =>
    rw [List.foldl_cons]
    exact ih h.remove

/-- Entries on top that all go at once. -/
theorem OnTop.filter {others : List α} (h : OnTop key base t (rows ++ others)) (p : α → Bool) :
    OnTop key base (t.filter fun x => ¬ (x ∈ rows ∧ p x)) (rows.filter (fun x => !p x) ++ others) where
  table := by
    have hnd := h.nodup
    rw [List.map_append, List.nodup_append] at hnd
    have hbase : ∀ x ∈ base, x ∉ rows :=
      fun x hx hr => h.fresh x (List.mem_append_left _ hr) x hx rfl
    have hothers : ∀ x ∈ others, x ∉ rows := fun x hx hr =>
      hnd.2.2 (key x) (List.mem_map_of_mem hr) (key x) (List.mem_map_of_mem hx) rfl
    ext x
    rw [Finset.mem_filter, h.table]
    simp only [Finset.mem_union, List.mem_toFinset, List.mem_append, List.mem_filter]
    constructor
    · rintro ⟨hx | hx | hx, hn⟩
      · exact Or.inl hx
      · refine Or.inr (Or.inl ⟨hx, ?_⟩)
        by_contra hp
        exact hn ⟨hx, by simpa using hp⟩
      · exact Or.inr (Or.inr hx)
    · rintro (hx | ⟨hx, hp⟩ | hx)
      · exact ⟨Or.inl hx, fun hn => hbase x hx hn.1⟩
      · exact ⟨Or.inr (Or.inl hx), fun hn => by simp [hn.2] at hp⟩
      · exact ⟨Or.inr (Or.inr hx), fun hn => hothers x hx hn.1⟩
  nodup := by
    refine h.nodup.sublist (List.Sublist.map key ?_)
    exact List.Sublist.append_right List.filter_sublist others
  fresh := by
    intro x hx
    refine h.fresh x ?_
    rcases List.mem_append.1 hx with hx | hx
    · exact List.mem_append_left _ (List.mem_of_mem_filter hx)
    · exact List.mem_append_right _ hx

/-- The table is back at `base` exactly when nothing is on top. -/
theorem OnTop.eq_base_iff (h : OnTop key base t rows) : t = base ↔ rows = [] := by
  constructor
  · intro ht
    cases rows with
    | nil => rfl
    | cons r rows =>
      have hr : r ∈ t := h.mem_rows List.mem_cons_self
      rw [ht] at hr
      exact absurd rfl (h.fresh r List.mem_cons_self r hr)
  · rintro rfl
    rw [h.table]
    simp

end KeyedTable
