import Mathlib.Data.List.DropRight
import Mathlib.Data.List.Infix

/-!
# Two files that keep the end of a log

One file is written to.  When it has more than `limit` it takes the place of the old one, and the next
bytes begin a new file.  `Keeps limit written` says that the two files together are an end of all that
was ever written, and either all of it or more than `limit`; so the last `limit` are always there
(`Keeps.last`).

Each operation has its rule.  Only two of them throw something away, `rotate` and `dropOld`, and both
need more than `limit` in the file that stays.
-/

/-- The file that is written to, and the one before it. -/
structure RotatingLog (α : Type*) where
  old : Option (List α)
  current : Option (List α)

namespace RotatingLog

variable {α : Type*} {limit : Nat} {written : List α} {l : RotatingLog α}

/-- What the two files have, in order. -/
def all (l : RotatingLog α) : List α := l.old.getD [] ++ l.current.getD []

/-- The file takes the place of the old one. -/
def rotate (l : RotatingLog α) : RotatingLog α := ⟨l.current, none⟩

/-- The old file is removed. -/
def dropOld (l : RotatingLog α) : RotatingLog α := { l with old := none }

/-- The file is created, unless it is there. -/
def create (l : RotatingLog α) : RotatingLog α := { l with current := some (l.current.getD []) }

/-- Something is written behind what the file has. -/
def append (l : RotatingLog α) (bytes : List α) : RotatingLog α :=
  { l with current := l.current.map (· ++ bytes) }

/-- There is more than `limit` in the file. -/
def Full (limit : Nat) (l : RotatingLog α) : Prop := limit < (l.current.getD []).length

/-- The files have the end of what was written, and all of it or more than `limit`. -/
structure Keeps (limit : Nat) (written : List α) (l : RotatingLog α) : Prop where
  suffix : l.all <:+ written
  enough : l.all = written ∨ limit < l.all.length

theorem Keeps.none : Keeps limit ([] : List α) ⟨none, none⟩ := ⟨List.suffix_refl _, Or.inl rfl⟩

/-- What is in the file alone. -/
theorem Keeps.current_suffix (h : Keeps limit written l) : l.current.getD [] <:+ written :=
  (List.suffix_append _ _).trans h.suffix

theorem Keeps.rotate (h : Keeps limit written l) (hfull : l.Full limit) : Keeps limit written l.rotate := by
  have hall : l.rotate.all = l.current.getD [] := List.append_nil _
  constructor
  · rw [hall]
    exact h.current_suffix
  · rw [hall]
    exact Or.inr hfull

theorem Keeps.dropOld (h : Keeps limit written l) (hfull : l.Full limit) : Keeps limit written l.dropOld :=
  ⟨h.current_suffix, Or.inr hfull⟩

theorem Keeps.create (h : Keeps limit written l) : Keeps limit written l.create := ⟨h.suffix, h.enough⟩

theorem all_append (h : l.current.isSome = true) (bytes : List α) : (l.append bytes).all = l.all ++ bytes := by
  obtain ⟨c, hc⟩ := Option.isSome_iff_exists.1 h
  unfold all append
  rw [hc]
  exact (List.append_assoc _ _ _).symm

theorem Keeps.append (h : Keeps limit written l) (hsome : l.current.isSome = true) (bytes : List α) :
    Keeps limit (written ++ bytes) (l.append bytes) := by
  have hall := all_append hsome bytes
  constructor
  · rw [hall]
    obtain ⟨lost, hlost⟩ := h.suffix
    exact ⟨lost, by rw [← List.append_assoc, hlost]⟩
  · rw [hall]
    rcases h.enough with he | he
    · exact Or.inl (by rw [he])
    · rw [List.length_append]
      exact Or.inr (by omega)

/-- **The last `limit` are there.** -/
theorem Keeps.last (h : Keeps limit written l) : written.rtake limit <:+ l.all := by
  have hdrop : written.rtake limit <:+ written := List.drop_suffix _ _
  rcases h.enough with he | he
  · rw [he]
    exact hdrop
  · refine List.suffix_of_suffix_length_le hdrop h.suffix ?_
    unfold List.rtake
    rw [List.length_drop]
    omega

end RotatingLog
