import Mathlib.Data.List.Infix

/-!
# Splitting a command line into its arguments

The rules by which a Windows program takes its command line apart, behind the program's name: blanks
end an argument unless it is in quotes; `2n` backslashes in front of a quote are `n` of them and the
quote is active, `2n + 1` are `n` and the quote is literal; backslashes elsewhere are literal; and in
quotes an active quote behind which another one stands is a literal quote as well.

`words` reads one character at a time.  `words_head`: what has been read of an argument stays.
`words_count`: how many backslashes come out depends on the line alone, not on what is in quotes.
-/

namespace CommandLine

/-- The characters the rules are about. -/
structure Alphabet (α : Type*) where
  quote : α
  backslash : α
  blank : α → Bool
  quote_ne : quote ≠ backslash
  blank_quote : blank quote = false
  blank_backslash : blank backslash = false

/-- Where the reader is. -/
inductive Mode
  /-- between two arguments -/
  | gap
  /-- in an argument, out of quotes -/
  | plain
  | quoted
  /-- behind an active quote that may have ended the quotes -/
  | closing
deriving DecidableEq

/-- Where a literal character leaves the reader. -/
def Mode.literal : Mode → Mode
  | .quoted => .quoted
  | _ => .plain

/-- Nothing is needed for the end of the line to end an argument. -/
def Mode.opened : Mode → Bool
  | .quoted | .closing => true
  | _ => false

variable {α : Type*} [DecidableEq α] (A : Alphabet α)

/-- The arguments of a line: `cur` has been read of the first, and `n` backslashes behind it. -/
def words : Mode → Nat → List α → List α → List (List α)
  | m, n, cur, [] =>
    let cur := cur ++ List.replicate n A.backslash
    if m.opened ∨ cur ≠ [] then [cur] else []
  | m, n, cur, c :: rest =>
    if c = A.backslash then words m.literal (n + 1) cur rest
    else if c = A.quote then
      let cur := cur ++ List.replicate (n / 2) A.backslash
      if n % 2 = 1 then words m.literal 0 (cur ++ [c]) rest
      else
        match m with
        | .quoted => words .closing 0 cur rest
        | .closing => words .quoted 0 (cur ++ [c]) rest
        | _ => words .quoted 0 cur rest
    else
      let cur := cur ++ List.replicate n A.backslash
      if A.blank c then
        match m with
        | .gap => words .gap 0 cur rest
        | .quoted => words .quoted 0 (cur ++ [c]) rest
        | _ => cur :: words .gap 0 [] rest
      else words m.literal 0 (cur ++ [c]) rest

/-- The backslashes that come out of a line, `n` in front of it. -/
def kept : Nat → List α → Nat
  | n, [] => n
  | n, c :: rest =>
    if c = A.backslash then kept (n + 1) rest
    else if c = A.quote then n / 2 + kept 0 rest
    else n + kept 0 rest

variable {A} {m : Mode} {n : Nat} {cur rest : List α}

/-! ## One character -/

theorem words_nil : words A m n cur [] =
    if m.opened ∨ cur ++ List.replicate n A.backslash ≠ [] then [cur ++ List.replicate n A.backslash]
    else [] := rfl

theorem words_cons (c : α) : words A m n cur (c :: rest) =
    if c = A.backslash then words A m.literal (n + 1) cur rest
    else if c = A.quote then
      if n % 2 = 1 then words A m.literal 0 (cur ++ List.replicate (n / 2) A.backslash ++ [c]) rest
      else
        match m with
        | .quoted => words A .closing 0 (cur ++ List.replicate (n / 2) A.backslash) rest
        | .closing => words A .quoted 0 (cur ++ List.replicate (n / 2) A.backslash ++ [c]) rest
        | _ => words A .quoted 0 (cur ++ List.replicate (n / 2) A.backslash) rest
    else if A.blank c then
      match m with
      | .gap => words A .gap 0 (cur ++ List.replicate n A.backslash) rest
      | .quoted => words A .quoted 0 (cur ++ List.replicate n A.backslash ++ [c]) rest
      | _ => (cur ++ List.replicate n A.backslash) :: words A .gap 0 [] rest
    else words A m.literal 0 (cur ++ List.replicate n A.backslash ++ [c]) rest := by
  cases m <;> rfl

theorem kept_nil : kept A n [] = n := rfl

theorem kept_cons (c : α) : kept A n (c :: rest) =
    if c = A.backslash then kept A (n + 1) rest
    else if c = A.quote then n / 2 + kept A 0 rest
    else n + kept A 0 rest := rfl

@[simp] theorem words_backslash :
    words A m n cur (A.backslash :: rest) = words A m.literal (n + 1) cur rest := by
  rw [words_cons, if_pos rfl]

theorem words_quote_escaped (h : n % 2 = 1) : words A m n cur (A.quote :: rest) =
    words A m.literal 0 (cur ++ List.replicate (n / 2) A.backslash ++ [A.quote]) rest := by
  rw [words_cons, if_neg A.quote_ne, if_pos rfl, if_pos h]

theorem words_quote_quoted (h : n % 2 = 0) : words A .quoted n cur (A.quote :: rest) =
    words A .closing 0 (cur ++ List.replicate (n / 2) A.backslash) rest := by
  rw [words_cons, if_neg A.quote_ne, if_pos rfl, if_neg (by omega)]

theorem words_quote_closing : words A .closing 0 cur (A.quote :: rest) =
    words A .quoted 0 (cur ++ [A.quote]) rest := by
  rw [words_cons, if_neg A.quote_ne, if_pos rfl, if_neg (by decide)]
  simp

theorem words_quote_plain : words A .plain 0 cur (A.quote :: rest) = words A .quoted 0 cur rest := by
  rw [words_cons, if_neg A.quote_ne, if_pos rfl, if_neg (by decide)]
  simp

theorem words_quote_gap : words A .gap 0 cur (A.quote :: rest) = words A .quoted 0 cur rest := by
  rw [words_cons, if_neg A.quote_ne, if_pos rfl, if_neg (by decide)]
  simp

section
variable {c : α} (hb : c ≠ A.backslash) (hq : c ≠ A.quote)
include hb hq

theorem words_letter (hc : A.blank c = false) : words A m n cur (c :: rest) =
    words A m.literal 0 (cur ++ List.replicate n A.backslash ++ [c]) rest := by
  rw [words_cons, if_neg hb, if_neg hq, if_neg (by simp [hc])]

/-- In quotes a blank is a character as any other. -/
theorem words_quoted_other : words A .quoted n cur (c :: rest) =
    words A .quoted 0 (cur ++ List.replicate n A.backslash ++ [c]) rest := by
  cases hc : A.blank c with
  | true => rw [words_cons, if_neg hb, if_neg hq, if_pos hc]
  | false => exact words_letter hb hq hc

theorem words_plain_blank (hc : A.blank c = true) : words A .plain n cur (c :: rest) =
    (cur ++ List.replicate n A.backslash) :: words A .gap 0 [] rest := by
  rw [words_cons, if_neg hb, if_neg hq, if_pos hc]

theorem words_closing_blank (hc : A.blank c = true) : words A .closing n cur (c :: rest) =
    (cur ++ List.replicate n A.backslash) :: words A .gap 0 [] rest := by
  rw [words_cons, if_neg hb, if_neg hq, if_pos hc]

/-- Behind a quote that may have ended the quotes: it has. -/
theorem words_closing_other : words A .closing 0 cur (c :: rest) = words A .plain 0 cur (c :: rest) := by
  cases hc : A.blank c with
  | true => rw [words_closing_blank hb hq hc, words_plain_blank hb hq hc]
  | false => rw [words_letter hb hq hc, words_letter hb hq hc]; rfl

end

/-- A backslash ends the quotes as well. -/
theorem words_closing_backslash : words A .closing 0 cur (A.backslash :: rest) =
    words A .plain 0 cur (A.backslash :: rest) := by
  rw [words_backslash, words_backslash]
  rfl

theorem kept_backslash : kept A n (A.backslash :: rest) = kept A (n + 1) rest := by
  rw [kept_cons, if_pos rfl]

theorem kept_quote : kept A n (A.quote :: rest) = n / 2 + kept A 0 rest := by
  rw [kept_cons, if_neg A.quote_ne, if_pos rfl]

theorem kept_other {c : α} (hb : c ≠ A.backslash) (hq : c ≠ A.quote) :
    kept A n (c :: rest) = n + kept A 0 rest := by
  rw [kept_cons, if_neg hb, if_neg hq]

/-! ## Whole lines -/

/-- **What has been read of an argument stays.** -/
theorem words_head {w : List α} (h : (words A m n cur rest).head? = some w) : cur <+: w := by
  induction rest generalizing m n cur with
  | nil =>
    rw [words_nil] at h
    split at h
    · cases h
      exact List.prefix_append _ _
    · cases h
  | cons c rest ih =>
    have hstays : ∀ {m' n'} {x y : List α}, (words A m' n' (cur ++ x ++ y) rest).head? = some w →
        cur <+: w := fun hw =>
      ((List.prefix_append _ _).trans (List.prefix_append _ _)).trans (ih hw)
    rw [words_cons] at h
    split at h
    · exact ih h
    · split at h
      · split at h
        · exact hstays h
        · split at h
          · exact (List.prefix_append _ _).trans (ih h)
          · exact hstays h
          · exact (List.prefix_append _ _).trans (ih h)
      · split at h
        · split at h
          · exact (List.prefix_append _ _).trans (ih h)
          · exact hstays h
          · cases h
            exact List.prefix_append _ _
        · exact hstays h

theorem words_head_quote {w : List α} (h : (words A m n cur (A.quote :: rest)).head? = some w) :
    cur ++ List.replicate (n / 2) A.backslash <+: w := by
  rw [words_cons, if_neg A.quote_ne, if_pos rfl] at h
  split at h
  · exact (List.prefix_append _ _).trans (words_head h)
  · split at h
    · exact words_head h
    · exact (List.prefix_append _ _).trans (words_head h)
    · exact words_head h

theorem words_head_other {c : α} {w : List α} (hb : c ≠ A.backslash) (hq : c ≠ A.quote)
    (h : (words A m n cur (c :: rest)).head? = some w) : cur ++ List.replicate n A.backslash <+: w := by
  rw [words_cons, if_neg hb, if_neg hq] at h
  split at h
  · split at h
    · exact words_head h
    · exact (List.prefix_append _ _).trans (words_head h)
    · cases h
      exact List.prefix_refl _
  · exact (List.prefix_append _ _).trans (words_head h)

/-- **The backslashes that come out.** -/
theorem words_count : (words A m n cur rest).flatten.count A.backslash =
    cur.count A.backslash + kept A n rest := by
  induction rest generalizing m n cur with
  | nil =>
    rw [words_nil, kept_nil]
    split
    · simp
    · next h =>
      simp only [not_or, ne_eq, Decidable.not_not] at h
      have := congrArg (List.count A.backslash) h.2
      simpa using this.symm
  | cons c rest ih =>
    rw [words_cons, kept_cons]
    split
    · exact ih
    · next hb =>
      have hc : List.count A.backslash [c] = 0 := List.count_eq_zero.mpr (by simpa using Ne.symm hb)
      split
      · split
        · rw [ih]
          simp only [List.count_append, List.count_replicate_self, hc]
          omega
        · split
          · rw [ih]
            simp only [List.count_append, List.count_replicate_self]
            omega
          · rw [ih]
            simp only [List.count_append, List.count_replicate_self, hc]
            omega
          · rw [ih]
            simp only [List.count_append, List.count_replicate_self]
            omega
      · split
        · split
          · rw [ih]
            simp only [List.count_append, List.count_replicate_self]
            omega
          · rw [ih]
            simp only [List.count_append, List.count_replicate_self, hc]
            omega
          · rw [List.flatten_cons, List.count_append, ih]
            simp only [List.count_append, List.count_replicate_self, List.count_nil]
            omega
        · rw [ih]
          simp only [List.count_append, List.count_replicate_self, hc]
          omega

end CommandLine
