import RickyNet.Lib.CommandLine
import RickyNet.Win.Args

/-!
# The relaunch as administrator

`relaunch_as_admin` writes the arguments into one string, each in quotes and with `\"` for its own
quotes, but with its backslashes as they are; the elevated process takes that string apart by the rules
of `CommandLine`.

    words (joinArgs args) = args ↔ Forwardable args        (words_joinArgs_iff)

`Faithful`: no backslash of the argument gets in front of a quote.  The proof of the other direction
counts the backslashes that come out, which leaves single ones in front of a quote (`Tame 1`), and then
follows the reader from the first of them.

The reader looks at quotes, backslashes, blanks and NUL only, each of them one code unit and no part of
another character, so that strings are read by characters here.
-/

namespace RickyNet

open CommandLine

/-- The characters of `std::env::args`. -/
def windows : Alphabet Char where
  quote := '"'
  backslash := '\\'
  blank c := c = ' ' || c = '\t'
  quote_ne := by decide
  blank_quote := by decide
  blank_backslash := by decide

/-- `a.replace('"', "\\\"")`. -/
def escape (a : List Char) : List Char := a.flatMap fun c => if c = '"' then ['\\', '"'] else [c]

/-- `format!("\"{}\"", ..)`. -/
def quoteArg (a : List Char) : List Char := '"' :: (escape a ++ ['"'])

/-- All of them, `join(" ")`. -/
def joinArgs (args : List (List Char)) : List Char := List.intercalate [' '] (args.map quoteArg)

def wide (s : List Char) : List Char := s ++ [ '\x00']

/-- The `params` of `relaunch_as_admin`, whose process has got `args`. -/
def relaunchParams (args : List String) : List Char := wide (joinArgs (args.map String.toList))

/-- A wide string ends at its first NUL. -/
def readWide (p : List Char) : List Char := p.takeWhile (· ≠ '\x00')

/-- `std::env::args().skip(1)` of a process with these parameters. -/
def envArgs (line : List Char) : List String := (words windows .gap 0 [] line).map String.ofList

/-- Behind every backslash there is a character, and not a quote. -/
def Faithful : List Char → Prop
  | [] => True
  | c :: a => (c = '\\' → a ≠ [] ∧ a.head? ≠ some '"') ∧ Faithful a

instance : ∀ a : List Char, Decidable (Faithful a)
  | [] => isTrue trivial
  | _ :: a =>
    have : Decidable (Faithful a) := instDecidableFaithful a
    inferInstanceAs (Decidable (_ ∧ _))

/-- All arguments are faithful; at the end of the last one there may be one backslash and a quote. -/
def Forwardable : List (List Char) → Prop
  | [] => True
  | a :: post => (Faithful a ∧ Forwardable post) ∨ (post = [] ∧ ∃ b, a = b ++ ['\\', '"'] ∧ Faithful b)

/-! ## Backslashes in front of quotes -/

/-- Behind `n` backslashes: in front of a quote there are at most `k`, and none at the end. -/
def Tame (k : Nat) : Nat → List Char → Prop
  | n, [] => n = 0
  | n, c :: a =>
    if c = '\\' then Tame k (n + 1) a
    else if c = '"' then n ≤ k ∧ Tame k 0 a
    else Tame k 0 a

theorem tame_zero_iff (n : Nat) (a : List Char) :
    Tame 0 n a ↔ (0 < n → a ≠ [] ∧ a.head? ≠ some '"') ∧ Faithful a := by
  induction a generalizing n with
  | nil => simp [Tame, Faithful]
  | cons c a ih =>
    unfold Tame Faithful
    by_cases hb : c = '\\'
    · subst hb
      simp [ih]
    · by_cases hq : c = '"'
      · subst hq
        simp [ih]
      · simp [hb, hq, ih]

theorem faithful_iff_tame (a : List Char) : Faithful a ↔ Tame 0 0 a := by
  simp [tame_zero_iff]

theorem faithful_replicate {n : Nat} {a : List Char} (h : Tame 0 n a) :
    Faithful (List.replicate n '\\' ++ a) := by
  rw [tame_zero_iff] at h
  obtain ⟨hnext, ha⟩ := h
  induction n with
  | zero => exact ha
  | succ n ih =>
    have hchar := hnext (Nat.succ_pos n)
    refine ⟨fun _ => ?_, ih fun _ => hchar⟩
    cases n with
    | zero => exact hchar
    | succ n => exact ⟨nofun, by simp [List.replicate_succ]⟩

@[simp] theorem escape_nil : escape [] = [] := rfl

@[simp] theorem escape_quote (a : List Char) : escape ('"' :: a) = '\\' :: '"' :: escape a := rfl

theorem escape_other {c : Char} (h : c ≠ '"') (a : List Char) : escape (c :: a) = c :: escape a := by
  unfold escape
  rw [List.flatMap_cons, if_neg h]
  rfl

/-- What stands behind an argument. -/
def tail : List (List Char) → List Char
  | [] => []
  | b :: post => ' ' :: joinArgs (b :: post)

theorem joinArgs_cons (a : List Char) (post : List (List Char)) :
    joinArgs (a :: post) = '"' :: (escape a ++ '"' :: tail post) := by
  cases post with
  | nil => simp [joinArgs, quoteArg, tail, List.intercalate]
  | cons b post => simp [joinArgs, quoteArg, tail, List.intercalate]

theorem tail_cases (post : List (List Char)) : tail post = [] ∨ ∃ t, tail post = ' ' :: t := by
  cases post with
  | nil => exact Or.inl rfl
  | cons b post => exact Or.inr ⟨_, rfl⟩

/-! ## The characters of the rules -/

section
variable {m : Mode} {n : Nat} {cur rest : List Char}

theorem read_backslash :
    words windows m n cur ('\\' :: rest) = words windows m.literal (n + 1) cur rest :=
  words_backslash (A := windows)

/-- What `\"` is read as. -/
theorem read_escaped : words windows m 0 cur ('\\' :: '"' :: rest) =
    words windows m.literal 0 (cur ++ ['"']) rest := by
  rw [read_backslash]
  refine (words_quote_escaped (A := windows) (n := 1) rfl).trans ?_
  cases m <;> simp [Mode.literal, windows]

theorem read_quoted_other {c : Char} (hb : c ≠ '\\') (hq : c ≠ '"') :
    words windows .quoted n cur (c :: rest) =
      words windows .quoted 0 (cur ++ List.replicate n '\\' ++ [c]) rest :=
  words_quoted_other (A := windows) hb hq

theorem read_close : words windows .quoted 0 cur ('"' :: rest) = words windows .closing 0 cur rest := by
  refine (words_quote_quoted (A := windows) rfl).trans ?_
  simp

/-- The quotes end at the end of the line, or at a blank. -/
theorem read_closing_tail (post : List (List Char)) :
    words windows .closing 0 cur (tail post) = cur :: words windows .gap 0 [] (joinArgs post) := by
  cases post with
  | nil => simp [tail, joinArgs, words, Mode.opened, List.intercalate]
  | cons b post =>
    refine (words_closing_blank (A := windows) (by decide) (by decide) rfl).trans ?_
    simp

/-! ## Faithful arguments -/

/-- In quotes, an argument without its end is read as it is. -/
theorem read_escape {a : List Char} (h : Tame 0 n a) : words windows .quoted n cur (escape a ++ rest) =
    words windows .quoted 0 (cur ++ List.replicate n '\\' ++ a) rest := by
  induction a generalizing n cur with
  | nil =>
    obtain rfl : n = 0 := h
    simp
  | cons c a ih =>
    unfold Tame at h
    by_cases hb : c = '\\'
    · subst hb
      rw [if_pos rfl] at h
      rw [escape_other (by decide), List.cons_append, read_backslash]
      refine (ih h).trans ?_
      simp [List.replicate_succ']
    · by_cases hq : c = '"'
      · subst hq
        rw [if_neg hb, if_pos rfl, Nat.le_zero] at h
        obtain ⟨rfl, ha⟩ := h
        rw [escape_quote, List.cons_append, List.cons_append, read_escaped]
        refine (ih ha).trans ?_
        simp
      · rw [if_neg hb, if_neg hq] at h
        rw [escape_other hq, List.cons_append, read_quoted_other hb hq]
        refine (ih h).trans ?_
        simp

theorem read_faithful {a : List Char} (h : Faithful a) (post : List (List Char)) :
    words windows .gap 0 [] (joinArgs (a :: post)) = a :: words windows .gap 0 [] (joinArgs post) := by
  rw [joinArgs_cons]
  refine (words_quote_gap (A := windows)).trans ?_
  rw [read_escape ((faithful_iff_tame a).mp h), read_close, read_closing_tail]
  simp

/-! ## What the other arguments lose -/

theorem kept_slash : kept windows n ('\\' :: rest) = kept windows (n + 1) rest :=
  kept_backslash (A := windows)

theorem kept_mark : kept windows n ('"' :: rest) = n / 2 + kept windows 0 rest :=
  kept_quote (A := windows)

theorem kept_letter {c : Char} (hb : c ≠ '\\') (hq : c ≠ '"') :
    kept windows n (c :: rest) = n + kept windows 0 rest :=
  kept_other (A := windows) hb hq

/-- Backslashes are halved, and none is added. -/
theorem kept_escape_le (n : Nat) (a rest : List Char) :
    kept windows n (escape a ++ '"' :: rest) ≤ n + a.count '\\' + kept windows 0 rest := by
  induction a generalizing n with
  | nil =>
    rw [escape_nil, List.nil_append, kept_mark, List.count_nil]
    omega
  | cons c a ih =>
    by_cases hb : c = '\\'
    · subst hb
      rw [escape_other (by decide), List.cons_append, kept_slash, List.count_cons_self]
      have := ih (n + 1)
      omega
    · rw [List.count_cons_of_ne (by simpa using hb)]
      have := ih 0
      by_cases hq : c = '"'
      · subst hq
        rw [escape_quote, List.cons_append, List.cons_append, kept_slash, kept_mark]
        omega
      · rw [escape_other hq, List.cons_append, kept_letter hb hq]
        omega

/-- Two of them in front of a quote, or one at the end: some are lost. -/
theorem kept_escape_lt {a : List Char} (h : ¬ Tame 1 n a) (rest : List Char) :
    kept windows n (escape a ++ '"' :: rest) < n + a.count '\\' + kept windows 0 rest := by
  induction a generalizing n with
  | nil =>
    have hn : n ≠ 0 := h
    rw [escape_nil, List.nil_append, kept_mark, List.count_nil]
    omega
  | cons c a ih =>
    unfold Tame at h
    by_cases hb : c = '\\'
    · subst hb
      rw [if_pos rfl] at h
      rw [escape_other (by decide), List.cons_append, kept_slash, List.count_cons_self]
      have := ih h
      omega
    · rw [List.count_cons_of_ne (by simpa using hb)]
      rw [if_neg hb] at h
      by_cases hq : c = '"'
      · subst hq
        rw [if_pos rfl] at h
        rw [escape_quote, List.cons_append, List.cons_append, kept_slash, kept_mark]
        by_cases ha : Tame 1 0 a
        · have hn : ¬ n ≤ 1 := fun hn => h ⟨hn, ha⟩
          have := kept_escape_le 0 a rest
          omega
        · have := ih ha
          omega
      · rw [if_neg hq] at h
        rw [escape_other hq, List.cons_append, kept_letter hb hq]
        have := ih h
        omega

theorem kept_joinArgs_cons (a : List Char) (post : List (List Char)) :
    kept windows 0 (joinArgs (a :: post)) = kept windows 0 (escape a ++ '"' :: tail post) := by
  rw [joinArgs_cons, kept_mark]
  omega

theorem kept_tail (post : List (List Char)) :
    kept windows 0 (tail post) = kept windows 0 (joinArgs post) := by
  cases post with
  | nil => rfl
  | cons b post =>
    show kept windows 0 (' ' :: joinArgs (b :: post)) = _
    rw [kept_letter (by decide) (by decide), Nat.zero_add]

theorem kept_joinArgs_le (l : List (List Char)) :
    kept windows 0 (joinArgs l) ≤ l.flatten.count '\\' := by
  induction l with
  | nil => exact Nat.le_refl 0
  | cons a post ih =>
    rw [kept_joinArgs_cons, List.flatten_cons, List.count_append]
    have h := kept_escape_le 0 a (tail post)
    rw [kept_tail] at h
    omega

theorem tame_of_kept {l : List (List Char)} (h : kept windows 0 (joinArgs l) = l.flatten.count '\\') :
    ∀ a ∈ l, Tame 1 0 a := by
  induction l with
  | nil => intro a ha; cases ha
  | cons a post ih =>
    rw [kept_joinArgs_cons, List.flatten_cons, List.count_append] at h
    have hpost := kept_joinArgs_le post
    have hle := kept_escape_le 0 a (tail post)
    rw [kept_tail] at hle
    intro x hx
    rcases List.mem_cons.mp hx with rfl | hx
    · by_contra hx
      have hlt := kept_escape_lt hx (tail post)
      rw [kept_tail] at hlt
      omega
    · exact ih (by omega) x hx

/-- What comes back has all its backslashes. -/
theorem tame_of_words {l : List (List Char)} (h : words windows .gap 0 [] (joinArgs l) = l) :
    ∀ a ∈ l, Tame 1 0 a := by
  refine tame_of_kept ?_
  have hcount : (words windows .gap 0 [] (joinArgs l)).flatten.count '\\' =
      [].count '\\' + kept windows 0 (joinArgs l) := words_count (A := windows)
  rw [h, List.count_nil, Nat.zero_add] at hcount
  exact hcount.symm

/-! ## From the first active quote on -/

/-- A single backslash in front of a quote, the first one. -/
theorem exists_active {a : List Char} (h1 : Tame 1 n a) (h0 : ¬ Tame 0 n a) : ∃ p s,
    List.replicate n '\\' ++ a = p ++ '\\' :: '"' :: s ∧ Faithful p ∧ Tame 1 0 s := by
  induction a generalizing n with
  | nil => exact absurd h1 h0
  | cons c a ih =>
    unfold Tame at h1 h0
    by_cases hb : c = '\\'
    · subst hb
      rw [if_pos rfl] at h1 h0
      obtain ⟨p, s, hps, hp, hs⟩ := ih h1 h0
      refine ⟨p, s, ?_, hp, hs⟩
      rw [← hps, List.replicate_succ', List.append_assoc]
      rfl
    · rw [if_neg hb] at h1 h0
      by_cases hq : c = '"'
      · subst hq
        rw [if_pos rfl] at h1 h0
        obtain ⟨hn, ha⟩ := h1
        rcases Nat.le_one_iff_eq_zero_or_eq_one.mp hn with rfl | rfl
        · obtain ⟨p, s, hps, hp, hs⟩ := ih ha fun h => h0 ⟨Nat.le_refl 0, h⟩
          exact ⟨'"' :: p, s, by simpa using hps, ⟨fun hc => absurd hc (by decide), hp⟩, hs⟩
        · exact ⟨[], a, rfl, trivial, ha⟩
      · rw [if_neg hq] at h1 h0
        obtain ⟨p, s, hps, hp, hs⟩ := ih h1 h0
        refine ⟨List.replicate n '\\' ++ c :: p, s, ?_, ?_, hs⟩
        · have hap : a = p ++ '\\' :: '"' :: s := hps
          simp [hap]
        · refine faithful_replicate ?_
          unfold Tame
          rw [if_neg hb, if_neg hq]
          exact (faithful_iff_tame p).mp hp

/-- Behind a backslash: it is kept, if not in front of a quote on its own. -/
theorem head_backslash {w : List Char} {s : List Char} (hn : 0 < n) (h : Tame 1 n s)
    (hw : (words windows m n cur (escape s ++ '"' :: rest)).head? = some w) : cur ++ ['\\'] <+: w := by
  induction s generalizing n m with
  | nil =>
    have h0 : n = 0 := h
    omega
  | cons c s ih =>
    unfold Tame at h
    by_cases hb : c = '\\'
    · subst hb
      rw [if_pos rfl] at h
      rw [escape_other (by decide), List.cons_append, read_backslash] at hw
      exact ih (Nat.succ_pos n) h hw
    · rw [if_neg hb] at h
      by_cases hq : c = '"'
      · subst hq
        rw [if_pos rfl] at h
        obtain rfl : n = 1 := by omega
        rw [escape_quote, List.cons_append, List.cons_append, read_backslash] at hw
        exact words_head_quote (A := windows) hw
      · rw [escape_other hq, List.cons_append] at hw
        have hone : cur ++ ['\\'] <+: cur ++ List.replicate n '\\' := by
          obtain ⟨k, rfl⟩ : ∃ k, n = k + 1 := ⟨n - 1, by omega⟩
          exact (List.prefix_append_right_inj cur).mpr ⟨List.replicate k '\\', rfl⟩
        exact hone.trans (words_head_other (A := windows) hb hq hw)

/-- Out of the quotes, and one quote short: the argument never gets it back. -/
theorem head_short {s : List Char} (h : Tame 1 0 s) (post : List (List Char)) :
    (words windows .plain 0 cur (escape s ++ '"' :: tail post)).head? ≠ some (cur ++ '"' :: s) := by
  induction s generalizing cur with
  | nil =>
    rw [escape_nil, List.nil_append]
    intro hw
    rw [show words windows .plain 0 cur ('"' :: tail post) = words windows .quoted 0 cur (tail post) from
      words_quote_plain (A := windows)] at hw
    rcases tail_cases post with ht | ⟨t, ht⟩
    · rw [ht, words] at hw
      simp [Mode.opened] at hw
    · rw [ht, read_quoted_other (by decide) (by decide)] at hw
      have := words_head hw
      simp [List.prefix_append_right_inj] at this
  | cons c s ih =>
    unfold Tame at h
    intro hw
    by_cases hb : c = '\\'
    · subst hb
      rw [if_pos rfl] at h
      rw [escape_other (by decide), List.cons_append, read_backslash] at hw
      have := head_backslash Nat.one_pos h hw
      simp [List.prefix_append_right_inj] at this
    · rw [if_neg hb] at h
      by_cases hq : c = '"'
      · subst hq
        rw [if_pos rfl] at h
        rw [escape_quote, List.cons_append, List.cons_append, read_escaped] at hw
        refine ih h.2 (hw.trans ?_)
        simp
      · rw [if_neg hq] at h
        rw [escape_other hq, List.cons_append] at hw
        cases hc : windows.blank c with
        | true =>
          rw [words_plain_blank (A := windows) hb hq hc] at hw
          simp at hw
        | false =>
          rw [words_letter (A := windows) hb hq hc] at hw
          have := words_head hw
          simp [List.prefix_append_right_inj] at this
          exact hq this

theorem escape_append (a b : List Char) : escape (a ++ b) = escape a ++ escape b :=
  List.flatMap_append

/-- At the first active quote. -/
theorem read_active {p s : List Char} (hp : Faithful p) :
    words windows .gap 0 [] ('"' :: (escape (p ++ '\\' :: '"' :: s) ++ rest)) =
      words windows .closing 0 (p ++ ['\\']) (escape s ++ rest) := by
  refine (words_quote_gap (A := windows)).trans ?_
  rw [escape_append, List.append_assoc, read_escape ((faithful_iff_tame p).mp hp),
    escape_other (by decide), escape_quote, List.cons_append, List.cons_append, List.cons_append,
    read_backslash, read_backslash]
  refine (words_quote_quoted (A := windows) rfl).trans ?_
  simp [windows]

/-- Behind it the quotes have ended, if the argument goes on. -/
theorem read_closing_escape {s : List Char} (hs : s ≠ []) :
    words windows .closing 0 cur (escape s ++ rest) = words windows .plain 0 cur (escape s ++ rest) := by
  cases s with
  | nil => exact absurd rfl hs
  | cons c s =>
    by_cases hq : c = '"'
    · subst hq
      exact words_closing_backslash (A := windows)
    · rw [escape_other hq, List.cons_append]
      by_cases hb : c = '\\'
      · subst hb
        exact words_closing_backslash (A := windows)
      · exact words_closing_other (A := windows) hb hq

/-- The quote behind an active quote ends the line: it stands for both. -/
theorem read_last {b : List Char} (hb : Faithful b) :
    words windows .gap 0 [] (joinArgs [b ++ ['\\', '"']]) = [b ++ ['\\', '"']] := by
  rw [joinArgs_cons, read_active hb]
  refine (words_quote_closing (A := windows)).trans ?_
  simp [tail, words, Mode.opened, windows]

/-- Otherwise an active quote is one too few. -/
theorem last_of_words {a : List Char} {post : List (List Char)} (h1 : Tame 1 0 a) (h0 : ¬ Faithful a)
    (hw : words windows .gap 0 [] (joinArgs (a :: post)) = a :: post) :
    post = [] ∧ ∃ b, a = b ++ ['\\', '"'] ∧ Faithful b := by
  obtain ⟨p, s, hps, hp, hs⟩ := exists_active h1 fun h => h0 ((faithful_iff_tame a).mpr h)
  have ha : a = p ++ '\\' :: '"' :: s := hps
  have hhead := congrArg List.head? hw
  rw [joinArgs_cons, ha, read_active hp] at hhead
  by_cases hnil : s = []
  · subst hnil
    refine ⟨?_, p, ha, hp⟩
    by_contra hpost
    obtain ⟨b, post, rfl⟩ := List.exists_cons_of_ne_nil hpost
    rw [escape_nil, List.nil_append] at hhead
    -- both quotes are read, and the blank behind them is in quotes
    rw [show words windows .closing 0 (p ++ ['\\']) ('"' :: tail (b :: post)) =
        words windows .quoted 0 (p ++ ['\\'] ++ ['"']) (tail (b :: post)) from
      words_quote_closing (A := windows), tail, read_quoted_other (by decide) (by decide)] at hhead
    have := words_head hhead
    simp [List.prefix_append_right_inj] at this
  · rw [read_closing_escape hnil] at hhead
    refine absurd (hhead.trans ?_) (head_short hs post)
    simp

/-- **What the splitting gives back.** -/
theorem words_joinArgs_iff (l : List (List Char)) :
    words windows .gap 0 [] (joinArgs l) = l ↔ Forwardable l := by
  induction l with
  | nil => exact iff_of_true rfl trivial
  | cons a post ih =>
    by_cases ha : Faithful a
    · rw [read_faithful ha, List.cons_inj_right, ih]
      constructor
      · exact fun hpost => Or.inl ⟨ha, hpost⟩
      · rintro (⟨-, hpost⟩ | ⟨rfl, -⟩)
        · exact hpost
        · trivial
    · constructor
      · intro hw
        exact Or.inr (last_of_words (tame_of_words hw a List.mem_cons_self) ha hw)
      · rintro (⟨hf, -⟩ | ⟨rfl, b, rfl, hb⟩)
        · exact absurd hf ha
        · exact read_last hb

end

/-! ## The elevated process -/

theorem readWide_wide {s : List Char} (h : '\x00' ∉ s) : readWide (wide s) = s := by
  unfold readWide wide
  rw [List.takeWhile_append_of_pos fun c hc => by
    simpa using ne_of_mem_of_not_mem hc h]
  simp

theorem nul_notMem_escape {a : List Char} (h : '\x00' ∉ a) : '\x00' ∉ escape a := by
  unfold escape
  rw [List.mem_flatMap]
  rintro ⟨c, hc, hmem⟩
  split at hmem
  · simp at hmem
  · obtain rfl := List.mem_singleton.mp hmem
    exact h hc

theorem nul_notMem_joinArgs {l : List (List Char)} (h : ∀ a ∈ l, '\x00' ∉ a) : '\x00' ∉ joinArgs l := by
  induction l with
  | nil => simp [joinArgs, List.intercalate]
  | cons a post ih =>
    have ha := nul_notMem_escape (h a List.mem_cons_self)
    have hpost := ih fun b hb => h b (List.mem_cons_of_mem a hb)
    have htail : '\x00' ∉ tail post := by
      cases post with
      | nil => exact List.not_mem_nil
      | cons b post => simpa [tail] using hpost
    rw [joinArgs_cons]
    simp [ha, htail]

theorem envArgs_relaunchParams {args : List String} (h : ∀ a ∈ args, '\x00' ∉ a.toList) :
    envArgs (readWide (relaunchParams args)) =
      (words windows .gap 0 [] (joinArgs (args.map String.toList))).map String.ofList := by
  unfold envArgs relaunchParams
  rw [readWide_wide]
  refine nul_notMem_joinArgs fun a ha => ?_
  obtain ⟨s, hs, rfl⟩ := List.mem_map.mp ha
  exact h s hs

/-- **When the relaunch forwards its arguments.**  The elevated process gets the arguments, and reads
from them what the first one has read, if no backslash of theirs is at an end or in front of a quote;
otherwise it gets others.  One `\"` at the very end comes back as well, since the quote behind it ends
the line. -/
theorem relaunch_exact (exe exe' : String) (args : List String)
    (hnul : ∀ a ∈ args, '\x00' ∉ a.toList) :
    envArgs (readWide (relaunchParams args)) = args ∧
        parse (exe' :: envArgs (readWide (relaunchParams args))) = parse (exe :: args) ↔
      Forwardable (args.map String.toList) := by
  rw [envArgs_relaunchParams hnul, ← words_joinArgs_iff]
  have hback : (args.map String.toList).map String.ofList = args := by simp
  constructor
  · rintro ⟨hargs, -⟩
    have := congrArg (List.map String.toList) hargs
    simpa using this
  · intro hw
    rw [hw, hback]
    exact ⟨rfl, rfl⟩

theorem relaunch_exact_run : envArgs (readWide (relaunchParams ["--adapter-name", "my \"net\""])) =
      ["--adapter-name", "my \"net\""] ∧
    parse ("new" :: envArgs (readWide (relaunchParams ["--adapter-name", "my \"net\""]))) =
      parse ["old", "--adapter-name", "my \"net\""] :=
  (relaunch_exact "old" "new" ["--adapter-name", "my \"net\""] (by decide)).mpr
    (Or.inl ⟨by decide, Or.inl ⟨by decide, trivial⟩⟩)

/-- A backslash at the end of an argument takes the next one in. -/
theorem relaunch_swallows :
    (∀ a ∈ ["--adapter-name", "net\\", "--headless"], '\x00' ∉ a.toList) ∧
    envArgs (readWide (relaunchParams ["--adapter-name", "net\\", "--headless"])) =
      ["--adapter-name", "net\" --headless"] ∧
    parse ["rickynet", "--adapter-name", "net\" --headless"] ≠
      parse ["rickynet", "--adapter-name", "net\\", "--headless"] := by
  decide

end RickyNet
