import Mathlib.Data.List.Perm.Basic
import RickyNet.Win.Args

/-!
# The grammar of the command line

An option group is an option with its value.  `parse` reads groups from left to right; what it returns
is said of the groups alone: `meaning` takes the last value of each field, `Malformed` is what is no
group.

    parseLoop args (render gs ++ rest) = parseLoop (gs.foldl apply args) rest       (parseLoop_render)
    every list is render gs ++ rest, with nothing, a call for help or no group next      (exists_groups)

`parse_exact` is the grammar; with it every `Args` that can be run can be written down, in any order.
-/

namespace RickyNet

/-- `--transport v` means `kind`. -/
def TransportKind.Spelt (kind : TransportKind) (v : String) : Prop :=
  match kind with
  | .usb => asciiLower v = "usb"
  | .wifi => asciiLower v = "wifi" ∨ asciiLower v = "wi-fi"

/-- An option with its value. -/
inductive OptionGroup
  | headless
  | transport (v : String) (kind : TransportKind) (h : kind.Spelt v)
  | phoneIp (s : String)
  | port (v : String) (p : UInt16) (h : parseU16 v = some p)
  | adapterName (s : String)

namespace OptionGroup

/-- The arguments of a group. -/
def render : OptionGroup → List String
  | headless => ["--headless"]
  | transport v _ _ => ["--transport", v]
  | phoneIp s => ["--phone-ip", s]
  | port v _ _ => ["--port", v]
  | adapterName s => ["--adapter-name", s]

def transport? : OptionGroup → Option TransportKind
  | transport _ kind _ => some kind
  | _ => none

def phoneIp? : OptionGroup → Option String
  | phoneIp s => some s
  | _ => none

def port? : OptionGroup → Option UInt16
  | port _ p _ => some p
  | _ => none

def headless? : OptionGroup → Option Bool
  | headless => some true
  | _ => none

def adapterName? : OptionGroup → Option String
  | adapterName s => some s
  | _ => none

/-- What a group sets. -/
def apply (args : Args) : OptionGroup → Args
  | headless => { args with headless := true }
  | transport _ kind _ => { args with transport := kind }
  | phoneIp s => { args with phoneIp := some s }
  | port _ p _ => { args with port := p }
  | adapterName s => { args with adapterName := s }

end OptionGroup

def renderAll (gs : List OptionGroup) : List String := gs.flatMap OptionGroup.render

/-- The value that the last group for a field gives it, its default if there is none. -/
def lastValue {α : Type} (field : OptionGroup → Option α) (dflt : α) (gs : List OptionGroup) : α :=
  (gs.filterMap field).getLastD dflt

/-- What the groups mean. -/
def meaning (gs : List OptionGroup) : Args where
  transport := lastValue OptionGroup.transport? Args.default.transport gs
  phoneIp := lastValue (fun g => g.phoneIp?.map some) Args.default.phoneIp gs
  port := lastValue OptionGroup.port? Args.default.port gs
  headless := lastValue OptionGroup.headless? Args.default.headless gs
  adapterName := lastValue OptionGroup.adapterName? Args.default.adapterName gs

/-- No group stands here, and no call for help. -/
inductive Malformed : List String → Prop
  | unknown (a : String) (rest : List String)
      (h : a ∉ ["-h", "--help", "--headless", "--transport", "--phone-ip", "--port", "--adapter-name"]) :
      Malformed (a :: rest)
  | missing (a : String) (h : a ∈ ["--transport", "--phone-ip", "--port", "--adapter-name"]) :
      Malformed [a]
  | transport (v : String) (rest : List String) (h : ∀ kind : TransportKind, ¬ kind.Spelt v) :
      Malformed ("--transport" :: v :: rest)
  | port (v : String) (rest : List String) (h : parseU16 v = none) : Malformed ("--port" :: v :: rest)

/-- Help is asked for here. -/
def AsksHelp : List String → Prop
  | a :: _ => a = "-h" ∨ a = "--help"
  | [] => False

/-- Wi-Fi without an address. -/
def Args.Unreachable (a : Args) : Prop := a.transport = .wifi ∧ a.phoneIp = none

/-! ## One group -/

theorem parseTransport_of_spelt {kind : TransportKind} {v : String} (h : kind.Spelt v) :
    parseTransport v = .ok kind := by
  unfold parseTransport
  cases kind with
  | usb => exact if_pos h
  | wifi =>
    have hne : asciiLower v ≠ "usb" := by
      rcases h with h | h <;> (rw [h]; decide)
    exact (if_neg hne).trans (if_pos h)

theorem parseTransport_of_not_spelt {v : String} (h : ∀ kind : TransportKind, ¬ kind.Spelt v) :
    ∃ e, parseTransport v = .error e :=
  ⟨_, (if_neg (h .usb)).trans (if_neg (h .wifi))⟩

theorem parseLoop_group (args : Args) (g : OptionGroup) (rest : List String) :
    parseLoop args (g.render ++ rest) = parseLoop (g.apply args) rest := by
  cases g with
  | headless =>
    show parseLoop args ("--headless" :: rest) = parseLoop { args with headless := true } rest
    rw [parseLoop.eq_def args]
    simp
  | transport v kind h =>
    simp [OptionGroup.render, OptionGroup.apply, parseLoop, parseTransport_of_spelt h]
  | phoneIp s => simp [OptionGroup.render, OptionGroup.apply, parseLoop]
  | port v p h => simp [OptionGroup.render, OptionGroup.apply, parseLoop, h]
  | adapterName s => simp [OptionGroup.render, OptionGroup.apply, parseLoop]

theorem parseLoop_help (args : Args) {rest : List String} (h : AsksHelp rest) :
    parseLoop args rest = .ok none := by
  cases rest with
  | nil => cases h
  | cons a rest =>
    unfold parseLoop
    exact if_pos h

theorem parseLoop_malformed (args : Args) {rest : List String} (h : Malformed rest) :
    ∃ e, parseLoop args rest = .error e := by
  cases h with
  | unknown a rest h =>
    simp only [List.mem_cons, List.not_mem_nil, or_false, not_or] at h
    rw [parseLoop.eq_def]
    simp [h]
  | missing a h =>
    simp only [List.mem_cons, List.not_mem_nil, or_false] at h
    rcases h with rfl | rfl | rfl | rfl
    · simp [parseLoop]
    · simp [parseLoop]
    · simp [parseLoop]
    · simp [parseLoop]
  | transport v rest h =>
    obtain ⟨e, he⟩ := parseTransport_of_not_spelt h
    simp [parseLoop, he]
  | port v rest h => simp [parseLoop, h]

/-! ## The whole line -/

/-- What the loop does behind `gs`. -/
theorem parseLoop_render (args : Args) (gs : List OptionGroup) (rest : List String) :
    parseLoop args (renderAll gs ++ rest) = parseLoop (gs.foldl OptionGroup.apply args) rest := by
  induction gs generalizing args with
  | nil => rfl
  | cons g gs ih =>
    show parseLoop args ((g.render ++ renderAll gs) ++ rest) = _
    rw [List.append_assoc, parseLoop_group, ih]
    rfl

/-- One group off a list. -/
theorem exists_group (l : List String) :
    l = [] ∨ AsksHelp l ∨ Malformed l ∨ ∃ (g : OptionGroup) (rest : List String),
      l = g.render ++ rest ∧ rest.length < l.length := by
  cases l with
  | nil => exact Or.inl rfl
  | cons a it =>
    by_cases hhelp : a = "-h" ∨ a = "--help"
    · exact Or.inr (Or.inl hhelp)
    by_cases hheadless : a = "--headless"
    · exact Or.inr (Or.inr (Or.inr ⟨.headless, it, by rw [hheadless]; rfl, by simp⟩))
    by_cases hval : a ∈ ["--transport", "--phone-ip", "--port", "--adapter-name"]
    · cases it with
      | nil => exact Or.inr (Or.inr (Or.inl (.missing a hval)))
      | cons v rest =>
        have hlen : rest.length < (a :: v :: rest).length := by
          simp only [List.length_cons]
          omega
        simp only [List.mem_cons, List.not_mem_nil, or_false] at hval
        rcases hval with rfl | rfl | rfl | rfl
        · by_cases hspelt : ∃ kind : TransportKind, kind.Spelt v
          · obtain ⟨kind, hkind⟩ := hspelt
            exact Or.inr (Or.inr (Or.inr ⟨.transport v kind hkind, rest, rfl, hlen⟩))
          · exact Or.inr (Or.inr (Or.inl (.transport v rest fun kind hk => hspelt ⟨kind, hk⟩)))
        · exact Or.inr (Or.inr (Or.inr ⟨.phoneIp v, rest, rfl, hlen⟩))
        · cases hp : parseU16 v with
          | none => exact Or.inr (Or.inr (Or.inl (.port v rest hp)))
          | some p => exact Or.inr (Or.inr (Or.inr ⟨.port v p hp, rest, rfl, hlen⟩))
        · exact Or.inr (Or.inr (Or.inr ⟨.adapterName v, rest, rfl, hlen⟩))
    · refine Or.inr (Or.inr (Or.inl (.unknown a it ?_)))
      simp only [List.mem_cons, List.not_mem_nil, or_false, not_or] at hhelp hheadless hval ⊢
      exact ⟨hhelp.1, hhelp.2, hheadless, hval⟩

/-- Every list is groups, and then its end, a call for help, or no group. -/
theorem exists_groups (l : List String) : ∃ (gs : List OptionGroup) (rest : List String),
    l = renderAll gs ++ rest ∧ (rest = [] ∨ AsksHelp rest ∨ Malformed rest) := by
  induction hn : l.length using Nat.strong_induction_on generalizing l with
  | _ n ih =>
    rcases exists_group l with h | h | h | ⟨g, rest, hl, hlen⟩
    · exact ⟨[], l, rfl, Or.inl h⟩
    · exact ⟨[], l, rfl, Or.inr (Or.inl h)⟩
    · exact ⟨[], l, rfl, Or.inr (Or.inr h)⟩
    · obtain ⟨gs, rest', hrest, hstop⟩ := ih rest.length (by omega) rest rfl
      refine ⟨g :: gs, rest', ?_, hstop⟩
      show l = (g.render ++ renderAll gs) ++ rest'
      rw [hl, hrest, List.append_assoc]

/-! ## The last value wins -/

theorem lastValue_concat {α : Type} (field : OptionGroup → Option α) (dflt : α)
    (gs : List OptionGroup) (g : OptionGroup) :
    lastValue field dflt (gs ++ [g]) = (field g).getD (lastValue field dflt gs) := by
  unfold lastValue
  rw [List.filterMap_append]
  cases hg : field g with
  | none => simp [hg]
  | some x => simp [hg]

theorem meaning_concat (gs : List OptionGroup) (g : OptionGroup) :
    meaning (gs ++ [g]) = g.apply (meaning gs) := by
  unfold meaning
  simp only [lastValue_concat]
  cases g <;> rfl

/-- The loop goes through the groups, and has their meaning at the end. -/
theorem foldl_apply (gs : List OptionGroup) :
    gs.foldl OptionGroup.apply .default = meaning gs := by
  induction gs using List.reverseRecOn with
  | nil => rfl
  | append_singleton gs g ih => rw [List.foldl_append, ih, meaning_concat, List.foldl_cons, List.foldl_nil]

theorem parseLoop_nil (args : Args) (h : ¬ args.Unreachable) : parseLoop args [] = .ok (some args) :=
  if_neg h

theorem parseLoop_nil_unreachable (args : Args) (h : args.Unreachable) :
    ∃ e, parseLoop args [] = .error e :=
  ⟨_, if_pos h⟩

theorem parse_groups (exe : String) (gs : List OptionGroup) (rest : List String) :
    parse (exe :: (renderAll gs ++ rest)) = parseLoop (meaning gs) rest := by
  show parseLoop .default (renderAll gs ++ rest) = _
  rw [parseLoop_render, foldl_apply]

theorem parse_all_groups (exe : String) (gs : List OptionGroup) :
    parse (exe :: renderAll gs) = parseLoop (meaning gs) [] := by
  rw [← parse_groups exe gs [], List.append_nil]

/-! ## Writing `Args` down -/

/-- The value `--transport` has for it. -/
def TransportKind.text : TransportKind → String
  | .usb => "usb"
  | .wifi => "wifi"

theorem TransportKind.spelt_text (kind : TransportKind) : kind.Spelt kind.text := by
  cases kind with
  | usb => exact (by decide : asciiLower "usb" = "usb")
  | wifi => exact Or.inl (by decide)

theorem decimal_toDigits (n : Nat) : decimal (Nat.toDigits 10 n) = n := by
  have h := Nat.ofDigitChars_ten_toDigits (n := n)
  rwa [Nat.ofDigitChars_eq_foldl] at h

/-- Decimal digits, and no `+` in front. -/
theorem parseU16_repr (p : UInt16) : parseU16 p.toNat.repr = some p := by
  have hdigit : ∀ c ∈ Nat.toDigits 10 p.toNat, c.isDigit = true :=
    fun c hc => Nat.isDigit_of_mem_toDigits (by decide) (by decide) hc
  have hne : Nat.toDigits 10 p.toNat ≠ [] := Nat.toDigits_ne_nil
  have hle : p.toNat ≤ 65535 := by
    have := p.toNat_lt
    omega
  have hdigits : decimal (Nat.toDigits 10 p.toNat) ≤ 65535 := by rwa [decimal_toDigits]
  unfold parseU16
  rw [Nat.toList_repr]
  dsimp only
  split
  · rename_i digits heq
    have hplus := hdigit '+' (by rw [heq]; exact List.mem_cons_self)
    exact absurd hplus (by decide)
  · rw [if_pos ⟨hne, List.all_eq_true.mpr hdigit, hdigits⟩, decimal_toDigits, UInt16.ofNat_toNat]

/-- `a` as option groups. -/
def Args.groups (a : Args) : List OptionGroup :=
  [.transport a.transport.text a.transport a.transport.spelt_text,
    .port a.port.toNat.repr a.port (parseU16_repr a.port), .adapterName a.adapterName] ++
  (a.phoneIp.map OptionGroup.phoneIp).toList ++ (if a.headless then [.headless] else [])

/-- Where a field is given once at most, the order does not matter. -/
theorem lastValue_perm {α : Type} (field : OptionGroup → Option α) (dflt : α)
    {gs gs' : List OptionGroup} (h : gs.Perm gs') (hone : (gs'.filterMap field).length ≤ 1) :
    lastValue field dflt gs = lastValue field dflt gs' := by
  have hperm := h.filterMap field
  unfold lastValue
  match hl : gs'.filterMap field with
  | [] => rw [hl] at hperm; rw [List.perm_nil.mp hperm]
  | [x] => rw [hl] at hperm; rw [List.perm_singleton.mp hperm]
  | x :: y :: l => rw [hl] at hone; simp at hone

theorem meaning_groups (a : Args) : meaning a.groups = a := by
  obtain ⟨transport, phoneIp, port, headless, adapterName⟩ := a
  cases phoneIp <;> cases headless <;> rfl

theorem meaning_perm (a : Args) {gs : List OptionGroup} (h : gs.Perm a.groups) : meaning gs = a := by
  refine Eq.trans ?_ (meaning_groups a)
  obtain ⟨transport, phoneIp, port, headless, adapterName⟩ := a
  unfold meaning
  congr 1
  -- each field has one group in `groups`, or none
  all_goals
    refine lastValue_perm _ _ h ?_
    cases phoneIp <;> cases headless <;> exact Nat.le_of_ble_eq_true rfl

/-! ## The grammar -/

theorem parse_cases (exe : String) (l : List String) :
    (parse (exe :: l) = .ok none ∧ ∃ gs rest, l = renderAll gs ++ rest ∧ AsksHelp rest) ∨
    ((∃ e, parse (exe :: l) = .error e) ∧
      ((∃ gs rest, l = renderAll gs ++ rest ∧ Malformed rest) ∨
        ∃ gs, l = renderAll gs ∧ (meaning gs).Unreachable)) ∨
    ∃ gs, l = renderAll gs ∧ ¬ (meaning gs).Unreachable ∧ parse (exe :: l) = .ok (some (meaning gs)) := by
  obtain ⟨gs, rest, rfl, hrest⟩ := exists_groups l
  rw [parse_groups]
  rcases hrest with rfl | hhelp | hbad
  · rw [List.append_nil]
    by_cases h : (meaning gs).Unreachable
    · exact Or.inr (Or.inl ⟨parseLoop_nil_unreachable _ h, Or.inr ⟨gs, rfl, h⟩⟩)
    · exact Or.inr (Or.inr ⟨gs, rfl, h, parseLoop_nil _ h⟩)
  · exact Or.inl ⟨parseLoop_help _ hhelp, gs, rest, rfl, hhelp⟩
  · exact Or.inr (Or.inl ⟨parseLoop_malformed _ hbad, Or.inl ⟨gs, rest, rfl, hbad⟩⟩)

/-- **The command line means what its option groups mean.**  Help is what a call for help behind groups
gives; an error is what a malformed group behind groups gives, or Wi-Fi without an address at the end;
and otherwise each field has the value of its last group.  What can be run can be written down, in any
order. -/
theorem parse_exact (exe : String) (l : List String) :
    (parse (exe :: l) = .ok none ↔ ∃ gs rest, l = renderAll gs ++ rest ∧ AsksHelp rest) ∧
    ((∃ e, parse (exe :: l) = .error e) ↔
      (∃ gs rest, l = renderAll gs ++ rest ∧ Malformed rest) ∨
        ∃ gs, l = renderAll gs ∧ (meaning gs).Unreachable) ∧
    (∀ a, parse (exe :: l) = .ok (some a) ↔
      ∃ gs, l = renderAll gs ∧ a = meaning gs ∧ ¬ a.Unreachable) ∧
    (∀ a : Args, ¬ a.Unreachable → ∀ gs : List OptionGroup, gs.Perm a.groups →
      parse (exe :: renderAll gs) = .ok (some a)) := by
  refine ⟨⟨fun h => ?_, ?_⟩, ⟨fun h => ?_, ?_⟩, fun a => ⟨fun h => ?_, ?_⟩, fun a ha gs hgs => ?_⟩
  · rcases parse_cases exe l with ⟨-, hhelp⟩ | ⟨⟨e, he⟩, -⟩ | ⟨gs, -, -, hok⟩
    · exact hhelp
    · rw [h] at he
      cases he
    · rw [h] at hok
      cases hok
  · rintro ⟨gs, rest, rfl, hhelp⟩
    rw [parse_groups]
    exact parseLoop_help _ hhelp
  · obtain ⟨e, he⟩ := h
    rcases parse_cases exe l with ⟨hnone, -⟩ | ⟨-, hwhy⟩ | ⟨gs, -, -, hok⟩
    · rw [he] at hnone
      cases hnone
    · exact hwhy
    · rw [he] at hok
      cases hok
  · rintro (⟨gs, rest, rfl, hbad⟩ | ⟨gs, rfl, hun⟩)
    · rw [parse_groups]
      exact parseLoop_malformed _ hbad
    · rw [parse_all_groups]
      exact parseLoop_nil_unreachable _ hun
  · rcases parse_cases exe l with ⟨hnone, -⟩ | ⟨⟨e, he⟩, -⟩ | ⟨gs, hl, hreach, hok⟩
    · rw [h] at hnone
      cases hnone
    · rw [h] at he
      cases he
    · rw [h] at hok
      cases hok
      exact ⟨gs, hl, rfl, hreach⟩
  · rintro ⟨gs, rfl, rfl, hreach⟩
    rw [parse_all_groups]
    exact parseLoop_nil _ hreach
  · rw [parse_all_groups, meaning_perm a hgs]
    exact parseLoop_nil a ha

end RickyNet
