import RickyNet.Ios.LogStore

/-!
# Clearing the log view

`clear()` posts to both queues.  They are first in, first out, and so the clears come in one order on
both: the `n`-th is the one before whose queue block `n` others have run, and before whose main block `n`
others have run.  A line of the `n`-th clear or an earlier one has `gen ≤ n`; one that was appended
behind it has a greater `gen`.

`Base` holds in every run: a clear removes no line that comes behind it.  `Fresh` needs more, since a
flush block in front of the clear's queue block may still hand its batch to the main queue behind the
clear's main block; `Meets` says when it does not.
-/

namespace RickyNet

/-- The main blocks that a `clear()` under way has still to post. -/
def ClearPc.pending : ClearPc → Nat
  | .postMain _ => 1
  | _ => 0

namespace LogStore

/-- Whether one of the flush blocks in front of the `n`-th clear has lines to take, `full` being whether
there are some in `uiBuffer` now. -/
def takes : Nat → Bool → List QueueBlock → Bool
  | 0, _, _ => false
  | _ + 1, _, [] => false
  | n + 1, _, .append _ :: rest => takes (n + 1) true rest
  | n + 1, full, .flush :: rest => full || takes (n + 1) false rest
  | n + 1, _, .clear :: rest => takes n false rest

/-- There are lines to take. -/
def full (s : LogStore) : Bool := !s.uiBuffer.isEmpty

/-- What `clear()` has to meet when it posts its main block: its queue block has run, or no flush block
in front of that has a batch or gets one. -/
def Meets (s : LogStore) : Act → Prop
  | .clearNext _ =>
    match s.clearing with
    | .postMain _ =>
      (.clear ∈ s.queue → s.flushing = none) ∧
        takes (s.queue.count .clear) s.full s.queue = false
    | _ => True
  | _ => True

/-- No line is shown that a clear had to remove. -/
def Cleared (s : LogStore) : Prop := ∀ l ∈ s.lines, s.cleared ≤ l.gen

/-- No clear has removed a line that came behind it. -/
def Spared (s : LogStore) : Prop := ∀ p ∈ s.removed, p.2.gen ≤ p.1

instance (s : LogStore) : Decidable s.Cleared := inferInstanceAs (Decidable (∀ l ∈ s.lines, _))

/-! ## Counting clears -/

theorem count_clear_cons_append (line : String) (q : List QueueBlock) :
    (QueueBlock.append line :: q).count .clear = q.count .clear := rfl

theorem count_clear_cons_flush (q : List QueueBlock) :
    (QueueBlock.flush :: q).count .clear = q.count .clear := rfl

theorem count_clear_cons_batch (batch : List StoreLine) (m : List MainBlock) :
    (MainBlock.batch batch :: m).count .clear = m.count .clear := rfl

theorem count_clear_append (q : List QueueBlock) (line : String) :
    (q ++ [QueueBlock.append line]).count .clear = q.count .clear := by
  rw [List.count_append]
  exact Nat.add_zero _

theorem count_clear_flush (q : List QueueBlock) : (q ++ [QueueBlock.flush]).count .clear = q.count .clear := by
  rw [List.count_append]
  exact Nat.add_zero _

theorem count_clear_batch (m : List MainBlock) (batch : List StoreLine) :
    (m ++ [MainBlock.batch batch]).count .clear = m.count .clear := by
  rw [List.count_append]
  exact Nat.add_zero _

/-! ## What a clear removes -/

/-- The lines that each clear in `main` will find are of its time or earlier. -/
def Old : Nat → List StoreLine → List MainBlock → Prop
  | _, _, [] => True
  | n, lines, .batch batch :: rest => Old n (lines ++ batch) rest
  | n, lines, .clear :: rest => (∀ l ∈ lines, l.gen ≤ n) ∧ Old (n + 1) [] rest

theorem Old.mono {n : Nat} {lines lines' : List StoreLine} {m : List MainBlock} (h : Old n lines m)
    (hsub : ∀ l ∈ lines', l ∈ lines) : Old n lines' m := by
  induction m generalizing lines lines' with
  | nil => trivial
  | cons block m ih =>
    cases block with
    | batch batch =>
      have hrest : Old n (lines ++ batch) m := h
      refine ih hrest fun l hl => ?_
      rcases List.mem_append.mp hl with hl | hl
      · exact List.mem_append_left _ (hsub l hl)
      · exact List.mem_append_right _ hl
    | clear => exact ⟨fun l hl => h.1 l (hsub l hl), h.2⟩

theorem Old.concat_batch {n : Nat} {lines : List StoreLine} {m : List MainBlock} (h : Old n lines m)
    (batch : List StoreLine) : Old n lines (m ++ [.batch batch]) := by
  induction m generalizing n lines with
  | nil => trivial
  | cons block m ih =>
    cases block with
    | batch b => exact ih h
    | clear => exact ⟨h.1, ih h.2⟩

theorem Old.concat_clear {n : Nat} {lines : List StoreLine} {m : List MainBlock} (h : Old n lines m)
    (hall : ∀ l ∈ lines ++ batches m, l.gen ≤ n + m.count .clear) : Old n lines (m ++ [.clear]) := by
  induction m generalizing n lines with
  | nil => exact ⟨fun l hl => hall l (List.mem_append_left _ hl), trivial⟩
  | cons block m ih =>
    cases block with
    | batch b =>
      have hrest : Old n (lines ++ b) m := h
      refine ih hrest fun l hl => ?_
      have := hall l (by simpa [batches] using hl)
      simpa [List.count_cons] using this
    | clear =>
      refine ⟨h.1, ih h.2 fun l hl => ?_⟩
      have := hall l (List.mem_append_right _ (show l ∈ batches m by simpa using hl))
      simp only [List.count_cons_self] at this
      omega

theorem Old.left {n : Nat} {lines : List StoreLine} {m m' : List MainBlock} (h : Old n lines (m ++ m')) :
    Old n lines m := by
  induction m generalizing n lines with
  | nil => trivial
  | cons block m ih =>
    cases block with
    | batch b => exact ih h
    | clear => exact ⟨h.1, ih h.2⟩

/-- Clear `n` removes lines of its time or earlier. -/
theorem Spared.removes {s : LogStore} (h : s.Spared) {n : Nat} {lines : List StoreLine}
    (hle : ∀ l ∈ lines, l.gen ≤ n) : ∀ p ∈ s.removed ++ lines.map (n, ·), p.2.gen ≤ p.1 := by
  intro p hp
  rcases List.mem_append.mp hp with hp | hp
  · exact h p hp
  · obtain ⟨l, hl, rfl⟩ := List.mem_map.mp hp
    exact hle l hl

/-- Each flush block in the queue has a clear behind it. -/
def Covered : List QueueBlock → Prop
  | [] => True
  | .flush :: rest => .clear ∈ rest ∧ Covered rest
  | _ :: rest => Covered rest

theorem covered_concat_clear (q : List QueueBlock) : Covered (q ++ [.clear]) := by
  induction q with
  | nil => trivial
  | cons block q ih =>
    cases block with
    | append line => exact ih
    | flush => exact ⟨List.mem_append_right _ (List.mem_singleton_self _), ih⟩
    | clear => exact ih

theorem Covered.concat_append {q : List QueueBlock} (h : Covered q) (line : String) :
    Covered (q ++ [.append line]) := by
  induction q with
  | nil => trivial
  | cons block q ih =>
    cases block with
    | append text => exact ih h
    | flush => exact ⟨List.mem_append_left _ h.1, ih h.2⟩
    | clear => exact ih h

theorem Covered.tail {block : QueueBlock} {rest : List QueueBlock} (h : Covered (block :: rest)) :
    Covered rest := by
  cases block with
  | append line => exact h
  | flush => exact h.2
  | clear => exact h

/-- Lines, numbers of clears, and flush blocks while the main thread is in `clear()`. -/
structure Base (s : LogStore) : Prop where
  balance : s.gen + s.queue.count .clear = s.cleared + s.main.count .clear + s.clearing.pending
  buffer : ∀ l ∈ s.uiBuffer, l.gen = s.gen
  arrived : ∀ l ∈ s.lines ++ batches s.main ++ s.flushing.getD [], l.gen ≤ s.gen
  covered : s.clearing.pending = 1 → Covered s.queue ∧ (s.flushing ≠ none → .clear ∈ s.queue)
  old : Old s.cleared s.lines (s.main ++ List.replicate s.clearing.pending .clear)
  spared : s.Spared

theorem start_base : start.Base where
  balance := rfl
  buffer := fun l hl => by cases hl
  arrived := fun l hl => by cases hl
  covered := fun h => by cases h
  old := trivial
  spared := fun p hp => by cases hp

theorem Base.queue_step {s : LogStore} (hb : s.Base) (hf : s.flushing = none) {block : QueueBlock}
    {rest : List QueueBlock} (hq : s.queue = block :: rest) (ok : Bool) :
    Base ({ s with queue := rest }.runQueue ok block) := by
  obtain ⟨hbal, hbuf, harr, hcov, hold, hsp⟩ := hb
  rw [hq] at hbal hcov
  rw [hf] at harr hcov
  cases block with
  | append text =>
    rw [count_clear_cons_append] at hbal
    refine ⟨hbal, ?_, ?_, fun hp => ⟨(hcov hp).1, fun h => absurd hf h⟩, hold, hsp⟩
    · intro l hl
      rcases List.mem_append.mp hl with hl | hl
      · exact hbuf l hl
      · obtain rfl := List.mem_singleton.mp hl
        rfl
    · show ∀ l ∈ s.lines ++ batches s.main ++ s.flushing.getD [], l.gen ≤ s.gen
      rw [hf]
      exact harr
  | flush =>
    rw [count_clear_cons_flush] at hbal
    refine ⟨hbal, (fun l hl => by cases hl), ?_, fun hp => ⟨(hcov hp).1.2, fun _ => (hcov hp).1.1⟩, hold, hsp⟩
    show ∀ l ∈ s.lines ++ batches s.main ++
      (if s.uiBuffer = [] then none else some s.uiBuffer).getD [], l.gen ≤ s.gen
    intro l hl
    rcases List.mem_append.mp hl with hl | hl
    · exact harr l (List.mem_append_left _ hl)
    · split at hl
      · cases hl
      · exact Nat.le_of_eq (hbuf l hl)
  | clear =>
    rw [List.count_cons_self] at hbal
    refine ⟨?_, (fun l hl => by cases hl), ?_, fun hp => ⟨(hcov hp).1, fun h => absurd hf h⟩, hold, ?_⟩
    · show s.gen + 1 + rest.count .clear = s.cleared + s.main.count .clear + s.clearing.pending
      omega
    · show ∀ l ∈ s.lines ++ batches s.main ++ s.flushing.getD [], l.gen ≤ s.gen + 1
      rw [hf]
      exact fun l hl => Nat.le_succ_of_le (harr l hl)
    · exact hsp.removes fun l hl => Nat.le_of_eq (hbuf l hl)

theorem Base.main_step {s : LogStore} (hb : s.Base) (hc : s.clearing = .idle) {block : MainBlock}
    {rest : List MainBlock} (hm : s.main = block :: rest) :
    Base ({ s with main := rest }.runMain block) := by
  obtain ⟨hbal, hbuf, harr, hcov, hold, hsp⟩ := hb
  rw [hm] at hbal harr hold
  have hpend : ∀ {P : Prop}, s.clearing.pending = 1 → P := fun hp => by rw [hc] at hp; cases hp
  cases block with
  | batch batch =>
    rw [count_clear_cons_batch] at hbal
    refine ⟨hbal, hbuf, ?_, hpend, ?_, hsp⟩
    · show ∀ l ∈ (s.lines ++ batch).drop (excess (s.lines ++ batch)) ++ batches rest ++
        s.flushing.getD [], l.gen ≤ s.gen
      intro l hl
      refine harr l ?_
      simp only [batches, List.mem_append] at hl ⊢
      rcases hl with (hl | hl) | hl
      · rcases List.mem_append.mp (List.mem_of_mem_drop hl) with hl | hl
        · exact Or.inl (Or.inl hl)
        · exact Or.inl (Or.inr (Or.inl hl))
      · exact Or.inl (Or.inr (Or.inr hl))
      · exact Or.inr hl
    · have hrest : Old s.cleared (s.lines ++ batch)
          (rest ++ List.replicate s.clearing.pending .clear) := hold
      exact hrest.mono fun l hl => List.mem_of_mem_drop hl
  | clear =>
    rw [List.count_cons_self] at hbal
    refine ⟨?_, hbuf, ?_, hpend, hold.2, ?_⟩
    · show s.gen + s.queue.count .clear = s.cleared + 1 + rest.count .clear + s.clearing.pending
      omega
    · show ∀ l ∈ [] ++ batches rest ++ s.flushing.getD [], l.gen ≤ s.gen
      intro l hl
      refine harr l ?_
      simp only [batches, List.mem_append, List.not_mem_nil, false_or] at hl ⊢
      exact hl.imp_left Or.inr
    · exact hsp.removes hold.1

/-- A batch that is on its way while the main thread is in `clear()` has been taken in front of this
clear. -/
theorem Base.post_step {s : LogStore} (hb : s.Base) {batch : List StoreLine}
    (hf : s.flushing = some batch) :
    Base { s with flushing := none, main := s.main ++ [.batch batch] } := by
  obtain ⟨hbal, hbuf, harr, hcov, hold, hsp⟩ := hb
  rw [hf] at harr
  have harr' : ∀ l ∈ s.lines ++ batches (s.main ++ [.batch batch]), l.gen ≤ s.gen := by
    intro l hl
    refine harr l ?_
    rw [batches_concat, ← List.append_assoc] at hl
    exact hl
  refine ⟨?_, hbuf, ?_, fun hp => ⟨(hcov hp).1, fun h => absurd rfl h⟩, ?_, hsp⟩
  · show _ = s.cleared + (s.main ++ [MainBlock.batch batch]).count .clear + s.clearing.pending
    rw [count_clear_batch]
    exact hbal
  · show ∀ l ∈ s.lines ++ batches (s.main ++ [.batch batch]) ++ [], l.gen ≤ s.gen
    rwa [List.append_nil]
  · show Old s.cleared s.lines (s.main ++ [.batch batch] ++ List.replicate s.clearing.pending .clear)
    cases hpc : s.clearing with
    | idle =>
      exact (List.append_nil _).symm ▸ hold.left.concat_batch batch
    | messages messages =>
      exact (List.append_nil _).symm ▸ hold.left.concat_batch batch
    | postMain messages =>
      have hpend : s.clearing.pending = 1 := by rw [hpc]; rfl
      have hmem := (hcov hpend).2 (by rw [hf]; exact nofun)
      have hpos := List.count_pos_iff.mpr hmem
      refine (hold.left.concat_batch batch).concat_clear fun l hl => ?_
      have hgen := harr' l hl
      rw [count_clear_batch]
      omega

/-- `clear()` is called. -/
theorem Base.clear_step {s : LogStore} (hb : s.Base) (hc : s.clearing = .idle) (messages : List String) :
    Base { s with queue := s.queue ++ [.clear], clearing := .postMain messages } := by
  have hbal := hb.balance
  rw [hc] at hbal
  refine ⟨?_, hb.buffer, hb.arrived, fun _ => ⟨covered_concat_clear _, fun _ => ?_⟩, ?_, hb.spared⟩
  · show s.gen + (s.queue ++ [QueueBlock.clear]).count .clear = s.cleared + s.main.count .clear + 1
    rw [List.count_append, List.count_singleton_self, ← Nat.add_assoc, hbal]
    rfl
  · exact List.mem_append_right _ (List.mem_singleton_self _)
  · refine hb.old.left.concat_clear fun l hl => ?_
    have := hb.arrived l (List.mem_append_left _ hl)
    have hp0 : ClearPc.idle.pending = 0 := rfl
    omega

theorem base_step {s s' : LogStore} {a : Act} (hb : s.Base) (h : s.step a = some s') : s'.Base := by
  cases moves_of_step h with
  | append line =>
    refine ⟨?_, hb.buffer, hb.arrived, fun hp => ?_, hb.old, hb.spared⟩
    · show s.gen + (s.queue ++ [QueueBlock.append line]).count .clear = _
      rw [count_clear_append]
      exact hb.balance
    · obtain ⟨hcov, hfl⟩ := hb.covered hp
      exact ⟨hcov.concat_append line, fun hf => List.mem_append_left _ (hfl hf)⟩
  | queue ok block rest hf hq => exact hb.queue_step hf hq ok
  | post batch hf => exact hb.post_step hf
  | timer timers hc ht =>
    refine ⟨?_, hb.buffer, hb.arrived, fun hp => ?_, hb.old, hb.spared⟩
    · show s.gen + (s.queue ++ [QueueBlock.flush]).count .clear = _
      rw [count_clear_flush]
      exact hb.balance
    · have hp : s.clearing.pending = 1 := hp
      rw [hc] at hp
      cases hp
  | main block rest hc hm => exact hb.main_step hc hm
  | clear info hc => exact hb.clear_step hc _
  | postMain time messages hc =>
    have hbal := hb.balance
    have hold := hb.old
    rw [hc] at hbal hold
    refine ⟨?_, hb.buffer, ?_, fun hp => (by cases hp), (List.append_nil _).symm ▸ hold, hb.spared⟩
    · show _ = s.cleared + (s.main ++ [MainBlock.clear]).count .clear + 0
      rw [List.count_append, List.count_singleton_self, ← Nat.add_assoc]
      exact hbal
    · show ∀ l ∈ s.lines ++ batches (s.main ++ [.clear]) ++ s.flushing.getD [], l.gen ≤ s.gen
      rw [batches_append]
      exact (List.append_nil (batches s.main)).symm ▸ hb.arrived
  | message time m messages hc =>
    have hbal := hb.balance
    have hold := hb.old
    rw [hc] at hbal hold
    refine ⟨?_, hb.buffer, hb.arrived, fun hp => (by cases hp), hold, hb.spared⟩
    show s.gen + (s.queue ++ [QueueBlock.append _]).count .clear = _
    rw [count_clear_append]
    exact hbal
  | done time hc =>
    have hbal := hb.balance
    have hold := hb.old
    rw [hc] at hbal hold
    exact ⟨hbal, hb.buffer, hb.arrived, fun hp => (by cases hp), hold, hb.spared⟩

theorem run_base {s : LogStore} {as : List Act} (h : Runs.exec step start as = some s) : s.Base :=
  Runs.exec_inv step Base (fun _ _ _ => base_step) start_base h

/-! ## What comes behind a clear -/

/-- What is posted behind a clear keeps to the flush blocks in front of it. -/
theorem takes_append {n : Nat} {full : Bool} {q : List QueueBlock} (h : n ≤ q.count .clear)
    (q' : List QueueBlock) : takes n full (q ++ q') = takes n full q := by
  induction q generalizing n full with
  | nil =>
    obtain rfl : n = 0 := Nat.le_zero.mp h
    simp [takes]
  | cons block q ih =>
    cases n with
    | zero => simp [takes]
    | succ n =>
      cases block with
      | append text =>
        rw [count_clear_cons_append] at h
        exact ih h
      | flush =>
        rw [count_clear_cons_flush] at h
        exact congrArg (full || ·) (ih h)
      | clear =>
        rw [List.count_cons_self] at h
        exact ih (Nat.le_of_succ_le_succ h)

theorem takes_posted {q : List QueueBlock} {block : QueueBlock}
    (h : (q ++ [block]).count .clear = q.count .clear) (n : Nat) (full : Bool) :
    takes ((q ++ [block]).count .clear - n) full (q ++ [block]) = takes (q.count .clear - n) full q := by
  rw [h, takes_append (Nat.sub_le _ _)]

/-- The batches behind each clear in `main` have only lines of a later time. -/
def New : Nat → List MainBlock → Prop
  | _, [] => True
  | n, .batch batch :: rest => (∀ l ∈ batch, n ≤ l.gen) ∧ New n rest
  | n, .clear :: rest => New (n + 1) rest

theorem New.concat_batch {n : Nat} {m : List MainBlock} (h : New n m) {batch : List StoreLine}
    (hb : ∀ l ∈ batch, n + m.count .clear ≤ l.gen) : New n (m ++ [.batch batch]) := by
  induction m generalizing n with
  | nil => exact ⟨hb, trivial⟩
  | cons block m ih =>
    cases block with
    | batch b =>
      rw [count_clear_cons_batch] at hb
      exact ⟨h.1, ih h.2 hb⟩
    | clear =>
      refine ih (n := n + 1) h fun l hl => ?_
      have := hb l hl
      rw [List.count_cons_self] at this
      omega

theorem New.concat_clear {n : Nat} {m : List MainBlock} (h : New n m) : New n (m ++ [.clear]) := by
  induction m generalizing n with
  | nil => trivial
  | cons block m ih =>
    cases block with
    | batch b => exact ⟨h.1, ih h.2⟩
    | clear => exact ih (n := n + 1) h

/-- The main blocks posted so far will have removed, once they have run, what they had to. -/
structure Fresh (s : LogStore) : Prop where
  lines : s.Cleared
  main : New s.cleared s.main
  flushing : ∀ l ∈ s.flushing.getD [], s.cleared + s.main.count .clear ≤ l.gen
  /-- no batch is on its way in front of a clear whose main block is posted -/
  still : s.clearing.pending < s.queue.count .clear → s.flushing = none
  taken : takes (s.queue.count .clear - s.clearing.pending) s.full s.queue = false

theorem start_fresh : start.Fresh where
  lines := fun l hl => by cases hl
  main := trivial
  flushing := fun l hl => by cases hl
  still := fun _ => rfl
  taken := rfl

theorem Fresh.queue_step {s : LogStore} (hx : s.Fresh) (hb : s.Base) (hf : s.flushing = none)
    {block : QueueBlock} {rest : List QueueBlock} (hq : s.queue = block :: rest) (ok : Bool) :
    Fresh ({ s with queue := rest }.runQueue ok block) := by
  obtain ⟨hlines, hmain, hflushing, hstill, htakes⟩ := hx
  have hbal := hb.balance
  rw [hq] at hbal htakes
  cases block with
  | append text =>
    rw [count_clear_cons_append] at htakes
    refine ⟨hlines, hmain, hflushing, fun _ => hf, ?_⟩
    have hfull : ({ s with queue := rest }.runQueue ok (.append text)).full = true := by
      unfold full
      simp [runQueue]
    rw [hfull]
    show takes (rest.count .clear - s.clearing.pending) true rest = false
    cases hn : rest.count .clear - s.clearing.pending with
    | zero => cases rest <;> rfl
    | succ n => rwa [hn] at htakes
  | flush =>
    rw [count_clear_cons_flush] at htakes hbal
    cases hn : rest.count .clear - s.clearing.pending with
    | zero =>
      -- all clears whose main block is posted have run on the queue: the batch comes behind them
      refine ⟨hlines, hmain, ?_, fun hlt => ?_, ?_⟩
      · show ∀ l ∈ (if s.uiBuffer = [] then none else some s.uiBuffer).getD [],
          s.cleared + s.main.count .clear ≤ l.gen
        intro l hl
        split at hl
        · cases hl
        · have := hb.buffer l hl
          omega
      · have hlt : s.clearing.pending < rest.count .clear := hlt
        omega
      · show takes (rest.count .clear - s.clearing.pending) _ rest = false
        rw [hn]
        cases rest <;> rfl
    | succ n =>
      rw [hn] at htakes
      have hboth : (s.full || takes (n + 1) false rest) = false := htakes
      rw [Bool.or_eq_false_iff] at hboth
      have hempty : s.uiBuffer = [] := by simpa [full] using hboth.1
      have hnone : (if s.uiBuffer = [] then none else some s.uiBuffer) = none := if_pos hempty
      refine ⟨hlines, hmain, ?_, fun _ => hnone, ?_⟩
      · show ∀ l ∈ (if s.uiBuffer = [] then none else some s.uiBuffer).getD [], _
        rw [hnone]
        intro l hl
        cases hl
      · show takes (rest.count .clear - s.clearing.pending) false rest = false
        rw [hn]
        exact hboth.2
  | clear =>
    rw [List.count_cons_self] at htakes
    refine ⟨hlines, hmain, hflushing, fun _ => hf, ?_⟩
    show takes (rest.count .clear - s.clearing.pending) false rest = false
    cases hn : rest.count .clear - s.clearing.pending with
    | zero => cases rest <;> rfl
    | succ n =>
      have hsucc : rest.count .clear + 1 - s.clearing.pending = n + 2 := by omega
      rwa [hsucc] at htakes

theorem Fresh.main_step {s : LogStore} (hx : s.Fresh) {block : MainBlock} {rest : List MainBlock}
    (hm : s.main = block :: rest) : Fresh ({ s with main := rest }.runMain block) := by
  obtain ⟨hlines, hmain, hflushing, hstill, htakes⟩ := hx
  rw [hm] at hmain hflushing
  cases block with
  | batch batch =>
    rw [count_clear_cons_batch] at hflushing
    refine ⟨?_, hmain.2, hflushing, hstill, htakes⟩
    intro l hl
    rcases List.mem_append.mp (List.mem_of_mem_drop hl) with hl | hl
    · exact hlines l hl
    · exact hmain.1 l hl
  | clear =>
    rw [List.count_cons_self] at hflushing
    refine ⟨fun l hl => (by cases hl), hmain, fun l hl => ?_, hstill, htakes⟩
    have := hflushing l hl
    show s.cleared + 1 + rest.count .clear ≤ l.gen
    omega

theorem fresh_step {s s' : LogStore} {a : Act} (hb : s.Base) (hx : s.Fresh) (hmeets : s.Meets a)
    (h : s.step a = some s') : s'.Fresh := by
  cases moves_of_step h with
  | append line =>
    refine ⟨hx.lines, hx.main, hx.flushing, ?_, ?_⟩
    · show s.clearing.pending < (s.queue ++ [QueueBlock.append line]).count .clear → s.flushing = none
      rw [count_clear_append]
      exact hx.still
    · exact (takes_posted (count_clear_append _ _) _ _).trans hx.taken
  | queue ok block rest hf hq => exact hx.queue_step hb hf hq ok
  | post batch hf =>
    have hflushing := hx.flushing
    rw [hf] at hflushing
    exact ⟨hx.lines, hx.main.concat_batch hflushing, fun l hl => (by cases hl), fun _ => rfl, hx.taken⟩
  | timer timers hc ht =>
    refine ⟨hx.lines, hx.main, hx.flushing, ?_, ?_⟩
    · show s.clearing.pending < (s.queue ++ [QueueBlock.flush]).count .clear → s.flushing = none
      rw [count_clear_flush]
      exact hx.still
    · exact (takes_posted (count_clear_flush _) _ _).trans hx.taken
  | main block rest hc hm => exact hx.main_step hm
  | clear info hc =>
    have hstill := hx.still
    have htakes := hx.taken
    rw [hc] at hstill htakes
    have hcount : (s.queue ++ [QueueBlock.clear]).count .clear = s.queue.count .clear + 1 := by
      rw [List.count_append, List.count_singleton_self]
    refine ⟨hx.lines, hx.main, hx.flushing, ?_, ?_⟩
    · show 1 < (s.queue ++ [QueueBlock.clear]).count .clear → s.flushing = none
      rw [hcount]
      exact fun hlt => hstill (Nat.lt_of_succ_lt_succ hlt)
    · show takes ((s.queue ++ [QueueBlock.clear]).count .clear - 1) s.full (s.queue ++ [.clear]) = false
      rw [hcount, Nat.add_sub_cancel, takes_append (Nat.le_refl _)]
      exact htakes
  | postMain time messages hc =>
    unfold Meets at hmeets
    rw [hc] at hmeets
    obtain ⟨hfl, htakes⟩ := hmeets
    have hnone : s.flushing = none := by
      by_contra hne
      exact hne (hfl ((hb.covered (by rw [hc]; rfl)).2 hne))
    refine ⟨hx.lines, hx.main.concat_clear, ?_, fun _ => hnone, htakes⟩
    show ∀ l ∈ s.flushing.getD [], _
    rw [hnone]
    intro l hl
    cases hl
  | message time m messages hc =>
    have hstill := hx.still
    have htakes := hx.taken
    rw [hc] at hstill htakes
    refine ⟨hx.lines, hx.main, hx.flushing, ?_, ?_⟩
    · show 0 < (s.queue ++ [QueueBlock.append (app time m)]).count .clear → s.flushing = none
      rw [count_clear_append]
      exact hstill
    · exact (takes_posted (count_clear_append _ _) _ _).trans htakes
  | done time hc =>
    have hstill := hx.still
    have htakes := hx.taken
    rw [hc] at hstill htakes
    exact ⟨hx.lines, hx.main, hx.flushing, hstill, htakes⟩

theorem run_fresh {as : List Act} (h : Runs.Along step Meets start as) :
    Runs.Throughout step (fun s => s.Base ∧ s.Fresh) start as :=
  Runs.throughout_of_along (P := Meets) _
    (fun _ _ _ hi hm hs => ⟨base_step hi.1 hs, fresh_step hi.1 hi.2 hm hs⟩) ⟨start_base, start_fresh⟩ h

/-! ## What a clear leaves otherwise -/

theorem exec_one {s s' : LogStore} {a : Act} (h : s.step a = some s') : Runs.exec step s [a] = some s' :=
  (Runs.exec_cons_iff step s s' a []).mpr ⟨s', h, rfl⟩

/-- A run goes on to where a line is shown that a clear had to remove. -/
def Stale (s : LogStore) : Prop := ∃ more t, Runs.exec step s more = some t ∧ ¬ t.Cleared

theorem Stale.before {s t : LogStore} {as : List Act} (ht : t.Stale) (h : Runs.exec step s as = some t) :
    s.Stale := by
  obtain ⟨more, u, hmore, hu⟩ := ht
  exact ⟨_, u, Runs.exec_trans step h hmore, hu⟩

/-- A batch is not empty. -/
theorem batch_step {s s' : LogStore} {a : Act} (hb : s.flushing ≠ some []) (h : s.step a = some s') :
    s'.flushing ≠ some [] := by
  cases moves_of_step h with
  | queue ok block rest hf hq =>
    cases block with
    | append text => exact hb
    | flush =>
      show (if s.uiBuffer = [] then none else some s.uiBuffer) ≠ some []
      split
      · exact nofun
      · next hne => exact fun h => hne (Option.some.inj h)
    | clear => exact hb
  | post batch hf => exact nofun
  | main block rest hc hm => cases block <;> exact hb
  | _ => exact hb

/-- The main thread has nothing else to do. -/
structure Quiet (s : LogStore) : Prop where
  idle : s.clearing = .idle
  main : s.main = []

/-- A batch with old lines is shown. -/
theorem batch_stale {s : LogStore} (hs : s.Quiet) (hb : s.Base) {batch : List StoreLine}
    (hne : batch ≠ []) (hf : s.flushing = some batch) (hclear : .clear ∈ s.queue) : s.Stale := by
  have hgen : s.gen < s.cleared := by
    have hbal := hb.balance
    rw [hs.idle, hs.main] at hbal
    have hpos := List.count_pos_iff.mpr hclear
    have h0 : ClearPc.idle.pending = 0 := rfl
    have h1 : ([] : List MainBlock).count .clear = 0 := rfl
    omega
  have hpost : s.step .post = some { s with flushing := none, main := s.main ++ [.batch batch] } := by
    simp only [step, hf]
  have hmain : step { s with flushing := none, main := s.main ++ [.batch batch] } .main =
      some ({ s with flushing := none, main := [] }.runMain (.batch batch)) := by
    simp only [step, hs.idle, hs.main, List.nil_append]
  refine ⟨_, _, Runs.exec_trans step (exec_one hpost) (exec_one hmain), fun hcl => ?_⟩
  -- the newest line of the batch is shown
  have hlast : batch.getLast hne ∈ (s.lines ++ batch).drop (excess (s.lines ++ batch)) := by
    have hlen := List.length_pos_of_ne_nil hne
    have hcut : (s.lines ++ batch).drop (excess (s.lines ++ batch)) ≠ [] := by
      rw [Ne, List.drop_eq_nil_iff, List.length_append]
      unfold excess maxLines
      rw [List.length_append]
      split <;> omega
    have := List.getLast_mem hcut
    rwa [List.getLast_drop, List.getLast_append_of_ne_nil _ hne] at this
  have hle := hcl _ hlast
  have hgen' := hb.arrived (batch.getLast hne)
    (List.mem_append_right _ (by rw [hf]; exact List.getLast_mem hne))
  have hle : s.cleared ≤ (batch.getLast hne).gen := hle
  omega

/-- The queue runs up to the flush block that has something to take. -/
theorem queue_stale {q : List QueueBlock} {s : LogStore} (hs : s.Quiet) (hb : s.Base) (hq : s.queue = q)
    (hf : s.flushing = none) {n : Nat} (htakes : takes n s.full q = true) (hn : n ≤ q.count .clear) :
    s.Stale := by
  induction q generalizing s n with
  | nil => cases n <;> cases htakes
  | cons block rest ih =>
    have hrun : s.step (.queue true) = some ({ s with queue := rest }.runQueue true block) := by
      simp only [step, hf, hq]
    have hbase := base_step hb hrun
    -- the other blocks leave it to the rest of the queue
    have hrest : ∀ {m : Nat}, ({ s with queue := rest }.runQueue true block).Quiet →
        ({ s with queue := rest }.runQueue true block).queue = rest →
        ({ s with queue := rest }.runQueue true block).flushing = none →
        takes m ({ s with queue := rest }.runQueue true block).full rest = true →
        m ≤ rest.count .clear → s.Stale :=
      fun hquiet hqueue hnone ht hm => (ih hquiet hbase hqueue hnone ht hm).before (exec_one hrun)
    cases n with
    | zero => simp [takes] at htakes
    | succ n =>
      cases block with
      | append text =>
        rw [count_clear_cons_append] at hn
        refine hrest ⟨hs.idle, hs.main⟩ rfl hf ?_ hn
        have hfull : ({ s with queue := rest }.runQueue true (.append text)).full = true := by
          unfold full
          simp [runQueue]
        rw [hfull]
        exact htakes
      | flush =>
        rw [count_clear_cons_flush] at hn
        by_cases hempty : s.uiBuffer = []
        · have hfull : s.full = false := by simp [full, hempty]
          rw [hfull] at htakes
          exact hrest ⟨hs.idle, hs.main⟩ rfl (if_pos hempty) htakes hn
        · have hclear : .clear ∈ rest :=
            List.count_pos_iff.mp (Nat.lt_of_lt_of_le (Nat.succ_pos n) hn)
          have hstale := batch_stale (s := { s with queue := rest }.runQueue true .flush)
            ⟨hs.idle, hs.main⟩ hbase hempty (if_neg hempty) hclear
          exact hstale.before (exec_one hrun)
      | clear =>
        rw [List.count_cons_self] at hn
        exact hrest ⟨hs.idle, hs.main⟩ rfl hf htakes (Nat.le_of_succ_le_succ hn)

/-- What the end of `clear()` and the blocks of the main queue leave alone. -/
structure Keeps (s t : LogStore) : Prop where
  flushing : t.flushing = s.flushing
  uiBuffer : t.uiBuffer = s.uiBuffer
  queue : ∃ q, t.queue = s.queue ++ q

/-- `clear()` returns. -/
theorem exec_messages {messages : List String} {s : LogStore} (hc : s.clearing = .messages messages) :
    ∃ more t, Runs.exec step s more = some t ∧ t.clearing = .idle ∧ Keeps s t := by
  induction messages generalizing s with
  | nil =>
    have hrun : s.step (.clearNext "") = some { s with clearing := .idle } := by simp only [step, hc]
    exact ⟨_, _, exec_one hrun, rfl, rfl, rfl, [], (List.append_nil _).symm⟩
  | cons m messages ih =>
    have hrun : s.step (.clearNext "") = some
        { s with queue := s.queue ++ [.append (app "" m)], clearing := .messages messages } := by
      simp only [step, hc]
    obtain ⟨more, t, hmore, hidle, hkf, hku, q, hkq⟩ := ih
      (s := { s with queue := s.queue ++ [.append (app "" m)], clearing := .messages messages }) rfl
    exact ⟨_, t, Runs.exec_trans step (exec_one hrun) hmore, hidle, hkf, hku, _,
      hkq.trans (List.append_assoc _ _ _)⟩

/-- The main queue runs empty. -/
theorem exec_main {m : List MainBlock} {s : LogStore} (hc : s.clearing = .idle) (hm : s.main = m) :
    ∃ more t, Runs.exec step s more = some t ∧ t.Quiet ∧ Keeps s t := by
  induction m generalizing s with
  | nil => exact ⟨[], s, rfl, ⟨hc, hm⟩, rfl, rfl, [], (List.append_nil _).symm⟩
  | cons block rest ih =>
    have hrun : s.step .main = some ({ s with main := rest }.runMain block) := by
      simp only [step, hc, hm]
    have hsame : ({ s with main := rest }.runMain block).clearing = .idle ∧
        ({ s with main := rest }.runMain block).main = rest ∧
        Keeps s ({ s with main := rest }.runMain block) := by
      cases block <;> exact ⟨hc, rfl, rfl, rfl, [], (List.append_nil _).symm⟩
    obtain ⟨hidle, hrest, hkf, hku, q, hkq⟩ := hsame
    obtain ⟨more, t, hmore, hquiet, hkf', hku', q', hkq'⟩ := ih hidle hrest
    refine ⟨_, t, Runs.exec_trans step (exec_one hrun) hmore, hquiet, hkf'.trans hkf, hku'.trans hku,
      q ++ q', ?_⟩
    rw [hkq', hkq, List.append_assoc]

/-- A clear that does not meet the condition leaves a line. -/
theorem stale_of_not_meets {s s' : LogStore} {a : Act} (hb : s.Base) (hbatch : s.flushing ≠ some [])
    (h : s.step a = some s') (hm : ¬ s.Meets a) : s'.Stale := by
  have hbase := base_step hb h
  cases moves_of_step h with
  | postMain time messages hc =>
    unfold Meets at hm
    rw [hc] at hm
    obtain ⟨more, u, hmore, hidle, hkf, hku, q, hkq⟩ := exec_messages
      (s := { s with main := s.main ++ [.clear], clearing := .messages messages }) rfl
    obtain ⟨more', t, hmore', hquiet, hkf', hku', q', hkq'⟩ := exec_main hidle rfl
    have hrun := Runs.exec_trans step hmore hmore'
    have htbase : t.Base := Runs.exec_inv step Base (fun _ _ _ => base_step) hbase hrun
    have hfl : t.flushing = s.flushing := hkf'.trans hkf
    have hbuf : t.uiBuffer = s.uiBuffer := hku'.trans hku
    have hqueue : t.queue = s.queue ++ (q ++ q') := by
      rw [hkq', hkq, List.append_assoc]
    refine Stale.before ?_ hrun
    have hclear : .clear ∈ s.queue := by
      by_contra hno
      refine hm ⟨fun hyes => absurd hyes hno, ?_⟩
      rw [List.count_eq_zero_of_not_mem hno]
      simp [takes]
    cases hf : s.flushing with
    | some batch =>
      refine batch_stale hquiet htbase (fun hnil => hbatch (hnil ▸ hf)) (hfl.trans hf) ?_
      rw [hqueue]
      exact List.mem_append_left _ hclear
    | none =>
      have htakes : takes (s.queue.count .clear) s.full s.queue = true := by
        by_contra hno
        exact hm ⟨fun _ => hf, Bool.not_eq_true _ ▸ hno⟩
      refine queue_stale hquiet htbase hqueue (hfl.trans hf) (n := s.queue.count .clear) ?_ ?_
      · rw [takes_append (Nat.le_refl _)]
        unfold full at htakes ⊢
        rwa [hbuf]
      · rw [List.count_append]
        exact Nat.le_add_right _ _
  | message time m messages hc =>
    unfold Meets at hm
    rw [hc] at hm
    exact absurd trivial hm
  | done time hc =>
    unfold Meets at hm
    rw [hc] at hm
    exact absurd trivial hm
  | _ => exact absurd trivial hm

/-- **When clearing clears.**  In a run in which every `clear()` posts its main block when no flush block
in front of its queue block has lines or gets some, no line is shown behind a clear that was appended in
front of it; a run that comes to a `clear()` that does otherwise goes on to one that is.  A line appended
behind a clear is removed by it in no run. -/
theorem clear_clears (as : List Act) :
    (Runs.Along step Meets start as → Runs.Throughout step Cleared start as) ∧
    (∀ s a s', Runs.exec step start as = some s → s.step a = some s' → ¬ s.Meets a → s'.Stale) ∧
    Runs.Throughout step Spared start as := by
  refine ⟨fun h => (run_fresh h).mono fun t ht => ht.2.lines, fun s a s' h hs hm => ?_,
    fun pre t hp ht => (run_base ht).spared⟩
  have hbatch : s.flushing ≠ some [] :=
    Runs.exec_inv step (fun s => s.flushing ≠ some []) (fun _ _ _ => batch_step)
      (nofun : (none : Option (List StoreLine)) ≠ some []) h
  exact stale_of_not_meets (run_base h) hbatch hs hm

/-- A timer has fired, and its flush block waits in front of the clear's queue block. -/
theorem stale_line : ∃ t, Runs.exec step start [.append "a", .queue true, .timer,
      .clear ⟨"1.0", "1", "iPhone", "17.0", "rickynet.log"⟩, .clearNext "", .clearNext "1", .clearNext "2",
      .clearNext "3", .clearNext "4", .clearNext "", .main, .queue true, .post, .main] = some t ∧
    t.lines = [⟨0, "a", true⟩] ∧ ¬ t.Cleared :=
  ⟨_, rfl, rfl, by decide⟩

end LogStore

end RickyNet
