import RickyNet.Core.Returns

/-!
# The app's button

`RickyNetCore.toggle` of the app over the library: one call of `rn_start` or `rn_stop` after
another, while the core threads do what they like.  Of the class only what `toggle` reads and
decides is here: the status, the setting, the port.

`Phase` says how far the library is when the call in progress is where it is; `status_agrees` is
what it gives between two calls.  That there is a moment between two calls, because each call comes back,
is `ranked`: the rank of the library's calls from `Core/Returns`, and one for the return to the app.
-/

namespace RickyNet

/-- `RickyNetCore.Status`. -/
inductive Status
  | stopped
  | running
  | error (msg : String)
deriving DecidableEq

/-- `RickyNetCore.describe`. -/
def describe (rc : Int) : String :=
  if rc = -2 then "already running"
  else if rc = -3 then "could not bind port (in use?)"
  else if rc = -4 then "internal runtime error"
  else "start failed (code " ++ toString rc ++ ")"

inductive Api
  | start
  | stop
deriving DecidableEq

/-- The call in progress, and `INSTANCE` when it was made. -/
structure Pending where
  api : Api
  call : Nat
  before : Option Nat
deriving DecidableEq

/-- A call that has returned, with `INSTANCE` before and after it. -/
structure CallRecord where
  api : Api
  rc : Int
  before : Option Nat
  after : Option Nat
deriving DecidableEq

structure RickyNetCore where
  lib : Lifecycle
  status : Status
  allowWifi : Bool
  /-- the main actor is in this call -/
  pending : Option Pending
  /-- the calls that have returned, in order -/
  log : List CallRecord

namespace RickyNetCore

def port : UInt16 := 27600

def init : RickyNetCore := ⟨.init, .stopped, false, none, []⟩

def isRunning (s : RickyNetCore) : Bool := s.status = .running

inductive Act
  | setAllowWifi (allow : Bool)
  | toggle
  /-- the call in progress does something -/
  | call (a : Lifecycle.CallAct)
  /-- the call in progress has returned -/
  | finish
  /-- the `c`th core thread does something -/
  | core (c : Nat) (a : CoreThread.Act)
  | countRx (c : Nat) (n : UInt64)
  | countTx (c : Nat) (n : UInt64)
deriving DecidableEq

/-- `start()`, up to the call of `rn_start`. -/
def start (s : RickyNetCore) : RickyNetCore :=
  let transport : UInt32 := if s.allowWifi then 1 else 0
  { s with
    lib := { s.lib with calls := s.lib.calls ++ [.start port transport .lock] }
    pending := some ⟨.start, s.lib.calls.length, s.lib.inst⟩ }

/-- `stop()`, up to the call of `rn_stop`. -/
def stop (s : RickyNetCore) : RickyNetCore :=
  { s with
    lib := { s.lib with calls := s.lib.calls ++ [.stop .lock] }
    pending := some ⟨.stop, s.lib.calls.length, s.lib.inst⟩ }

/-- The rest of `start()` or `stop()`. -/
def returned (s : RickyNetCore) (p : Pending) (rc : Int) : RickyNetCore :=
  { s with
    status := match p.api with
      | .start => if rc = 0 then .running else .error (describe rc)
      | .stop => .stopped
    pending := none
    log := s.log ++ [⟨p.api, rc, p.before, s.lib.inst⟩] }

/-- A step of the library. -/
def libStep (s : RickyNetCore) (a : Lifecycle.Act) : Option RickyNetCore :=
  (s.lib.step a).map fun lib => { s with lib := lib }

def step (s : RickyNetCore) : Act → Option RickyNetCore
  | .setAllowWifi allow =>
    match s.pending with
    | none => some { s with allowWifi := allow }
    | some _ => none
  | .toggle =>
    match s.pending with
    | none => some (if s.isRunning then s.stop else s.start)
    | some _ => none
  | .call a =>
    match s.pending with
    | some p => s.libStep (.call p.call a)
    | none => none
  | .finish =>
    match s.pending with
    | some p =>
      match s.lib.calls[p.call]? with
      | some (.returned rc) => some (s.returned p rc)
      | _ => none
    | none => none
  | .core c a => s.libStep (.core c a)
  | .countRx c n => s.libStep (.countRx c n)
  | .countTx c n => s.libStep (.countTx c n)

end RickyNetCore

/-! ## The library in a run of single calls -/

namespace Lifecycle

/-- No core thread but the `c`th is alive. -/
def Only (l : Lifecycle) (c : Nat) : Prop := ∀ d, l.Alive d → d = c

/-- The `c`th core thread has not been told to shut down. -/
def Unsignalled (l : Lifecycle) (c : Nat) : Prop :=
  ∃ t, l.cores[c]? = some t ∧ t.shutdown = false

/-- The `c`th core thread has its listener bound and goes on, and no other one is alive. -/
structure Serving (l : Lifecycle) (c : Nat) : Prop where
  only : l.Only c
  bound : ∃ t, l.cores[c]? = some t ∧ t.Serving

/-- `INSTANCE` is a core thread that is serving. -/
def Up (l : Lifecycle) : Prop := ∃ c, l.inst = some c ∧ l.Serving c

/-- `INSTANCE` is empty, and no core thread is alive. -/
structure Down (l : Lifecycle) : Prop where
  inst : l.inst = none
  quiet : l.Quiet

/-- What `rn_start` has done when it returns `rc`. -/
def Started (l : Lifecycle) (rc : Int) : Prop :=
  rc = RN_OK ∧ l.Up ∨ (rc = RN_ERR_BIND ∨ rc = RN_ERR_RUNTIME) ∧ l.Down

/-- How far the library is, by the place of the call in progress. -/
def Phase (l : Lifecycle) : Api → Call → Prop
  | .start, .start _ _ (.recv c) => l.inst = none ∧ l.Only c ∧ l.Unsignalled c
  | .start, .start _ _ (.signal c) => l.inst = none ∧ l.Only c
  | .start, .start _ _ (.join c rc) =>
    l.inst = none ∧ l.Only c ∧ (rc = RN_ERR_BIND ∨ rc = RN_ERR_RUNTIME)
  | .start, .start _ _ (.store c) => l.inst = none ∧ l.Serving c
  | .start, .start _ _ (.unlock rc) => l.Started rc
  | .start, .start _ _ _ => l.Down
  | .start, .returned rc => l.Started rc
  | .stop, .stop .lock => l.Up
  | .stop, .stop .take => l.Up
  | .stop, .stop (.unlock inst) => l.inst = none ∧ ∃ c, inst = some c ∧ l.Only c
  | .stop, .stop (.signal c) => l.inst = none ∧ l.Only c
  | .stop, .stop (.join c) => l.inst = none ∧ l.Only c
  | .stop, .returned rc => rc = RN_OK ∧ l.Down
  | _, _ => False

theorem Only.fewer {l l' : Lifecycle} {c : Nat} (h : l.Only c) (hf : l.Fewer l') : l'.Only c :=
  fun d hd => h d (hf.alive hd)

theorem Only.quiet {l : Lifecycle} {c : Nat} (h : l.Only c) (hj : l.joinable c = true) : l.Quiet := by
  intro d hd
  have hdc := h d hd
  rw [hdc] at hd
  exact not_alive_of_joinable hj hd

/-- The core thread that is serving makes no step, and there is no other. -/
theorem Serving.no_step {l : Lifecycle} {c d : Nat} (h : l.Serving c) {t t' : CoreThread}
    {a : CoreThread.Act} (hd : l.cores[d]? = some t) (hstep : t.step a = some t') : False := by
  obtain ⟨hal, -, -⟩ := CoreThread.same_of_step hstep
  obtain ⟨u, hu, hserving⟩ := h.bound
  have hdc := h.only d ⟨t, hd, hal⟩
  rw [hdc, hu] at hd
  cases hd
  exact hserving.no_step hstep

/-- What a step of another thread leaves as it is. -/
structure Keeps (l l' : Lifecycle) : Prop where
  inst : l'.inst = l.inst
  fewer : l.Fewer l'
  unsignalled : ∀ c, l.Unsignalled c → l'.Unsignalled c
  serving : ∀ c, l.Serving c → l'.Serving c

theorem Keeps.of_eq {l l' : Lifecycle} (hi : l'.inst = l.inst) (hc : l'.cores = l.cores) :
    l.Keeps l' where
  inst := hi
  fewer := .of_eq hc
  unsignalled := by
    rintro c ⟨t, ht, hsd⟩
    exact ⟨t, by rw [hc, ht], hsd⟩
  serving := by
    intro c h
    exact ⟨h.only.fewer (.of_eq hc), by rw [hc]; exact h.bound⟩

theorem keeps_setCore {l : Lifecycle} {d : Nat} {t t' : CoreThread} {a : CoreThread.Act}
    (hd : l.cores[d]? = some t) (h : t.step a = some t') : l.Keeps (l.setCore d t') where
  inst := rfl
  fewer := fewer_setCore hd h
  unsignalled := by
    rintro c ⟨u, hu, hsd⟩
    obtain ⟨hlt, -⟩ := List.getElem?_eq_some_iff.1 hd
    by_cases hdc : d = c
    · subst hdc
      rw [hd] at hu
      cases hu
      refine ⟨t', List.getElem?_set_self hlt, ?_⟩
      rw [(CoreThread.same_of_step h).2.2, hsd]
    · exact ⟨u, (List.getElem?_set_ne hdc).trans hu, hsd⟩
  serving := by
    intro c hs
    exact (hs.no_step hd h).elim

theorem Up.keeps {l l' : Lifecycle} (h : l.Up) (hk : l.Keeps l') : l'.Up := by
  obtain ⟨c, hinst, hs⟩ := h
  exact ⟨c, hk.inst.trans hinst, hk.serving c hs⟩

theorem Down.keeps {l l' : Lifecycle} (h : l.Down) (hk : l.Keeps l') : l'.Down :=
  ⟨hk.inst.trans h.inst, h.quiet.fewer hk.fewer⟩

theorem Started.keeps {l l' : Lifecycle} {rc : Int} (h : l.Started rc) (hk : l.Keeps l') :
    l'.Started rc := by
  rcases h with ⟨h1, h2⟩ | ⟨h1, h2⟩
  · exact Or.inl ⟨h1, h2.keeps hk⟩
  · exact Or.inr ⟨h1, h2.keeps hk⟩

/-- The call in progress stays where it is while another thread makes a step. -/
theorem Phase.keeps {l l' : Lifecycle} {api : Api} {call : Call} (h : l.Phase api call)
    (hk : l.Keeps l') : l'.Phase api call := by
  have hi : l.inst = none → l'.inst = none := fun hn => hk.inst.trans hn
  cases api with
  | start =>
    cases call with
    | start port transport pc =>
      cases pc with
      | recv c => exact ⟨hi h.1, h.2.1.fewer hk.fewer, hk.unsignalled c h.2.2⟩
      | signal c => exact ⟨hi h.1, h.2.fewer hk.fewer⟩
      | join c rc => exact ⟨hi h.1, h.2.1.fewer hk.fewer, h.2.2⟩
      | store c => exact ⟨hi h.1, hk.serving c h.2⟩
      | unlock rc => exact Started.keeps h hk
      | _ => exact Down.keeps h hk
    | stop pc => exact h
    | returned rc => exact Started.keeps h hk
  | stop =>
    cases call with
    | start port transport pc => cases pc <;> exact h
    | stop pc =>
      cases pc with
      | lock => exact Up.keeps h hk
      | take => exact Up.keeps h hk
      | unlock inst =>
        obtain ⟨h1, c, h2, h3⟩ := h
        exact ⟨hi h1, c, h2, h3.fewer hk.fewer⟩
      | signal c => exact ⟨hi h.1, h.2.fewer hk.fewer⟩
      | join c => exact ⟨hi h.1, h.2.fewer hk.fewer⟩
    | returned rc => exact ⟨h.1, h.2.keeps hk⟩

/-- The call in progress takes the library from one place to the next. -/
theorem Phase.call_step {l l' : Lifecycle} {api : Api} {i : Nat} {call call' : Call}
    (hcons : ∀ (c : Nat) (t : CoreThread), l.cores[c]? = some t → t.Consistent)
    (h : l.Phase api call) (hm : l.CallMoves i call call' l') : l'.Phase api call' := by
  cases api with
  | start =>
    cases hm with
    | startLock port transport hh => exact Down.keeps h (.of_eq rfl rfl)
    | running port transport hn => exact absurd h.inst hn
    | free port transport hn => exact Down.keeps h (.of_eq rfl rfl)
    | resetRx port transport => exact Down.keeps h (.of_eq rfl rfl)
    | resetTx port transport => exact Down.keeps h (.of_eq rfl rfl)
    | spawned port transport =>
      refine ⟨h.inst, ?_, .spawn port transport i, List.getElem?_concat_length, rfl⟩
      rintro d ⟨t, hd, ht⟩
      exact (h.quiet.spawned hd ht).1
    | spawnFailed port transport => exact Or.inr ⟨Or.inr rfl, Down.keeps h (.of_eq rfl rfl)⟩
    | ready port transport c t ht hr =>
      obtain ⟨h1, h2, u, hu, hsd⟩ := h
      rw [ht] at hu
      cases hu
      -- it has reported success and was not told to shut down: it is serving
      have hpc : t.pc = .serve := by
        rcases (hcons c t ht).serving hr with hpc | hs
        · exact hpc
        · rw [hsd] at hs
          cases hs
      exact ⟨h1, h2, t, ht, hpc, hsd⟩
    | failed port transport c => exact ⟨h.1, h.2.1, Or.inl rfl⟩
    | silent port transport c => exact ⟨h.1, h.2.1⟩
    | startSignal port transport c => exact ⟨h.1, h.2.fewer (l.fewer_signal c), Or.inr rfl⟩
    | startJoin port transport c rc hj => exact Or.inr ⟨h.2.2, h.1, h.2.1.quiet hj⟩
    | store port transport c => exact Or.inl ⟨rfl, c, rfl, h.2.only, h.2.bound⟩
    | startUnlock port transport rc => exact Started.keeps h (.of_eq rfl rfl)
    | stopLock hh => exact h
    | take => exact h
    | taken c => exact h
    | nothing => exact absurd h id
    | stopSignal c => exact h
    | stopJoin c hj => exact absurd h id
  | stop =>
    cases hm with
    | stopLock hh => exact Up.keeps h (.of_eq rfl rfl)
    | take =>
      obtain ⟨c, hinst, hs⟩ := h
      exact ⟨rfl, c, hinst, hs.only⟩
    | taken c =>
      obtain ⟨h1, d, h2, h3⟩ := h
      cases h2
      exact ⟨h1, h3⟩
    | nothing =>
      obtain ⟨-, d, h2, -⟩ := h
      cases h2
    | stopSignal c => exact ⟨h.1, h.2.fewer (l.fewer_signal c)⟩
    | stopJoin c hj => exact ⟨rfl, h.1, h.2.quiet hj⟩
    | _ => exact absurd h id

/-- Every core thread is consistent. -/
def Consistent (l : Lifecycle) : Prop :=
  ∀ (c : Nat) (t : CoreThread), l.cores[c]? = some t → t.Consistent

theorem Consistent.signal {l : Lifecycle} (h : l.Consistent) (c : Nat) : (l.signal c).Consistent := by
  intro d t hd
  rw [signal_getElem?] at hd
  obtain ⟨u, hu, rfl⟩ := Option.map_eq_some_iff.1 hd
  have hcu := h d u hu
  split
  · exact ⟨hcu.silent, fun _ => Or.inr rfl⟩
  · exact hcu

theorem Consistent.call_step {l l' : Lifecycle} {i : Nat} {call call' : Call} (h : l.Consistent)
    (hm : l.CallMoves i call call' l') : l'.Consistent := by
  cases hm with
  | spawned port transport =>
    intro c t hc
    rcases List.mem_append.1 (List.mem_of_getElem? hc) with hmem | hmem
    · obtain ⟨d, hd⟩ := List.mem_iff_getElem?.1 hmem
      exact h d t hd
    · rw [List.mem_singleton.1 hmem]
      exact CoreThread.spawn_consistent port transport i
  | startSignal port transport c => exact h.signal c
  | stopSignal c => exact h.signal c
  | _ => exact h

theorem Consistent.core_step {l : Lifecycle} (h : l.Consistent) {d : Nat} {t t' : CoreThread}
    {a : CoreThread.Act} (hd : l.cores[d]? = some t) (hstep : t.step a = some t') :
    (l.setCore d t').Consistent := by
  intro c u hc
  rcases List.mem_or_eq_of_mem_set (List.mem_of_getElem? hc) with hmem | rfl
  · obtain ⟨e, he⟩ := List.mem_iff_getElem?.1 hmem
    exact h e u he
  · exact CoreThread.consistent_step (h d t hd) hstep

end Lifecycle

/-! ## The app -/

/-- A call that has returned did not meet the state it excludes, and a failed start has left
`INSTANCE` alone. -/
structure CallRecord.Fine (r : CallRecord) : Prop where
  notRunning : r.rc ≠ RN_ERR_NOT_RUNNING
  alreadyRunning : r.rc ≠ RN_ERR_ALREADY_RUNNING
  kept : r.api = .start → r.rc ≠ RN_OK → r.after = r.before

theorem fine_of_rc {r : CallRecord} (hrc : r.rc = RN_OK ∨ r.rc = RN_ERR_BIND ∨ r.rc = RN_ERR_RUNTIME)
    (hkept : r.api = .start → r.rc ≠ RN_OK → r.after = r.before) : r.Fine := by
  refine ⟨?_, ?_, hkept⟩
  · rcases hrc with h | h | h <;> (rw [h]; decide)
  · rcases hrc with h | h | h <;> (rw [h]; decide)

namespace RickyNetCore

/-- The status says what the library is. -/
def Settled (s : RickyNetCore) : Prop :=
  (s.status = .running → s.lib.Up) ∧ (s.status ≠ .running → s.lib.Down)

structure Inv (s : RickyNetCore) : Prop where
  consistent : s.lib.Consistent
  idle : s.pending = none → s.Settled
  busy : ∀ p, s.pending = some p →
    (∃ call, s.lib.calls[p.call]? = some call ∧ s.lib.Phase p.api call) ∧
      (p.api = .start → p.before = none)
  log : ∀ r ∈ s.log, r.Fine

theorem init_inv : init.Inv where
  consistent := by
    intro c t hc
    cases hc
  idle := by
    intro _
    refine ⟨fun h => (by cases h), fun _ => ⟨rfl, ?_⟩⟩
    rintro c ⟨t, hc, -⟩
    cases hc
  busy := by
    intro p hp
    cases hp
  log := by
    intro r hr
    cases hr

theorem start_inv {s : RickyNetCore} (hs : s.Inv) (hp : s.pending = none)
    (hr : s.status ≠ .running) : s.start.Inv := by
  have hdown := (hs.idle hp).2 hr
  refine ⟨hs.consistent, fun h => (by cases h), ?_, hs.log⟩
  rintro p ⟨⟩
  refine ⟨⟨_, List.getElem?_concat_length, ?_⟩, fun _ => hdown.inst⟩
  exact hdown.keeps (.of_eq rfl rfl)

theorem stop_inv {s : RickyNetCore} (hs : s.Inv) (hp : s.pending = none)
    (hr : s.status = .running) : s.stop.Inv := by
  have hup := (hs.idle hp).1 hr
  refine ⟨hs.consistent, fun h => (by cases h), ?_, hs.log⟩
  rintro p ⟨⟩
  refine ⟨⟨_, List.getElem?_concat_length, ?_⟩, fun h => (by cases h)⟩
  exact hup.keeps (.of_eq rfl rfl)

theorem Inv.record {s : RickyNetCore} (hs : s.Inv) {x : CallRecord} (hx : x.Fine) :
    ∀ r ∈ s.log ++ [x], r.Fine := by
  intro r hr
  rcases List.mem_append.1 hr with hr | hr
  · exact hs.log r hr
  · rw [List.mem_singleton.1 hr]
    exact hx

/-- The call in progress has returned. -/
theorem returned_inv {s : RickyNetCore} (hs : s.Inv) {p : Pending} (hp : s.pending = some p) {rc : Int}
    (hc : s.lib.calls[p.call]? = some (.returned rc)) : (s.returned p rc).Inv := by
  obtain ⟨⟨call, hcall, hphase⟩, hbefore⟩ := hs.busy p hp
  rw [hc] at hcall
  cases hcall
  obtain ⟨api, i, before⟩ := p
  cases api with
  | start =>
    rcases hphase with ⟨rfl, hup⟩ | ⟨hrc, hdown⟩
    · exact ⟨hs.consistent, fun _ => ⟨fun _ => hup, fun hne => absurd rfl hne⟩, fun p hp => (by cases hp),
        hs.record (fine_of_rc (Or.inl rfl) fun _ hne => absurd rfl hne)⟩
    · have hne : rc ≠ 0 := by
        rcases hrc with rfl | rfl
        · decide
        · decide
      refine ⟨hs.consistent, fun _ => ⟨fun hst => ?_, fun _ => hdown⟩, fun p hp => (by cases hp),
        hs.record (fine_of_rc (Or.inr hrc) fun _ _ => hdown.inst.trans (hbefore rfl).symm)⟩
      simp [returned, hne] at hst
  | stop =>
    obtain ⟨rfl, hdown⟩ := hphase
    exact ⟨hs.consistent, fun _ => ⟨fun hst => (by cases hst), fun _ => hdown⟩,
      fun p hp => (by cases hp), hs.record (fine_of_rc (Or.inl rfl) fun h => by cases h)⟩

/-- Another thread makes a step. -/
theorem keeps_inv {s : RickyNetCore} (hs : s.Inv) {lib : Lifecycle} (hk : s.lib.Keeps lib)
    (hcalls : lib.calls = s.lib.calls) (hcons : lib.Consistent) : Inv { s with lib := lib } := by
  refine ⟨hcons, ?_, ?_, hs.log⟩
  · intro hp
    obtain ⟨h1, h2⟩ := hs.idle hp
    exact ⟨fun hr => (h1 hr).keeps hk, fun hr => (h2 hr).keeps hk⟩
  · intro p hp
    obtain ⟨⟨call, hcall, hphase⟩, hbefore⟩ := hs.busy p hp
    exact ⟨⟨call, by rw [hcalls, hcall], hphase.keeps hk⟩, hbefore⟩

theorem call_inv {s : RickyNetCore} (hs : s.Inv) {p : Pending} (hp : s.pending = some p)
    {a : Lifecycle.CallAct} {lib : Lifecycle} (h : s.lib.step (.call p.call a) = some lib) :
    Inv { s with lib := lib } := by
  obtain ⟨⟨call, hcall, hphase⟩, hbefore⟩ := hs.busy p hp
  cases Lifecycle.moves_of_step h with
  | call i a call0 call' _ hi hm =>
    rw [hcall] at hi
    cases hi
    obtain ⟨hlt, -⟩ := List.getElem?_eq_some_iff.1 hcall
    refine ⟨hs.consistent.call_step hm, ?_, ?_, hs.log⟩
    · intro hnone
      rw [show s.pending = none from hnone] at hp
      cases hp
    · intro q hq
      rw [show s.pending = some q from hq] at hp
      cases hp
      refine ⟨⟨call', ?_, hphase.call_step hs.consistent hm⟩, hbefore⟩
      rw [hm.calls, List.getElem?_set_self hlt]

theorem step_inv (s : RickyNetCore) (a : Act) (s' : RickyNetCore) (hs : s.Inv)
    (h : s.step a = some s') : s'.Inv := by
  cases a with
  | setAllowWifi allow =>
    simp only [step] at h
    split at h
    · cases h
      exact ⟨hs.consistent, hs.idle, hs.busy, hs.log⟩
    · cases h
  | toggle =>
    simp only [step] at h
    split at h
    · next hp =>
      cases h
      by_cases hr : s.status = .running
      · have : s.isRunning = true := decide_eq_true hr
        rw [if_pos this]
        exact stop_inv hs hp hr
      · have : ¬ s.isRunning = true := fun h => hr (of_decide_eq_true h)
        rw [if_neg this]
        exact start_inv hs hp hr
    · cases h
  | call a =>
    simp only [step] at h
    split at h
    · next p hp =>
      obtain ⟨lib, hl, rfl⟩ := Option.map_eq_some_iff.1 h
      exact call_inv hs hp hl
    · cases h
  | finish =>
    simp only [step] at h
    split at h
    · next p hp =>
      split at h
      · next rc hc => cases h; exact returned_inv hs hp hc
      · cases h
    · cases h
  | core c a =>
    obtain ⟨lib, hl, rfl⟩ := Option.map_eq_some_iff.1 h
    cases Lifecycle.moves_of_step hl with
    | core _ _ t t' hc ht =>
      exact keeps_inv hs (Lifecycle.keeps_setCore hc ht) rfl (hs.consistent.core_step hc ht)
  | countRx c n =>
    obtain ⟨lib, hl, rfl⟩ := Option.map_eq_some_iff.1 h
    cases Lifecycle.moves_of_step hl with
    | countRx _ _ t hc ht => exact keeps_inv hs (.of_eq rfl rfl) rfl hs.consistent
  | countTx c n =>
    obtain ⟨lib, hl, rfl⟩ := Option.map_eq_some_iff.1 h
    cases Lifecycle.moves_of_step hl with
    | countTx _ _ t hc ht => exact keeps_inv hs (.of_eq rfl rfl) rfl hs.consistent

theorem run_inv {acts : List Act} {s : RickyNetCore} (h : Runs.exec step init acts = some s) :
    s.Inv :=
  Runs.exec_inv step Inv step_inv init_inv h

/-! ## The call in progress comes back -/

/-- The step of the call in progress or of a core thread. -/
def Act.own : Act → Bool
  | .call _ => true
  | .finish => true
  | .core _ _ => true
  | _ => false

/-- What the library has left, and the return to the app. -/
def rank (s : RickyNetCore) : Nat := s.lib.rank + s.pending.isSome.toNat

/-- All calls but the one in progress have returned. -/
structure Single (s : RickyNetCore) : Prop where
  owned : s.lib.Owned
  single : ∀ (i : Nat) (call : Call), s.lib.calls[i]? = some call → call.isReturned = false →
    ∃ p, s.pending = some p ∧ p.call = i

theorem init_single : init.Single where
  owned := Lifecycle.init_owned
  single := by
    intro i call hi
    cases hi

/-- A call is made. -/
theorem Single.begin {s s' : RickyNetCore} (hs : s.Single) (hp : s.pending = none) {call : Call} {p : Pending}
    (howned : s'.lib.Owned) (hcalls : s'.lib.calls = s.lib.calls ++ [call]) (hp' : s'.pending = some p)
    (hlast : p.call = s.lib.calls.length) : s'.Single := by
  refine ⟨howned, fun i c hi hr => ⟨p, hp', ?_⟩⟩
  rw [hcalls] at hi
  rcases Nat.lt_trichotomy i s.lib.calls.length with hlt | heq | hgt
  · rw [List.getElem?_append_left hlt] at hi
    obtain ⟨q, hq, -⟩ := hs.single i c hi hr
    rw [hp] at hq
    cases hq
  · rw [hlast, heq]
  · rw [List.getElem?_eq_none (by rw [List.length_append, List.length_singleton]; omega)] at hi
    cases hi

/-- The library makes a step that is no new call. -/
theorem Single.lib_step {s : RickyNetCore} (hs : s.Single) {a : Lifecycle.Act} {lib : Lifecycle}
    (h : s.lib.step a = some lib) (hno : Lifecycle.NoCall a)
    (hmine : ∀ i b, a = .call i b → ∃ p, s.pending = some p ∧ p.call = i) : Single { s with lib := lib } := by
  refine ⟨Lifecycle.owned_step hs.owned h, ?_⟩
  cases Lifecycle.moves_of_step h with
  | rnStart port transport => exact absurd rfl (hno.2 port transport)
  | rnStop => exact absurd rfl hno.1
  | call i b call call' _ hi hm =>
    intro j c hj hr
    by_cases hij : i = j
    · exact hij ▸ hmine i b rfl
    · refine hs.single j c ?_ hr
      rwa [show lib.calls[j]? = s.lib.calls[j]? by rw [hm.calls, List.getElem?_set_ne hij]] at hj
  | core c b t t' hc ht => exact hs.single
  | countRx c n t hc ht => exact hs.single
  | countTx c n t hc ht => exact hs.single

theorem step_single {s s' : RickyNetCore} {a : Act} (hs : s.Single) (h : s.step a = some s') : s'.Single := by
  cases a with
  | setAllowWifi allow =>
    simp only [step] at h
    split at h
    · cases h
      exact ⟨hs.owned, hs.single⟩
    · cases h
  | toggle =>
    simp only [step] at h
    split at h
    · next hp =>
      cases h
      cases s.isRunning with
      | true => exact hs.begin hp (Lifecycle.owned_step (a := .rnStop) hs.owned rfl) rfl rfl rfl
      | false =>
        let transport : UInt32 := if s.allowWifi then 1 else 0
        exact hs.begin hp (Lifecycle.owned_step (a := .rnStart port transport) hs.owned rfl) rfl rfl rfl
    · cases h
  | call a =>
    simp only [step] at h
    split at h
    · next p hp =>
      obtain ⟨lib, hl, rfl⟩ := Option.map_eq_some_iff.1 h
      refine hs.lib_step hl ⟨by simp, by simp⟩ fun i b hib => ⟨p, hp, ?_⟩
      cases hib
      rfl
    · cases h
  | finish =>
    simp only [step] at h
    split at h
    · next p hp =>
      split at h
      · next rc hc =>
        cases h
        refine ⟨hs.owned, fun i call hi hr => ?_⟩
        obtain ⟨q, hq, rfl⟩ := hs.single i call hi hr
        rw [hp] at hq
        cases hq
        rw [show s.lib.calls[p.call]? = some call from hi] at hc
        cases hc
        cases hr
      · cases h
    · cases h
  | core c a =>
    obtain ⟨lib, hl, rfl⟩ := Option.map_eq_some_iff.1 h
    exact hs.lib_step hl ⟨by simp, by simp⟩ (by simp)
  | countRx c n =>
    obtain ⟨lib, hl, rfl⟩ := Option.map_eq_some_iff.1 h
    exact hs.lib_step hl ⟨by simp, by simp⟩ (by simp)
  | countTx c n =>
    obtain ⟨lib, hl, rfl⟩ := Option.map_eq_some_iff.1 h
    exact hs.lib_step hl ⟨by simp, by simp⟩ (by simp)

theorem run_single {acts : List Act} {s : RickyNetCore} (h : Runs.exec step init acts = some s) : s.Single :=
  Runs.exec_inv step Single (fun _ _ _ hs hstep => step_single hs hstep) init_single h

/-- One step lowers the rank if it is own, and does not raise it otherwise. -/
theorem rank_step {s s' : RickyNetCore} {a : Act} (hs : s.Single) (hno : a ≠ .toggle)
    (h : s.step a = some s') : if a.own then s'.rank < s.rank else s'.rank ≤ s.rank := by
  cases a with
  | setAllowWifi allow =>
    simp only [step] at h
    split at h
    · cases h; exact Nat.le_refl _
    · cases h
  | toggle => exact absurd rfl hno
  | call a =>
    simp only [step] at h
    split at h
    · next p hp =>
      obtain ⟨lib, hl, rfl⟩ := Option.map_eq_some_iff.1 h
      exact Nat.add_lt_add_right (Lifecycle.ranked.drops _ _ _ hs.owned ⟨by simp, by simp⟩ hl rfl) _
    · cases h
  | finish =>
    simp only [step] at h
    split at h
    · next p hp =>
      split at h
      · cases h
        simp [Act.own, rank, returned, hp]
      · cases h
    · cases h
  | core c a =>
    obtain ⟨lib, hl, rfl⟩ := Option.map_eq_some_iff.1 h
    exact Nat.add_lt_add_right (Lifecycle.ranked.drops _ _ _ hs.owned ⟨by simp, by simp⟩ hl rfl) _
  | countRx c n =>
    obtain ⟨lib, hl, rfl⟩ := Option.map_eq_some_iff.1 h
    exact Nat.add_le_add_right (Lifecycle.ranked.stays _ _ _ hs.owned ⟨by simp, by simp⟩ hl rfl) _
  | countTx c n =>
    obtain ⟨lib, hl, rfl⟩ := Option.map_eq_some_iff.1 h
    exact Nat.add_le_add_right (Lifecycle.ranked.stays _ _ _ hs.owned ⟨by simp, by simp⟩ hl rfl) _

/-- A call in progress goes on, waits for a core thread that goes on, or has returned. -/
theorem goes_on {s : RickyNetCore} (hs : s.Inv) (h1 : s.Single) {p : Pending} (hp : s.pending = some p) :
    ∃ a s', a.own = true ∧ a ≠ .toggle ∧ s.step a = some s' := by
  by_cases hr : s.lib.AllReturned
  · obtain ⟨⟨call, hcall, -⟩, -⟩ := hs.busy p hp
    have hret := hr call (List.mem_of_getElem? hcall)
    cases call with
    | returned rc => exact ⟨.finish, s.returned p rc, rfl, by simp, by simp only [step, hp, hcall]⟩
    | start port transport pc => cases hret
    | stop pc => cases hret
  · obtain ⟨a, lib, ho, hno, hl⟩ := h1.owned.progress hr
    cases Lifecycle.moves_of_step hl with
    | call i b call call' _ hi hm =>
      obtain ⟨q, hq, rfl⟩ := h1.single i call hi hm.unreturned
      rw [hp] at hq
      cases hq
      exact ⟨.call b, { s with lib := lib }, rfl, by simp, by simp only [step, hp, libStep, hl, Option.map_some]⟩
    | core c b t t' hc ht =>
      exact ⟨.core c b, _, rfl, by simp, by simp only [step, libStep, hl, Option.map_some]; rfl⟩
    | _ => cases ho

/-- **The rank of the call in progress.** -/
theorem ranked : Runs.Ranked step (fun _ a => a.own) (fun _ a => a ≠ .toggle) (fun s => s.Inv ∧ s.Single)
    (fun s => s.pending = none) rank :=
  .of_step (fun s a s' hs _ h => ⟨step_inv s a s' hs.1 h, step_single hs.2 h⟩)
    (fun _ _ _ hs hno h => rank_step hs.2 hno h) fun s hs hne => by
      obtain ⟨p, hp⟩ := Option.ne_none_iff_exists'.1 hne
      exact goes_on hs.1 hs.2 hp

end RickyNetCore

/-- **The status and the library agree.**  Between two calls, however the calls so far have ended and
whatever the core threads have done: the status is running if and only if `INSTANCE` is set, and if
and only if one core thread is alive and has its listener bound; otherwise none is alive.  No call has
found the library running when it should not be, or the other way round, and a failed `rn_start` has
left `INSTANCE` as it was.

Each call returns: until the next `toggle`, the call in progress and the core threads take no more than
the stated number of steps, when they can take none no call is in progress, and it can come to that. -/
theorem status_agrees (acts : List RickyNetCore.Act) (s : RickyNetCore)
    (h : Runs.exec RickyNetCore.step .init acts = some s) :
    (s.pending = none →
      (s.status = .running ↔ s.lib.inst ≠ none) ∧
      (s.lib.inst ≠ none ↔ ∃ c t, s.lib.cores[c]? = some t ∧ t.pc = .serve ∧
        ∀ d, s.lib.Alive d ↔ d = c) ∧
      (s.status ≠ .running → ∀ d, ¬ s.lib.Alive d)) ∧
    (∀ r ∈ s.log, r.rc ≠ RN_ERR_ALREADY_RUNNING ∧ r.rc ≠ RN_ERR_NOT_RUNNING ∧
      (r.api = .start → r.rc ≠ RN_OK → r.after = r.before)) ∧
    (∀ acts t, Runs.exec RickyNetCore.step s acts = some t →
      Runs.Along RickyNetCore.step (fun _ a => a ≠ .toggle) s acts →
      Runs.ownSteps RickyNetCore.step (fun _ a => a.own) s acts ≤
          16 * s.lib.calls.length + 4 * s.lib.cores.length + 1 ∧
        ((∀ a, a.own = true → t.step a = none) → t.pending = none)) ∧
    ∃ acts t, Runs.exec RickyNetCore.step s acts = some t ∧
      Runs.Along RickyNetCore.step (fun _ a => a.own = true ∧ a ≠ .toggle) s acts ∧ t.pending = none := by
  have hs := RickyNetCore.run_inv h
  have h1 := RickyNetCore.run_single h
  refine ⟨fun hp => ?_, fun r hr => ?_, fun acts t ht hal => ?_, RickyNetCore.ranked.reach ⟨hs, h1⟩⟩
  · obtain ⟨hup, hdown⟩ := hs.idle hp
    by_cases hr : s.status = .running
    · obtain ⟨c, hinst, hserving⟩ := hup hr
      obtain ⟨t, ht, hpc, -⟩ := hserving.bound
      have hal : s.lib.Alive c := ⟨t, ht, CoreThread.alive_of_ne (by simp [hpc])⟩
      have hone : ∀ d, s.lib.Alive d ↔ d = c := fun d =>
        ⟨hserving.only d, fun hd => by rw [hd]; exact hal⟩
      refine ⟨?_, ?_, fun hne => absurd hr hne⟩
      · simp [hr, hinst]
      · exact ⟨fun _ => ⟨c, t, ht, hpc, hone⟩, fun _ => by simp [hinst]⟩
    · obtain ⟨hinst, hquiet⟩ := hdown hr
      refine ⟨?_, ?_, fun _ => hquiet⟩
      · simp [hr, hinst]
      · refine ⟨fun hne => absurd hinst hne, ?_⟩
        rintro ⟨c, -, -, -, hone⟩
        exact absurd ((hone c).2 rfl) (hquiet c)
  · obtain ⟨h1, h2, h3⟩ := hs.log r hr
    exact ⟨h2, h1, h3⟩
  · obtain ⟨hst, hle⟩ := RickyNetCore.ranked.bound ⟨hs, h1⟩ hal ht
    refine ⟨?_, fun hno => RickyNetCore.ranked.stuck hst fun a t' ho _ hstep => ?_⟩
    · have hlib := s.lib.rank_le
      have hone : s.pending.isSome.toNat ≤ 1 := Bool.toNat_le _
      unfold RickyNetCore.rank at hle
      omega
    · rw [hno a ho] at hstep
      cases hstep

/-- The bind fails, then it succeeds only after the five seconds, then in time, and at last the app
stops. -/
theorem status_agrees_run : ∃ acts s, Runs.exec RickyNetCore.step .init acts = some s ∧
    s.status = .stopped ∧ s.log.map CallRecord.rc = [RN_ERR_BIND, RN_ERR_RUNTIME, RN_OK, RN_OK] ∧
    ∀ d, ¬ s.lib.Alive d := by
  have hrun : ∃ s ∈ Runs.exec RickyNetCore.step .init
      [.toggle, .call .go, .call .go, .call .go, .call .go, .call (.spawn true), .core 0 (.build none),
        .core 0 (.bind (some "Address already in use")), .call .recv, .core 0 .exit, .call .go,
        .call .go, .finish,
       .setAllowWifi true, .toggle, .call .go, .call .go, .call .go, .call .go, .call (.spawn true),
        .core 1 (.build none), .call .timeout, .core 1 (.bind none), .call .go, .core 1 .shutdown,
        .core 1 .exit, .call .go, .call .go, .finish,
       .toggle, .call .go, .call .go, .call .go, .call .go, .call (.spawn true), .core 2 (.build none),
        .core 2 (.bind none), .call .recv, .call .go, .call .go, .finish,
       .toggle, .call .go, .call .go, .call .go, .call .go, .core 2 .shutdown, .core 2 .exit, .call .go,
        .finish], s.status = .stopped ∧ s.pending = none ∧
      s.log.map CallRecord.rc = [RN_ERR_BIND, RN_ERR_RUNTIME, RN_OK, RN_OK] := by decide +kernel
  obtain ⟨s, hs, hstatus, hpending, hlog⟩ := hrun
  exact ⟨_, s, hs, hstatus, hlog, ((status_agrees _ s hs).1 hpending).2.2 (by simp [hstatus])⟩

end RickyNet
