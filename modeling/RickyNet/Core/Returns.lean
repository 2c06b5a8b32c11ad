import RickyNet.Core.Lifecycle
import RickyNet.Lib.Progress

/-!
# Every call returns

`rn_start` keeps the lock on `INSTANCE` while it waits for its core thread, `rn_stop` joins one that
it has taken out.  Nothing here asks that calls do not overlap.

`Owned` says which core thread belongs to whom: an instance serves, a thread that a call joins is
about to end, and no thread is in two hands.  From it, `settled`: when all calls have returned, the
instance is the one core thread alive; and `calls_return`: they do all return.
-/

namespace RickyNet

namespace CoreThread

/-- It ends, sooner or later, whatever happens. -/
def Doomed (t : CoreThread) : Prop := t.shutdown = true ∨ t.pc = .drop ∨ t.pc = .exited

/-- What it has reported is how it is. -/
structure Reported (t : CoreThread) : Prop where
  consistent : t.Consistent
  failed : ∀ e, t.ready = some (.error e) → t.Doomed

theorem spawn_reported (port : UInt16) (transport : UInt32) (starter : Nat) :
    (spawn port transport starter).Reported :=
  ⟨spawn_consistent port transport starter, fun _ h => by cases h⟩

theorem Doomed.after {t t' : CoreThread} {a : Act} (h : t.Doomed) (hs : t.step a = some t') : t'.Doomed := by
  rcases h with h | h
  · exact Or.inl ((same_of_step hs).2.2.trans h)
  · cases moves_of_step hs with
    | built hpc => rw [hpc] at h; simp at h
    | bound hpc => rw [hpc] at h; simp at h
    | failed a e hpc => exact Or.inr (Or.inl rfl)
    | panicked hpc => exact Or.inr (Or.inl rfl)
    | shutdown hpc hsd => exact Or.inr (Or.inl rfl)
    | exit hpc => exact Or.inr (Or.inr rfl)

theorem Reported.after {t t' : CoreThread} {a : Act} (h : t.Reported) (hs : t.step a = some t') :
    t'.Reported := by
  refine ⟨consistent_step h.consistent hs, fun e he => ?_⟩
  cases moves_of_step hs with
  | built hpc =>
    have hnone := h.consistent.silent (Or.inl hpc)
    rw [show t.ready = some (.error e) from he] at hnone
    cases hnone
  | bound hpc => cases he
  | failed a e' hpc => exact Or.inr (Or.inl rfl)
  | panicked hpc => exact Or.inr (Or.inl rfl)
  | shutdown hpc hsd => exact Or.inr (Or.inl rfl)
  | exit hpc => exact Or.inr (Or.inr rfl)

/-- To be told changes no report. -/
theorem Reported.told {t : CoreThread} (h : t.Reported) : Reported { t with shutdown := true } :=
  ⟨⟨h.consistent.silent, fun _ => Or.inr rfl⟩, fun _ _ => Or.inl rfl⟩

/-- The steps a core thread has left. -/
def left (t : CoreThread) : Nat :=
  match t.pc with
  | .build => 4
  | .bind => 3
  | .serve => 2
  | .drop => 1
  | .exited => 0

theorem left_step {t t' : CoreThread} {a : Act} (h : t.step a = some t') : t'.left < t.left := by
  unfold left
  cases moves_of_step h with
  | built hpc => simp [hpc]
  | bound hpc => simp [hpc]
  | failed a e hpc => rcases hpc with hpc | hpc <;> simp [hpc]
  | panicked hpc => rcases hpc with hpc | hpc <;> simp [hpc]
  | shutdown hpc hsd => simp [hpc]
  | exit hpc => simp [hpc]

/-- A thread that is about to end goes on until it has. -/
theorem Doomed.goes_on {t : CoreThread} (h : t.Doomed) (hal : t.alive = true) :
    ∃ a t', t.step a = some t' := by
  cases hpc : t.pc with
  | build => exact ⟨.build none, _, by simp only [step, hpc]; rfl⟩
  | bind =>
    refine ⟨.bind none, ?_⟩
    simp only [step, hpc]
    split <;> exact ⟨_, rfl⟩
  | serve =>
    have hsd : t.shutdown = true := by
      rcases h with h | h | h
      · exact h
      · rw [hpc] at h; cases h
      · rw [hpc] at h; cases h
    exact ⟨.shutdown, _, by simp only [step, hpc, hsd, if_true]; rfl⟩
  | drop => exact ⟨.exit, _, by simp only [step, hpc]; rfl⟩
  | exited => simp [alive, hpc] at hal

end CoreThread

namespace Lifecycle

/-- What was known of the `c`th core thread still holds. -/
def Kept (s s' : Lifecycle) (c : Nat) : Prop :=
  ∀ t, s.cores[c]? = some t → ∃ t', s'.cores[c]? = some t' ∧ t'.shutdown = t.shutdown ∧
    (t.Serving → t'.Serving) ∧ (t.Doomed → t'.Doomed)

theorem Kept.of_eq {s s' : Lifecycle} {c : Nat} (h : s'.cores[c]? = s.cores[c]?) : s.Kept s' c :=
  fun t ht => ⟨t, h.trans ht, rfl, id, id⟩

theorem kept_setCore {s : Lifecycle} {c : Nat} {t t' : CoreThread} {a : CoreThread.Act}
    (hc : s.cores[c]? = some t) (h : t.step a = some t') (d : Nat) : s.Kept (s.setCore c t') d := by
  by_cases hcd : c = d
  · subst hcd
    intro u hu
    rw [hc] at hu
    cases hu
    obtain ⟨hlt, -⟩ := List.getElem?_eq_some_iff.1 hc
    exact ⟨t', List.getElem?_set_self hlt, (CoreThread.same_of_step h).2.2,
      fun hs => absurd h hs.no_step, fun hd => hd.after h⟩
  · exact .of_eq (List.getElem?_set_ne hcd)

theorem kept_signal {s : Lifecycle} {c d : Nat} (h : c ≠ d) : s.Kept (s.signal c) d := by
  refine .of_eq ?_
  rw [signal_getElem?]
  simp [h]

end Lifecycle

namespace Call

/-- It is an `rn_start` that has found `INSTANCE` empty. -/
def alone : Call → Bool
  | .start _ _ .resetRx => true
  | .start _ _ .resetTx => true
  | .start _ _ .spawn => true
  | .start _ _ (.recv _) => true
  | .start _ _ (.signal _) => true
  | .start _ _ (.join _ _) => true
  | .start _ _ (.store _) => true
  | _ => false

/-- What is known of the core thread that it handles. -/
def Knows : Call → CoreThread → Prop
  | .start _ _ (.recv _), t => t.shutdown = false
  | .start _ _ (.store _), t => t.Serving
  | .start _ _ (.join _ _), t => t.Doomed
  | .stop (.join _), t => t.Doomed
  | _, _ => True

/-- It waits for the end of a core thread. -/
def joining : Call → Option Nat
  | .start _ _ (.join c _) => some c
  | .stop (.join c) => some c
  | _ => none

/-- It waits for the lock. -/
def locking : Call → Bool
  | .start _ _ .lock => true
  | .stop .lock => true
  | _ => false

def isReturned : Call → Bool
  | .returned _ => true
  | _ => false

theorem critical_of_alone {call : Call} (h : call.alone = true) : call.critical = true := by
  unfold alone at h
  split at h <;> first | rfl | cases h

/-- Whoever holds the lock neither waits for it nor has returned. -/
theorem busy_of_critical {call : Call} (h : call.critical = true) :
    call.locking = false ∧ call.isReturned = false := by
  cases call with
  | start port transport pc =>
    cases pc with
    | lock => cases h
    | _ => exact ⟨rfl, rfl⟩
  | stop pc =>
    cases pc with
    | take => exact ⟨rfl, rfl⟩
    | unlock inst => exact ⟨rfl, rfl⟩
    | _ => cases h
  | returned rc => cases h

/-- The steps a call has left, those of the core thread that it may spawn included. -/
def left : Call → Nat
  | .start _ _ .lock => 16
  | .start _ _ .check => 15
  | .start _ _ .resetRx => 14
  | .start _ _ .resetTx => 13
  | .start _ _ .spawn => 12
  | .start _ _ (.recv _) => 6
  | .start _ _ (.signal _) => 5
  | .start _ _ (.store _) => 5
  | .start _ _ (.join _ _) => 4
  | .start _ _ (.unlock _) => 1
  | .stop .lock => 6
  | .stop .take => 5
  | .stop (.unlock _) => 4
  | .stop (.signal _) => 3
  | .stop (.join _) => 2
  | .returned _ => 0

theorem left_le (call : Call) : call.left ≤ 16 := by
  unfold left
  split <;> omega

end Call

namespace Lifecycle

/-- What holds of the `i`th call where it is. -/
structure Fit (s : Lifecycle) (i : Nat) (call : Call) : Prop where
  lock : call.critical = true → s.holder = some i
  empty : call.alone = true → s.inst = none
  core : ∀ c, call.handles = some c → ∃ t, s.cores[c]? = some t ∧ call.Knows t

/-- Who has which core thread. -/
structure Owned (s : Lifecycle) : Prop where
  fit : ∀ (i : Nat) (call : Call), s.calls[i]? = some call → s.Fit i call
  holder : ∀ i, s.holder = some i → ∃ call, s.calls[i]? = some call ∧ call.critical = true
  serving : ∀ c, s.inst = some c → ∃ t, s.cores[c]? = some t ∧ t.Serving
  apart : ∀ (i : Nat) (call : Call) (c : Nat), s.calls[i]? = some call → call.handles = some c →
    s.inst ≠ some c
  distinct : ∀ (i j : Nat) (call call' : Call) (c : Nat), s.calls[i]? = some call →
    s.calls[j]? = some call' → call.handles = some c → call'.handles = some c → i = j
  owned : ∀ c, s.Alive c → s.inst = some c ∨
    ∃ (i : Nat) (call : Call), s.calls[i]? = some call ∧ call.handles = some c
  reported : ∀ t ∈ s.cores, t.Reported

theorem init_owned : init.Owned where
  fit := by
    intro i call hi
    cases hi
  holder := by
    intro i hi
    cases hi
  serving := by
    intro c hc
    cases hc
  apart := by
    intro i call c hi
    cases hi
  distinct := by
    intro i j call call' c hi
    cases hi
  owned := by
    rintro c ⟨t, ht, -⟩
    cases ht
  reported := by
    intro t ht
    cases ht

theorem Fit.frame {s s' : Lifecycle} {i : Nat} {call : Call} (h : s.Fit i call)
    (hlock : call.critical = true → s'.holder = s.holder ∧ s'.inst = s.inst)
    (hkept : ∀ c, call.handles = some c → s.Kept s' c) : s'.Fit i call where
  lock := fun hc => (hlock hc).1.trans (h.lock hc)
  empty := fun ha => (hlock (Call.critical_of_alone ha)).2.trans (h.empty ha)
  core := by
    intro c hc
    obtain ⟨t, ht, hk⟩ := h.core c hc
    obtain ⟨t', ht', h1, h2, h3⟩ := hkept c hc t ht
    refine ⟨t', ht', ?_⟩
    unfold Call.Knows at hk ⊢
    split at hk
    · exact h1.trans hk
    · exact h2 hk
    · exact h3 hk
    · exact h3 hk
    · trivial

/-- **A step of the `i`th call.**  What it handles afterwards it handled before, or has taken, or has
spawned. -/
theorem Owned.call_step {s s' : Lifecycle} (hs : s.Owned) {i : Nat} {call call' : Call}
    (hi : s.calls[i]? = some call) (hcalls : s'.calls = s.calls.set i call') (hfit : s'.Fit i call')
    (hlock : s.holder = some i ∨ s.holder = none ∨ (s'.holder = s.holder ∧ s'.inst = s.inst))
    (hholder : ∀ j, s'.holder = some j →
      j = i ∧ call'.critical = true ∨ j ≠ i ∧ s.holder = some j)
    (hkept : ∀ c, call.handles ≠ some c → s.Kept s' c)
    (hnew : ∀ c, call'.handles = some c → s'.inst ≠ some c ∧
      (call.handles = some c ∨ s.inst = some c ∨ s.cores.length ≤ c))
    (hinst : ∀ c, s'.inst = some c → s.inst = some c ∨
      call.handles = some c ∧ ∃ t, s'.cores[c]? = some t ∧ t.Serving)
    (hcov : ∀ c, s'.Alive c → call'.handles = some c ∨ s'.inst = some c ∨
      s.Alive c ∧ call.handles ≠ some c ∧ s.inst ≠ some c)
    (hrep : ∀ t ∈ s'.cores, t.Reported) : s'.Owned := by
  obtain ⟨hlt, -⟩ := List.getElem?_eq_some_iff.1 hi
  have hself : s'.calls[i]? = some call' := by rw [hcalls, List.getElem?_set_self hlt]
  have hother : ∀ j, i ≠ j → s'.calls[j]? = s.calls[j]? := fun j hij => by
    rw [hcalls, List.getElem?_set_ne hij]
  -- what another call handles is not what this one does
  have hothers : ∀ (j : Nat) (callj : Call) (c : Nat), i ≠ j → s.calls[j]? = some callj →
      callj.handles = some c → call.handles ≠ some c ∧ call'.handles ≠ some c := by
    intro j callj c hij hj hc
    have hne : call.handles ≠ some c := fun he => hij (hs.distinct i j call callj c hi hj he hc)
    refine ⟨hne, fun he => ?_⟩
    rcases (hnew c he).2 with h | h | h
    · exact hne h
    · exact hs.apart j callj c hj hc h
    · obtain ⟨t, ht, -⟩ := (hs.fit j callj hj).core c hc
      have := (List.getElem?_eq_some_iff.1 ht).1
      omega
  refine ⟨?_, ?_, ?_, ?_, ?_, ?_, hrep⟩
  · intro j callj hj
    by_cases hij : i = j
    · subst hij
      rw [hself] at hj
      cases hj
      exact hfit
    · rw [hother j hij] at hj
      refine (hs.fit j callj hj).frame (fun hcrit => ?_)
        fun c hc => hkept c (hothers j callj c hij hj hc).1
      have hheld := (hs.fit j callj hj).lock hcrit
      rcases hlock with h | h | h
      · rw [h] at hheld
        cases hheld
        exact absurd rfl hij
      · rw [h] at hheld
        cases hheld
      · exact h
  · intro j hj
    rcases hholder j hj with ⟨rfl, hcrit⟩ | ⟨hne, hheld⟩
    · exact ⟨call', hself, hcrit⟩
    · rw [hother j (Ne.symm hne)]
      exact hs.holder j hheld
  · intro c hc
    rcases hinst c hc with h | ⟨-, h⟩
    · obtain ⟨t, ht, hsv⟩ := hs.serving c h
      obtain ⟨t', ht', -, hsv', -⟩ := hkept c (fun he => hs.apart i call c hi he h) t ht
      exact ⟨t', ht', hsv' hsv⟩
    · exact h
  · intro j callj c hj hc
    by_cases hij : i = j
    · subst hij
      rw [hself] at hj
      cases hj
      exact (hnew c hc).1
    · rw [hother j hij] at hj
      intro he
      rcases hinst c he with h | ⟨h, -⟩
      · exact hs.apart j callj c hj hc h
      · exact (hothers j callj c hij hj hc).1 h
  · intro j k callj callk c hj hk hcj hck
    by_cases hij : i = j
    · by_cases hik : i = k
      · exact hij.symm.trans hik
      · subst hij
        rw [hself] at hj
        cases hj
        rw [hother k hik] at hk
        exact absurd hcj (hothers k callk c hik hk hck).2
    · rw [hother j hij] at hj
      by_cases hik : i = k
      · subst hik
        rw [hself] at hk
        cases hk
        exact absurd hck (hothers j callj c hij hj hcj).2
      · rw [hother k hik] at hk
        exact hs.distinct j k callj callk c hj hk hcj hck
  · intro c hal
    rcases hcov c hal with h | h | ⟨h1, h2, h3⟩
    · exact Or.inr ⟨i, call', hself, h⟩
    · exact Or.inl h
    · rcases hs.owned c h1 with h | ⟨j, callj, hj, hc⟩
      · exact absurd h h3
      · by_cases hij : i = j
        · subst hij
          rw [hi] at hj
          cases hj
          exact absurd hc h2
        · exact Or.inr ⟨j, callj, by rw [hother j hij, hj], hc⟩

/-- A step that changes the call, the lock and the counters, and no more. -/
theorem Owned.advance {s s' : Lifecycle} (hs : s.Owned) {i : Nat} {call call' : Call}
    (hi : s.calls[i]? = some call) (hcalls : s'.calls = s.calls.set i call') (hfit : s'.Fit i call')
    (hlock : s.holder = some i ∨ s.holder = none)
    (hholder : ∀ j, s'.holder = some j → j = i ∧ call'.critical = true)
    (hinst : s'.inst = s.inst) (hcores : s'.cores = s.cores)
    (hhandles : call'.handles = call.handles) : s'.Owned := by
  refine hs.call_step hi hcalls hfit (hlock.imp_right Or.inl) (fun j hj => Or.inl (hholder j hj))
    (fun c _ => .of_eq (by rw [hcores])) ?_ ?_ ?_ ?_
  · intro c hc
    rw [hhandles] at hc
    rw [hinst]
    exact ⟨hs.apart i call c hi hc, Or.inl hc⟩
  · intro c hc
    rw [hinst] at hc
    exact Or.inl hc
  · intro c hal
    rw [hhandles, hinst]
    by_cases h1 : call.handles = some c
    · exact Or.inl h1
    · by_cases h2 : s.inst = some c
      · exact Or.inr (Or.inl h2)
      · exact Or.inr (Or.inr ⟨(Fewer.of_eq hcores).alive hal, h1, h2⟩)
  · rw [hcores]
    exact hs.reported

/-- The core thread that is told to shut down. -/
theorem Owned.told {s : Lifecycle} (hs : s.Owned) (c : Nat) : ∀ t ∈ (s.signal c).cores, t.Reported := by
  intro t ht
  obtain ⟨d, hd⟩ := List.mem_iff_getElem?.1 ht
  rw [signal_getElem?] at hd
  obtain ⟨u, hu, rfl⟩ := Option.map_eq_some_iff.1 hd
  have hrep := hs.reported u (List.mem_of_getElem? hu)
  split
  · exact hrep.told
  · exact hrep

theorem doomed_signal {s : Lifecycle} {c : Nat} {t : CoreThread} (h : s.cores[c]? = some t) :
    ∃ t', (s.signal c).cores[c]? = some t' ∧ t'.Doomed := by
  refine ⟨{ t with shutdown := true }, ?_, Or.inl rfl⟩
  rw [signal_getElem?, h]
  simp

/-- `shutdown.send(true)` by the call that handles the thread, which goes on to join it. -/
theorem Owned.signal_step {s : Lifecycle} (hs : s.Owned) {i c : Nat} {call call' : Call}
    (hi : s.calls[i]? = some call) (hc : call.handles = some c) (hc' : call'.handles = some c)
    (hcrit : call'.critical = call.critical) (halone : call'.alone = call.alone)
    (hknows : ∀ t : CoreThread, t.Doomed → call'.Knows t) :
    ((s.signal c).setCall i call').Owned := by
  have hfit := hs.fit i call hi
  refine hs.call_step hi rfl ⟨fun h => hfit.lock (hcrit ▸ h), fun h => hfit.empty (halone ▸ h), ?_⟩
    (Or.inr (Or.inr ⟨rfl, rfl⟩)) ?_ ?_ ?_ (fun d hd => Or.inl hd) ?_ (hs.told c)
  · intro d hd
    rw [hc'] at hd
    cases hd
    obtain ⟨t, ht, -⟩ := hfit.core c hc
    obtain ⟨t', ht', hdoom⟩ := doomed_signal ht
    exact ⟨t', ht', hknows t' hdoom⟩
  · intro j hj
    by_cases hij : j = i
    · subst hij
      obtain ⟨callj, hcj, hcritj⟩ := hs.holder j hj
      rw [hi] at hcj
      cases hcj
      exact Or.inl ⟨rfl, hcrit.trans hcritj⟩
    · exact Or.inr ⟨hij, hj⟩
  · intro d hd
    refine kept_signal fun he => hd ?_
    rw [hc, he]
  · intro d hd
    rw [hc'] at hd
    cases hd
    exact ⟨hs.apart i call c hi hc, Or.inl hc⟩
  · intro d hal
    have hal' : s.Alive d := (fewer_signal s c).alive hal
    by_cases h1 : c = d
    · exact Or.inl (h1 ▸ hc')
    · by_cases h2 : s.inst = some d
      · exact Or.inr (Or.inl h2)
      · exact Or.inr (Or.inr ⟨hal', by rw [hc]; simpa using h1, h2⟩)

/-- `join` returns: the thread is not alive, and the call lets go of it. -/
theorem Owned.join_step {s : Lifecycle} (hs : s.Owned) {i c : Nat} {call call' : Call}
    (hi : s.calls[i]? = some call) (hc : call.handles = some c) (hj : s.joinable c = true)
    (hc' : call'.handles = none) (hcrit : call'.critical = call.critical) (halone : call'.alone = false) :
    (s.setCall i call').Owned := by
  have hfit := hs.fit i call hi
  refine hs.call_step hi rfl ⟨fun h => hfit.lock (hcrit ▸ h), ?_, ?_⟩ (Or.inr (Or.inr ⟨rfl, rfl⟩)) ?_
    (fun d _ => .of_eq rfl) ?_ (fun d hd => Or.inl hd) ?_ hs.reported
  · intro h
    rw [halone] at h
    cases h
  · intro d hd
    rw [hc'] at hd
    cases hd
  · intro j hj
    by_cases hij : j = i
    · subst hij
      obtain ⟨callj, hcj, hcritj⟩ := hs.holder j hj
      rw [hi] at hcj
      cases hcj
      exact Or.inl ⟨rfl, hcrit.trans hcritj⟩
    · exact Or.inr ⟨hij, hj⟩
  · intro d hd
    rw [hc'] at hd
    cases hd
  · intro d hal
    have hne : d ≠ c := by
      rintro rfl
      exact not_alive_of_joinable hj hal
    by_cases h2 : s.inst = some d
    · exact Or.inr (Or.inl h2)
    · exact Or.inr (Or.inr ⟨hal, by rw [hc]; simpa using Ne.symm hne, h2⟩)

/-- `recv_timeout` returns an error that was sent: the thread has failed. -/
theorem failed_of_recv {s s' : Lifecycle} {i c : Nat} {port : UInt16} {transport : UInt32} {b : CallAct}
    (hi : s.calls[i]? = some (.start port transport (.recv c))) (h : s.step (.call i b) = some s')
    (hs' : s' = s.setCall i (.start port transport (.join c RN_ERR_BIND))) :
    ∃ t e, s.cores[c]? = some t ∧ t.ready = some (.error e) := by
  obtain ⟨hlt, -⟩ := List.getElem?_eq_some_iff.1 hi
  have hself : s'.calls[i]? = some (.start port transport (.join c RN_ERR_BIND)) := by
    rw [hs']
    exact List.getElem?_set_self hlt
  simp only [step, hi] at h
  cases b with
  | recv =>
    simp only [startStep] at h
    split at h
    · cases h
      rw [show (s.setCall i (.start port transport (.store c))).calls[i]? = some _ from
        List.getElem?_set_self hlt] at hself
      cases hself
    · next e he =>
      obtain ⟨t, ht, hr⟩ := Option.bind_eq_some_iff.1 he
      exact ⟨t, e, ht, hr⟩
    · cases h
  | timeout =>
    simp only [startStep] at h
    split at h
    · cases h
    · cases h
      rw [show (s.setCall i (.start port transport (.signal c))).calls[i]? = some _ from
        List.getElem?_set_self hlt] at hself
      cases hself
  | go => cases h
  | spawn ok => cases h

/-- The core thread that `rn_start` has spawned is its own. -/
theorem Owned.spawned {s : Lifecycle} (hs : s.Owned) {i : Nat} {port : UInt16} {transport : UInt32}
    (hi : s.calls[i]? = some (.start port transport .spawn)) :
    Owned { s.setCall i (.start port transport (.recv s.cores.length)) with
      cores := s.cores ++ [.spawn port transport i] } := by
  obtain ⟨hlock, hempty, -⟩ := hs.fit i _ hi
  have hlt : ∀ c t, s.cores[c]? = some t → c < s.cores.length :=
    fun c t h => (List.getElem?_eq_some_iff.1 h).1
  refine hs.call_step hi rfl ⟨fun _ => hlock rfl, fun _ => hempty rfl, ?_⟩ (Or.inl (hlock rfl)) ?_ ?_ ?_
    (fun d hd => Or.inl hd) ?_ ?_
  · intro c hc
    cases hc
    exact ⟨_, List.getElem?_concat_length, rfl⟩
  · intro j hj
    have hheld : s.holder = some j := hj
    rw [hlock rfl] at hheld
    cases hheld
    exact Or.inl ⟨rfl, rfl⟩
  · intro c _ t ht
    exact ⟨t, (List.getElem?_append_left (hlt c t ht)).trans ht, rfl, id, id⟩
  · intro c hc
    cases hc
    refine ⟨?_, Or.inr (Or.inr (Nat.le_refl _))⟩
    show s.inst ≠ _
    rw [hempty rfl]
    simp
  · rintro c ⟨t, hc, hal⟩
    by_cases hcl : c < s.cores.length
    · have hc' : s.cores[c]? = some t := (List.getElem?_append_left hcl).symm.trans hc
      exact Or.inr (Or.inr ⟨⟨t, hc', hal⟩, by simp [Call.handles], by rw [hempty rfl]; simp⟩)
    · have hlen := (List.getElem?_eq_some_iff.1 hc).1
      rw [List.length_append, List.length_singleton] at hlen
      have hceq : c = s.cores.length := by omega
      exact Or.inl (by rw [hceq]; rfl)
  · intro t ht
    rcases List.mem_append.1 ht with ht | ht
    · exact hs.reported t ht
    · rw [List.mem_singleton.1 ht]
      exact CoreThread.spawn_reported port transport i

/-- `INSTANCE` is filled. -/
theorem Owned.stored {s : Lifecycle} (hs : s.Owned) {i c : Nat} {port : UInt16} {transport : UInt32}
    (hi : s.calls[i]? = some (.start port transport (.store c))) :
    Owned { s.setCall i (.start port transport (.unlock RN_OK)) with inst := some c } := by
  obtain ⟨hlock, hempty, hcore⟩ := hs.fit i _ hi
  refine hs.call_step hi rfl ⟨fun _ => hlock rfl, fun h => (by cases h), fun d hd => by cases hd⟩
    (Or.inl (hlock rfl)) ?_ (fun d _ => .of_eq rfl) (fun d hd => by cases hd) ?_ ?_ hs.reported
  · intro j hj
    have hheld : s.holder = some j := hj
    rw [hlock rfl] at hheld
    cases hheld
    exact Or.inl ⟨rfl, rfl⟩
  · intro d hd
    cases hd
    exact Or.inr ⟨rfl, hcore c rfl⟩
  · intro d hal
    by_cases h1 : c = d
    · exact Or.inr (Or.inl (congrArg some h1))
    · exact Or.inr (Or.inr ⟨hal, by simpa [Call.handles] using h1, by rw [hempty rfl]; simp⟩)

/-- `INSTANCE` is emptied. -/
theorem Owned.taken {s : Lifecycle} (hs : s.Owned) {i : Nat} (hi : s.calls[i]? = some (.stop .take)) :
    Owned { s.setCall i (.stop (.unlock s.inst)) with inst := none } := by
  obtain ⟨hlock, -, -⟩ := hs.fit i _ hi
  refine hs.call_step hi rfl ⟨fun _ => hlock rfl, fun h => (by cases h), ?_⟩ (Or.inl (hlock rfl)) ?_
    (fun d _ => .of_eq rfl) ?_ (fun d hd => by cases hd) ?_ hs.reported
  · intro c hc
    obtain ⟨t, ht, -⟩ := hs.serving c hc
    exact ⟨t, ht, trivial⟩
  · intro j hj
    have hheld : s.holder = some j := hj
    rw [hlock rfl] at hheld
    cases hheld
    exact Or.inl ⟨rfl, rfl⟩
  · intro c hc
    exact ⟨by simp, Or.inr (Or.inl hc)⟩
  · intro c hal
    by_cases h2 : s.inst = some c
    · exact Or.inl h2
    · exact Or.inr (Or.inr ⟨hal, by simp [Call.handles], h2⟩)

theorem owned_call {s s' : Lifecycle} (hs : s.Owned) {i : Nat} {call call' : Call} {b : CallAct}
    (hi : s.calls[i]? = some call) (hstep : s.step (.call i b) = some s')
    (h : s.CallMoves i call call' s') : s'.Owned := by
  have hfit := hs.fit i call hi
  have hcalls := h.calls
  have hsame : ∀ {call' : Call}, call.critical = true → call'.critical = true →
      ∀ j, s.holder = some j → j = i ∧ call'.critical = true := by
    intro call' hc hc' j hj
    rw [hfit.lock hc] at hj
    cases hj
    exact ⟨rfl, hc'⟩
  cases h with
  | startLock port transport hh =>
    exact hs.advance hi hcalls ⟨fun _ => rfl, fun h => (by cases h), fun c hc => by cases hc⟩ (Or.inr hh)
      (fun j hj => ⟨by cases hj; rfl, rfl⟩) rfl rfl rfl
  | running port transport hn =>
    exact hs.advance hi hcalls ⟨fun _ => hfit.lock rfl, fun h => (by cases h), fun c hc => by cases hc⟩
      (Or.inl (hfit.lock rfl)) (hsame rfl rfl) rfl rfl rfl
  | free port transport hn =>
    exact hs.advance hi hcalls ⟨fun _ => hfit.lock rfl, fun _ => hn, fun c hc => by cases hc⟩
      (Or.inl (hfit.lock rfl)) (hsame rfl rfl) rfl rfl rfl
  | resetRx port transport =>
    exact hs.advance hi hcalls
      ⟨fun _ => hfit.lock rfl, fun _ => hfit.empty rfl, fun c hc => by cases hc⟩
      (Or.inl (hfit.lock rfl)) (hsame rfl rfl) rfl rfl rfl
  | resetTx port transport =>
    exact hs.advance hi hcalls
      ⟨fun _ => hfit.lock rfl, fun _ => hfit.empty rfl, fun c hc => by cases hc⟩
      (Or.inl (hfit.lock rfl)) (hsame rfl rfl) rfl rfl rfl
  | spawned port transport => exact hs.spawned hi
  | spawnFailed port transport =>
    exact hs.advance hi hcalls ⟨fun _ => hfit.lock rfl, fun h => (by cases h), fun c hc => by cases hc⟩
      (Or.inl (hfit.lock rfl)) (hsame rfl rfl) rfl rfl rfl
  | ready port transport c t ht hr =>
    refine hs.advance hi hcalls ⟨fun _ => hfit.lock rfl, fun _ => hfit.empty rfl, ?_⟩
      (Or.inl (hfit.lock rfl)) (hsame rfl rfl) rfl rfl rfl
    rintro d ⟨⟩
    obtain ⟨u, hu, hsd⟩ := hfit.core c rfl
    rw [ht] at hu
    cases hu
    have hsd' : t.shutdown = false := hsd
    rcases (hs.reported t (List.mem_of_getElem? ht)).consistent.serving hr with h | h
    · exact ⟨t, ht, h, hsd'⟩
    · rw [hsd'] at h
      cases h
  | failed port transport c =>
    refine hs.advance hi hcalls ⟨fun _ => hfit.lock rfl, fun _ => hfit.empty rfl, ?_⟩
      (Or.inl (hfit.lock rfl)) (hsame rfl rfl) rfl rfl rfl
    rintro d ⟨⟩
    obtain ⟨t, e, ht, hr⟩ := failed_of_recv hi hstep rfl
    exact ⟨t, ht, (hs.reported t (List.mem_of_getElem? ht)).failed e hr⟩
  | silent port transport c =>
    refine hs.advance hi hcalls ⟨fun _ => hfit.lock rfl, fun _ => hfit.empty rfl, ?_⟩
      (Or.inl (hfit.lock rfl)) (hsame rfl rfl) rfl rfl rfl
    rintro d ⟨⟩
    obtain ⟨t, ht, -⟩ := hfit.core c rfl
    exact ⟨t, ht, trivial⟩
  | startSignal port transport c => exact hs.signal_step hi rfl rfl rfl rfl fun t ht => ht
  | startJoin port transport c rc hj => exact hs.join_step hi rfl hj rfl rfl rfl
  | store port transport c => exact hs.stored hi
  | startUnlock port transport rc =>
    exact hs.advance hi hcalls ⟨fun h => (by cases h), fun h => (by cases h), fun c hc => by cases hc⟩
      (Or.inl (hfit.lock rfl)) (fun j hj => by cases hj) rfl rfl rfl
  | stopLock hh =>
    exact hs.advance hi hcalls ⟨fun _ => rfl, fun h => (by cases h), fun c hc => by cases hc⟩ (Or.inr hh)
      (fun j hj => ⟨by cases hj; rfl, rfl⟩) rfl rfl rfl
  | take => exact hs.taken hi
  | taken c =>
    refine hs.advance hi hcalls ⟨fun h => (by cases h), fun h => (by cases h), ?_⟩
      (Or.inl (hfit.lock rfl)) (fun j hj => by cases hj) rfl rfl rfl
    rintro d ⟨⟩
    obtain ⟨t, ht, -⟩ := hfit.core c rfl
    exact ⟨t, ht, trivial⟩
  | nothing =>
    exact hs.advance hi hcalls ⟨fun h => (by cases h), fun h => (by cases h), fun c hc => by cases hc⟩
      (Or.inl (hfit.lock rfl)) (fun j hj => by cases hj) rfl rfl rfl
  | stopSignal c => exact hs.signal_step hi rfl rfl rfl rfl fun t ht => ht
  | stopJoin c hj => exact hs.join_step hi rfl hj rfl rfl rfl

/-- A new call handles nothing. -/
theorem Owned.begin {s : Lifecycle} (hs : s.Owned) {call : Call} (hcrit : call.critical = false)
    (hc : call.handles = none) : Owned { s with calls := s.calls ++ [call] } := by
  have hold : ∀ (i : Nat) (calli : Call), (s.calls ++ [call])[i]? = some calli →
      s.calls[i]? = some calli ∨ calli = call := by
    intro i calli hi
    by_cases hlt : i < s.calls.length
    · exact Or.inl ((List.getElem?_append_left hlt).symm.trans hi)
    · have hlen := (List.getElem?_eq_some_iff.1 hi).1
      rw [List.length_append, List.length_singleton] at hlen
      have hieq : i = s.calls.length := by omega
      rw [hieq, List.getElem?_concat_length] at hi
      cases hi
      exact Or.inr rfl
  have hnew : ∀ (i : Nat) (calli : Call), s.calls[i]? = some calli →
      (s.calls ++ [call])[i]? = some calli := fun i calli hi =>
    (List.getElem?_append_left (List.getElem?_eq_some_iff.1 hi).1).trans hi
  refine ⟨?_, ?_, hs.serving, ?_, ?_, ?_, hs.reported⟩
  · intro i calli hi
    rcases hold i calli hi with h | rfl
    · exact (hs.fit i calli h).frame (fun _ => ⟨rfl, rfl⟩) fun c _ => .of_eq rfl
    · refine ⟨fun h => ?_, fun h => ?_, fun c h => ?_⟩
      · rw [hcrit] at h
        cases h
      · rw [Call.critical_of_alone h] at hcrit
        cases hcrit
      · rw [hc] at h
        cases h
  · intro i hi
    obtain ⟨calli, h1, h2⟩ := hs.holder i hi
    exact ⟨calli, hnew i calli h1, h2⟩
  · intro i calli c hi hci
    rcases hold i calli hi with h | rfl
    · exact hs.apart i calli c h hci
    · rw [hc] at hci
      cases hci
  · intro i j calli callj c hi hj hci hcj
    rcases hold i calli hi with h | rfl
    · rcases hold j callj hj with h' | rfl
      · exact hs.distinct i j calli callj c h h' hci hcj
      · rw [hc] at hcj
        cases hcj
    · rw [hc] at hci
      cases hci
  · intro c hal
    rcases hs.owned c hal with h | ⟨i, calli, hi, hci⟩
    · exact Or.inl h
    · exact Or.inr ⟨i, calli, hnew i calli hi, hci⟩

theorem Owned.core_step {s : Lifecycle} (hs : s.Owned) {c : Nat} {t t' : CoreThread}
    {a : CoreThread.Act} (hc : s.cores[c]? = some t) (h : t.step a = some t') : (s.setCore c t').Owned := by
  refine ⟨fun i call hi => ?_, hs.holder, fun d hd => ?_, hs.apart, hs.distinct, fun d hd => ?_, ?_⟩
  · exact (hs.fit i call hi).frame (fun _ => ⟨rfl, rfl⟩) fun d _ => kept_setCore hc h d
  · obtain ⟨u, hu, hsv⟩ := hs.serving d hd
    obtain ⟨u', hu', -, hsv', -⟩ := kept_setCore hc h d u hu
    exact ⟨u', hu', hsv' hsv⟩
  · exact hs.owned d ((fewer_setCore hc h).alive hd)
  · intro u hu
    rcases List.mem_or_eq_of_mem_set hu with hu | rfl
    · exact hs.reported u hu
    · exact (hs.reported t (List.mem_of_getElem? hc)).after h

theorem owned_step {s s' : Lifecycle} {a : Act} (hs : s.Owned) (h : s.step a = some s') : s'.Owned := by
  cases moves_of_step h with
  | rnStart port transport => exact hs.begin rfl rfl
  | rnStop => exact hs.begin rfl rfl
  | call i b call call' s' hi hm => exact owned_call hs hi h hm
  | core c a t t' hc ht => exact hs.core_step hc ht
  | countRx c n t hc ht => exact ⟨fun i call hi => (hs.fit i call hi).frame (fun _ => ⟨rfl, rfl⟩)
      fun d _ => .of_eq rfl, hs.holder, hs.serving, hs.apart, hs.distinct, hs.owned, hs.reported⟩
  | countTx c n t hc ht => exact ⟨fun i call hi => (hs.fit i call hi).frame (fun _ => ⟨rfl, rfl⟩)
      fun d _ => .of_eq rfl, hs.holder, hs.serving, hs.apart, hs.distinct, hs.owned, hs.reported⟩

theorem run_owned {acts : List Act} {s : Lifecycle} (h : Runs.exec step init acts = some s) : s.Owned :=
  Runs.exec_inv step Owned (fun _ _ _ hs hstep => owned_step hs hstep) init_owned h

/-! ## Progress -/

/-- The step of a call or of a core thread. -/
def Act.own : Act → Bool
  | .call _ _ => true
  | .core _ _ => true
  | _ => false

/-- No further call is made. -/
def NoCall (a : Act) : Prop := a ≠ .rnStop ∧ ∀ port transport, a ≠ .rnStart port transport

def rank (s : Lifecycle) : Nat := Runs.total Call.left s.calls + Runs.total CoreThread.left s.cores

def AllReturned (s : Lifecycle) : Prop := ∀ call ∈ s.calls, call.isReturned = true

instance (s : Lifecycle) : Decidable s.AllReturned :=
  inferInstanceAs (Decidable (∀ call ∈ s.calls, call.isReturned = true))

theorem rank_le (s : Lifecycle) : s.rank ≤ 16 * s.calls.length + 4 * s.cores.length := by
  have hcalls : Runs.total Call.left s.calls ≤ 16 * s.calls.length :=
    Runs.total_le fun call _ => call.left_le
  have hcores : Runs.total CoreThread.left s.cores ≤ 4 * s.cores.length := Runs.total_le fun t _ => by
    unfold CoreThread.left
    split <;> omega
  unfold rank
  omega

/-- To be told is no step of the core thread. -/
theorem total_signal (s : Lifecycle) (c : Nat) :
    Runs.total CoreThread.left (s.signal c).cores = Runs.total CoreThread.left s.cores := by
  have hmap : (s.signal c).cores.map CoreThread.left = s.cores.map CoreThread.left := by
    refine List.ext_getElem? fun d => ?_
    rw [List.getElem?_map, List.getElem?_map, signal_getElem?, Option.map_map]
    refine congrArg (fun f => Option.map f s.cores[d]?) (funext fun t => ?_)
    show CoreThread.left (if c = d then _ else t) = t.left
    split <;> rfl
  unfold Runs.total
  rw [hmap]

theorem rank_call {s s' : Lifecycle} {i : Nat} {call call' : Call} (hi : s.calls[i]? = some call)
    (h : s.CallMoves i call call' s') : s'.rank < s.rank := by
  have hset := Runs.total_set Call.left hi call'
  unfold rank
  rw [h.calls]
  cases h with
  | spawned port transport =>
    show _ + Runs.total CoreThread.left (s.cores ++ [.spawn port transport i]) < _
    rw [Runs.total_append]
    have hnew : Runs.total CoreThread.left [.spawn port transport i] = 4 := rfl
    simp only [Call.left] at hset
    omega
  | startSignal port transport c =>
    show _ + Runs.total CoreThread.left (s.signal c).cores < _
    rw [total_signal]
    simp only [Call.left] at hset
    omega
  | stopSignal c =>
    show _ + Runs.total CoreThread.left (s.signal c).cores < _
    rw [total_signal]
    simp only [Call.left] at hset
    omega
  | _ =>
    simp only [Call.left] at hset
    exact Nat.add_lt_add_right (by omega) _

theorem rank_core {s : Lifecycle} {c : Nat} {t t' : CoreThread} {a : CoreThread.Act}
    (hc : s.cores[c]? = some t) (h : t.step a = some t') : (s.setCore c t').rank < s.rank := by
  have hset := Runs.total_set CoreThread.left hc t'
  have hleft := CoreThread.left_step h
  show Runs.total Call.left s.calls + Runs.total CoreThread.left (s.cores.set c t') < _
  unfold rank
  omega

/-- A call that does not wait for the lock can go on, or waits for a core thread that can. -/
theorem Owned.goes_on {s : Lifecycle} (hs : s.Owned) {i : Nat} {call : Call} (hi : s.calls[i]? = some call)
    (hl : call.locking = false) (hr : call.isReturned = false) :
    ∃ a s', a.own = true ∧ NoCall a ∧ s.step a = some s' := by
  have hgo : ∀ b s', s.step (.call i b) = some s' →
      ∃ a s', a.own = true ∧ NoCall a ∧ s.step a = some s' :=
    fun b s' h => ⟨.call i b, s', rfl, ⟨by simp, by simp⟩, h⟩
  have hjoin : ∀ c, call.joining = some c → (∃ t, s.cores[c]? = some t ∧ t.Doomed) →
      (s.joinable c = true → ∃ s', s.step (.call i .go) = some s') →
      ∃ a s', a.own = true ∧ NoCall a ∧ s.step a = some s' := by
    rintro c - ⟨t, ht, hd⟩ hret
    cases hal : t.alive with
    | true =>
      obtain ⟨a, t', hstep⟩ := hd.goes_on hal
      exact ⟨.core c a, s.setCore c t', rfl, ⟨by simp, by simp⟩, by simp only [step, ht, hstep]⟩
    | false =>
      obtain ⟨s', h⟩ := hret (by unfold joinable; rw [ht]; simp [hal])
      exact hgo .go s' h
  cases call with
  | returned rc => cases hr
  | start port transport pc =>
    cases pc with
    | lock => cases hl
    | check =>
      cases hinst : s.inst with
      | none => exact hgo .go _ (by simp only [step, hi, startStep, hinst]; rfl)
      | some c => exact hgo .go _ (by simp only [step, hi, startStep, hinst]; rfl)
    | resetRx => exact hgo .go _ (by simp only [step, hi, startStep]; rfl)
    | resetTx => exact hgo .go _ (by simp only [step, hi, startStep]; rfl)
    | spawn => exact hgo (.spawn true) _ (by simp only [step, hi, startStep]; rfl)
    | recv c =>
      obtain ⟨t, ht, -⟩ := (hs.fit i _ hi).core c rfl
      cases hready : t.ready with
      | none =>
        exact hgo .timeout _ (by simp only [step, hi, startStep, ht, Option.bind_some, hready]; rfl)
      | some r =>
        cases r with
        | ok _ =>
          exact hgo .recv _ (by simp only [step, hi, startStep, ht, Option.bind_some, hready]; rfl)
        | error e =>
          exact hgo .recv _ (by simp only [step, hi, startStep, ht, Option.bind_some, hready]; rfl)
    | signal c => exact hgo .go _ (by simp only [step, hi, startStep]; rfl)
    | join c rc =>
      refine hjoin c rfl ((hs.fit i _ hi).core c rfl) fun hj => ?_
      exact ⟨_, by simp only [step, hi, startStep, hj, if_true]; rfl⟩
    | store c => exact hgo .go _ (by simp only [step, hi, startStep]; rfl)
    | unlock rc => exact hgo .go _ (by simp only [step, hi, startStep]; rfl)
  | stop pc =>
    cases pc with
    | lock => cases hl
    | take => exact hgo .go _ (by simp only [step, hi, stopStep]; rfl)
    | unlock inst =>
      cases inst with
      | none => exact hgo .go _ (by simp only [step, hi, stopStep]; rfl)
      | some c => exact hgo .go _ (by simp only [step, hi, stopStep]; rfl)
    | signal c => exact hgo .go _ (by simp only [step, hi, stopStep]; rfl)
    | join c =>
      refine hjoin c rfl ((hs.fit i _ hi).core c rfl) fun hj => ?_
      exact ⟨_, by simp only [step, hi, stopStep, hj, if_true]; rfl⟩

/-- Whoever holds the lock can go on, or what it waits for can. -/
theorem Owned.progress {s : Lifecycle} (hs : s.Owned) (h : ¬ s.AllReturned) :
    ∃ a s', a.own = true ∧ NoCall a ∧ s.step a = some s' := by
  obtain ⟨call, hcall⟩ := not_forall.1 h
  obtain ⟨hmem, hr⟩ := Classical.not_imp.1 hcall
  obtain ⟨i, hi⟩ := List.mem_iff_getElem?.1 hmem
  have hr' : call.isReturned = false := by simpa using hr
  cases hl : call.locking with
  | false => exact hs.goes_on hi hl hr'
  | true =>
    cases hh : s.holder with
    | some j =>
      obtain ⟨callj, hj, hcrit⟩ := hs.holder j hh
      obtain ⟨hlock, hret⟩ := Call.busy_of_critical hcrit
      exact hs.goes_on hj hlock hret
    | none =>
      have hgo : ∀ s', s.step (.call i .go) = some s' →
          ∃ a s', a.own = true ∧ NoCall a ∧ s.step a = some s' :=
        fun s' h => ⟨.call i .go, s', rfl, ⟨by simp, by simp⟩, h⟩
      cases call with
      | start port transport pc =>
        cases pc with
        | lock => exact hgo _ (by simp only [step, hi, startStep, hh]; rfl)
        | _ => cases hl
      | stop pc =>
        cases pc with
        | lock => exact hgo _ (by simp only [step, hi, stopStep, hh]; rfl)
        | _ => cases hl
      | returned rc => cases hl

/-- A call that takes a step has not returned. -/
theorem CallMoves.unreturned {s s' : Lifecycle} {i : Nat} {call call' : Call} (h : s.CallMoves i call call' s') :
    call.isReturned = false := by
  cases h <;> rfl

/-- **The rank of the calls.** -/
theorem ranked : Runs.Ranked step (fun _ a => a.own) (fun _ a => NoCall a) Owned AllReturned rank where
  kept := fun s a s' hs _ h => owned_step hs h
  drops := by
    intro s a s' hs _ h ho
    cases moves_of_step h with
    | call i b call call' s' hi hm => exact rank_call hi hm
    | core c a t t' hc ht => exact rank_core hc ht
    | _ => cases ho
  stays := by
    intro s a s' hs hno h ho
    cases moves_of_step h with
    | rnStart port transport => exact absurd rfl (hno.2 port transport)
    | rnStop => exact absurd rfl hno.1
    | call i b call call' s' hi hm => cases ho
    | core c a t t' hc ht => cases ho
    | countRx c n t hc ht => exact Nat.le_refl _
    | countTx c n t hc ht => exact Nat.le_refl _
  enabled := fun s hs h => hs.progress h

end Lifecycle

/-- **When all calls have returned.**  However the calls of `rn_start` and `rn_stop` overlapped, the
lock is free, and the core threads alive are none, if `INSTANCE` is empty, or the one in `INSTANCE`,
which is in its accept loop and has not been told to shut down. -/
theorem settled (acts : List Lifecycle.Act) (s : Lifecycle)
    (h : Runs.exec Lifecycle.step .init acts = some s) (hr : s.AllReturned) :
    s.holder = none ∧ (∀ c, s.Alive c ↔ s.inst = some c) ∧
      ∀ c, s.inst = some c → ∃ t, s.cores[c]? = some t ∧ t.pc = .serve ∧ t.shutdown = false := by
  have hs := Lifecycle.run_owned h
  have hidle : ∀ (i : Nat) (call : Call), s.calls[i]? = some call →
      call.critical = false ∧ call.handles = none := by
    intro i call hi
    have hret := hr call (List.mem_of_getElem? hi)
    unfold Call.isReturned at hret
    split at hret
    · exact ⟨rfl, rfl⟩
    · cases hret
  refine ⟨?_, fun c => ⟨fun hal => ?_, fun hinst => ?_⟩, hs.serving⟩
  · cases hh : s.holder with
    | none => rfl
    | some i =>
      obtain ⟨call, hi, hcrit⟩ := hs.holder i hh
      rw [(hidle i call hi).1] at hcrit
      cases hcrit
  · rcases hs.owned c hal with h | ⟨i, call, hi, hc⟩
    · exact h
    · rw [(hidle i call hi).2] at hc
      cases hc
  · obtain ⟨t, ht, hpc, -⟩ := hs.serving c hinst
    exact ⟨t, ht, CoreThread.alive_of_ne (by rw [hpc]; simp)⟩

/-- An `rn_start` that overlaps an `rn_stop`: for a while two core threads are alive, and in the end
the second is. -/
theorem settled_run : ∃ acts s, Runs.exec Lifecycle.step .init acts = some s ∧
    s.inst = some 1 ∧ s.holder = none ∧ ∀ c, s.Alive c ↔ s.inst = some c := by
  have h : Runs.exec Lifecycle.step .init
      [.rnStart 27600 0, .call 0 .go, .call 0 .go, .call 0 .go, .call 0 .go,
        .call 0 (.spawn true), .core 0 (.build none), .core 0 (.bind none), .call 0 .recv, .call 0 .go,
        .call 0 .go, .rnStop, .call 1 .go, .call 1 .go, .call 1 .go, .rnStart 27601 1, .call 2 .go,
        .call 2 .go, .call 2 .go, .call 2 .go, .call 2 (.spawn true), .core 1 (.build none),
        .core 1 (.bind none), .call 2 .recv, .call 2 .go, .call 1 .go, .core 0 .shutdown, .call 2 .go,
        .core 0 .exit, .call 1 .go] = some _ := rfl
  exact ⟨_, _, h, rfl, rfl, (settled _ _ h (by decide)).2.1⟩

/-- **Every call returns.**  From any reachable state, if no further call is made, the calls and the
core threads take no more than the stated number of steps; a state in which none of them can take one
is one in which every call has returned; and such a state can be reached. -/
theorem calls_return (acts : List Lifecycle.Act) (s : Lifecycle)
    (h : Runs.exec Lifecycle.step .init acts = some s) :
    (∀ acts t, Runs.exec Lifecycle.step s acts = some t →
      Runs.Along Lifecycle.step (fun _ a => Lifecycle.NoCall a) s acts →
      Runs.ownSteps Lifecycle.step (fun _ a => a.own) s acts ≤
          16 * s.calls.length + 4 * s.cores.length ∧
        ((∀ a, a.own = true → t.step a = none) → t.AllReturned)) ∧
    ∃ acts t, Runs.exec Lifecycle.step s acts = some t ∧
      Runs.Along Lifecycle.step (fun _ a => a.own = true ∧ Lifecycle.NoCall a) s acts ∧ t.AllReturned := by
  have hs := Lifecycle.run_owned h
  refine ⟨fun acts t ht hal => ?_, Lifecycle.ranked.reach hs⟩
  obtain ⟨hst, hle⟩ := Lifecycle.ranked.bound hs hal ht
  refine ⟨?_, fun hno => Lifecycle.ranked.stuck hst fun a t' ho _ hstep => ?_⟩
  · have hrank := s.rank_le
    omega
  · rw [hno a ho] at hstep
    cases hstep

/-- `rn_stop` waits for a core thread that has not been told yet, and another call waits for the lock
that an `rn_start` holds while its core thread is silent. -/
theorem calls_return_run : ∃ acts s, Runs.exec Lifecycle.step .init acts = some s ∧
    s.holder = some 2 ∧ s.calls.length = 4 ∧
    ∃ acts t, Runs.exec Lifecycle.step s acts = some t ∧
      Runs.Along Lifecycle.step (fun _ a => a.own = true ∧ Lifecycle.NoCall a) s acts ∧ t.AllReturned := by
  have h : Runs.exec Lifecycle.step .init
      [.rnStart 27600 0, .call 0 .go, .call 0 .go, .call 0 .go, .call 0 .go,
        .call 0 (.spawn true), .core 0 (.build none), .core 0 (.bind none), .call 0 .recv, .call 0 .go,
        .call 0 .go, .rnStop, .call 1 .go, .call 1 .go, .call 1 .go, .rnStart 27601 1, .call 2 .go,
        .call 2 .go, .call 2 .go, .call 2 .go, .call 2 (.spawn true), .rnStop] = some _ := rfl
  exact ⟨_, _, h, rfl, rfl, (calls_return _ _ h).2⟩

end RickyNet
