import RickyNet.Core.Lifecycle

/-!
# One listener at a time

`rn_start` holds the lock on `INSTANCE` throughout, `rn_stop` only while it takes the instance out:
it tells the core thread to shut down and joins it afterwards.  In between `INSTANCE` is empty and
the thread is alive.

`Inv` is kept by every step but one: an `rn_start` that finds `INSTANCE` empty in that window.
`one_listener` is what it gives, and `overlap` what happens in the window.
-/

namespace RickyNet

namespace Lifecycle

/-- At most one core thread is alive. -/
def AtMostOne (s : Lifecycle) : Prop :=
  ∀ (c d : Nat) (t u : CoreThread), s.cores[c]? = some t → s.cores[d]? = some u →
    t.alive = true → u.alive = true → c = d

/-- At most one core thread is alive, and since an `rn_start` has reset a counter, no other core
thread than its own has incremented it. -/
structure OneListener (s : Lifecycle) : Prop where
  one : s.AtMostOne
  rx : ∀ k ∈ s.rxBy, s.rxReset = some k
  tx : ∀ k ∈ s.txBy, s.txReset = some k

/-- When `rn_start` finds `INSTANCE` empty, no `rn_stop` has taken a core thread that is still
alive. -/
def Alone (s : Lifecycle) (a : Act) : Prop :=
  ∀ (i : Nat) (b : CallAct) (port : UInt16) (transport : UInt32), a = .call i b →
    s.calls[i]? = some (.start port transport .check) → s.inst = none →
      ∀ call ∈ s.calls, ∀ c, call.stopping = some c → ¬ s.Alive c

instance (s : Lifecycle) (c : Nat) : Decidable (s.Alive c) :=
  decidable_of_iff ((s.cores[c]?).any CoreThread.alive = true) (by
    unfold Alive
    rw [Option.any_eq_true])

theorem checking_iff {call : Call} :
    call.checking = true ↔ ∃ port transport, call = .start port transport .check := by
  constructor
  · intro h
    unfold Call.checking at h
    split at h
    · next port transport => exact ⟨port, transport, rfl⟩
    · cases h
  · rintro ⟨port, transport, rfl⟩
    rfl

instance (s : Lifecycle) (a : Act) : Decidable (s.Alone a) :=
  match a with
  | .call i b =>
    decidable_of_iff (∀ call ∈ s.calls[i]?, call.checking = true → s.inst = none →
        ∀ call ∈ s.calls, ∀ c ∈ call.stopping, ¬ s.Alive c) (by
      constructor
      · rintro hall i' b' port transport ⟨⟩ hi
        exact hall _ hi rfl
      · intro hall call hi hcheck
        obtain ⟨port, transport, rfl⟩ := checking_iff.1 hcheck
        exact hall i b port transport rfl hi)
  | .rnStart port transport => isTrue fun _ _ _ _ h => by cases h
  | .rnStop => isTrue fun _ _ _ _ h => by cases h
  | .core c a => isTrue fun _ _ _ _ h => by cases h
  | .countRx c n => isTrue fun _ _ _ _ h => by cases h
  | .countTx c n => isTrue fun _ _ _ _ h => by cases h

/-! ## What the lock gives -/

/-- What holds of the `i`th call where it is. -/
def CallOk (s : Lifecycle) (i : Nat) : Call → Prop
  | .start _ _ .lock => True
  | .start _ _ .check => s.holder = some i
  | .start _ _ .resetRx => s.holder = some i ∧ s.inst = none ∧ s.Quiet
  | .start _ _ .resetTx => s.holder = some i ∧ s.inst = none ∧ s.Quiet ∧ s.rxReset = some i
  | .start _ _ .spawn =>
    s.holder = some i ∧ s.inst = none ∧ s.Quiet ∧ s.rxReset = some i ∧ s.txReset = some i
  | .start _ _ (.recv _) => s.holder = some i ∧ s.inst = none
  | .start _ _ (.signal _) => s.holder = some i ∧ s.inst = none
  | .start _ _ (.join _ _) => s.holder = some i ∧ s.inst = none
  | .start _ _ (.store _) => s.holder = some i ∧ s.inst = none
  | .start _ _ (.unlock _) => s.holder = some i
  | .stop .take => s.holder = some i
  | .stop (.unlock _) => s.holder = some i
  | _ => True

theorem CallOk.of_not_critical {s : Lifecycle} {i : Nat} {call : Call} (h : call.critical = false) :
    s.CallOk i call := by
  cases call with
  | start port transport pc =>
    cases pc with
    | lock => trivial
    | _ => cases h
  | stop pc =>
    cases pc with
    | take => cases h
    | unlock inst => cases h
    | _ => trivial
  | returned rc => trivial

theorem CallOk.holder {s : Lifecycle} {i : Nat} {call : Call} (h : s.CallOk i call)
    (hc : call.critical = true) : s.holder = some i := by
  cases call with
  | start port transport pc =>
    cases pc with
    | lock => cases hc
    | check => exact h
    | unlock rc => exact h
    | _ => exact h.1
  | stop pc =>
    cases pc with
    | take => exact h
    | unlock inst => exact h
    | _ => cases hc
  | returned rc => cases hc

/-- A step that leaves the lock, `INSTANCE` and the resets alone, and after which fewer core threads
are alive. -/
theorem CallOk.frame {s s' : Lifecycle} {i : Nat} {call : Call} (h : s.CallOk i call)
    (hh : s'.holder = s.holder) (hi : s'.inst = s.inst) (hf : s.Fewer s')
    (hr : s'.rxReset = s.rxReset) (ht : s'.txReset = s.txReset) : s'.CallOk i call := by
  have hq : s.Quiet → s'.Quiet := fun hq => hq.fewer hf
  cases call with
  | start port transport pc =>
    cases pc with
    | lock => trivial
    | check => exact hh.trans h
    | resetRx => exact ⟨hh.trans h.1, hi.trans h.2.1, hq h.2.2⟩
    | resetTx => exact ⟨hh.trans h.1, hi.trans h.2.1, hq h.2.2.1, hr.trans h.2.2.2⟩
    | spawn =>
      exact ⟨hh.trans h.1, hi.trans h.2.1, hq h.2.2.1, hr.trans h.2.2.2.1, ht.trans h.2.2.2.2⟩
    | unlock rc => exact hh.trans h
    | _ => exact ⟨hh.trans h.1, hi.trans h.2⟩
  | stop pc =>
    cases pc with
    | take => exact hh.trans h
    | unlock inst => exact hh.trans h
    | _ => trivial
  | returned rc => trivial

/-! ## The invariant -/

structure Inv (s : Lifecycle) : Prop where
  one : s.AtMostOne
  calls : ∀ (i : Nat) (call : Call), s.calls[i]? = some call → s.CallOk i call
  /-- a core thread that is alive is the instance, or is being started or stopped -/
  owned : ∀ c, s.Alive c → s.inst = some c ∨
    ∃ (i : Nat) (call : Call), s.calls[i]? = some call ∧ call.handles = some c
  /-- it has been spawned by the call that has reset the counters -/
  own : ∀ (c : Nat) (t : CoreThread), s.cores[c]? = some t → t.alive = true →
    s.rxReset = some t.starter ∧ s.txReset = some t.starter
  rx : ∀ k ∈ s.rxBy, s.rxReset = some k
  tx : ∀ k ∈ s.txBy, s.txReset = some k

theorem Inv.oneListener {s : Lifecycle} (h : s.Inv) : s.OneListener := ⟨h.one, h.rx, h.tx⟩

theorem init_inv : init.Inv where
  one := by
    intro c d t u hc
    cases hc
  calls := by
    intro i call hi
    cases hi
  owned := by
    rintro c ⟨t, ht, -⟩
    cases ht
  own := by
    intro c t hc
    cases hc
  rx := by
    intro k hk
    cases hk
  tx := by
    intro k hk
    cases hk

theorem AtMostOne.fewer {s s' : Lifecycle} (h : s.AtMostOne) (hf : s.Fewer s') : s'.AtMostOne := by
  intro c d t u hc hd ht hu
  obtain ⟨t', ht', hal, -⟩ := hf c t hc ht
  obtain ⟨u', hu', hal', -⟩ := hf d u hd hu
  exact h c d t' u' ht' hu' hal hal'

/-- A call whose turn it is while another one holds the lock is not in its critical section. -/
theorem Inv.not_critical {s : Lifecycle} (hs : s.Inv) {j : Nat} {call : Call}
    (hj : s.calls[j]? = some call) (hne : s.holder ≠ some j) : call.critical = false := by
  by_contra hc
  exact hne ((hs.calls j call hj).holder (by simpa using hc))

/-- A step of the `i`th call that spawns no thread. -/
theorem Inv.call_step {s s' : Lifecycle} (hs : s.Inv) {i : Nat} {call call' : Call}
    (hi : s.calls[i]? = some call) (hcalls : s'.calls = s.calls.set i call') (hok : s'.CallOk i call')
    (hothers : s.holder = some i ∨ s.holder = none ∨
      (s'.holder = s.holder ∧ s'.inst = s.inst ∧ s'.rxReset = s.rxReset ∧ s'.txReset = s.txReset))
    (hf : s.Fewer s')
    (hcov : ∀ c, s.Alive c → s.inst = some c ∨ call.handles = some c →
      s'.inst = some c ∨ call'.handles = some c)
    (hrx : s'.rxReset = s.rxReset ∧ s'.rxBy = s.rxBy ∨ s.Quiet ∧ s'.rxBy = [])
    (htx : s'.txReset = s.txReset ∧ s'.txBy = s.txBy ∨ s.Quiet ∧ s'.txBy = []) : s'.Inv := by
  obtain ⟨hlt, -⟩ := List.getElem?_eq_some_iff.1 hi
  have hself : s'.calls[i]? = some call' := by rw [hcalls, List.getElem?_set_self hlt]
  have hother : ∀ j, i ≠ j → s'.calls[j]? = s.calls[j]? := fun j hij => by
    rw [hcalls, List.getElem?_set_ne hij]
  refine ⟨hs.one.fewer hf, ?_, ?_, ?_, ?_, ?_⟩
  · intro j callj hj
    by_cases hij : i = j
    · subst hij
      rw [hself] at hj
      cases hj
      exact hok
    · rw [hother j hij] at hj
      rcases hothers with hh | hh | ⟨hh, hinst, hr, ht⟩
      · exact .of_not_critical (hs.not_critical hj (by rw [hh]; simpa using hij))
      · exact .of_not_critical (hs.not_critical hj (by rw [hh]; simp))
      · exact (hs.calls j callj hj).frame hh hinst hf hr ht
  · intro c hc
    have hal := hf.alive hc
    rcases hs.owned c hal with hinst | ⟨j, callj, hj, hhandles⟩
    · rcases hcov c hal (Or.inl hinst) with h | h
      · exact Or.inl h
      · exact Or.inr ⟨i, call', hself, h⟩
    · by_cases hij : i = j
      · subst hij
        rw [hi] at hj
        cases hj
        rcases hcov c hal (Or.inr hhandles) with h | h
        · exact Or.inl h
        · exact Or.inr ⟨i, call', hself, h⟩
      · exact Or.inr ⟨j, callj, by rw [hother j hij, hj], hhandles⟩
  · intro c t hc ht
    obtain ⟨u, hu, hal, hstart⟩ := hf c t hc ht
    obtain ⟨h1, h2⟩ := hs.own c u hu hal
    rw [hstart] at h1 h2
    constructor
    · rcases hrx with ⟨hr, -⟩ | ⟨hq, -⟩
      · rw [hr, h1]
      · exact absurd ⟨u, hu, hal⟩ (hq c)
    · rcases htx with ⟨hr, -⟩ | ⟨hq, -⟩
      · rw [hr, h2]
      · exact absurd ⟨u, hu, hal⟩ (hq c)
  · rcases hrx with ⟨hr, hby⟩ | ⟨-, hby⟩
    · rw [hr, hby]
      exact hs.rx
    · rw [hby]
      simp
  · rcases htx with ⟨hr, hby⟩ | ⟨-, hby⟩
    · rw [hr, hby]
      exact hs.tx
    · rw [hby]
      simp

/-- A step of a call in its critical section, or into it, that changes only the call and the lock. -/
theorem Inv.advance {s s' : Lifecycle} (hs : s.Inv) {i : Nat} {call call' : Call}
    (hi : s.calls[i]? = some call) (hcalls : s'.calls = s.calls.set i call') (hok : s'.CallOk i call')
    (hholder : s.holder = some i ∨ s.holder = none)
    (honly : { s with calls := s'.calls, holder := s'.holder } = s')
    (hhandles : call'.handles = call.handles) : s'.Inv := by
  have hcov : ∀ c, s.Alive c → s.inst = some c ∨ call.handles = some c →
      s'.inst = some c ∨ call'.handles = some c := by
    intro c _ hc
    rw [← honly, hhandles]
    exact hc
  have hcores : s'.cores = s.cores := by rw [← honly]
  refine hs.call_step hi hcalls hok (hholder.imp_right Or.inl) (.of_eq hcores) hcov (Or.inl ?_)
    (Or.inl ?_)
  · rw [← honly]
    exact ⟨rfl, rfl⟩
  · rw [← honly]
    exact ⟨rfl, rfl⟩

/-- The one step that spawns a core thread: there is no other. -/
theorem Inv.spawned {s : Lifecycle} (hs : s.Inv) {i : Nat} {port : UInt16} {transport : UInt32}
    (hi : s.calls[i]? = some (.start port transport .spawn)) :
    Inv { s.setCall i (.start port transport (.recv s.cores.length)) with
      cores := s.cores ++ [.spawn port transport i] } := by
  obtain ⟨hholder, hinst, hquiet, hrx, htx⟩ := hs.calls i _ hi
  obtain ⟨hlt, -⟩ := List.getElem?_eq_some_iff.1 hi
  have hnew : ∀ (c : Nat) (t : CoreThread), (s.cores ++ [.spawn port transport i])[c]? = some t →
      t.alive = true → c = s.cores.length ∧ t = .spawn port transport i :=
    fun c t hc ht => hquiet.spawned hc ht
  have hself : (s.calls.set i (.start port transport (.recv s.cores.length)))[i]? =
      some (.start port transport (.recv s.cores.length)) := List.getElem?_set_self hlt
  refine ⟨?_, ?_, ?_, ?_, hs.rx, hs.tx⟩
  · intro c d t u hc hd ht hu
    rw [(hnew c t hc ht).1, (hnew d u hd hu).1]
  · intro j callj hj
    by_cases hij : i = j
    · subst hij
      have hj' := hself.symm.trans hj
      cases hj'
      exact ⟨hholder, hinst⟩
    · have hj' : s.calls[j]? = some callj := by
        rw [← List.getElem?_set_ne hij]
        exact hj
      exact .of_not_critical (hs.not_critical hj' (by rw [hholder]; simpa using hij))
  · rintro c ⟨t, hc, ht⟩
    exact Or.inr ⟨i, _, hself, by rw [(hnew c t hc ht).1]; rfl⟩
  · intro c t hc ht
    rw [(hnew c t hc ht).2]
    exact ⟨hrx, htx⟩

/-- An `rn_start` that finds `INSTANCE` empty, and no `rn_stop` in the way, is alone. -/
theorem Inv.quiet {s : Lifecycle} (hs : s.Inv) {i : Nat} {port : UInt16} {transport : UInt32}
    (hi : s.calls[i]? = some (.start port transport .check)) (hinst : s.inst = none) {b : CallAct}
    (ha : s.Alone (.call i b)) : s.Quiet := by
  intro c hc
  rcases hs.owned c hc with h | ⟨j, call, hj, hhandles⟩
  · rw [hinst] at h
    cases h
  · by_cases hcrit : call.critical = true
    · -- the lock is held by the `rn_start` itself
      have hj' := (hs.calls j call hj).holder hcrit
      have hi' : s.holder = some i := hs.calls i _ hi
      rw [hi'] at hj'
      cases hj'
      rw [hi] at hj
      cases hj
      cases hhandles
    · refine ha i b port transport rfl hi hinst call (List.mem_of_getElem? hj) c ?_ hc
      cases call with
      | stop pc => exact hhandles
      | start port transport pc =>
        cases pc with
        | lock => cases hhandles
        | _ => exact absurd rfl hcrit
      | returned rc => cases hhandles

theorem callMoves_inv {s s' : Lifecycle} (hs : s.Inv) {i : Nat} {call call' : Call} {b : CallAct}
    (ha : s.Alone (.call i b)) (hi : s.calls[i]? = some call) (h : s.CallMoves i call call' s') :
    s'.Inv := by
  have hok := hs.calls i call hi
  have hcalls := h.calls
  cases h with
  | startLock port transport hh =>
    exact hs.advance hi hcalls rfl (Or.inr hh) rfl rfl
  | running port transport hn =>
    exact hs.advance hi hcalls hok (Or.inl hok) rfl rfl
  | free port transport hn =>
    exact hs.advance hi hcalls ⟨hok, hn, hs.quiet hi hn ha⟩ (Or.inl hok) rfl rfl
  | resetRx port transport =>
    obtain ⟨h1, h2, h3⟩ := hok
    exact hs.call_step hi hcalls ⟨h1, h2, h3, rfl⟩ (Or.inl h1) (.of_eq rfl) (fun c _ hc => hc)
      (Or.inr ⟨h3, rfl⟩) (Or.inl ⟨rfl, rfl⟩)
  | resetTx port transport =>
    obtain ⟨h1, h2, h3, h4⟩ := hok
    exact hs.call_step hi hcalls ⟨h1, h2, h3, h4, rfl⟩ (Or.inl h1) (.of_eq rfl) (fun c _ hc => hc)
      (Or.inl ⟨rfl, rfl⟩) (Or.inr ⟨h3, rfl⟩)
  | spawned port transport => exact hs.spawned hi
  | spawnFailed port transport =>
    exact hs.advance hi hcalls hok.1 (Or.inl hok.1) rfl rfl
  | ready port transport c t ht hr =>
    exact hs.advance hi hcalls hok (Or.inl hok.1) rfl rfl
  | failed port transport c =>
    exact hs.advance hi hcalls hok (Or.inl hok.1) rfl rfl
  | silent port transport c =>
    exact hs.advance hi hcalls hok (Or.inl hok.1) rfl rfl
  | startSignal port transport c =>
    exact hs.call_step hi hcalls hok (Or.inl hok.1) (s.fewer_signal c) (fun c _ hc => hc)
      (Or.inl ⟨rfl, rfl⟩) (Or.inl ⟨rfl, rfl⟩)
  | startJoin port transport c rc hj =>
    refine hs.call_step hi hcalls hok.1 (Or.inl hok.1) (.of_eq rfl) ?_ (Or.inl ⟨rfl, rfl⟩)
      (Or.inl ⟨rfl, rfl⟩)
    rintro d hd (hc | hc)
    · exact Or.inl hc
    · -- the thread that was joined is not alive
      cases hc
      exact absurd hd (not_alive_of_joinable hj)
  | store port transport c =>
    refine hs.call_step hi hcalls hok.1 (Or.inl hok.1) (.of_eq rfl) ?_ (Or.inl ⟨rfl, rfl⟩)
      (Or.inl ⟨rfl, rfl⟩)
    rintro d hd (hc | hc)
    · rw [hok.2] at hc
      cases hc
    · cases hc
      exact Or.inl rfl
  | startUnlock port transport rc =>
    exact hs.advance hi hcalls trivial (Or.inl hok) rfl rfl
  | stopLock hh =>
    exact hs.advance hi hcalls rfl (Or.inr hh) rfl rfl
  | take =>
    refine hs.call_step hi hcalls hok (Or.inl hok) (.of_eq rfl) ?_ (Or.inl ⟨rfl, rfl⟩)
      (Or.inl ⟨rfl, rfl⟩)
    rintro c hc (hinst | hh)
    · exact Or.inr hinst
    · cases hh
  | taken c =>
    exact hs.advance hi hcalls trivial (Or.inl hok) rfl rfl
  | nothing =>
    exact hs.advance hi hcalls trivial (Or.inl hok) rfl rfl
  | stopSignal c =>
    exact hs.call_step hi hcalls trivial (Or.inr (Or.inr ⟨rfl, rfl, rfl, rfl⟩)) (s.fewer_signal c)
      (fun c _ hc => hc) (Or.inl ⟨rfl, rfl⟩) (Or.inl ⟨rfl, rfl⟩)
  | stopJoin c hj =>
    refine hs.call_step hi hcalls trivial (Or.inr (Or.inr ⟨rfl, rfl, rfl, rfl⟩)) (.of_eq rfl) ?_
      (Or.inl ⟨rfl, rfl⟩) (Or.inl ⟨rfl, rfl⟩)
    rintro d hd (hc | hc)
    · exact Or.inl hc
    · cases hc
      exact absurd hd (not_alive_of_joinable hj)

/-- A new call is at its `lock`. -/
theorem Inv.begin {s : Lifecycle} (hs : s.Inv) {call : Call} (hc : call.critical = false) :
    Inv { s with calls := s.calls ++ [call] } := by
  refine ⟨hs.one, ?_, ?_, hs.own, hs.rx, hs.tx⟩
  · intro i callI hi
    by_cases hlt : i < s.calls.length
    · rw [List.getElem?_append_left hlt] at hi
      exact (hs.calls i callI hi).frame rfl rfl (.of_eq rfl) rfl rfl
    · have hmem := List.mem_of_getElem? hi
      have hlen := (List.getElem?_eq_some_iff.1 hi).1
      rw [List.length_append, List.length_singleton] at hlen
      have hieq : i = s.calls.length := by omega
      rw [hieq, List.getElem?_concat_length] at hi
      cases hi
      exact .of_not_critical hc
  · intro c hal
    rcases hs.owned c hal with h | ⟨j, callj, hj, hh⟩
    · exact Or.inl h
    · refine Or.inr ⟨j, callj, ?_, hh⟩
      rw [List.getElem?_append_left (List.getElem?_eq_some_iff.1 hj).1]
      exact hj

theorem Inv.core_step {s : Lifecycle} (hs : s.Inv) {c : Nat} {t t' : CoreThread}
    {a : CoreThread.Act} (hc : s.cores[c]? = some t) (h : t.step a = some t') :
    (s.setCore c t').Inv := by
  have hf := fewer_setCore hc h
  refine ⟨hs.one.fewer hf, ?_, ?_, ?_, hs.rx, hs.tx⟩
  · intro i call hi
    exact (hs.calls i call hi).frame rfl rfl hf rfl rfl
  · intro d hd
    exact hs.owned d (hf.alive hd)
  · intro d u hd hu
    obtain ⟨v, hv, hal, hstart⟩ := hf d u hd hu
    rw [← hstart]
    exact hs.own d v hv hal

theorem step_inv {s s' : Lifecycle} {a : Act} (hs : s.Inv) (ha : s.Alone a)
    (h : s.step a = some s') : s'.Inv := by
  cases moves_of_step h with
  | rnStart port transport => exact hs.begin rfl
  | rnStop => exact hs.begin rfl
  | call i b call call' s' hi hm => exact callMoves_inv hs ha hi hm
  | core c a t t' hc ht => exact hs.core_step hc ht
  | countRx c n t hc ht =>
    have hr := (hs.own c t hc (CoreThread.alive_of_counting ht)).1
    refine ⟨hs.one, hs.calls, hs.owned, hs.own, ?_, hs.tx⟩
    intro k hk
    rcases List.mem_append.1 hk with hk | hk
    · exact hs.rx k hk
    · rw [List.mem_singleton.1 hk]
      exact hr
  | countTx c n t hc ht =>
    have hr := (hs.own c t hc (CoreThread.alive_of_counting ht)).2
    refine ⟨hs.one, hs.calls, hs.owned, hs.own, hs.rx, ?_⟩
    intro k hk
    rcases List.mem_append.1 hk with hk | hk
    · exact hs.tx k hk
    · rw [List.mem_singleton.1 hk]
      exact hr

/-! ## The window -/

/-- **Two core threads.**  An `rn_start` that finds `INSTANCE` empty while a core thread is alive
spawns a second one in its next three steps. -/
theorem overlap {s s' : Lifecycle} {i : Nat} {b : CallAct} {port : UInt16} {transport : UInt32}
    (hi : s.calls[i]? = some (.start port transport .check)) (hinst : s.inst = none) {c : Nat}
    (hc : s.Alive c) (h : s.step (.call i b) = some s') :
    ∃ s'', Runs.exec step s' [.call i .go, .call i .go, .call i (.spawn true)] = some s'' ∧
      ¬ s''.AtMostOne := by
  obtain ⟨t, ht, hal⟩ := hc
  obtain ⟨hlt, -⟩ := List.getElem?_eq_some_iff.1 hi
  have hs' : s' = s.setCall i (.start port transport .resetRx) := by
    cases moves_of_step h with
    | call _ _ call call' _ hi' hm =>
      rw [hi] at hi'
      cases hi'
      cases hm with
      | running _ _ hn => exact absurd hinst hn
      | free _ _ _ => rfl
  have hget : ∀ call : Call, (s.calls.set i call)[i]? = some call := fun call =>
    List.getElem?_set_self hlt
  subst hs'
  refine ⟨{ s with
    cores := s.cores ++ [.spawn port transport i]
    calls := s.calls.set i (.start port transport (.recv s.cores.length))
    rxBytes := 0
    rxReset := some i
    rxBy := []
    txBytes := 0
    txReset := some i
    txBy := [] }, ?_, ?_⟩
  · simp only [Runs.exec, step, setCall, hget, startStep, List.set_set, Option.bind_some, if_true]
  · intro hone
    have hclt := (List.getElem?_eq_some_iff.1 ht).1
    have := hone c s.cores.length t (.spawn port transport i)
      (by simp only [List.getElem?_append_left hclt]; exact ht)
      (by simp only [List.getElem?_append_right (Nat.le_refl _), Nat.sub_self]; rfl) hal rfl
    omega

end Lifecycle

/-- **When there is one listener.**  In a run in which every `rn_start` that finds `INSTANCE` empty
does so when no `rn_stop` has taken a core thread that is still alive, at most one core thread is
alive at any time, and each counter is only incremented by the core thread of the `rn_start` that has
last reset it.  An `rn_start` that does so otherwise can go on to spawn a second core thread. -/
theorem one_listener (acts : List Lifecycle.Act) :
    (Runs.Along Lifecycle.step Lifecycle.Alone .init acts →
      Runs.Throughout Lifecycle.step Lifecycle.OneListener .init acts) ∧
    ∀ pre a s s', pre ++ [a] <+: acts → Runs.exec Lifecycle.step .init pre = some s →
      s.step a = some s' → ¬ s.Alone a →
        ∃ more s'', Runs.exec Lifecycle.step s' more = some s'' ∧ ¬ s''.OneListener := by
  constructor
  · intro h
    exact (Runs.throughout_of_along Lifecycle.Inv
      (fun _ _ _ hs ha hst => Lifecycle.step_inv hs ha hst) Lifecycle.init_inv h).mono
        fun _ hs => hs.oneListener
  · intro pre a s s' _ _ hst ha
    unfold Lifecycle.Alone at ha
    push Not at ha
    obtain ⟨i, b, port, transport, rfl, hi, hinst, -, -, c, -, hc⟩ := ha
    obtain ⟨s'', hex, hne⟩ := Lifecycle.overlap hi hinst hc hst
    exact ⟨_, s'', hex, fun h => hne h.one⟩

/-- A start, a stop that waits for the core thread, and another start. -/
theorem one_listener_run : ∃ acts s, Runs.exec Lifecycle.step .init acts = some s ∧
    s.cores.map CoreThread.pc = [.exited, .serve] ∧ s.txBy = [2] ∧
    Runs.Throughout Lifecycle.step Lifecycle.OneListener .init acts :=
  ⟨[.rnStart 27600 0, .call 0 .go, .call 0 .go, .call 0 .go, .call 0 .go, .call 0 (.spawn true),
      .core 0 (.build none), .core 0 (.bind none), .call 0 .recv, .call 0 .go, .call 0 .go,
      .countTx 0 5, .rnStop, .call 1 .go, .call 1 .go, .call 1 .go, .call 1 .go, .core 0 .shutdown,
      .core 0 .exit, .call 1 .go,
      .rnStart 27600 1, .call 2 .go, .call 2 .go, .call 2 .go, .call 2 .go, .call 2 (.spawn true),
      .core 1 (.build none), .core 1 (.bind none), .countTx 1 7], _, rfl, rfl, rfl,
    (one_listener _).1 (by decide +kernel)⟩

/-- `rn_start`, then `rn_stop` up to the release of the lock, then `rn_start` again: two core threads
are alive, and both have a listener, on two ports. -/
theorem two_listeners : ∃ acts s, Runs.exec Lifecycle.step .init acts = some s ∧
    s.cores.map CoreThread.pc = [.serve, .serve] ∧ ¬ s.OneListener :=
  ⟨[.rnStart 27600 0, .call 0 .go, .call 0 .go, .call 0 .go, .call 0 .go, .call 0 (.spawn true),
      .core 0 (.build none), .core 0 (.bind none), .call 0 .recv, .call 0 .go, .call 0 .go,
      .rnStop, .call 1 .go, .call 1 .go, .call 1 .go,
      .rnStart 27601 1, .call 2 .go, .call 2 .go, .call 2 .go, .call 2 .go, .call 2 (.spawn true),
      .core 1 (.build none), .core 1 (.bind none)], _, rfl, rfl,
    fun h => absurd (h.one 0 1 _ _ rfl rfl rfl rfl) (by decide)⟩

end RickyNet
