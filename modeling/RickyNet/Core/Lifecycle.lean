import RickyNet.Core.Device
import RickyNet.Lib.Runs

/-!
# Starting and stopping the core

`rn_start` and `rn_stop`, called from any number of threads, and the core threads they spawn.  One
step is one access to what the threads share: the lock on `INSTANCE`, `INSTANCE` itself, a counter,
a channel, a join.  How a spawn, the build of the runtime and a bind end is up to the system, and so
is when the five seconds of `rn_start` are over.

`moves_of_step` says what a step does; `Fewer` compares the core threads before and after.  The
lock is never poisoned.
-/

namespace RickyNet

/-! ## Return codes and transports -/

def RN_OK : Int := 0
def RN_ERR_NOT_RUNNING : Int := -1
def RN_ERR_ALREADY_RUNNING : Int := -2
def RN_ERR_BIND : Int := -3
def RN_ERR_RUNTIME : Int := -4

def TRANSPORT_USB : UInt32 := 0
def TRANSPORT_WIFI : UInt32 := 1

/-! ## Core threads -/

/-- Where a core thread is. -/
inductive CorePc
  /-- building the runtime -/
  | build
  /-- in `serve`, up to the answer of `bind` -/
  | bind
  /-- in the accept loop: the listener is bound -/
  | serve
  /-- out of `serve`, dropping what is left -/
  | drop
  | exited
deriving DecidableEq

structure CoreThread where
  port : UInt16
  transport : UInt32
  pc : CorePc
  /-- the flag of its shutdown channel -/
  shutdown : Bool
  /-- what it has sent on the ready channel -/
  ready : Option (Except String Unit)
  /-- the call of `rn_start` that has spawned it -/
  starter : Nat

namespace CoreThread

def spawn (port : UInt16) (transport : UInt32) (starter : Nat) : CoreThread :=
  ⟨port, transport, .build, false, none, starter⟩

def alive (t : CoreThread) : Bool := t.pc ≠ .exited

/-- Tasks of its runtime may be running. -/
def counting (t : CoreThread) : Bool := t.pc = .serve ∨ t.pc = .drop

/-- The address that `serve` binds. -/
def bindIp (transport : UInt32) : Except String String :=
  if transport = TRANSPORT_USB then .ok "127.0.0.1"
  else if transport = TRANSPORT_WIFI then .ok "0.0.0.0"
  else .error ("unknown transport " ++ toString transport.toNat)

inductive Act
  /-- the runtime is built, or not -/
  | build (err : Option String)
  /-- the listener is bound, or not -/
  | bind (err : Option String)
  /-- the thread panics before it has reported -/
  | panic
  /-- `wait_shutdown` resolves -/
  | shutdown
  | exit
deriving DecidableEq

def step (t : CoreThread) : Act → Option CoreThread
  | .build err =>
    match t.pc with
    | .build =>
      match err with
      | none => some { t with pc := .bind }
      | some e => some { t with pc := .drop, ready := some (.error ("tokio runtime: " ++ e)) }
    | _ => none
  | .bind err =>
    match t.pc with
    | .bind =>
      match bindIp t.transport with
      | .error e => some { t with pc := .drop, ready := some (.error e) }
      | .ok ip =>
        match err with
        | none => some { t with pc := .serve, ready := some (.ok ()) }
        | some e =>
          let addr := ip ++ ":" ++ toString t.port.toNat
          some { t with pc := .drop, ready := some (.error ("bind " ++ addr ++ ": " ++ e)) }
    | _ => none
  | .panic =>
    match t.pc with
    | .build => some { t with pc := .drop }
    | .bind => some { t with pc := .drop }
    | _ => none
  | .shutdown =>
    match t.pc with
    | .serve => if t.shutdown then some { t with pc := .drop } else none
    | _ => none
  | .exit =>
    match t.pc with
    | .drop => some { t with pc := .exited }
    | _ => none

/-- What a step does. -/
inductive Moves (t : CoreThread) : Act → CoreThread → Prop
  | built (hpc : t.pc = .build) : Moves t (.build none) { t with pc := .bind }
  | bound (hpc : t.pc = .bind) : Moves t (.bind none) { t with pc := .serve, ready := some (.ok ()) }
  | failed (a : Act) (e : String) (hpc : t.pc = .build ∨ t.pc = .bind) :
      Moves t a { t with pc := .drop, ready := some (.error e) }
  | panicked (hpc : t.pc = .build ∨ t.pc = .bind) : Moves t .panic { t with pc := .drop }
  | shutdown (hpc : t.pc = .serve) (hs : t.shutdown = true) :
      Moves t .shutdown { t with pc := .drop }
  | exit (hpc : t.pc = .drop) : Moves t .exit { t with pc := .exited }

theorem moves_of_step {t t' : CoreThread} {a : Act} (h : t.step a = some t') : t.Moves a t' := by
  cases a with
  | build err =>
    simp only [step] at h
    split at h
    · next hpc =>
      cases err with
      | none => cases h; exact .built hpc
      | some e => cases h; exact .failed _ _ (Or.inl hpc)
    · cases h
  | bind err =>
    simp only [step] at h
    split at h
    · next hpc =>
      split at h
      · cases h; exact .failed _ _ (Or.inr hpc)
      · cases err with
        | none => cases h; exact .bound hpc
        | some e => cases h; exact .failed _ _ (Or.inr hpc)
    · cases h
  | panic =>
    simp only [step] at h
    split at h
    · next hpc => cases h; exact .panicked (Or.inl hpc)
    · next hpc => cases h; exact .panicked (Or.inr hpc)
    · cases h
  | shutdown =>
    simp only [step] at h
    split at h
    · next hpc =>
      split at h
      · next hs => cases h; exact .shutdown hpc hs
      · cases h
    · cases h
  | exit =>
    simp only [step] at h
    split at h
    · next hpc => cases h; exact .exit hpc
    · cases h

theorem alive_of_ne {t : CoreThread} (h : t.pc ≠ .exited) : t.alive = true := by
  unfold alive
  exact decide_eq_true h

theorem alive_of_counting {t : CoreThread} (h : t.counting = true) : t.alive = true := by
  refine alive_of_ne fun hpc => ?_
  unfold counting at h
  rw [hpc] at h
  cases h

/-- A thread that makes a step is alive, and stays the same thread. -/
theorem same_of_step {t t' : CoreThread} {a : Act} (h : t.step a = some t') :
    t.alive = true ∧ t'.starter = t.starter ∧ t'.shutdown = t.shutdown := by
  cases moves_of_step h with
  | built hpc => exact ⟨alive_of_ne (by simp [hpc]), rfl, rfl⟩
  | bound hpc => exact ⟨alive_of_ne (by simp [hpc]), rfl, rfl⟩
  | failed a e hpc => exact ⟨alive_of_ne (by rcases hpc with hpc | hpc <;> simp [hpc]), rfl, rfl⟩
  | panicked hpc => exact ⟨alive_of_ne (by rcases hpc with hpc | hpc <;> simp [hpc]), rfl, rfl⟩
  | shutdown hpc hs => exact ⟨alive_of_ne (by simp [hpc]), rfl, rfl⟩
  | exit hpc => exact ⟨alive_of_ne (by simp [hpc]), rfl, rfl⟩

/-- It is in its accept loop and nobody has told it to leave. -/
def Serving (t : CoreThread) : Prop := t.pc = .serve ∧ t.shutdown = false

/-- A serving thread waits to be told. -/
theorem Serving.no_step {t t' : CoreThread} {a : Act} (h : t.Serving) : t.step a ≠ some t' := by
  intro hs
  cases moves_of_step hs with
  | built hpc => rw [h.1] at hpc; cases hpc
  | bound hpc => rw [h.1] at hpc; cases hpc
  | failed a e hpc => rw [h.1] at hpc; simp at hpc
  | panicked hpc => rw [h.1] at hpc; simp at hpc
  | shutdown hpc hsd => rw [h.2] at hsd; cases hsd
  | exit hpc => rw [h.1] at hpc; cases hpc

/-- A thread that has reported success serves until it is told to shut down. -/
structure Consistent (t : CoreThread) : Prop where
  silent : t.pc = .build ∨ t.pc = .bind → t.ready = none
  serving : t.ready = some (.ok ()) → t.pc = .serve ∨ t.shutdown = true

theorem spawn_consistent (port : UInt16) (transport : UInt32) (starter : Nat) :
    (spawn port transport starter).Consistent :=
  ⟨fun _ => rfl, fun h => by cases h⟩

theorem consistent_step {t t' : CoreThread} {a : Act} (ht : t.Consistent) (h : t.step a = some t') :
    t'.Consistent := by
  cases moves_of_step h with
  | built hpc => exact ⟨fun _ => ht.silent (Or.inl hpc), fun hr => by simp [ht.silent (Or.inl hpc)] at hr⟩
  | bound hpc => exact ⟨by simp, fun _ => Or.inl rfl⟩
  | failed a e hpc => exact ⟨by simp, by simp⟩
  | panicked hpc => exact ⟨by simp, fun hr => by simp [ht.silent hpc] at hr⟩
  | shutdown hpc hs => exact ⟨by simp, fun _ => Or.inr hs⟩
  | exit hpc =>
    refine ⟨by simp, fun hr => ?_⟩
    rcases ht.serving hr with hs | hs
    · rw [hpc] at hs
      cases hs
    · exact Or.inr hs

end CoreThread

/-! ## Calls -/

/-- Where a call of `rn_start` is; the lock is held from `check` to `unlock`. -/
inductive RnStart
  | lock
  /-- before `guard.is_some()` -/
  | check
  | resetRx
  | resetTx
  | spawn
  /-- in `ready_rx.recv_timeout`, for the core thread it has spawned -/
  | recv (core : Nat)
  /-- before `shutdown_tx.send(true)` -/
  | signal (core : Nat)
  /-- in `handle.join()` -/
  | join (core : Nat) (rc : Int)
  /-- before `*guard = Some(..)` -/
  | store (core : Nat)
  /-- before the guard is dropped -/
  | unlock (rc : Int)
deriving DecidableEq

/-- Where a call of `rn_stop` is; the lock is held for `take` and `unlock`. -/
inductive RnStop
  | lock
  /-- before `g.take()` -/
  | take
  /-- before the guard is dropped, with what was taken -/
  | unlock (inst : Option Nat)
  | signal (core : Nat)
  | join (core : Nat)
deriving DecidableEq

inductive Call
  | start (port : UInt16) (transport : UInt32) (pc : RnStart)
  | stop (pc : RnStop)
  | returned (rc : Int)
deriving DecidableEq

namespace Call

/-- It holds the lock. -/
def critical : Call → Bool
  | .start _ _ .lock => false
  | .start _ _ _ => true
  | .stop .take => true
  | .stop (.unlock _) => true
  | _ => false

/-- It is an `rn_start` about to look at `INSTANCE`. -/
def checking : Call → Bool
  | .start _ _ .check => true
  | _ => false

/-- The core thread that it has spawned and not stored, or taken and not yet joined. -/
def handles : Call → Option Nat
  | .start _ _ (.recv core) => some core
  | .start _ _ (.signal core) => some core
  | .start _ _ (.join core _) => some core
  | .start _ _ (.store core) => some core
  | .stop (.unlock inst) => inst
  | .stop (.signal core) => some core
  | .stop (.join core) => some core
  | _ => none

/-- The core thread that `rn_stop` has taken. -/
def stopping : Call → Option Nat
  | .stop pc => (Call.stop pc).handles
  | _ => none

end Call

/-! ## The library -/

structure Lifecycle where
  /-- the call that holds the lock on `INSTANCE` -/
  holder : Option Nat
  /-- `INSTANCE`, by its core thread -/
  inst : Option Nat
  cores : List CoreThread
  calls : List Call
  rxBytes : UInt64
  txBytes : UInt64
  /-- the last call of `rn_start` that has reset `RX_BYTES` -/
  rxReset : Option Nat
  /-- the starters of the core threads that have incremented `RX_BYTES` since -/
  rxBy : List Nat
  txReset : Option Nat
  txBy : List Nat

namespace Lifecycle

def init : Lifecycle := ⟨none, none, [], [], 0, 0, none, [], none, []⟩

inductive CallAct
  /-- it takes the next step -/
  | go
  /-- `Builder::spawn` returns -/
  | spawn (ok : Bool)
  /-- `recv_timeout` returns what was sent -/
  | recv
  /-- `recv_timeout` returns without: the time is over, or the sender is gone -/
  | timeout
deriving DecidableEq

inductive Act
  | rnStart (port : UInt16) (transport : UInt32)
  | rnStop
  /-- the `i`th call does something -/
  | call (i : Nat) (a : CallAct)
  /-- the `c`th core thread does something -/
  | core (c : Nat) (a : CoreThread.Act)
  /-- a task of the `c`th core thread increments a counter -/
  | countRx (c : Nat) (n : UInt64)
  | countTx (c : Nat) (n : UInt64)
deriving DecidableEq

def setCall (s : Lifecycle) (i : Nat) (call : Call) : Lifecycle :=
  { s with calls := s.calls.set i call }

def setCore (s : Lifecycle) (c : Nat) (t : CoreThread) : Lifecycle :=
  { s with cores := s.cores.set c t }

/-- `shutdown.send(true)`. -/
def signal (s : Lifecycle) (c : Nat) : Lifecycle :=
  { s with cores := s.cores.modify c fun t => { t with shutdown := true } }

/-- The core thread has ended, so `join` returns. -/
def joinable (s : Lifecycle) (c : Nat) : Bool :=
  match s.cores[c]? with
  | some t => !t.alive
  | none => false

/-- The next step of a call of `rn_start`. -/
def startStep (s : Lifecycle) (i : Nat) (port : UInt16) (transport : UInt32) :
    RnStart → CallAct → Option Lifecycle
  | .lock, .go =>
    match s.holder with
    | none => some { s.setCall i (.start port transport .check) with holder := some i }
    | some _ => none
  | .check, .go =>
    if s.inst.isSome then
      some (s.setCall i (.start port transport (.unlock RN_ERR_ALREADY_RUNNING)))
    else some (s.setCall i (.start port transport .resetRx))
  | .resetRx, .go => some { s.setCall i (.start port transport .resetTx) with
      rxBytes := 0
      rxReset := some i
      rxBy := [] }
  | .resetTx, .go => some { s.setCall i (.start port transport .spawn) with
      txBytes := 0
      txReset := some i
      txBy := [] }
  | .spawn, .spawn ok =>
    if ok then some { s.setCall i (.start port transport (.recv s.cores.length)) with
      cores := s.cores ++ [.spawn port transport i] }
    else some (s.setCall i (.start port transport (.unlock RN_ERR_RUNTIME)))
  | .recv c, .recv =>
    match (s.cores[c]?).bind CoreThread.ready with
    | some (.ok _) => some (s.setCall i (.start port transport (.store c)))
    | some (.error _) => some (s.setCall i (.start port transport (.join c RN_ERR_BIND)))
    | none => none
  | .recv c, .timeout =>
    match (s.cores[c]?).bind CoreThread.ready with
    | some _ => none
    | none => some (s.setCall i (.start port transport (.signal c)))
  | .signal c, .go => some ((s.signal c).setCall i (.start port transport (.join c RN_ERR_RUNTIME)))
  | .join c rc, .go =>
    if s.joinable c then some (s.setCall i (.start port transport (.unlock rc))) else none
  | .store c, .go =>
    some { s.setCall i (.start port transport (.unlock RN_OK)) with inst := some c }
  | .unlock rc, .go => some { s.setCall i (.returned rc) with holder := none }
  | _, _ => none

/-- The next step of a call of `rn_stop`. -/
def stopStep (s : Lifecycle) (i : Nat) : RnStop → CallAct → Option Lifecycle
  | .lock, .go =>
    match s.holder with
    | none => some { s.setCall i (.stop .take) with holder := some i }
    | some _ => none
  | .take, .go => some { s.setCall i (.stop (.unlock s.inst)) with inst := none }
  | .unlock inst, .go =>
    match inst with
    | some c => some { s.setCall i (.stop (.signal c)) with holder := none }
    | none => some { s.setCall i (.returned RN_ERR_NOT_RUNNING) with holder := none }
  | .signal c, .go => some ((s.signal c).setCall i (.stop (.join c)))
  | .join c, .go => if s.joinable c then some (s.setCall i (.returned RN_OK)) else none
  | _, _ => none

def step (s : Lifecycle) : Act → Option Lifecycle
  | .rnStart port transport => some { s with calls := s.calls ++ [.start port transport .lock] }
  | .rnStop => some { s with calls := s.calls ++ [.stop .lock] }
  | .call i a =>
    match s.calls[i]? with
    | some (.start port transport pc) => s.startStep i port transport pc a
    | some (.stop pc) => s.stopStep i pc a
    | _ => none
  | .core c a =>
    match s.cores[c]? with
    | some t =>
      match t.step a with
      | some t => some (s.setCore c t)
      | none => none
    | none => none
  | .countRx c n =>
    match s.cores[c]? with
    | some t =>
      if t.counting then some { s with rxBytes := s.rxBytes + n, rxBy := s.rxBy ++ [t.starter] }
      else none
    | none => none
  | .countTx c n =>
    match s.cores[c]? with
    | some t =>
      if t.counting then some { s with txBytes := s.txBytes + n, txBy := s.txBy ++ [t.starter] }
      else none
    | none => none

/-- What a step of the `i`th call does. -/
inductive CallMoves (s : Lifecycle) (i : Nat) : Call → Call → Lifecycle → Prop
  | startLock (port : UInt16) (transport : UInt32) (h : s.holder = none) :
      CallMoves s i (.start port transport .lock) (.start port transport .check)
        { s.setCall i (.start port transport .check) with holder := some i }
  | running (port : UInt16) (transport : UInt32) (h : s.inst ≠ none) :
      CallMoves s i (.start port transport .check)
        (.start port transport (.unlock RN_ERR_ALREADY_RUNNING))
        (s.setCall i (.start port transport (.unlock RN_ERR_ALREADY_RUNNING)))
  | free (port : UInt16) (transport : UInt32) (h : s.inst = none) :
      CallMoves s i (.start port transport .check) (.start port transport .resetRx)
        (s.setCall i (.start port transport .resetRx))
  | resetRx (port : UInt16) (transport : UInt32) :
      CallMoves s i (.start port transport .resetRx) (.start port transport .resetTx)
        { s.setCall i (.start port transport .resetTx) with
          rxBytes := 0
          rxReset := some i
          rxBy := [] }
  | resetTx (port : UInt16) (transport : UInt32) :
      CallMoves s i (.start port transport .resetTx) (.start port transport .spawn)
        { s.setCall i (.start port transport .spawn) with
          txBytes := 0
          txReset := some i
          txBy := [] }
  | spawned (port : UInt16) (transport : UInt32) :
      CallMoves s i (.start port transport .spawn) (.start port transport (.recv s.cores.length))
        { s.setCall i (.start port transport (.recv s.cores.length)) with
          cores := s.cores ++ [.spawn port transport i] }
  | spawnFailed (port : UInt16) (transport : UInt32) :
      CallMoves s i (.start port transport .spawn) (.start port transport (.unlock RN_ERR_RUNTIME))
        (s.setCall i (.start port transport (.unlock RN_ERR_RUNTIME)))
  | ready (port : UInt16) (transport : UInt32) (c : Nat) (t : CoreThread) (ht : s.cores[c]? = some t)
      (hr : t.ready = some (.ok ())) :
      CallMoves s i (.start port transport (.recv c)) (.start port transport (.store c))
        (s.setCall i (.start port transport (.store c)))
  | failed (port : UInt16) (transport : UInt32) (c : Nat) :
      CallMoves s i (.start port transport (.recv c)) (.start port transport (.join c RN_ERR_BIND))
        (s.setCall i (.start port transport (.join c RN_ERR_BIND)))
  | silent (port : UInt16) (transport : UInt32) (c : Nat) :
      CallMoves s i (.start port transport (.recv c)) (.start port transport (.signal c))
        (s.setCall i (.start port transport (.signal c)))
  | startSignal (port : UInt16) (transport : UInt32) (c : Nat) :
      CallMoves s i (.start port transport (.signal c)) (.start port transport (.join c RN_ERR_RUNTIME))
        ((s.signal c).setCall i (.start port transport (.join c RN_ERR_RUNTIME)))
  | startJoin (port : UInt16) (transport : UInt32) (c : Nat) (rc : Int) (h : s.joinable c = true) :
      CallMoves s i (.start port transport (.join c rc)) (.start port transport (.unlock rc))
        (s.setCall i (.start port transport (.unlock rc)))
  | store (port : UInt16) (transport : UInt32) (c : Nat) :
      CallMoves s i (.start port transport (.store c)) (.start port transport (.unlock RN_OK))
        { s.setCall i (.start port transport (.unlock RN_OK)) with inst := some c }
  | startUnlock (port : UInt16) (transport : UInt32) (rc : Int) :
      CallMoves s i (.start port transport (.unlock rc)) (.returned rc)
        { s.setCall i (.returned rc) with holder := none }
  | stopLock (h : s.holder = none) :
      CallMoves s i (.stop .lock) (.stop .take) { s.setCall i (.stop .take) with holder := some i }
  | take : CallMoves s i (.stop .take) (.stop (.unlock s.inst))
      { s.setCall i (.stop (.unlock s.inst)) with inst := none }
  | taken (c : Nat) : CallMoves s i (.stop (.unlock (some c))) (.stop (.signal c))
      { s.setCall i (.stop (.signal c)) with holder := none }
  | nothing : CallMoves s i (.stop (.unlock none)) (.returned RN_ERR_NOT_RUNNING)
      { s.setCall i (.returned RN_ERR_NOT_RUNNING) with holder := none }
  | stopSignal (c : Nat) : CallMoves s i (.stop (.signal c)) (.stop (.join c))
      ((s.signal c).setCall i (.stop (.join c)))
  | stopJoin (c : Nat) (h : s.joinable c = true) : CallMoves s i (.stop (.join c)) (.returned RN_OK)
      (s.setCall i (.returned RN_OK))

theorem callMoves_of_startStep {s s' : Lifecycle} {i : Nat} {port : UInt16} {transport : UInt32}
    {pc : RnStart} {a : CallAct} (h : s.startStep i port transport pc a = some s') :
    ∃ call', s.CallMoves i (.start port transport pc) call' s' := by
  unfold startStep at h
  split at h
  · split at h
    · next hh => cases h; exact ⟨_, .startLock _ _ hh⟩
    · cases h
  · split at h
    · next hi => cases h; exact ⟨_, .running _ _ (Option.isSome_iff_ne_none.1 hi)⟩
    · next hi => cases h; exact ⟨_, .free _ _ (Option.not_isSome_iff_eq_none.1 hi)⟩
  · cases h; exact ⟨_, .resetRx _ _⟩
  · cases h; exact ⟨_, .resetTx _ _⟩
  · next ok =>
    cases ok with
    | true => cases h; exact ⟨_, .spawned _ _⟩
    | false => cases h; exact ⟨_, .spawnFailed _ _⟩
  · split at h
    · next hr =>
      cases h
      obtain ⟨t, ht, hrt⟩ := Option.bind_eq_some_iff.1 hr
      exact ⟨_, .ready _ _ _ t ht hrt⟩
    · cases h; exact ⟨_, .failed _ _ _⟩
    · cases h
  · split at h
    · cases h
    · cases h; exact ⟨_, .silent _ _ _⟩
  · cases h; exact ⟨_, .startSignal _ _ _⟩
  · split at h
    · next hj => cases h; exact ⟨_, .startJoin _ _ _ _ hj⟩
    · cases h
  · cases h; exact ⟨_, .store _ _ _⟩
  · cases h; exact ⟨_, .startUnlock _ _ _⟩
  · cases h

theorem callMoves_of_stopStep {s s' : Lifecycle} {i : Nat} {pc : RnStop} {a : CallAct}
    (h : s.stopStep i pc a = some s') : ∃ call', s.CallMoves i (.stop pc) call' s' := by
  unfold stopStep at h
  split at h
  · split at h
    · next hh => cases h; exact ⟨_, .stopLock hh⟩
    · cases h
  · cases h; exact ⟨_, .take⟩
  · split at h
    · cases h; exact ⟨_, .taken _⟩
    · cases h; exact ⟨_, .nothing⟩
  · cases h; exact ⟨_, .stopSignal _⟩
  · split at h
    · next hj => cases h; exact ⟨_, .stopJoin _ hj⟩
    · cases h
  · cases h

/-- What a step does. -/
inductive Moves (s : Lifecycle) : Act → Lifecycle → Prop
  | rnStart (port : UInt16) (transport : UInt32) : Moves s (.rnStart port transport)
      { s with calls := s.calls ++ [.start port transport .lock] }
  | rnStop : Moves s .rnStop { s with calls := s.calls ++ [.stop .lock] }
  | call (i : Nat) (a : CallAct) (call call' : Call) (s' : Lifecycle) (hi : s.calls[i]? = some call)
      (h : s.CallMoves i call call' s') : Moves s (.call i a) s'
  | core (c : Nat) (a : CoreThread.Act) (t t' : CoreThread) (hc : s.cores[c]? = some t)
      (h : t.step a = some t') : Moves s (.core c a) (s.setCore c t')
  | countRx (c : Nat) (n : UInt64) (t : CoreThread) (hc : s.cores[c]? = some t)
      (h : t.counting = true) : Moves s (.countRx c n)
        { s with rxBytes := s.rxBytes + n, rxBy := s.rxBy ++ [t.starter] }
  | countTx (c : Nat) (n : UInt64) (t : CoreThread) (hc : s.cores[c]? = some t)
      (h : t.counting = true) : Moves s (.countTx c n)
        { s with txBytes := s.txBytes + n, txBy := s.txBy ++ [t.starter] }

theorem moves_of_step {s s' : Lifecycle} {a : Act} (h : s.step a = some s') : s.Moves a s' := by
  cases a with
  | rnStart port transport => cases h; exact .rnStart port transport
  | rnStop => cases h; exact .rnStop
  | call i a =>
    simp only [step] at h
    split at h
    · next port transport pc hi =>
      obtain ⟨call', hm⟩ := callMoves_of_startStep h
      exact .call i a _ call' s' hi hm
    · next pc hi =>
      obtain ⟨call', hm⟩ := callMoves_of_stopStep h
      exact .call i a _ call' s' hi hm
    · cases h
  | core c a =>
    simp only [step] at h
    split at h
    · next t hc =>
      split at h
      · next t' ht => cases h; exact .core c a t t' hc ht
      · cases h
    · cases h
  | countRx c n =>
    simp only [step] at h
    split at h
    · next t hc =>
      split at h
      · next ht => cases h; exact .countRx c n t hc ht
      · cases h
    · cases h
  | countTx c n =>
    simp only [step] at h
    split at h
    · next t hc =>
      split at h
      · next ht => cases h; exact .countTx c n t hc ht
      · cases h
    · cases h

/-- A step of a call changes no other call. -/
theorem CallMoves.calls {s s' : Lifecycle} {i : Nat} {call call' : Call}
    (h : s.CallMoves i call call' s') : s'.calls = s.calls.set i call' := by
  cases h <;> rfl

/-! ## Core threads come and go -/

/-- The `c`th core thread is alive. -/
def Alive (s : Lifecycle) (c : Nat) : Prop := ∃ t, s.cores[c]? = some t ∧ t.alive = true

/-- No core thread is alive. -/
def Quiet (s : Lifecycle) : Prop := ∀ c, ¬ s.Alive c

/-- The core threads alive afterwards were alive before, and are the same. -/
def Fewer (s s' : Lifecycle) : Prop :=
  ∀ (c : Nat) (t' : CoreThread), s'.cores[c]? = some t' → t'.alive = true →
    ∃ t, s.cores[c]? = some t ∧ t.alive = true ∧ t.starter = t'.starter

theorem Fewer.of_eq {s s' : Lifecycle} (h : s'.cores = s.cores) : s.Fewer s' := by
  intro c t' hc ht
  rw [h] at hc
  exact ⟨t', hc, ht, rfl⟩

theorem Fewer.alive {s s' : Lifecycle} (h : s.Fewer s') {c : Nat} (hc : s'.Alive c) : s.Alive c := by
  obtain ⟨t', ht', hal⟩ := hc
  obtain ⟨t, ht, hal', -⟩ := h c t' ht' hal
  exact ⟨t, ht, hal'⟩

theorem Quiet.fewer {s s' : Lifecycle} (h : s.Quiet) (hf : s.Fewer s') : s'.Quiet :=
  fun c hc => h c (hf.alive hc)

/-- Where no core thread is alive, a spawned one is the only one. -/
theorem Quiet.spawned {s : Lifecycle} (h : s.Quiet) {new t : CoreThread} {c : Nat}
    (hc : (s.cores ++ [new])[c]? = some t) (ht : t.alive = true) : c = s.cores.length ∧ t = new := by
  by_cases hlt : c < s.cores.length
  · rw [List.getElem?_append_left hlt] at hc
    exact absurd ⟨t, hc, ht⟩ (h c)
  · have hlen := (List.getElem?_eq_some_iff.1 hc).1
    rw [List.length_append, List.length_singleton] at hlen
    have hceq : c = s.cores.length := by omega
    rw [hceq, List.getElem?_concat_length] at hc
    cases hc
    exact ⟨hceq, rfl⟩

theorem signal_getElem? (s : Lifecycle) (c d : Nat) : (s.signal c).cores[d]? =
    (s.cores[d]?).map fun t => if c = d then { t with shutdown := true } else t := by
  unfold signal
  simp only
  rw [List.getElem?_modify]
  by_cases h : c = d
  · simp [h]
  · simp [h]

theorem fewer_signal (s : Lifecycle) (c : Nat) : s.Fewer (s.signal c) := by
  intro d t' hd ht
  rw [signal_getElem?] at hd
  obtain ⟨t, htd, rfl⟩ := Option.map_eq_some_iff.1 hd
  refine ⟨t, htd, ?_, ?_⟩
  · split at ht
    · exact ht
    · exact ht
  · split
    · rfl
    · rfl

theorem fewer_setCore {s : Lifecycle} {c : Nat} {t t' : CoreThread} {a : CoreThread.Act}
    (hc : s.cores[c]? = some t) (h : t.step a = some t') : s.Fewer (s.setCore c t') := by
  intro d u hd hu
  by_cases hcd : c = d
  · subst hcd
    obtain ⟨hlt, -⟩ := List.getElem?_eq_some_iff.1 hc
    have hset : (s.setCore c t').cores[c]? = some t' := List.getElem?_set_self hlt
    rw [hset] at hd
    cases hd
    obtain ⟨h1, h2, -⟩ := CoreThread.same_of_step h
    exact ⟨t, hc, h1, h2.symm⟩
  · have hset : (s.setCore c t').cores[d]? = s.cores[d]? := List.getElem?_set_ne hcd
    rw [hset] at hd
    exact ⟨u, hd, hu, rfl⟩

theorem not_alive_of_joinable {s : Lifecycle} {c : Nat} (h : s.joinable c = true) : ¬ s.Alive c := by
  rintro ⟨t, ht, hal⟩
  unfold joinable at h
  rw [ht] at h
  simp [hal] at h

end Lifecycle

end RickyNet
