import Mathlib.Data.List.Perm.Basic
import Mathlib.Logic.Function.Iterate
import RickyNet.Core.Toggle

/-!
# Staying alive in the background

`KeepAlive` with the app's button above it and the audio system around it.  The system stops the silent
track when it likes, and says so by a notification or a callback, which comes some time later; each call
of AVFoundation may fail.  `start` and `stop` are called by `toggle` alone, and a handler is one step: it
is taken to run on the main thread, as `toggle` does, and not beside it.

`kept_alive`: `KeepAlive` is on if and only if the listener is up, and while it is on the track plays, or
something that will set it going again is on its way, or an attempt to play has failed, or an
interruption lasts.  `Holds` is that for the audio alone; `Background.Inv` connects it with the status.
-/

namespace RickyNet

structure AudioPlayer where
  id : Nat
  playing : Bool

/-- What the audio system has still to tell. -/
inductive Note
  /-- `interruptionNotification`, of type `.began` or `.ended` -/
  | began
  | ended
  | routeChange
  | mediaReset
  /-- `audioPlayerDidFinishPlaying` and `audioPlayerDecodeErrorDidOccur`, of a player -/
  | finishPlaying (player : Nat)
  | decodeError (player : Nat)
deriving DecidableEq

/-- How the calls of AVFoundation end, where they are made. -/
structure AudioOutcome where
  /-- `setCategory` and `setActive(true)` -/
  activate : Bool
  /-- `AVAudioPlayer(contentsOf:)` -/
  build : Bool
  play : Bool

structure KeepAlive where
  active : Bool
  player : Option AudioPlayer
  /-- the registrations with the notification center -/
  observers : Nat
  /-- the audio session is active -/
  session : Bool
  /-- the players that were built -/
  players : Nat
  /-- the last attempt to play has failed -/
  failed : Bool
  /-- the last `setActive(false)` has failed -/
  refused : Bool

namespace KeepAlive

def init : KeepAlive := ⟨false, none, 0, false, 0, false, false⟩

/-- `player?.isPlaying`. -/
def isPlaying (k : KeepAlive) : Option Bool := k.player.map (·.playing)

def activateSession (k : KeepAlive) (o : AudioOutcome) : KeepAlive :=
  if o.activate then { k with session := true } else k

def buildAndPlay (k : KeepAlive) (o : AudioOutcome) : KeepAlive :=
  if o.build then { k with
    player := some ⟨k.players, o.play⟩
    players := k.players + 1
    failed := !o.play }
  else { k with failed := k.isPlaying ≠ some true }

/-- `player?.play()`. -/
def play (k : KeepAlive) (o : AudioOutcome) : KeepAlive :=
  match k.player with
  | none => k
  | some p => { k with player := some { p with playing := p.playing || o.play }, failed := !(p.playing || o.play) }

def registerObservers (k : KeepAlive) : KeepAlive := { k with observers := k.observers + 1 }

def start (k : KeepAlive) (o : AudioOutcome) : KeepAlive :=
  if k.active then k
  else (({ k with active := true }.activateSession o).buildAndPlay o).registerObservers

/-- `released` is how `setActive(false)` ends. -/
def stop (k : KeepAlive) (released : Bool) : KeepAlive :=
  if k.active then { k with
    active := false
    observers := 0
    player := none
    session := k.session && !released
    refused := !released }
  else k

def onInterruption (k : KeepAlive) (ended : Bool) (o : AudioOutcome) : KeepAlive :=
  if k.active then if ended then (k.activateSession o).play o else k else k

def onRouteChange (k : KeepAlive) (o : AudioOutcome) : KeepAlive :=
  if k.active then if k.isPlaying = some false then (k.activateSession o).play o else k else k

def onMediaReset (k : KeepAlive) (o : AudioOutcome) : KeepAlive :=
  if k.active then ({ k with player := none }.activateSession o).buildAndPlay o else k

/-- The two callbacks of the player do the same. -/
def restart (k : KeepAlive) (o : AudioOutcome) : KeepAlive := if k.active then k.buildAndPlay o else k

/-- What is done about a note: by each registration, or by the player's delegate. -/
def handle (k : KeepAlive) (o : AudioOutcome) : Note → KeepAlive
  | .began => (fun k => k.onInterruption false o)^[k.observers] k
  | .ended => (fun k => k.onInterruption true o)^[k.observers] k
  | .routeChange => (fun k => k.onRouteChange o)^[k.observers] k
  | .mediaReset => (fun k => k.onMediaReset o)^[k.observers] k
  | .finishPlaying _ => k.restart o
  | .decodeError _ => k.restart o

/-- The system stops the track. -/
def lose (k : KeepAlive) : KeepAlive := { k with player := k.player.map fun p => { p with playing := false } }

end KeepAlive

/-- It sets the track going again. -/
def Note.revives : Note → Bool
  | .began => false
  | _ => true

/-- A callback of a player that is no longer there. -/
def Note.stale (k : KeepAlive) : Note → Bool
  | .finishPlaying id => k.player.map (·.id) ≠ some id
  | .decodeError id => k.player.map (·.id) ≠ some id
  | _ => false

structure Background where
  core : RickyNetCore
  keepAlive : KeepAlive
  /-- an interruption lasts -/
  interrupted : Bool
  /-- what the audio system has still to tell -/
  pending : List Note

namespace Background

def init : Background := ⟨.init, .init, false, []⟩

inductive Act
  /-- anything but the end of a call of the button -/
  | app (a : RickyNetCore.Act)
  /-- the rest of `start()` or `stop()` of the app -/
  | finish (o : AudioOutcome) (released : Bool)
  | interrupt
  | endInterruption
  /-- the route changes, and the track may stop -/
  | routeChange (stops : Bool)
  | mediaReset
  | finishPlaying
  | decodeError
  /-- the next steps for one of the notes -/
  | deliver (i : Nat) (o : AudioOutcome)
  /-- a callback whose player has gone -/
  | drop (i : Nat)

/-- The system has something to tell. -/
def tell (s : Background) (n : Note) : Background := { s with pending := s.pending ++ [n] }

/-- What `start()` and `stop()` of the app do with the return code. -/
def afterCall (k : KeepAlive) (api : Api) (rc : Int) (o : AudioOutcome) (released : Bool) : KeepAlive :=
  match api with
  | .start => if rc = 0 then k.start o else k
  | .stop => k.stop released

def step (s : Background) : Act → Option Background
  | .app .finish => none
  | .app a => (s.core.step a).map fun core => { s with core := core }
  | .finish o released =>
    match s.core.pending with
    | some p =>
      match s.core.lib.calls[p.call]? with
      | some (.returned rc) => some { s with
          core := s.core.returned p rc
          keepAlive := afterCall s.keepAlive p.api rc o released }
      | _ => none
    | none => none
  | .interrupt => some ({ s with
      keepAlive := { s.keepAlive.lose with session := false }, interrupted := true }.tell .began)
  | .endInterruption => if s.interrupted then some ({ s with interrupted := false }.tell .ended) else none
  | .routeChange stops =>
    some ({ s with keepAlive := if stops then s.keepAlive.lose else s.keepAlive }.tell .routeChange)
  | .mediaReset =>
    some ({ s with keepAlive := { s.keepAlive.lose with session := false } }.tell .mediaReset)
  | .finishPlaying =>
    match s.keepAlive.player with
    | some p => some ({ s with keepAlive := s.keepAlive.lose }.tell (.finishPlaying p.id))
    | none => none
  | .decodeError =>
    match s.keepAlive.player with
    | some p => some ({ s with keepAlive := s.keepAlive.lose }.tell (.decodeError p.id))
    | none => none
  | .deliver i o =>
    match s.pending[i]? with
    | some n => some { s with keepAlive := s.keepAlive.handle o n, pending := s.pending.eraseIdx i }
    | none => none
  | .drop i =>
    match s.pending[i]? with
    | some n => if n.stale s.keepAlive then some { s with pending := s.pending.eraseIdx i } else none
    | none => none

end Background

/-! ## The audio -/

namespace KeepAlive

/-- The track plays, or an attempt to play it has failed. -/
def Tried (k : KeepAlive) : Prop := k.isPlaying = some true ∨ k.failed = true

/-- When it is off nothing is left of it, but a session that could not be deactivated; when it is on there
is one registration, and a player, unless the last attempt has failed. -/
structure Tidy (k : KeepAlive) : Prop where
  off : k.active = false → k.player = none ∧ k.observers = 0 ∧ (k.session = true → k.refused = true)
  on : k.active = true → k.observers = 1 ∧ (k.player = none → k.failed = true)

/-- The track plays, or there is a reason why it does not.  A callback counts for the player that is there
only. -/
def Holds (k : KeepAlive) (interrupted : Bool) (pending : List Note) : Prop :=
  k.active = true →
    k.Tried ∨ interrupted = true ∨ ∃ n ∈ pending, n.revives = true ∧ n.stale k = false

theorem buildAndPlay_tried (k : KeepAlive) (o : AudioOutcome) : (k.buildAndPlay o).Tried := by
  unfold buildAndPlay Tried
  split
  · cases ho : o.play with
    | true => exact Or.inl rfl
    | false => exact Or.inr rfl
  · by_cases hp : k.isPlaying = some true
    · exact Or.inl hp
    · exact Or.inr (by simp [hp])

/-- The player that is there plays, or the attempt fails. -/
theorem play_tried {k : KeepAlive} (h : k.player = none → k.failed = true) (o : AudioOutcome) :
    (k.play o).Tried := by
  unfold play Tried
  split
  · next hp => exact Or.inr (h hp)
  · next p hp =>
    cases hb : p.playing || o.play with
    | true => exact Or.inl rfl
    | false => exact Or.inr rfl

@[simp] theorem activateSession_active (k : KeepAlive) (o : AudioOutcome) :
    (k.activateSession o).active = k.active := by
  unfold activateSession
  split <;> rfl

@[simp] theorem activateSession_observers (k : KeepAlive) (o : AudioOutcome) :
    (k.activateSession o).observers = k.observers := by
  unfold activateSession
  split <;> rfl

@[simp] theorem activateSession_player (k : KeepAlive) (o : AudioOutcome) :
    (k.activateSession o).player = k.player := by
  unfold activateSession
  split <;> rfl

@[simp] theorem activateSession_failed (k : KeepAlive) (o : AudioOutcome) :
    (k.activateSession o).failed = k.failed := by
  unfold activateSession
  split <;> rfl

@[simp] theorem buildAndPlay_active (k : KeepAlive) (o : AudioOutcome) :
    (k.buildAndPlay o).active = k.active := by
  unfold buildAndPlay
  split <;> rfl

@[simp] theorem buildAndPlay_observers (k : KeepAlive) (o : AudioOutcome) :
    (k.buildAndPlay o).observers = k.observers := by
  unfold buildAndPlay
  split <;> rfl

@[simp] theorem play_active (k : KeepAlive) (o : AudioOutcome) : (k.play o).active = k.active := by
  unfold play
  split <;> rfl

@[simp] theorem play_observers (k : KeepAlive) (o : AudioOutcome) : (k.play o).observers = k.observers := by
  unfold play
  split <;> rfl

/-- Whatever has been tried, there is a player or the attempt has failed. -/
theorem Tried.player {k : KeepAlive} (h : k.Tried) (hp : k.player = none) : k.failed = true := by
  rcases h with h | h
  · unfold isPlaying at h
    rw [hp] at h
    cases h
  · exact h

/-- While it is on: one registration, and an attempt that has been made. -/
theorem tidy_of_tried {k : KeepAlive} (ha : k.active = true) (ho : k.observers = 1) (h : k.Tried) : k.Tidy :=
  ⟨fun hoff => absurd (ha.symm.trans hoff) (by simp), fun _ => ⟨ho, h.player⟩⟩

theorem start_spec {k : KeepAlive} (ht : k.Tidy) (hoff : k.active = false) (o : AudioOutcome) :
    (k.start o).active = true ∧ (k.start o).Tidy ∧ (k.start o).Tried := by
  have hobs := (ht.off hoff).2.1
  have hk : k.start o = (({ k with active := true }.activateSession o).buildAndPlay o).registerObservers := by
    unfold start
    rw [hoff]
    rfl
  have htried : (k.start o).Tried := by
    rw [hk]
    exact buildAndPlay_tried _ o
  have hact : (k.start o).active = true := by
    rw [hk]
    simp [registerObservers]
  refine ⟨hact, tidy_of_tried hact ?_ htried, htried⟩
  rw [hk]
  simp [registerObservers, hobs]

theorem stop_spec {k : KeepAlive} (ht : k.Tidy) (released : Bool) :
    (k.stop released).active = false ∧ (k.stop released).Tidy := by
  unfold stop
  split
  · refine ⟨rfl, fun _ => ⟨rfl, rfl, fun hs => ?_⟩, fun h => by cases h⟩
    simp only [Bool.and_eq_true] at hs
    exact hs.2
  · next h => exact ⟨by simpa using h, ht⟩

/-- The system stops the track: nothing else changes. -/
theorem lose_tidy {k : KeepAlive} (ht : k.Tidy) : k.lose.Tidy := by
  refine ⟨fun hoff => ?_, fun hon => ?_⟩
  · obtain ⟨hp, hrest⟩ := ht.off hoff
    exact ⟨by simp [lose, hp], hrest⟩
  · obtain ⟨hobs, hp⟩ := ht.on hon
    exact ⟨hobs, fun hnone => hp (by simpa [lose] using hnone)⟩

/-- An interruption or a reset takes the session as well. -/
theorem Tidy.session_lost {k : KeepAlive} (ht : k.Tidy) : Tidy { k with session := false } :=
  ⟨fun hoff => ⟨(ht.off hoff).1, (ht.off hoff).2.1, fun h => by cases h⟩, ht.on⟩

/-- What a note does: nothing while it is off or if it is none that revives; else one registration handles
it, and an attempt to play has been made, or none was needed. -/
theorem handle_spec {k : KeepAlive} (ht : k.Tidy) (o : AudioOutcome) (n : Note) :
    (k.handle o n).active = k.active ∧ (k.handle o n).Tidy ∧ (n.revives = false → k.handle o n = k) ∧
      (k.active = true → n.revives = true → (k.handle o n).Tried) := by
  cases hact : k.active with
  | false =>
    obtain ⟨hp, hobs, hsession⟩ := ht.off hact
    have hsame : k.handle o n = k := by
      cases n <;> simp [handle, hobs, restart, hact]
    rw [hsame]
    exact ⟨hact, ht, fun _ => rfl, fun h => (by cases h)⟩
  | true =>
    obtain ⟨hobs, hp⟩ := ht.on hact
    have hplay : ((k.activateSession o).play o).active = true ∧ ((k.activateSession o).play o).observers = 1 ∧
        ((k.activateSession o).play o).Tried :=
      ⟨by simp [hact], by simp [hobs], play_tried (by simpa using hp) o⟩
    have hbuild : (k.buildAndPlay o).active = true ∧ (k.buildAndPlay o).observers = 1 ∧
        (k.buildAndPlay o).Tried := ⟨by simp [hact], by simp [hobs], buildAndPlay_tried k o⟩
    have hattempt : ∀ k' : KeepAlive, k'.active = true ∧ k'.observers = 1 ∧ k'.Tried → k.handle o n = k' →
        n.revives = true → (k.handle o n).active = true ∧ (k.handle o n).Tidy ∧
          (n.revives = false → k.handle o n = k) ∧
          (true = true → n.revives = true → (k.handle o n).Tried) := by
      rintro k' ⟨h1, h2, h3⟩ heq hrev
      rw [heq]
      exact ⟨h1, tidy_of_tried h1 h2 h3, fun h => (by rw [hrev] at h; cases h), fun _ _ => h3⟩
    cases n with
    | began =>
      have hsame : k.handle o .began = k := by simp [handle, hobs, onInterruption]
      rw [hsame]
      exact ⟨hact, ht, fun _ => rfl, fun _ h => (by cases h)⟩
    | ended => exact hattempt _ hplay (by simp [handle, hobs, onInterruption, hact]) rfl
    | routeChange =>
      by_cases hpause : k.isPlaying = some false
      · exact hattempt _ hplay (by simp [handle, hobs, onRouteChange, hact, hpause]) rfl
      · refine hattempt k ⟨hact, hobs, ?_⟩ (by simp [handle, hobs, onRouteChange, hpause]) rfl
        -- there is no player, or it plays
        cases hplayer : k.player with
        | none => exact Or.inr (hp hplayer)
        | some p =>
          refine Or.inl ?_
          unfold isPlaying at hpause ⊢
          rw [hplayer] at hpause ⊢
          simpa using hpause
    | mediaReset =>
      refine hattempt (({ k with player := none }.activateSession o).buildAndPlay o)
        ⟨by simp [hact], by simp [hobs], buildAndPlay_tried _ o⟩ ?_ rfl
      simp [handle, hobs, onMediaReset, hact]
    | finishPlaying id => exact hattempt _ hbuild (by simp [handle, restart, hact]) rfl
    | decodeError id => exact hattempt _ hbuild (by simp [handle, restart, hact]) rfl

end KeepAlive

/-! ## With the button -/

namespace RickyNetCore

/-- The call in progress is an `rn_start` if and only if the status is not running. -/
def Fits (s : RickyNetCore) : Prop := ∀ p, s.pending = some p → (p.api = .start ↔ s.status ≠ .running)

/-- Only the end of a call changes the status. -/
theorem fits_step {s s' : RickyNetCore} {a : Act} (hf : s.Fits) (ha : a ≠ .finish) (h : s.step a = some s') :
    s'.Fits ∧ s'.status = s.status := by
  have hlib : ∀ b, s.libStep b = some s' → s'.Fits ∧ s'.status = s.status := by
    intro b hb
    obtain ⟨lib, -, rfl⟩ := Option.map_eq_some_iff.1 hb
    exact ⟨hf, rfl⟩
  cases a with
  | setAllowWifi allow =>
    simp only [step] at h
    split at h
    · cases h; exact ⟨hf, rfl⟩
    · cases h
  | toggle =>
    simp only [step] at h
    split at h
    · cases h
      by_cases hr : s.status = .running
      · have hrun : s.isRunning = true := by simp [isRunning, hr]
        rw [hrun, if_pos rfl]
        refine ⟨fun p hp => ?_, rfl⟩
        cases hp
        simp [stop, hr]
      · have hrun : s.isRunning = false := by simp [isRunning, hr]
        rw [hrun, if_neg Bool.false_ne_true]
        refine ⟨fun p hp => ?_, rfl⟩
        cases hp
        simp [start, hr]
    · cases h
  | call b =>
    simp only [step] at h
    split at h
    · exact hlib _ h
    · cases h
  | finish => exact absurd rfl ha
  | core c b => exact hlib _ h
  | countRx c n => exact hlib _ h
  | countTx c n => exact hlib _ h

end RickyNetCore

namespace Background

/-- `KeepAlive` is on if and only if the status is running. -/
structure Inv (s : Background) : Prop where
  core : s.core.Inv
  fits : s.core.Fits
  active : s.keepAlive.active = true ↔ s.core.status = .running
  tidy : s.keepAlive.Tidy
  holds : s.keepAlive.Holds s.interrupted s.pending

theorem init_inv : init.Inv where
  core := RickyNetCore.init_inv
  fits := fun p hp => by cases hp
  active := by simp [init, KeepAlive.init, RickyNetCore.init]
  tidy := ⟨fun _ => ⟨rfl, rfl, fun h => by cases h⟩, fun h => by cases h⟩
  holds := fun h => by cases h

/-- The system stops the track, and a note that revives is on its way, or the interruption lasts. -/
theorem lose_inv {s : Background} (hi : s.Inv) (k : KeepAlive) (hact : k.active = s.keepAlive.active)
    (ht : k.Tidy) (interrupted : Bool) (n : Note)
    (hn : interrupted = true ∨ n.revives = true ∧ n.stale k = false) :
    Inv ({ s with keepAlive := k, interrupted := interrupted }.tell n) := by
  refine ⟨hi.core, hi.fits, ?_, ht, fun _ => Or.inr ?_⟩
  · show k.active = true ↔ _
    rw [hact]
    exact hi.active
  · rcases hn with hn | hn
    · exact Or.inl hn
    · exact Or.inr ⟨n, List.mem_append_right _ (List.mem_singleton_self n), hn⟩

theorem finish_inv {s : Background} (hi : s.Inv) {p : Pending} (hp : s.core.pending = some p) {rc : Int}
    (hc : s.core.lib.calls[p.call]? = some (.returned rc)) (o : AudioOutcome) (released : Bool) :
    Inv { s with core := s.core.returned p rc, keepAlive := afterCall s.keepAlive p.api rc o released } := by
  have hcore := RickyNetCore.returned_inv hi.core hp hc
  have hfits : (s.core.returned p rc).Fits := fun q hq => by cases hq
  obtain ⟨api, i, before⟩ := p
  cases api with
  | start =>
    have hstopped : s.core.status ≠ .running := (hi.fits _ hp).1 rfl
    have hoff : s.keepAlive.active = false := by
      cases hact : s.keepAlive.active with
      | false => rfl
      | true => exact absurd (hi.active.1 hact) hstopped
    by_cases hrc : rc = 0
    · obtain ⟨h1, h2, h3⟩ := KeepAlive.start_spec hi.tidy hoff o
      have hk : afterCall s.keepAlive .start rc o released = s.keepAlive.start o := if_pos hrc
      show Inv { s with core := _, keepAlive := afterCall s.keepAlive .start rc o released }
      rw [hk]
      refine ⟨hcore, hfits, ?_, h2, fun _ => Or.inl h3⟩
      show (s.keepAlive.start o).active = true ↔ _
      rw [h1]
      simp [RickyNetCore.returned, hrc]
    · have hk : afterCall s.keepAlive .start rc o released = s.keepAlive := if_neg hrc
      show Inv { s with core := _, keepAlive := afterCall s.keepAlive .start rc o released }
      rw [hk]
      refine ⟨hcore, hfits, ?_, hi.tidy, hi.holds⟩
      show s.keepAlive.active = true ↔ _
      rw [hoff]
      simp [RickyNetCore.returned, hrc]
  | stop =>
    obtain ⟨h1, h2⟩ := KeepAlive.stop_spec hi.tidy released
    refine ⟨hcore, hfits, ?_, h2, fun hact => ?_⟩
    · show (s.keepAlive.stop released).active = true ↔ _
      rw [h1]
      simp [RickyNetCore.returned]
    · have hact' : (s.keepAlive.stop released).active = true := hact
      rw [h1] at hact'
      cases hact'

/-- The others stay. -/
theorem mem_eraseIdx {notes : List Note} {i : Nat} {n m : Note} (hn : notes[i]? = some n) (hne : m ≠ n)
    (hm : m ∈ notes) : m ∈ notes.eraseIdx i := by
  obtain ⟨hlt, hget⟩ := List.getElem?_eq_some_iff.1 hn
  have hperm := (List.getElem_cons_eraseIdx_perm hlt).mem_iff (a := m)
  rw [hget, List.mem_cons] at hperm
  exact (hperm.2 hm).resolve_left hne

/-- A note is handled. -/
theorem deliver_inv {s : Background} (hi : s.Inv) {i : Nat} {n : Note} (hn : s.pending[i]? = some n)
    (o : AudioOutcome) :
    Inv { s with keepAlive := s.keepAlive.handle o n, pending := s.pending.eraseIdx i } := by
  obtain ⟨hact, htidy, hsame, htried⟩ := KeepAlive.handle_spec hi.tidy o n
  refine ⟨hi.core, hi.fits, ?_, htidy, fun ha => ?_⟩
  · show (s.keepAlive.handle o n).active = true ↔ _
    rw [hact]
    exact hi.active
  · have hon : s.keepAlive.active = true := hact ▸ ha
    cases hrev : n.revives with
    | true => exact Or.inl (htried hon hrev)
    | false =>
      -- nothing has changed but that the note is gone
      have hk : { s with keepAlive := s.keepAlive.handle o n }.keepAlive = s.keepAlive := hsame hrev
      rw [hk]
      refine (hi.holds hon).imp_right (Or.imp_right ?_)
      rintro ⟨m, hm, hmr⟩
      refine ⟨m, mem_eraseIdx hn ?_ hm, hmr⟩
      rintro rfl
      rw [hrev] at hmr
      cases hmr.1

/-- A callback that does not come. -/
theorem drop_inv {s : Background} (hi : s.Inv) {i : Nat} {n : Note} (hn : s.pending[i]? = some n)
    (hstale : n.stale s.keepAlive = true) : Inv { s with pending := s.pending.eraseIdx i } := by
  refine ⟨hi.core, hi.fits, hi.active, hi.tidy, fun ha => ?_⟩
  refine (hi.holds ha).imp_right (Or.imp_right ?_)
  rintro ⟨m, hm, hmr⟩
  refine ⟨m, mem_eraseIdx hn ?_ hm, hmr⟩
  rintro rfl
  rw [hstale] at hmr
  cases hmr.2

theorem app_inv {s : Background} (hi : s.Inv) {a : RickyNetCore.Act} (ha : a ≠ .finish)
    {core : RickyNetCore} (h : s.core.step a = some core) : Inv { s with core := core } := by
  obtain ⟨hfits, hstatus⟩ := RickyNetCore.fits_step hi.fits ha h
  refine ⟨RickyNetCore.step_inv _ _ _ hi.core h, hfits, ?_, hi.tidy, hi.holds⟩
  show s.keepAlive.active = true ↔ core.status = .running
  rw [hstatus]
  exact hi.active

theorem step_inv {s s' : Background} {a : Act} (hi : s.Inv) (h : s.step a = some s') : s'.Inv := by
  have hlost := KeepAlive.lose_tidy hi.tidy
  cases a with
  | app a =>
    cases a with
    | finish => cases h
    | _ =>
      obtain ⟨core, hcore, rfl⟩ := Option.map_eq_some_iff.1 h
      exact app_inv hi (by simp) hcore
  | finish o released =>
    simp only [step] at h
    split at h
    · next p hp =>
      split at h
      · next rc hc => cases h; exact finish_inv hi hp hc o released
      · cases h
    · cases h
  | interrupt =>
    cases h
    exact lose_inv hi { s.keepAlive.lose with session := false } rfl hlost.session_lost true .began (Or.inl rfl)
  | endInterruption =>
    simp only [step] at h
    split at h
    · cases h; exact lose_inv hi _ rfl hi.tidy false .ended (Or.inr ⟨rfl, rfl⟩)
    · cases h
  | routeChange stops =>
    cases h
    refine lose_inv hi _ ?_ ?_ s.interrupted .routeChange (Or.inr ⟨rfl, rfl⟩)
    · split <;> rfl
    · split
      · exact hlost
      · exact hi.tidy
  | mediaReset =>
    cases h
    exact lose_inv hi { s.keepAlive.lose with session := false } rfl hlost.session_lost s.interrupted
      .mediaReset (Or.inr ⟨rfl, rfl⟩)
  | finishPlaying =>
    simp only [step] at h
    split at h
    · next p hp =>
      cases h
      exact lose_inv hi s.keepAlive.lose rfl hlost s.interrupted (.finishPlaying p.id)
        (Or.inr ⟨rfl, by simp [Note.stale, KeepAlive.lose, hp]⟩)
    · cases h
  | decodeError =>
    simp only [step] at h
    split at h
    · next p hp =>
      cases h
      exact lose_inv hi s.keepAlive.lose rfl hlost s.interrupted (.decodeError p.id)
        (Or.inr ⟨rfl, by simp [Note.stale, KeepAlive.lose, hp]⟩)
    · cases h
  | deliver i o =>
    simp only [step] at h
    split at h
    · next n hn => cases h; exact deliver_inv hi hn o
    · cases h
  | drop i =>
    simp only [step] at h
    split at h
    · next n hn =>
      split at h
      · next hstale => cases h; exact drop_inv hi hn hstale
      · cases h
    · cases h

end Background

/-- **It stays alive while it is up, and only then.**  `KeepAlive` is on if and only if the status is
running, and so, between two calls, if and only if there is a listener.  While it is off it has no player
and no registration, and no session but one that could not be deactivated.  While it is on it is
registered once, and the track plays, or the last attempt to play it has failed, or an interruption lasts,
or a notification or callback that sets it going again is on its way. -/
theorem kept_alive (acts : List Background.Act) (s : Background)
    (h : Runs.exec Background.step .init acts = some s) :
    (s.keepAlive.active = true ↔ s.core.status = .running) ∧
    (s.core.pending = none → (s.keepAlive.active = true ↔ s.core.lib.inst ≠ none)) ∧
    (s.keepAlive.active = false → s.keepAlive.player = none ∧ s.keepAlive.observers = 0 ∧
      (s.keepAlive.session = true → s.keepAlive.refused = true)) ∧
    (s.keepAlive.active = true → s.keepAlive.observers = 1 ∧
      (s.keepAlive.isPlaying = some true ∨ s.keepAlive.failed = true ∨ s.interrupted = true ∨
        ∃ n ∈ s.pending, n.revives = true ∧ n.stale s.keepAlive = false)) := by
  have hi : s.Inv := Runs.exec_inv Background.step Background.Inv (fun _ _ _ => Background.step_inv)
    Background.init_inv h
  refine ⟨hi.active, fun hp => ?_, hi.tidy.off, fun hon => ⟨(hi.tidy.on hon).1, ?_⟩⟩
  · obtain ⟨hup, hdown⟩ := hi.core.idle hp
    rw [hi.active]
    constructor
    · intro hr
      obtain ⟨c, hinst, -⟩ := hup hr
      rw [hinst]
      simp
    · intro hinst
      by_contra hr
      exact hinst (hdown hr).inst
  · rcases hi.holds hon with (h | h) | h
    · exact Or.inl h
    · exact Or.inr (Or.inl h)
    · exact Or.inr (Or.inr h)

/-- An interruption that ends while the session cannot be activated, and then a reset of the media
server, after which the track is rebuilt; the end of the interruption is told last. -/
theorem kept_alive_run : ∃ acts s, Runs.exec Background.step .init acts = some s ∧
    s.pending = [.ended] ∧ s.keepAlive.players = 2 ∧
    (s.keepAlive.active = true ↔ s.core.status = .running) := by
  have h : Runs.exec Background.step .init
      [.app .toggle, .app (.call .go), .app (.call .go), .app (.call .go),
        .app (.call .go), .app (.call (.spawn true)), .app (.core 0 (.build none)), .app (.core 0 (.bind none)),
        .app (.call .recv), .app (.call .go), .app (.call .go), .finish ⟨true, true, true⟩ true, .interrupt,
        .deliver 0 ⟨true, true, true⟩, .endInterruption, .mediaReset,
        .deliver 1 ⟨false, true, true⟩] = some _ := rfl
  exact ⟨_, _, h, rfl, rfl, (kept_alive _ _ h).1⟩

end RickyNet
