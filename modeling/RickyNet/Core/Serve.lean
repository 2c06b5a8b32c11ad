import RickyNet.Win.Disconnect

/-!
# The next desktop

`serve` accepts one desktop after the other, and bridges each until `reader_task` has ended, ipstack has,
or the core is shut down.  The desktops that have connected wait in the listener's queue; every connection
is an `Upload` of its own, whose tasks start when it is accepted and may outlive their bridge.

Each connection is a run of `Upload` by itself (`Inv.conn`), so that what is known of those holds here:
where the stream of the desktop that is served has been cut, the next one gets its turn (`ranked_due`).
-/

namespace RickyNet

/-- Where `serve` is. -/
inductive ServePc
  /-- in its `select!`, listening -/
  | select
  /-- in the `select!` over `bridge`, for connection `i` -/
  | bridge (i : Nat)
  | finished
deriving DecidableEq

structure Serve where
  pc : ServePc
  /-- the value of the shutdown channel -/
  shutdown : Bool
  /-- the desktops that have connected, in order -/
  conns : List Upload
  /-- how many of them have been accepted -/
  accepted : Nat

/-- A step of the phone's tasks. -/
def Upload.Act.ofPhone : Upload.Act → Bool
  | .phone (.cut _) => false
  | .phone _ => true
  | _ => false

namespace Serve

def start : Serve := ⟨.select, false, [], 0⟩

inductive Act
  /-- a desktop connects -/
  | arrive
  /-- connection `i`, at either end -/
  | conn (i : Nat) (a : Upload.Act)
  /-- `listener.accept` returns -/
  | accept
  | acceptErr
  /-- `bridge` sees that `reader_task` has ended -/
  | disconnected
  /-- `ip_stack.accept` fails -/
  | stackEnded
  /-- `rn_stop` sends on the shutdown channel -/
  | requestShutdown
  /-- `wait_shutdown` returns -/
  | seeShutdown
deriving DecidableEq

def step (s : Serve) : Act → Option Serve
  | .arrive => if s.pc = .finished then none else some { s with conns := s.conns ++ [.init] }
  | .conn i a =>
    match s.conns[i]? with
    | none => none
    | some u =>
      -- the tasks are spawned by `bridge`, and end with the runtime
      if a.ofPhone ∧ (s.accepted ≤ i ∨ s.pc = .finished) then none
      else
        match u.step a with
        | none => none
        | some u => some { s with conns := s.conns.set i u }
  | .accept =>
    if s.pc = .select ∧ s.accepted < s.conns.length then
      some { s with pc := .bridge s.accepted, accepted := s.accepted + 1 }
    else none
  | .acceptErr => if s.pc = .select then some s else none
  | .disconnected =>
    match s.pc with
    | .bridge i =>
      match s.conns[i]? with
      | some u => if u.phone.reader.isEnded then some { s with pc := .select } else none
      | none => none
    | _ => none
  | .stackEnded =>
    match s.pc with
    | .bridge _ => some { s with pc := .select }
    | _ => none
  | .requestShutdown => some { s with shutdown := true }
  | .seeShutdown => if s.shutdown ∧ s.pc ≠ .finished then some { s with pc := .finished } else none

/-- What a step does. -/
inductive Moves (s : Serve) : Act → Serve → Prop
  | arrive (hf : s.pc ≠ .finished) : Moves s .arrive { s with conns := s.conns ++ [.init] }
  | conn (i : Nat) (a : Upload.Act) (u u' : Upload) (hi : s.conns[i]? = some u)
      (ha : a.ofPhone = true → i < s.accepted) (hu : u.step a = some u') :
      Moves s (.conn i a) { s with conns := s.conns.set i u' }
  | accept (hpc : s.pc = .select) (hlt : s.accepted < s.conns.length) :
      Moves s .accept { s with pc := .bridge s.accepted, accepted := s.accepted + 1 }
  | acceptErr (hpc : s.pc = .select) : Moves s .acceptErr s
  | disconnected (i : Nat) (hpc : s.pc = .bridge i) : Moves s .disconnected { s with pc := .select }
  | stackEnded (i : Nat) (hpc : s.pc = .bridge i) : Moves s .stackEnded { s with pc := .select }
  | requestShutdown : Moves s .requestShutdown { s with shutdown := true }
  | seeShutdown (hs : s.shutdown = true) : Moves s .seeShutdown { s with pc := .finished }

theorem moves_of_step {s s' : Serve} {a : Act} (h : s.step a = some s') : s.Moves a s' := by
  cases a with
  | arrive =>
    simp only [step] at h
    split at h
    · cases h
    · next hf => cases h; exact .arrive hf
  | conn i a =>
    simp only [step] at h
    split at h
    · cases h
    next u hi =>
    split at h
    · cases h
    next ha =>
    split at h
    · cases h
    next u' hu =>
    cases h
    refine .conn i a u u' hi (fun hp => ?_) hu
    by_contra hle
    exact ha ⟨hp, Or.inl (Nat.le_of_not_lt hle)⟩
  | accept =>
    simp only [step] at h
    split at h
    · next hc => cases h; exact .accept hc.1 hc.2
    · cases h
  | acceptErr =>
    simp only [step] at h
    split at h
    · next hpc => cases h; exact .acceptErr hpc
    · cases h
  | disconnected =>
    simp only [step] at h
    split at h
    · next i hpc =>
      split at h
      · split at h
        · cases h; exact .disconnected i hpc
        · cases h
      · cases h
    · cases h
  | stackEnded =>
    simp only [step] at h
    split at h
    · next i hpc => cases h; exact .stackEnded i hpc
    · cases h
  | requestShutdown => cases h; exact .requestShutdown
  | seeShutdown =>
    simp only [step] at h
    split at h
    · next hs => cases h; exact .seeShutdown hs.1
    · cases h

structure Inv (s : Serve) : Prop where
  /-- no connection has anything of another one -/
  conn : ∀ u ∈ s.conns, ∃ acts, Runs.exec Upload.step .init acts = some u
  accepted : s.accepted ≤ s.conns.length
  bridged : ∀ i, s.pc = .bridge i → i + 1 = s.accepted
  finished : s.pc = .finished → s.shutdown = true

theorem start_inv : start.Inv where
  conn := fun u h => by cases h
  accepted := Nat.le_refl 0
  bridged := fun i h => by cases h
  finished := fun h => by cases h

theorem step_inv {s s' : Serve} {a : Act} (hi : s.Inv) (h : s.step a = some s') : s'.Inv := by
  cases moves_of_step h with
  | arrive hf =>
    refine ⟨fun u hu => ?_, ?_, hi.bridged, hi.finished⟩
    · rcases List.mem_append.1 hu with hu | hu
      · exact hi.conn u hu
      · exact ⟨[], by rw [List.mem_singleton.1 hu]; rfl⟩
    · have hle := hi.accepted
      simp only [List.length_append]
      omega
  | conn i a u u' hu hp hs =>
    refine ⟨fun v hv => ?_, ?_, hi.bridged, hi.finished⟩
    · rcases List.mem_or_eq_of_mem_set hv with hv | rfl
      · exact hi.conn v hv
      · obtain ⟨acts, hacts⟩ := hi.conn u (List.mem_of_getElem? hu)
        exact ⟨acts ++ [a], (Runs.exec_concat_iff Upload.step _ _ _ _).2 ⟨u, hacts, hs⟩⟩
    · show s.accepted ≤ (s.conns.set i u').length
      rw [List.length_set]
      exact hi.accepted
  | accept hpc hlt =>
    refine ⟨hi.conn, hlt, fun i h => ?_, fun h => ?_⟩
    · cases h
      rfl
    · cases h
  | acceptErr hpc => exact hi
  | disconnected i hpc =>
    exact ⟨hi.conn, hi.accepted, fun i h => (by cases h), fun h => (by cases h)⟩
  | stackEnded i hpc =>
    exact ⟨hi.conn, hi.accepted, fun i h => (by cases h), fun h => (by cases h)⟩
  | requestShutdown => exact ⟨hi.conn, hi.accepted, hi.bridged, fun _ => rfl⟩
  | seeShutdown hs => exact ⟨hi.conn, hi.accepted, fun i h => (by cases h), fun _ => hs⟩

theorem run_inv {acts : List Act} {s : Serve} (h : Runs.exec step start acts = some s) : s.Inv :=
  Runs.exec_inv step Inv (fun _ _ _ => step_inv) start_inv h

/-! ## The next one's turn -/

/-- The steps that lead to connection `n`: those of the phone's tasks for the one before it, and of `serve`. -/
def own (n : Nat) (s : Serve) (a : Act) : Bool :=
  decide (s.accepted ≤ n) &&
    match a with
    | .conn i a =>
      match s.conns[i]? with
      | some u => decide (s.pc = .bridge i) && u.phoneOwn a
      | none => false
    | .disconnected => true
    | .accept => true
    | _ => false

/-- What connection `i` has left, up to its end. -/
def untilEnd (i : Nat) (s : Serve) : Nat :=
  match s.conns[i]? with
  | some u => u.untilEnd
  | none => 0

def rank (n : Nat) (s : Serve) : Nat :=
  if s.accepted ≤ n then
    match s.pc with
    | .bridge i => s.untilEnd i + 2
    | .select => 1
    | .finished => 0
  else 0

/-- Connection `n` is the next in the queue, and the stream of the one that is bridged is cut; or it has had
its turn. -/
structure Due (n : Nat) (s : Serve) : Prop where
  inv : s.Inv
  shutdown : s.shutdown = false
  waits : s.accepted ≤ n → s.accepted = n ∧ n < s.conns.length ∧
    ∀ i, s.pc = .bridge i → ∃ u, s.conns[i]? = some u ∧ u.phone.stream.cut = true

variable {n : Nat} {s s' : Serve} {a : Act}

theorem untilEnd_eq {i : Nat} {u : Upload} (h : s.conns[i]? = some u) : s.untilEnd i = u.untilEnd := by
  unfold untilEnd
  rw [h]

/-- A connection that is cut, as `Upload` has it. -/
theorem Inv.cut (hi : s.Inv) {i : Nat} {u : Upload} (hu : s.conns[i]? = some u)
    (hcut : u.phone.stream.cut = true) : u.Cut := by
  obtain ⟨acts, hacts⟩ := hi.conn u (List.mem_of_getElem? hu)
  exact ⟨Upload.run_inv hacts, hcut⟩

theorem due_conn (hd : s.Due n) {i : Nat} {a : Upload.Act} {u u' : Upload} (hu : s.conns[i]? = some u)
    (hs : u.step a = some u') (hinv : Inv { s with conns := s.conns.set i u' }) :
    Due n { s with conns := s.conns.set i u' } := by
  refine ⟨hinv, hd.shutdown, fun hle => ?_⟩
  obtain ⟨hn, hlt, hcut⟩ := hd.waits hle
  refine ⟨hn, by rw [List.length_set]; exact hlt, fun j hj => ?_⟩
  obtain ⟨v, hv, hvcut⟩ := hcut j hj
  by_cases hij : i = j
  · subst hij
    rw [hu] at hv
    cases hv
    obtain ⟨hlen, -⟩ := List.getElem?_eq_some_iff.1 hu
    exact ⟨u', List.getElem?_set_self hlen, (Upload.untilEnd_step (hd.inv.cut hu hvcut) hs).1.cut⟩
  · exact ⟨v, (List.getElem?_set_ne hij).trans hv, hvcut⟩

theorem due_step (hd : s.Due n) (ha : a ≠ .requestShutdown) (h : s.step a = some s') : s'.Due n := by
  have hinv := step_inv hd.inv h
  cases moves_of_step h with
  | conn i a u u' hu hp hs => exact due_conn hd hu hs hinv
  | arrive hf =>
    refine ⟨hinv, hd.shutdown, fun hle => ?_⟩
    obtain ⟨hn, hlt, hcut⟩ := hd.waits hle
    refine ⟨hn, ?_, fun i hi => ?_⟩
    · show n < (s.conns ++ [Upload.init]).length
      rw [List.length_append]
      omega
    · obtain ⟨u, hu, hc⟩ := hcut i hi
      obtain ⟨hlen, -⟩ := List.getElem?_eq_some_iff.1 hu
      exact ⟨u, (List.getElem?_append_left hlen).trans hu, hc⟩
  | accept hpc hlt =>
    refine ⟨hinv, hd.shutdown, fun hle => ?_⟩
    have hle' : s.accepted + 1 ≤ n := hle
    have hn := (hd.waits (by omega)).1
    omega
  | acceptErr hpc => exact hd
  | disconnected i hpc =>
    refine ⟨hinv, hd.shutdown, fun hle => ?_⟩
    obtain ⟨hn, hlt, -⟩ := hd.waits hle
    exact ⟨hn, hlt, fun i hi => by cases hi⟩
  | stackEnded i hpc =>
    refine ⟨hinv, hd.shutdown, fun hle => ?_⟩
    obtain ⟨hn, hlt, -⟩ := hd.waits hle
    exact ⟨hn, hlt, fun i hi => by cases hi⟩
  | requestShutdown => exact absurd rfl ha
  | seeShutdown hs =>
    rw [hd.shutdown] at hs
    cases hs

/-- Connection `n` has had its turn. -/
theorem rank_of_lt (h : n < s.accepted) : s.rank n = 0 := if_neg (Nat.not_le.2 h)

theorem own_of_lt (h : n < s.accepted) (a : Act) : own n s a = false := by
  unfold own
  rw [decide_eq_false (Nat.not_le.2 h), Bool.false_and]

theorem rank_bridge (hle : s.accepted ≤ n) {i : Nat} (hpc : s.pc = .bridge i) :
    s.rank n = s.untilEnd i + 2 := by
  unfold rank
  rw [if_pos hle, hpc]

theorem rank_select (hle : s.accepted ≤ n) (hpc : s.pc = .select) : s.rank n = 1 := by
  unfold rank
  rw [if_pos hle, hpc]

/-- Nothing but the connection that is bridged counts. -/
theorem rank_congr (hpc : s'.pc = s.pc) (hacc : s'.accepted = s.accepted)
    (h : ∀ i, s.pc = .bridge i → s'.untilEnd i = s.untilEnd i) : s'.rank n = s.rank n := by
  unfold rank
  rw [hpc, hacc]
  split
  · split
    · next i hi => rw [h i hi]
    · rfl
    · rfl
  · rfl

/-- A step of a connection. -/
theorem rank_conn (hd : s.Due n) (hle : s.accepted ≤ n) {i : Nat} {a : Upload.Act} {u u' : Upload}
    (hu : s.conns[i]? = some u) (hs : u.step a = some u') :
    if own n s (.conn i a) then rank n { s with conns := s.conns.set i u' } < s.rank n
    else rank n { s with conns := s.conns.set i u' } ≤ s.rank n := by
  obtain ⟨hlen, -⟩ := List.getElem?_eq_some_iff.1 hu
  obtain ⟨-, -, hcut⟩ := hd.waits hle
  by_cases hpc : s.pc = .bridge i
  · obtain ⟨v, hv, hvcut⟩ := hcut i hpc
    rw [hu] at hv
    cases hv
    have hown : own n s (.conn i a) = u.phoneOwn a := by
      simp only [own, hu, hpc, decide_eq_true hle, decide_true, Bool.true_and]
    have hlow := (Upload.untilEnd_step (hd.inv.cut hu hvcut) hs).2
    rw [hown, rank_bridge hle hpc, untilEnd_eq hu,
      rank_bridge (s := { s with conns := s.conns.set i u' }) hle hpc,
      untilEnd_eq (s := { s with conns := s.conns.set i u' }) (List.getElem?_set_self hlen)]
    split at hlow
    · next ho => rw [if_pos ho]; omega
    · next ho => rw [if_neg ho]; omega
  · have hown : own n s (.conn i a) = false := by
      simp only [own, hu, hpc, decide_false, Bool.false_and, Bool.and_false]
    rw [hown, if_neg Bool.false_ne_true]
    refine Nat.le_of_eq (rank_congr rfl rfl fun j hj => ?_)
    have hij : i ≠ j := by
      rintro rfl
      exact hpc hj
    unfold untilEnd
    rw [show (s.conns.set i u')[j]? = s.conns[j]? from List.getElem?_set_ne hij]

theorem accepted_step (h : s.step a = some s') : s.accepted ≤ s'.accepted := by
  cases moves_of_step h with
  | accept hpc hl => exact Nat.le_succ _
  | _ => exact Nat.le_refl _

/-- **One step.**  The phone and `serve` come nearer to the next desktop, and nobody else puts it off. -/
theorem rank_step (hd : s.Due n) (ha : a ≠ .requestShutdown) (h : s.step a = some s') :
    if own n s a then s'.rank n < s.rank n else s'.rank n ≤ s.rank n := by
  by_cases hlt : n < s.accepted
  · rw [own_of_lt hlt, if_neg Bool.false_ne_true, rank_of_lt hlt,
      rank_of_lt (Nat.lt_of_lt_of_le hlt (accepted_step h))]
  · have hle := Nat.le_of_not_lt hlt
    obtain ⟨hn, -, hcut⟩ := hd.waits hle
    cases moves_of_step h with
    | conn i a u u' hu hp hs => exact rank_conn hd hle hu hs
    | arrive hf =>
      have hown : own n s .arrive = false := Bool.and_false _
      rw [hown, if_neg Bool.false_ne_true]
      refine Nat.le_of_eq (rank_congr rfl rfl fun i hi => ?_)
      obtain ⟨u, hu, -⟩ := hcut i hi
      obtain ⟨hlen, -⟩ := List.getElem?_eq_some_iff.1 hu
      rw [untilEnd_eq hu, untilEnd_eq (s := { s with conns := s.conns ++ [.init] })
        ((List.getElem?_append_left hlen).trans hu)]
    | accept hpc hl =>
      have hown : own n s .accept = true := by simp only [own, decide_eq_true hle, Bool.and_self]
      rw [hown, if_pos rfl, rank_select hle hpc,
        rank_of_lt (s := { s with pc := .bridge s.accepted, accepted := s.accepted + 1 })
          (hn ▸ Nat.lt_succ_self s.accepted)]
      exact Nat.zero_lt_one
    | acceptErr hpc =>
      have hown : own n s .acceptErr = false := Bool.and_false _
      rw [hown, if_neg Bool.false_ne_true]
    | disconnected i hpc =>
      have hown : own n s .disconnected = true := by simp only [own, decide_eq_true hle, Bool.and_self]
      rw [hown, if_pos rfl, rank_bridge hle hpc, rank_select (s := { s with pc := .select }) hle rfl]
      omega
    | stackEnded i hpc =>
      have hown : own n s .stackEnded = false := Bool.and_false _
      rw [hown, if_neg Bool.false_ne_true, rank_bridge hle hpc,
        rank_select (s := { s with pc := .select }) hle rfl]
      omega
    | requestShutdown => exact absurd rfl ha
    | seeShutdown hs =>
      rw [hd.shutdown] at hs
      cases hs

/-- As long as the next desktop has not been accepted, the phone can take a step towards it. -/
theorem goes_on (hd : s.Due n) (hle : s.accepted ≤ n) : ∃ a s', own n s a = true ∧
    a ≠ .requestShutdown ∧ s.step a = some s' := by
  obtain ⟨hn, hlt, hcut⟩ := hd.waits hle
  have htrue : decide (s.accepted ≤ n) = true := decide_eq_true hle
  cases hpc : s.pc with
  | finished =>
    have hs := hd.inv.finished hpc
    rw [hd.shutdown] at hs
    cases hs
  | select =>
    refine ⟨.accept, { s with pc := .bridge s.accepted, accepted := s.accepted + 1 }, ?_, by simp, ?_⟩
    · simp only [own, htrue, Bool.and_self]
    · exact if_pos ⟨hpc, hn ▸ hlt⟩
  | bridge i =>
    obtain ⟨u, hu, hc⟩ := hcut i hpc
    by_cases hend : u.phone.reader.isEnded = true
    · refine ⟨.disconnected, { s with pc := .select }, ?_, by simp, ?_⟩
      · simp only [own, htrue, Bool.and_self]
      · simp only [step, hpc, hu, hend, if_true]
    · obtain ⟨a, u', ho, hs⟩ := Upload.Cut.goes_on hend
      refine ⟨.conn i a, { s with conns := s.conns.set i u' }, ?_, by simp, ?_⟩
      · simp only [own, htrue, hu, hpc, decide_true, ho, Bool.and_self]
      · have hi := hd.inv.bridged i hpc
        have hno : ¬ (a.ofPhone = true ∧ (s.accepted ≤ i ∨ s.pc = .finished)) := by
          rintro ⟨-, h | h⟩
          · omega
          · rw [hpc] at h
            cases h
        simp only [step, hu, hs]
        rw [if_neg hno]

theorem ranked_due (n : Nat) : Runs.Ranked step (own n) (fun _ a => a ≠ .requestShutdown) (Due n)
    (fun s => n < s.accepted) (rank n) :=
  .of_step (fun _ _ _ hd ha h => due_step hd ha h) (fun _ _ _ hd ha h => rank_step hd ha h)
    (fun _ hd hlt => goes_on hd (Nat.le_of_not_lt hlt))

end Serve

/-- **The next desktop gets its turn.**  Take any state in which the stream of the desktop that is bridged
is cut and another one waits.  Whatever else happens, short of a shutdown, the phone takes no more than the
stated number of steps up to the one in which it accepts the next desktop in line; it is not stuck before;
and these steps alone lead there. -/
theorem next_desktop (acts : List Serve.Act) (s : Serve)
    (h : Runs.exec Serve.step .start acts = some s) (hrun : s.shutdown = false) (i : Nat) (u : Upload)
    (hpc : s.pc = .bridge i) (hu : s.conns[i]? = some u) (hcut : u.phone.stream.cut = true)
    (hwait : i + 1 < s.conns.length) :
    (∀ acts' t, Runs.exec Serve.step s acts' = some t → .requestShutdown ∉ acts' →
      Runs.ownSteps Serve.step (Serve.own (i + 1)) s acts' ≤ u.untilEnd + 2 ∧
      ((∀ a, Serve.own (i + 1) t a = true → t.step a = none) → i + 1 < t.accepted)) ∧
    ∃ acts' t, Runs.exec Serve.step s acts' = some t ∧
      Runs.Along Serve.step (fun s a => Serve.own (i + 1) s a = true) s acts' ∧ i + 1 < t.accepted := by
  have hi := Serve.run_inv h
  have hacc := hi.bridged i hpc
  have hd : s.Due (i + 1) := by
    refine ⟨hi, hrun, fun _ => ⟨hacc.symm, hwait, fun j hj => ?_⟩⟩
    rw [hpc] at hj
    cases hj
    exact ⟨u, hu, hcut⟩
  have hr := Serve.ranked_due (i + 1)
  refine ⟨fun acts' t ht hno => ?_, ?_⟩
  · have hal : Runs.Along Serve.step (fun _ a => a ≠ .requestShutdown) s acts' :=
      .of_forall fun a ha heq => hno (heq ▸ ha)
    obtain ⟨hdt, hle⟩ := hr.bound hd hal ht
    refine ⟨?_, fun hstuck => hr.stuck hdt fun a t' ho _ hs => ?_⟩
    · rw [Serve.rank_bridge (Nat.le_of_eq hacc.symm) hpc, Serve.untilEnd_eq hu] at hle
      omega
    · rw [hstuck a ho] at hs
      cases hs
  · obtain ⟨acts', t, ht, hal, hlt⟩ := hr.reach hd
    exact ⟨acts', t, ht, hal.mono fun _ _ h => h.1, hlt⟩

/-- The first desktop is gone half-way through a frame, with a packet in the channel; the second one has sent
a packet while it waits. -/
theorem next_desktop_run : ∃ acts s, Runs.exec Serve.step .start acts = some s ∧
    s.pc = .bridge 0 ∧ s.conns.length = 2 ∧
    ∃ acts' t, Runs.exec Serve.step s acts' = some t ∧
      Runs.Along Serve.step (fun s a => Serve.own 1 s a = true) s acts' ∧ 1 < t.accepted := by
  have h : Runs.exec Serve.step .start
      [.arrive, .accept, .conn 0 (.receive [1, 2, 3]), .conn 0 (.write 2),
        .conn 0 (.write 3), .conn 0 .count, .conn 0 (.phone (.read 2)), .conn 0 (.phone (.read 3)),
        .conn 0 (.phone .count), .conn 0 (.phone .send), .conn 0 (.receive [4]), .conn 0 (.write 1), .arrive,
        .conn 1 (.receive [5]), .conn 1 (.write 2), .conn 0 (.phone (.cut 1))] = some _ := rfl
  exact ⟨_, _, h, rfl, rfl, (next_desktop _ _ h rfl 0 _ rfl rfl rfl (by decide)).2⟩

end RickyNet
