import RickyNet.Core.UdpRelay
import RickyNet.Lib.Progress
import RickyNet.Link.Counters

/-!
# What a UDP flow has done

However its operations end, a flow has sent and written each datagram once, in order and unchanged, and the
totals that its last log line gives are those of what has been sent and written (`Accounts`, for every run).
While nothing fails its two loops get everything across (`ranked_plain`).

`moves_of_step`: what a step of either loop does, the buffers being large enough for any datagram.
-/

namespace RickyNet

namespace UdpFlow

/-- What a step does. -/
inductive Moves (s : UdpFlow) : Act → UdpFlow → Prop
  | arrive (d : Bytes) (hd : d.length ≤ MAX_DATAGRAM) :
      Moves s (.arrive d) { s with queue := s.queue ++ [d], arrived := s.arrived ++ [d] }
  | read (d : Bytes) (hu : s.up = .read) (hne : d ≠ []) :
      Moves s (.read d) { s with up := .send d, fromDesktop := s.fromDesktop ++ [d] }
  | readEmpty (hu : s.up = .read) : Moves s (.read []) { s with endedBy := some .desktop }
  | readEnd (hu : s.up = .read) : Moves s .readEnd { s with endedBy := some .desktop }
  | send (buf : Bytes) (hu : s.up = .send buf) :
      Moves s (.send true) { s with
        up := .read
        upBytes := s.upBytes + UInt64.ofNat buf.length
        sent := s.sent ++ [buf] }
  | sendErr (buf : Bytes) (hu : s.up = .send buf) :
      Moves s (.send false) { s with endedBy := some .desktop }
  | recv (d : Bytes) (rest : List Bytes) (hd : s.down = .recv) (hq : s.queue = d :: rest) (hne : d ≠ []) :
      Moves s .recv { s with down := .write d, queue := rest }
  | recvEmpty (rest : List Bytes) (hd : s.down = .recv) (hq : s.queue = [] :: rest) :
      Moves s .recv { s with queue := rest, endedBy := some .internet }
  | recvErr (hd : s.down = .recv) : Moves s .recvErr { s with endedBy := some .internet }
  | write (buf : Bytes) (hd : s.down = .write buf) :
      Moves s (.write true) { s with
        down := .recv
        downBytes := s.downBytes + UInt64.ofNat buf.length
        written := s.written ++ [buf] }
  | writeErr (buf : Bytes) (hd : s.down = .write buf) :
      Moves s (.write false) { s with endedBy := some .internet }

/-- No datagram on the socket is larger than a datagram can be. -/
def Fits (s : UdpFlow) : Prop := ∀ d ∈ s.queue, d.length ≤ MAX_DATAGRAM

variable {s s' : UdpFlow} {a : Act}

theorem moves_of_step (hf : s.Fits) (h : s.step a = some s') : s.endedBy = none ∧ s.Moves a s' := by
  unfold step at h
  split at h
  · cases h
  next hup =>
  refine ⟨not_not.1 hup, ?_⟩
  cases a with
  | arrive d =>
    simp only at h
    split at h
    · next hd => cases h; exact .arrive d hd
    · cases h
  | read d =>
    simp only at h
    split at h
    · next hu =>
      split at h
      · next hd =>
        rw [upRead_eq s hd] at h
        split at h
        · next he => subst he; cases h; exact .readEmpty hu
        · next hne => cases h; exact .read d hu hne
      · cases h
    · cases h
  | readEnd =>
    simp only at h
    split at h
    · next hu => cases h; exact .readEnd hu
    · cases h
  | send ok =>
    simp only at h
    split at h
    · next buf hu =>
      cases ok with
      | true => cases h; exact .send buf hu
      | false => cases h; exact .sendErr buf hu
    · cases h
  | recv =>
    simp only at h
    split at h
    · next d rest hd hq =>
      rw [downRecv_eq s rest (hf d (by rw [hq]; exact List.mem_cons_self))] at h
      split at h
      · next he => subst he; cases h; exact .recvEmpty rest hd hq
      · next hne => cases h; exact .recv d rest hd hq hne
    · cases h
  | recvErr =>
    simp only at h
    split at h
    · next hd => cases h; exact .recvErr hd
    · cases h
  | write ok =>
    simp only at h
    split at h
    · next buf hd =>
      cases ok with
      | true => cases h; exact .write buf hd
      | false => cases h; exact .writeErr buf hd
    · cases h

theorem fits_step (hf : s.Fits) (h : s.step a = some s') : s'.Fits := by
  obtain ⟨-, hm⟩ := moves_of_step hf h
  have hrest : ∀ {d rest}, s.queue = d :: rest → ∀ x ∈ rest, x.length ≤ MAX_DATAGRAM :=
    fun hq x hx => hf x (by rw [hq]; exact List.mem_cons_of_mem _ hx)
  cases hm with
  | arrive d hd =>
    intro x hx
    rcases List.mem_append.1 hx with hx | hx
    · exact hf x hx
    · rw [List.mem_singleton.1 hx]
      exact hd
  | recv d rest _ hq _ => exact hrest hq
  | recvEmpty rest _ hq => exact hrest hq
  | _ => exact hf

/-! ## Every run -/

/-- What has come in has gone out but for the datagram in hand, and for an empty one that has ended the flow;
the totals are those of what has gone out. -/
structure Accounts (s : UdpFlow) : Prop where
  fits : s.Fits
  up : s.fromDesktop = s.sent ++ s.up.holding
  down : ∃ dropped, s.arrived = s.written ++ s.down.holding ++ dropped ++ s.queue ∧
    (dropped = [] ∨ dropped = [[]] ∧ s.endedBy = some .internet)
  upBytes : s.upBytes = payload s.sent
  downBytes : s.downBytes = payload s.written

theorem start_accounts : start.Accounts :=
  ⟨fun d h => (by cases h), rfl, ⟨[], rfl, Or.inl rfl⟩, rfl, rfl⟩

/-- Nothing has been dropped while the flow is up. -/
theorem Accounts.arrived_eq (hs : s.Accounts) (hup : s.endedBy = none) :
    s.arrived = s.written ++ s.down.holding ++ s.queue := by
  obtain ⟨dropped, harr, rfl | ⟨-, he⟩⟩ := hs.down
  · rw [harr, List.append_nil]
  · rw [hup] at he
    cases he

theorem accounts_step (hs : s.Accounts) (h : s.step a = some s') : s'.Accounts := by
  have hfits := fits_step hs.fits h
  obtain ⟨hup, hm⟩ := moves_of_step hs.fits h
  have harr := hs.arrived_eq hup
  have hdown : ∀ e, ∃ dropped, s.arrived = s.written ++ s.down.holding ++ dropped ++ s.queue ∧
      (dropped = [] ∨ dropped = [[]] ∧ e = some UdpSide.internet) :=
    fun _ => ⟨[], by rw [harr, List.append_nil], Or.inl rfl⟩
  cases hm with
  | arrive d hd =>
    refine ⟨hfits, hs.up, ⟨[], ?_, Or.inl rfl⟩, hs.upBytes, hs.downBytes⟩
    show s.arrived ++ [d] = s.written ++ s.down.holding ++ [] ++ (s.queue ++ [d])
    rw [harr, List.append_nil, List.append_assoc _ s.queue]
  | read d hu hne =>
    have hin := hs.up
    rw [hu] at hin
    refine ⟨hfits, ?_, hdown _, hs.upBytes, hs.downBytes⟩
    show s.fromDesktop ++ [d] = s.sent ++ [d]
    rw [hin]
    exact congrArg (· ++ [d]) (List.append_nil _)
  | send buf hu =>
    have hin := hs.up
    rw [hu] at hin
    refine ⟨hfits, ?_, hdown _, ?_, hs.downBytes⟩
    · show s.fromDesktop = s.sent ++ [buf] ++ []
      rw [List.append_nil]
      exact hin
    · show s.upBytes + UInt64.ofNat buf.length = payload (s.sent ++ [buf])
      rw [payload_append, payload_singleton, hs.upBytes]
  | recv d rest hd hq hne =>
    refine ⟨hfits, hs.up, ⟨[], ?_, Or.inl rfl⟩, hs.upBytes, hs.downBytes⟩
    show s.arrived = s.written ++ [d] ++ [] ++ rest
    rw [harr, hd, hq]
    simp [UdpDown.holding]
  | recvEmpty rest hd hq =>
    refine ⟨hfits, hs.up, ⟨[[]], ?_, Or.inr ⟨rfl, rfl⟩⟩, hs.upBytes, hs.downBytes⟩
    show s.arrived = s.written ++ s.down.holding ++ [[]] ++ rest
    rw [harr, hq, List.append_assoc _ [[]]]
    rfl
  | write buf hd =>
    refine ⟨hfits, hs.up, ⟨[], ?_, Or.inl rfl⟩, hs.upBytes, ?_⟩
    · show s.arrived = s.written ++ [buf] ++ [] ++ [] ++ s.queue
      rw [harr, hd]
      simp [UdpDown.holding]
    · show s.downBytes + UInt64.ofNat buf.length = payload (s.written ++ [buf])
      rw [payload_append, payload_singleton, hs.downBytes]
  | _ => exact ⟨hfits, hs.up, hdown _, hs.upBytes, hs.downBytes⟩

theorem run_accounts {acts : List Act} (h : Runs.exec step start acts = some s) : s.Accounts :=
  Runs.exec_inv step Accounts (fun _ _ _ => accounts_step) start_accounts h

/-! ## While nothing fails -/

/-- No operation fails, the desktop side does not end, and there are no empty datagrams. -/
def Act.plain : Act → Bool
  | .arrive d | .read d => !d.isEmpty
  | .send ok | .write ok => ok
  | .recv => true
  | .readEnd | .recvErr => false

/-- A step that brings a datagram further. -/
def Act.moves : Act → Bool
  | .send _ | .recv | .write _ => true
  | _ => false

/-- The steps that a new datagram takes. -/
def Act.brings : Act → Nat
  | .arrive _ => 2
  | .read _ => 1
  | _ => 0

/-- The steps up to everything being sent and written. -/
def rank (s : UdpFlow) : Nat := 2 * s.queue.length + s.down.holding.length + s.up.holding.length

def Across (s : UdpFlow) : Prop := s.written = s.arrived ∧ s.sent = s.fromDesktop

/-- The flow is up, and nothing that it has to relay is empty. -/
structure Plain (s : UdpFlow) : Prop where
  accounts : s.Accounts
  up : s.endedBy = none
  full : ∀ d ∈ s.queue, d ≠ []

/-- **One step.** -/
theorem plain_step (hs : s.Plain) (ha : a.plain = true) (h : s.step a = some s') :
    s'.Plain ∧ (if a.moves then 1 else 0) + s'.rank ≤ s.rank + a.brings := by
  have hacc := accounts_step hs.accounts h
  obtain ⟨-, hm⟩ := moves_of_step hs.accounts.fits h
  cases hm with
  | arrive d hd =>
    refine ⟨⟨hacc, hs.up, fun x hx => ?_⟩, ?_⟩
    · rcases List.mem_append.1 hx with hx | hx
      · exact hs.full x hx
      · rw [List.mem_singleton.1 hx]
        rintro rfl
        cases ha
    · simp only [Act.moves, Act.brings, rank, List.length_append, List.length_singleton, Bool.false_eq_true,
        if_false]
      omega
  | read d hu hne =>
    refine ⟨⟨hacc, hs.up, hs.full⟩, ?_⟩
    simp only [Act.moves, Act.brings, rank, hu, UdpUp.holding, List.length_singleton, List.length_nil,
      Bool.false_eq_true, if_false]
    omega
  | send buf hu =>
    refine ⟨⟨hacc, hs.up, hs.full⟩, ?_⟩
    simp only [Act.moves, Act.brings, rank, hu, UdpUp.holding, List.length_singleton, List.length_nil, if_true]
    omega
  | recv d rest hd hq hne =>
    refine ⟨⟨hacc, hs.up, fun x hx => hs.full x (by rw [hq]; exact List.mem_cons_of_mem _ hx)⟩, ?_⟩
    simp only [Act.moves, Act.brings, rank, hd, hq, UdpDown.holding, List.length_nil, List.length_cons, if_true]
    omega
  | recvEmpty rest hd hq => exact absurd rfl (hs.full [] (by rw [hq]; exact List.mem_cons_self))
  | write buf hd =>
    refine ⟨⟨hacc, hs.up, hs.full⟩, ?_⟩
    simp only [Act.moves, Act.brings, rank, hd, UdpDown.holding, List.length_singleton, List.length_nil, if_true]
    omega
  | readEmpty hu => cases ha
  | readEnd hu => cases ha
  | sendErr buf hu => cases ha
  | recvErr hd => cases ha
  | writeErr buf hd => cases ha

theorem plain_run {t : UdpFlow} {acts : List Act} (hs : s.Plain) (h : Runs.exec step s acts = some t)
    (ha : ∀ a ∈ acts, a.plain = true) :
    t.Plain ∧ Runs.ownSteps step (fun _ a => a.moves) s acts + t.rank ≤ s.rank + Runs.total Act.brings acts :=
  Runs.ownSteps_le Act.brings (P := fun _ a => a.plain = true) (fun _ _ _ hs ha h => (plain_step hs ha h).1)
    (fun _ _ _ hs ha h => (plain_step hs ha h).2) hs (.of_forall ha) h

/-- The loops have something to do as long as there is a datagram that has not got across. -/
theorem plain_enabled (hs : s.Plain) (hnot : ¬ s.Across) :
    ∃ a s', a.moves = true ∧ (a.plain = true ∧ a.brings = 0) ∧ s.step a = some s' := by
  have hup := hs.up
  have harr := hs.accounts.arrived_eq hup
  have hin := hs.accounts.up
  cases hu : s.up with
  | send buf =>
    refine ⟨.send true, { s with
      up := .read
      upBytes := s.upBytes + UInt64.ofNat buf.length
      sent := s.sent ++ [buf] }, rfl, ⟨rfl, rfl⟩, ?_⟩
    simp only [step, hup, hu, ne_eq, not_true, if_false, if_true]
  | read =>
    cases hd : s.down with
    | write buf =>
      refine ⟨.write true, { s with
        down := .recv
        downBytes := s.downBytes + UInt64.ofNat buf.length
        written := s.written ++ [buf] }, rfl, ⟨rfl, rfl⟩, ?_⟩
      simp only [step, hup, hd, ne_eq, not_true, if_false, if_true]
    | recv =>
      cases hq : s.queue with
      | cons d rest =>
        refine ⟨.recv, s.downRecv d rest, rfl, ⟨rfl, rfl⟩, ?_⟩
        simp only [step, hup, hd, hq, ne_eq, not_true, if_false]
      | nil =>
        rw [hd, hq] at harr
        rw [hu] at hin
        refine absurd ⟨?_, ?_⟩ hnot
        · simpa [UdpDown.holding] using harr.symm
        · simpa [UdpUp.holding] using hin.symm

theorem ranked_plain : Runs.Ranked step (fun _ a => a.moves) (fun _ a => a.plain = true ∧ a.brings = 0) Plain
    Across rank := by
  refine .of_step (fun s a s' hs ha h => (plain_step hs ha.1 h).1) (fun s a s' hs ha h => ?_)
    (fun s hs hnot => plain_enabled hs hnot)
  have hle := (plain_step hs ha.1 h).2
  split
  · next ho =>
    rw [if_pos ho] at hle
    omega
  · next ho =>
    rw [if_neg ho] at hle
    omega

/-- A step of the loops brings nothing new. -/
theorem moves_keep (hf : s.Fits) (ha : a.moves = true) (h : s.step a = some s') :
    s'.arrived = s.arrived ∧ s'.fromDesktop = s.fromDesktop := by
  obtain ⟨-, hm⟩ := moves_of_step hf h
  cases hm with
  | arrive d hd => cases ha
  | read d hu hne => cases ha
  | _ => exact ⟨rfl, rfl⟩

theorem moves_run {t : UdpFlow} {acts : List Act} (hf : s.Fits)
    (hal : Runs.Along step (fun _ a => a.moves = true) s acts) (h : Runs.exec step s acts = some t) :
    t.arrived = s.arrived ∧ t.fromDesktop = s.fromDesktop := by
  have hall := Runs.throughout_of_along
    (fun t => t.Fits ∧ t.arrived = s.arrived ∧ t.fromDesktop = s.fromDesktop) (fun u a u' hu ha hs => by
      obtain ⟨harr, hin⟩ := moves_keep hu.1 ha hs
      exact ⟨fits_step hu.1 hs, harr.trans hu.2.1, hin.trans hu.2.2⟩) ⟨hf, rfl, rfl⟩ hal
  exact (hall.last h).2

end UdpFlow

/-- **Each datagram once.**  Whatever fails and whichever side ends the flow: what has been read from the
desktop is what has been sent and at most one datagram in hand; what has arrived is what has been written, at
most one in hand, the empty one that has ended the flow if one has, and what has not been received; and the
totals are those of the datagrams sent and written. -/
theorem udp_accounts (acts : List UdpFlow.Act) (s : UdpFlow)
    (h : Runs.exec UdpFlow.step .start acts = some s) :
    (∃ hand, hand.length ≤ 1 ∧ s.fromDesktop = s.sent ++ hand) ∧
    (∃ hand dropped, hand.length ≤ 1 ∧ s.arrived = s.written ++ hand ++ dropped ++ s.queue ∧
      (dropped = [] ∨ dropped = [[]] ∧ s.endedBy = some .internet)) ∧
    s.upBytes = payload s.sent ∧ s.downBytes = payload s.written := by
  have hs := UdpFlow.run_accounts h
  obtain ⟨dropped, harr, hdropped⟩ := hs.down
  refine ⟨⟨s.up.holding, ?_, hs.up⟩, ⟨s.down.holding, dropped, ?_, harr, hdropped⟩, hs.upBytes, hs.downBytes⟩
  · cases s.up <;> simp [UdpUp.holding]
  · cases s.down <;> simp [UdpDown.holding]

/-- A datagram cannot be written, and ends the flow with another one on the socket. -/
theorem udp_accounts_run : ∃ acts s, Runs.exec UdpFlow.step .start acts = some s ∧
    s.endedBy = some .internet ∧ s.queue = [[3]] ∧ s.downBytes = 2 ∧
    ∃ hand dropped, hand.length ≤ 1 ∧ s.arrived = s.written ++ hand ++ dropped ++ s.queue ∧
      (dropped = [] ∨ dropped = [[]] ∧ s.endedBy = some .internet) := by
  have h : Runs.exec UdpFlow.step .start
      [.arrive [1, 2], .read [9], .recv, .write true, .arrive [4], .arrive [3], .send true, .recv,
        .write false] = some _ := rfl
  exact ⟨_, _, h, rfl, rfl, rfl, (udp_accounts _ _ h).2.1⟩

/-- **The relay catches up.**  From every state in which the flow is up and no empty datagram waits, as long as
nothing fails and nothing empty comes in, the two loops take no more than the stated number of steps, and 2 or
1 for each datagram that comes in meanwhile; where they can take none, every datagram has been written and
sent; and their steps alone lead there. -/
theorem udp_drains (acts : List UdpFlow.Act) (s : UdpFlow)
    (h : Runs.exec UdpFlow.step .start acts = some s) (hup : s.endedBy = none)
    (hfull : ∀ d ∈ s.queue, d ≠ []) :
    (∀ acts' t, Runs.exec UdpFlow.step s acts' = some t → (∀ a ∈ acts', a.plain = true) →
      Runs.ownSteps UdpFlow.step (fun _ a => a.moves) s acts' ≤
        s.rank + Runs.total UdpFlow.Act.brings acts' ∧
      ((∀ a : UdpFlow.Act, a.moves = true → a.plain = true → t.step a = none) →
        t.written = t.arrived ∧ t.sent = t.fromDesktop)) ∧
    ∃ acts' t, Runs.exec UdpFlow.step s acts' = some t ∧
      Runs.Along UdpFlow.step (fun _ a => a.moves = true ∧ a.plain = true) s acts' ∧
      t.written = s.arrived ∧ t.sent = s.fromDesktop := by
  have hacc := UdpFlow.run_accounts h
  have hs : s.Plain := ⟨hacc, hup, hfull⟩
  refine ⟨fun acts' t ht ha => ?_, ?_⟩
  · obtain ⟨hts, hle⟩ := UdpFlow.plain_run hs ht ha
    refine ⟨by omega, fun hno => UdpFlow.ranked_plain.stuck hts fun a t' hmoves hplain hstep => ?_⟩
    rw [hno a hmoves hplain.1] at hstep
    cases hstep
  · obtain ⟨acts', t, ht, hal, hwritten, hsent⟩ := UdpFlow.ranked_plain.reach hs
    obtain ⟨harr, hin⟩ := UdpFlow.moves_run hacc.fits (hal.mono fun _ _ h => h.1) ht
    exact ⟨acts', t, ht, hal.mono fun _ _ h => ⟨h.1, h.2.1⟩, hwritten.trans harr, hsent.trans hin⟩

/-- Two datagrams on the socket, one half-way to the desktop, and one in the hand of the other loop. -/
theorem udp_drains_run : ∃ acts s, Runs.exec UdpFlow.step .start acts = some s ∧ s.rank = 6 ∧
    ∃ acts' t, Runs.exec UdpFlow.step s acts' = some t ∧ t.written = s.arrived ∧ t.sent = s.fromDesktop := by
  have h : Runs.exec UdpFlow.step .start
      [.arrive [1, 2], .read [9], .recv, .arrive [4], .arrive [3]] = some _ := rfl
  obtain ⟨acts', t, ht, -, hend⟩ := (udp_drains _ _ h rfl (by decide)).2
  exact ⟨_, _, h, rfl, acts', t, ht, hend⟩

end RickyNet
