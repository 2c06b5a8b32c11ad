import RickyNet.Win.Gui
import RickyNet.Win.Teardown

/-!
# The address dialled and the address carved out

`transport::connect` takes an IP literal or a host name; the carve-out takes an IPv4 literal and is
silently left out for anything else.  The GUI lets only IPv4 literals through, the command line
takes every string.
-/

namespace RickyNet

/-- Every call of `Routes::install` in a session with `args` gets `carve_out = Some(p)`. -/
def CarvesOut (args : Args) (out : Outcomes) (p : Ipv4Addr) : Prop :=
  ∀ shared base acts s, Runs.exec Session.step (.start args out shared base) acts = some s →
    s.worker.pc = .carveOut → s.worker.carve = some p

/-- At the call of `Routes::install` the carve-out is the one of the arguments. -/
theorem carve_of_run {args : Args} {out : Outcomes} {shared : Shared} {base : RouteTable}
    {acts : List Session.Act} {s : Session}
    (h : Runs.exec Session.step (.start args out shared base) acts = some s)
    (hpc : s.worker.pc = .carveOut) : s.worker.carve = carveOut args := by
  obtain ⟨-, h2, h3, -⟩ := Session.run_inv h
  unfold Worker.Path at h2
  rw [hpc] at h2
  rw [h2.2.2.2, h3]

/-- With the adapter up and the phone dialled, `Routes::install` is called. -/
theorem reaches_install {args : Args} {out : Outcomes} {tun : Tun} (hd : Dialled tun args out) :
    ∃ s, Runs.exec Session.step (.start args out Shared.new ∅) (List.replicate 5 .work) = some s ∧
      s.worker.pc = .carveOut := by
  obtain ⟨hup, stream, hs⟩ := hd
  exact ⟨_, by
    simp only [List.replicate, Runs.exec, Session.step, Session.start, Worker.step, Worker.spawn,
      hup, hs, Option.bind_some]
    rfl, rfl⟩

theorem carvesOut_iff {args : Args} {out : Outcomes} {tun : Tun} (hd : Dialled tun args out)
    (p : Ipv4Addr) : CarvesOut args out p ↔ carveOut args = some p := by
  constructor
  · intro h
    obtain ⟨s, hs, hpc⟩ := reaches_install hd
    rw [← carve_of_run hs hpc]
    exact h _ _ _ s hs hpc
  · intro h shared base acts s hs hpc
    rw [carve_of_run hs hpc, h]

/-- An IPv4 literal is dialled and carved out alike; anything else is not carved out. -/
theorem carveOut_eq_peer_iff {args : Args} {net : Net} {stream : TcpStream} {p : Ipv4Addr}
    (hw : args.transport = .wifi)
    (hconn : net.connect args.transport args.phoneIp args.port = .ok stream)
    (hp : stream.peer = .v4 p) :
    carveOut args = some p ↔ (args.phoneIp.bind parseIpv4).isSome = true := by
  unfold carveOut
  rw [hw] at hconn ⊢
  simp only
  constructor
  · intro h
    rw [h]
    rfl
  · intro h
    obtain ⟨addr, haddr⟩ := Option.isSome_iff_exists.1 h
    obtain ⟨ip, hip, hlit⟩ := Option.bind_eq_some_iff.1 haddr
    rw [hip] at hconn
    have hpeer := net.dial_literal hlit hconn
    rw [hp] at hpeer
    cases hpeer
    exact haddr

/-- What the GUI starts a Wi-Fi worker with is an IPv4 literal. -/
theorem startArgs_literal {app : App} {args : Args} (h : app.startArgs = .ok args)
    (hw : args.transport = .wifi) : (args.phoneIp.bind parseIpv4).isSome = true := by
  unfold App.startArgs at h
  simp only at h
  split at h
  · split at h
    · cases h
    · next hlit =>
      cases h
      exact Option.isSome_iff_ne_none.2 hlit
  · next hn =>
    cases h
    exact absurd hw hn

/-- **When the address dialled is carved out.**  Over Wi-Fi and IPv4, with arguments from the
command line, exactly if `--phone-ip` is an IPv4 literal; with arguments from the GUI, always. -/
theorem carve_out_iff (args : Args) (out : Outcomes) (tun : Tun) (stream : TcpStream) (p : Ipv4Addr)
    (hup : out.tunUp = .ok tun) (hw : args.transport = .wifi)
    (hconn : out.net.connect args.transport args.phoneIp args.port = .ok stream)
    (hp : stream.peer = .v4 p) :
    (∀ argv, parse argv = .ok (some args) →
      (CarvesOut args out p ↔ (args.phoneIp.bind parseIpv4).isSome = true)) ∧
    ∀ app : App, app.startArgs = .ok args → CarvesOut args out p := by
  have h1 : CarvesOut args out p ↔ carveOut args = some p :=
    carvesOut_iff ⟨hup, stream, hconn⟩ p
  have h2 := carveOut_eq_peer_iff hw hconn hp
  refine ⟨fun _ _ => h1.trans h2, fun app happ => ?_⟩
  exact (h1.trans h2).2 (startArgs_literal happ hw)

/-- The address of an IPv4 literal from the command line is carved out. -/
theorem carve_out_literal :
    CarvesOut { Args.default with transport := .wifi, phoneIp := some "192.168.1.42" }
      (.smooth .reachable ⟨7, true⟩ ⟨⟨192, 168, 1, 1⟩, 1⟩) ⟨192, 168, 1, 42⟩ :=
  ((carve_out_iff _ (.smooth .reachable ⟨7, true⟩ ⟨⟨192, 168, 1, 1⟩, 1⟩) ⟨7, true⟩
    ⟨.v4 ⟨192, 168, 1, 42⟩, 27600⟩ _ rfl rfl rfl rfl).1
    ["rickynet", "--transport", "wifi", "--phone-ip", "192.168.1.42"] (by decide)).2 (by decide)

/-- A host name from the command line is dialled over IPv4 and not carved out. -/
theorem host_name_not_carved : ∃ argv args out stream p,
    parse argv = .ok (some args) ∧ args.transport = .wifi ∧ args.phoneIp = some "iphone.local" ∧
      out.net.connect args.transport args.phoneIp args.port = .ok stream ∧ stream.peer = .v4 p ∧
      ¬ CarvesOut args out p :=
  ⟨["rickynet", "--headless", "--transport", "wifi", "--phone-ip", "iphone.local"],
    { Args.default with transport := .wifi, phoneIp := some "iphone.local", headless := true },
    .smooth { Net.reachable with lookupHost := fun _ => .ok [.v4 ⟨192, 168, 1, 42⟩] } ⟨7, true⟩
      ⟨⟨192, 168, 1, 1⟩, 1⟩,
    ⟨.v4 ⟨192, 168, 1, 42⟩, 27600⟩, ⟨192, 168, 1, 42⟩, by decide, rfl, rfl, rfl, rfl,
    fun h => absurd (h Shared.new ∅ (List.replicate 5 .work) _ rfl rfl) (by decide)⟩

end RickyNet
