import Alko.Arduino.Handover
import Alko.Foundation.Duplex
import Alko.System.Receiving
import Alko.System.RequestIds

/-! The serial link with both its ends: the daemon's manager, the machine, and the bytes underway
in either direction, cut up and delayed at will. With requests of 1 to 25 bytes, and receive buffers
that never overflow, it does what the two would do with whole frames in two queues. -/

namespace Alko.System

open Foundation Alkod Arduino
open AlkoManager (received answered)
open FrameFormat (Expects Frame)

/-- A request of one of the manager's clients, of at most the 25 bytes that the machine takes;
`Customer` can make longer ones, and these are not in what follows. A PONG only the manager itself
sends. -/
structure Question extends Payload where
  not_pong : bytes.head? ≠ some Cmd.pong.toByte

/-- The manager, and what it has written and acted on; no step reads the two records. -/
@[ext] structure ManagerEnd where
  manager : AlkoManager
  written : List (List UInt8)
  dispatched : List (List UInt8)

structure Link where
  daemon : ManagerEnd
  dixie : Dixie
  toMachine : List UInt8
  toDaemon : List UInt8

namespace ManagerEnd

def ask (request : Question) (e : ManagerEnd) : ManagerEnd × List (List UInt8) :=
  let sent := e.manager.get request.bytes
  (⟨sent.2, e.written ++ [sent.1], e.dispatched⟩, [sent.1])

def after (r : List ManagerEvent × AlkoManager) (e : ManagerEnd) :
    ManagerEnd × List (List UInt8) :=
  (⟨r.2, e.written ++ answered r.1, e.dispatched ++ received r.1⟩, answered r.1)

end ManagerEnd

namespace Link

/-- `n` bytes arrive at the end that moves, and `m` more during a call of `update()`; however many
they are, the receive buffers hold them. -/
inductive Move
  | ask (request : Question)
  | arrive (n : ℕ)
  | readyRead (n : ℕ)
  | update (w : World) (n m : ℕ)
  | forceServiceState (w : World) (n : ℕ)

def daemonWrites (r : ManagerEnd × List (List UInt8)) (l : Link) : Link :=
  { l with daemon := r.1, toMachine := l.toMachine ++ r.2.flatten }

def machineCalls (c : Call) (l : Link) : Link :=
  { l with
    dixie := l.dixie.call c
    toDaemon := l.toDaemon ++ (l.dixie.framesSince (l.dixie.call c)).flatten }

def step (l : Link) : Move → Link
  | .ask request => l.daemonWrites (l.daemon.ask request)
  | .arrive n =>
    { l with
      daemon := { l.daemon with manager := l.daemon.manager.receive (l.toDaemon.take n) }
      toDaemon := l.toDaemon.drop n }
  | .readyRead n =>
    { l with toDaemon := l.toDaemon.drop n }.daemonWrites
      (l.daemon.after (l.daemon.manager.readChunk (l.toDaemon.take n)))
  | .update w n m =>
    { l with toMachine := (l.toMachine.drop n).drop m }.machineCalls
      (.update (.withBytes (l.toMachine.take n) ((l.toMachine.drop n).take m) w))
  | .forceServiceState w n =>
    { l with toMachine := l.toMachine.drop n }.machineCalls
      (.forceServiceState (.withBytes (l.toMachine.take n) [] w))

def run (moves : List Move) (l : Link) : Link := moves.foldl step l

def boot (olat : BitVec 16) (w : World) : Link :=
  ⟨⟨.new, [], []⟩, .boot olat (.withBytes [] [] w), [], []⟩

def system : TransitionSystem Link Move where
  init l := ∃ olat w, l = boot olat w
  step l k l' := l' = l.step k

end Link

/-! The two ends as parties that are handed whole frames. -/

inductive ManagerTurn
  | ask (request : Question)
  | arrive
  | readyRead

def managerParty : Party UInt8 ManagerTurn ManagerEnd where
  reads
    | .readyRead => true
    | _ => false
  step
    | .ask request, _, e => e.ask request
    | .readyRead, some body, e =>
      e.after (e.manager.dispatch (0x42 :: 0x53 :: UInt8.ofNat (body.length + 3) :: body))
    | _, _, e => (e, [])

def machineParty : Party UInt8 Call Dixie where
  reads
    | .update _ => true
    | .forceServiceState _ => false
  step c found d := (d.serve c found, d.framesSince (d.serve c found))

def PowerOn (e : ManagerEnd) (d : Dixie) : Prop :=
  e = ⟨.new, [], []⟩ ∧ ∃ olat w, d = .boot olat (.withBytes [] [] w)

def frameLink : TransitionSystem (Ends (Desk UInt8 ManagerEnd) (Desk UInt8 Dixie))
    (Errand ManagerTurn Call) :=
  posted managerParty machineParty PowerOn

namespace Link

def ends (l : Link) : Ends (Port UInt8 ManagerEnd) (Port UInt8 Dixie) where
  left := ⟨{ l.daemon with manager := l.daemon.manager.withReader ⟨0, []⟩ },
    l.daemon.manager.reader, l.toDaemon⟩
  right := ⟨l.dixie.withReader ⟨0, []⟩, l.dixie.network.reader, l.toMachine⟩

def Move.turn : Move → Turn ManagerTurn Call
  | ask request => .left (.ask request) 0 0
  | arrive n => .left .arrive n 0
  | readyRead n => .left .readyRead n 0
  | update w n m => .right (.update w) n m
  | forceServiceState w n => .right (.forceServiceState w) n 0

theorem deliver_nil {σ : Type*} (p : Port UInt8 σ) : p.deliver [] = p := by
  rw [Port.deliver, List.flatten_nil, List.append_nil]

theorem ends_arrive (n : ℕ) (l : Link) :
    (l.step (.arrive n)).ends =
      ⟨(l.ends.left.step managerParty AlkoManager.format .arrive n 0).1,
        l.ends.right.deliver (l.ends.left.step managerParty AlkoManager.format .arrive n 0).2⟩ := by
  have hwrites : (l.ends.left.step managerParty AlkoManager.format .arrive n 0).2 = [] := rfl
  rw [hwrites, deliver_nil]
  rfl

theorem ends_ask (request : Question) (l : Link) :
    (l.step (.ask request)).ends =
      ⟨(l.ends.left.step managerParty AlkoManager.format (.ask request) 0 0).1,
        l.ends.right.deliver
          (l.ends.left.step managerParty AlkoManager.format (.ask request) 0 0).2⟩ := by
  simp only [Port.step, managerParty, Bool.false_eq_true, if_false, List.take_zero,
    List.append_nil]
  rfl

theorem ends_readyRead (n : ℕ) (l : Link) :
    (l.step (.readyRead n)).ends =
      ⟨(l.ends.left.step managerParty AlkoManager.format .readyRead n 0).1,
        l.ends.right.deliver
          (l.ends.left.step managerParty AlkoManager.format .readyRead n 0).2⟩ := by
  have hread : (l.daemon.manager.receive (l.toDaemon.take n)).slotReadyRead =
      (l.daemon.manager.withReader ⟨l.daemon.manager.reader.pending,
        l.daemon.manager.reader.buffer ++ l.toDaemon.take n⟩).accept
        (AlkoManager.format.poll [] ⟨l.daemon.manager.reader.pending,
          l.daemon.manager.reader.buffer ++ l.toDaemon.take n⟩).2
        (AlkoManager.format.poll [] ⟨l.daemon.manager.reader.pending,
          l.daemon.manager.reader.buffer ++ l.toDaemon.take n⟩).1 :=
    AlkoManager.slotReadyRead_eq (l.daemon.manager.receive (l.toDaemon.take n))
  simp only [step, AlkoManager.readChunk, hread]
  simp only [Port.step, managerParty, if_true, List.take_zero, ends]
  generalize AlkoManager.format.poll [] ⟨l.daemon.manager.reader.pending,
    l.daemon.manager.reader.buffer ++ l.toDaemon.take n⟩ = polled
  obtain ⟨found, r⟩ := polled
  cases found with
  | none =>
    simp only [AlkoManager.accept, ManagerEnd.after, daemonWrites, answered, received,
      List.filterMap_nil, List.flatten_nil, List.append_nil, deliver_nil]
    rfl
  | some body =>
    simp only [AlkoManager.accept, ManagerEnd.after, daemonWrites,
      AlkoManager.dispatch_withReader]
    rfl

theorem ends_update (w : World) (n m : ℕ) (l : Link) :
    (l.step (.update w n m)).ends =
      ⟨l.ends.left.deliver (l.ends.right.step machineParty Network.format (.update w) n m).2,
        (l.ends.right.step machineParty Network.format (.update w) n m).1⟩ := by
  simp only [step, machineCalls, Dixie.call_update_withBytes]
  simp only [Port.step, machineParty, if_true, ends, Dixie.serve_withReader]
  rfl

theorem ends_forceServiceState (w : World) (n : ℕ) (l : Link) :
    (l.step (.forceServiceState w n)).ends =
      ⟨l.ends.left.deliver
          (l.ends.right.step machineParty Network.format (.forceServiceState w) n 0).2,
        (l.ends.right.step machineParty Network.format (.forceServiceState w) n 0).1⟩ := by
  simp only [step, machineCalls, Dixie.call_force_withBytes]
  simp only [Port.step, machineParty, Bool.false_eq_true, if_false, ends, Dixie.serve_withReader]
  rfl

theorem simulation : TransitionSystem.Simulation system
    (wired managerParty machineParty AlkoManager.format Network.format PowerOn) ends where
  init l h := by
    obtain ⟨olat, w, rfl⟩ := h
    exact ⟨_, _, ⟨rfl, olat, w, rfl⟩, rfl⟩
  step l k l' hstep := by
    obtain rfl := hstep
    refine ⟨k.turn, ?_⟩
    cases k with
    | ask request => exact ends_ask request l
    | arrive n => exact ends_arrive n l
    | readyRead n => exact ends_readyRead n l
    | update w n m => exact ends_update w n m l
    | forceServiceState w n => exact ends_forceServiceState w n l

end Link

def IsRequest (letters : List UInt8) : Prop :=
  ∃ r : UInt16 × Payload, (requestFrame r).letters = letters

theorem IsRequest.isFrame {letters : List UInt8} (h : IsRequest letters) :
    IsFrame Network.format letters := by
  obtain ⟨r, rfl⟩ := h
  exact ⟨requestFrame r, rfl⟩

theorem isRequest_get (request : Payload) (m : AlkoManager) :
    IsRequest (m.get request.bytes).1 := by
  refine ⟨(m.getID, request), ?_⟩
  rw [letters_requestFrame, AlkoManager.get_fst]

theorem pong_pos : 1 ≤ [Cmd.pong.toByte].length := by decide

theorem pong_le : [Cmd.pong.toByte].length ≤ 25 := by decide

def pongPayload : Payload := ⟨[Cmd.pong.toByte], pong_pos, pong_le⟩

theorem answered_dispatch_eq (datagram : List UInt8) (m : AlkoManager) :
    answered (m.dispatch datagram).1 =
      if AlkoManager.isPing datagram then [(m.get [Cmd.pong.toByte]).1] else [] := by
  rw [← AlkoManager.dispatchAs_false]
  exact Asking.answered_dispatchAs false datagram m

theorem isRequest_answered (datagram : List UInt8) (m : AlkoManager) :
    ∀ letters ∈ answered (m.dispatch datagram).1, IsRequest letters := by
  rw [answered_dispatch_eq]
  split
  · intro letters hmem
    exact List.mem_singleton.mp hmem ▸ isRequest_get pongPayload m
  · nofun

theorem managerParty_requests (k : ManagerTurn) (found : Option (List UInt8)) (e : ManagerEnd) :
    ∀ letters ∈ (managerParty.step k found e).2, IsRequest letters := by
  cases k with
  | ask request =>
    intro letters hmem
    exact List.mem_singleton.mp hmem ▸ isRequest_get request.toPayload e.manager
  | arrive => nofun
  | readyRead =>
    cases found with
    | none => nofun
    | some body => exact isRequest_answered _ e.manager

theorem managerParty_writes : managerParty.Writes AlkoManager.format Network.format :=
  fun k found e _ letters hmem => (managerParty_requests k found e letters hmem).isFrame

theorem length_data_parse (f : Network.format.Frame) :
    (Network.parse f.body).data.length ≤ 24 := by
  obtain ⟨idHi, idLo, sumHi, sumLo, command, data, hbody⟩ := exists_body f
  have hmax : f.body.length + 3 ≤ 32 := f.le_maxSize
  rw [hbody] at hmax ⊢
  simp only [List.length_cons, Network.parse] at hmax ⊢
  omega

/-- Every frame of the machine's is one the daemon can take. -/
theorem sends_serve {c : Call} {found : Option (List UInt8)} (d : Dixie)
    (hfound : ∀ body ∈ found, ∃ f : Network.format.Frame, f.body = body) :
    d.Sends (fun frame => frame.data.length ≤ 24) (d.serve c found) := by
  cases c with
  | forceServiceState w =>
    obtain ⟨frames, hframes, hsilent⟩ :=
      Dixie.forceServiceState_sends (d.inWorld (.withBytes [] [] w))
    exact ⟨frames, hframes, fun frame hmem => (hsilent frame hmem).room⟩
  | update w =>
    obtain ⟨d', hcall, -, -, -, -, -, hcomplaint, -⟩ :=
      Dixie.handOver_cases found (d.inWorld (.withBytes [] [] w))
    have hroom : ∀ dgr ∈ Dixie.intake found, dgr.data.length ≤ 24 := by
      intro dgr hmem
      obtain ⟨body, hbody, rfl⟩ :=
        Option.map_eq_some_iff.mp (Option.filter_eq_some_iff.mp hmem).1
      obtain ⟨f, rfl⟩ := hfound body hbody
      exact length_data_parse f
    obtain ⟨frames, hframes, hspoken, -⟩ := Dixie.updateWith_sends d' hroom
    have hfirst : d.Sends (fun frame => frame.data.length ≤ 24) d' := by
      obtain ⟨complaints, hsent, hcomplaints⟩ := hcomplaint
      exact ⟨complaints, hsent, fun frame hmem => by simp [(hcomplaints frame hmem).2]⟩
    refine hfirst.trans ⟨frames, by rw [Dixie.serve, hcall, hframes], fun frame hmem => ?_⟩
    rcases (hspoken frame hmem).plain with hplain | rfl
    · exact hplain.room
    · exact Nat.zero_le 24

theorem machineParty_writes : machineParty.Writes Network.format AlkoManager.format := by
  intro c found d hfound letters hmem
  obtain ⟨frames, hsent, hroom⟩ := sends_serve (c := c) d hfound
  have hwrites : (machineParty.step c found d).2 = frames.map Datagram.toBytes := by
    simp only [machineParty, Dixie.framesSince, hsent, List.drop_left]
  rw [hwrites] at hmem
  obtain ⟨frame, hframe, rfl⟩ := List.mem_map.mp hmem
  have hle := hroom frame hframe
  exact ⟨AlkoManager.sentFrame frame (by omega), AlkoManager.letters_sentFrame frame _⟩

theorem Link.queued : TransitionSystem.ForwardSimulation Link.system frameLink fun l =>
    l.ends.Reads AlkoManager.format Network.format :=
  Link.simulation.forward (wired_simulates managerParty_writes machineParty_writes PowerOn)

/-- However the bytes of requests of 1 to 25 bytes come, and with buffers that do not overflow, both
ends do what they would do with whole frames in two queues: the bytes underway in either direction,
those already received included, are those of the frames in its queue. -/
theorem link_carries_frames {l : Link} (h : Link.system.Reachable l) :
    ∃ q, frameLink.Reachable q ∧ l.ends.Reads AlkoManager.format Network.format q :=
  Link.queued.reachable h

theorem Link.reachable_run {l : Link} (h : Link.system.Reachable l) (moves : List Link.Move) :
    Link.system.Reachable (l.run moves) :=
  h.foldl (fun _ _ => rfl) moves

theorem ping_not_pong : [Cmd.ping.toByte].head? ≠ some Cmd.pong.toByte := by decide

def pingQuestion : Question := ⟨⟨[Cmd.ping.toByte], Line.ping_pos, Line.ping_le⟩, ping_not_pong⟩

def Link.exchange : Link :=
  (boot 0xFFFF (.turning 0 false [])).run
    [.ask pingQuestion, .update (.turning 1 false []) 2 3, .update (.turning 2 false []) 3 0,
      .readyRead 2, .arrive 3, .readyRead 3]

theorem Link.reachable_exchange : Link.system.Reachable Link.exchange :=
  Link.reachable_run (.init ⟨_, _, rfl⟩) _

theorem link_carries_frames_exchange :
    Link.exchange.daemon.dispatched = [(Network.sendCommand .service 2).toBytes] ∧
      ∃ q, frameLink.Reachable q ∧
        Link.exchange.ends.Reads AlkoManager.format Network.format q :=
  ⟨by decide +kernel, link_carries_frames Link.reachable_exchange⟩

end Alko.System
