import Alko.Alkod.AlkoManager
import Alko.Arduino.Network

/-! From the daemon to the machine: what `AlkoManager::get` writes is what
`Network::datagramIsPending` accepts. -/

namespace Alko.System

open Foundation Alkod Arduino
open FrameFormat (Expects Polled)

/-- A request that fits a frame of the machine: a command byte and its data. -/
structure Payload where
  bytes : List UInt8
  one_le : 1 ≤ bytes.length
  le : bytes.length ≤ 25

def issued : List Payload → AlkoManager → List (UInt16 × Payload)
  | [], _ => []
  | p :: ps, m => (m.getID, p) :: issued ps (m.get p.bytes).2

def written : List Payload → AlkoManager → List UInt8
  | [], _ => []
  | p :: ps, m => (m.get p.bytes).1 ++ written ps (m.get p.bytes).2

def requestChecksum (r : UInt16 × Payload) : UInt16 :=
  makeChecksum ([0x42, 0x53, UInt8.ofNat (7 + r.2.bytes.length), Datagram.hiByte r.1,
    Datagram.loByte r.1, 0, 0] ++ r.2.bytes)

def requestBody (r : UInt16 × Payload) : List UInt8 :=
  [Datagram.hiByte r.1, Datagram.loByte r.1, Datagram.hiByte (requestChecksum r),
    Datagram.loByte (requestChecksum r)] ++ r.2.bytes

def requestFrame (r : UInt16 × Payload) : Network.format.Frame where
  sizeLetter := UInt8.ofNat (7 + r.2.bytes.length)
  body := requestBody r
  size_eq := by
    have hle := r.2.le
    simp only [requestBody, List.length_append, List.length_cons, List.length_nil,
      show Network.format.size = UInt8.toNat from rfl, UInt8.toNat_ofNat']
    omega
  minSize_le := by
    have hle := r.2.one_le
    simp only [requestBody, List.length_append, List.length_cons, List.length_nil,
      show Network.format.minSize = 8 from rfl]
    omega
  le_maxSize := by
    have hle := r.2.le
    simp only [requestBody, List.length_append, List.length_cons, List.length_nil,
      show Network.format.maxSize = 32 from rfl]
    omega

theorem letters_requestFrame (r : UInt16 × Payload) :
    (requestFrame r).letters = requestBytes r.1 r.2.bytes := by
  have hle := r.2.le
  have htake : r.2.bytes.take (r.2.bytes.length % 256) = r.2.bytes := by
    rw [Nat.mod_eq_of_lt (by omega), List.take_length]
  simp only [requestBytes, htake]
  rfl

theorem stream_issued (ps : List Payload) (m : AlkoManager) :
    FrameFormat.stream ((issued ps m).map requestFrame) = written ps m := by
  induction ps generalizing m with
  | nil => rfl
  | cons p ps ih =>
    simp only [issued, List.map_cons, FrameFormat.stream_cons, letters_requestFrame, ih, written,
      AlkoManager.get_fst]

theorem parse_requestBody (r : UInt16 × Payload) {command : UInt8} {data : List UInt8}
    (h : r.2.bytes = command :: data) :
    Network.parse (requestBody r) = ⟨r.1, requestChecksum r, command, data⟩ := by
  simp only [requestBody, h, List.cons_append, List.nil_append, Network.parse,
    Datagram.ofBytes_hiByte_loByte]

theorem exists_command (p : Payload) : ∃ command data, p.bytes = command :: data :=
  List.exists_cons_of_length_pos p.one_le

/-- The checksum sealed by the daemon is valid to the machine, whose words straddle it. -/
theorem checksumIsValid_requestBody (r : UInt16 × Payload) :
    (Network.parse (requestBody r)).checksumIsValid = true := by
  obtain ⟨command, data, hbytes⟩ := exists_command r.2
  have hle := r.2.le
  have hfield : 256 * (Datagram.hiByte (requestChecksum r)).toNat +
      (Datagram.loByte (requestChecksum r)).toNat = (requestChecksum r).toNat := by
    rw [Datagram.toNat_hiByte, Datagram.toNat_loByte]
    omega
  have hsealed : checksum ([0x42, 0x53, UInt8.ofNat (7 + r.2.bytes.length),
      Datagram.hiByte r.1, Datagram.loByte r.1] ++ Datagram.hiByte (requestChecksum r) ::
      Datagram.loByte (requestChecksum r) :: r.2.bytes) = 0 := by
    apply checksum_sealed
    · simp
    · simp only [List.length_append, List.length_cons, List.length_nil]
      omega
    · exact hfield
  rw [parse_requestBody r hbytes, Datagram.checksumIsValid, decide_eq_true_eq,
    Datagram.generateChecksum, ← hsealed]
  simp only [Datagram.toBytes, Datagram.getDataSize, hbytes, List.cons_append, List.nil_append,
    List.length_cons, Nat.add_comm data.length 1, ← Nat.add_assoc]

/-- Bytes reach the machine's receive buffer, or the machine looks at it; `late` comes in between
the two looks of one call. -/
inductive LineStep
  | arrive (bytes : List UInt8)
  | poll (late : List UInt8)

structure Line where
  network : Network
  accepted : List Datagram
  sent : List Datagram

namespace Line

def step (l : Line) : LineStep → Line
  | .arrive bytes => { l with network := l.network.receive bytes }
  | .poll late =>
    let p := l.network.datagramIsPending late
    { network := p.network
      accepted := l.accepted ++ if p.pending then [p.network.getPendingDatagram] else []
      sent := l.sent ++ p.sent }

def run (steps : List LineStep) (l : Line) : Line := steps.foldl step l

def Idle (l : Line) : Prop :=
  (l.network.datagramIsPending []).network.reader = l.network.reader

end Line

def LineStep.arrives : LineStep → List UInt8
  | .arrive bytes => bytes
  | .poll late => late

def arrivals (steps : List LineStep) : List UInt8 := steps.flatMap LineStep.arrives

def datagramKey (dgr : Datagram) : UInt16 × List UInt8 := (dgr.id, dgr.command :: dgr.data)

def requestKey (r : UInt16 × Payload) : UInt16 × List UInt8 := (r.1, r.2.bytes)

/-- `l` has accepted `done`, sent nothing, and still has `todo` to come. -/
structure Line.Keeps (l : Line) (future : List UInt8) (done todo : List (UInt16 × Payload)) :
    Prop where
  accepted : l.accepted.map datagramKey = done.map requestKey
  sent : l.sent = []
  expects : Expects l.network.reader future (todo.map requestFrame)

namespace Line

variable {l : Line} {future late bytes : List UInt8} {done todo : List (UInt16 × Payload)}

theorem Keeps.arrive (h : l.Keeps (bytes ++ future) done todo) :
    (l.step (.arrive bytes)).Keeps future done todo :=
  ⟨h.accepted, h.sent, h.expects.arrive⟩

theorem Keeps.poll_none {r : Reader UInt8} (h : l.Keeps (late ++ future) done todo)
    (hpoll : Network.format.poll late l.network.reader = (none, r))
    (hr : Expects r future (todo.map requestFrame)) :
    (l.step (.poll late)).Keeps future done todo := by
  have hp : l.network.datagramIsPending late =
      ⟨false, [], ⟨r.pending, l.network.datagram, r.buffer⟩⟩ := by
    rw [Network.datagramIsPending_eq, hpoll]
    rfl
  simp only [step, hp]
  exact ⟨by simpa using h.accepted, by simpa using h.sent, hr⟩

theorem Keeps.poll_some {r : Reader UInt8} {next : UInt16 × Payload}
    (h : l.Keeps (late ++ future) done (next :: todo))
    (hpoll : Network.format.poll late l.network.reader = (some (requestBody next), r))
    (hr : Expects r future (todo.map requestFrame)) :
    (l.step (.poll late)).Keeps future (done ++ [next]) todo := by
  have hp : l.network.datagramIsPending late =
      ⟨true, [], ⟨r.pending, some (Network.parse (requestBody next)), r.buffer⟩⟩ := by
    rw [Network.datagramIsPending_eq, hpoll]
    exact if_pos (checksumIsValid_requestBody next)
  have hkey : datagramKey (Network.parse (requestBody next)) = requestKey next := by
    obtain ⟨command, data, hbytes⟩ := exists_command next.2
    rw [parse_requestBody next hbytes, requestKey, hbytes]
    rfl
  simp only [step, hp]
  refine ⟨?_, by simpa using h.sent, hr⟩
  simp only [if_true, Network.getPendingDatagram, Option.getD_some, List.map_append, h.accepted,
    List.map_cons, List.map_nil, hkey]

theorem Keeps.poll (h : l.Keeps (late ++ future) done todo) :
    ∃ done' todo', done' ++ todo' = done ++ todo ∧
      (l.step (.poll late)).Keeps future done' todo' := by
  cases todo with
  | nil =>
    obtain ⟨hpoll, hr⟩ := FrameFormat.poll_nil h.expects
    exact ⟨done, [], rfl, h.poll_none hpoll hr⟩
  | cons next todo =>
    rcases FrameFormat.poll_polled (requestFrame next) (todo.map requestFrame) h.expects with
      ⟨r, hpoll, -, -, hr⟩ | hpolled
    · exact ⟨done, next :: todo, rfl, h.poll_none hpoll hr⟩
    · generalize hpoll : Network.format.poll late l.network.reader = p,
        FrameFormat.arrived l.network.reader + late.length = n at hpolled
      cases hpolled with
      | waits more rest => exact ⟨done, next :: todo, rfl, h.poll_none hpoll rest⟩
      | yields rest =>
        exact ⟨done ++ [next], todo, List.append_assoc .., h.poll_some hpoll rest⟩

/-- The step lemma: a step takes what arrives with it off the future and may move a request from
to do to done. -/
theorem Keeps.step {s : LineStep} (h : l.Keeps (s.arrives ++ future) done todo) :
    ∃ done' todo', done' ++ todo' = done ++ todo ∧ (l.step s).Keeps future done' todo' := by
  cases s with
  | arrive bytes => exact ⟨done, todo, rfl, h.arrive⟩
  | poll late => exact h.poll

theorem Keeps.run {steps : List LineStep} (h : l.Keeps (arrivals steps ++ future) done todo) :
    ∃ done' todo', done' ++ todo' = done ++ todo ∧ (l.run steps).Keeps future done' todo' := by
  induction steps generalizing l done todo with
  | nil => exact ⟨done, todo, rfl, h⟩
  | cons s steps ih =>
    have hnow : l.Keeps (s.arrives ++ (arrivals steps ++ future)) done todo := by
      rw [← List.append_assoc]
      exact h
    obtain ⟨done', todo', hall, hstep⟩ := hnow.step
    obtain ⟨done'', todo'', hall', hrun⟩ := ih hstep
    exact ⟨done'', todo'', hall'.trans hall, hrun⟩

theorem Keeps.of_idle (h : l.Keeps [] done todo) (hidle : l.Idle) : todo = [] := by
  cases todo with
  | nil => rfl
  | cons next todo =>
    -- a poll would accept the next request, and its letters would be gone
    obtain ⟨r, hpoll, hr⟩ :=
      FrameFormat.poll_complete (requestFrame next) (todo.map requestFrame) h.expects
    have hnow : l.Keeps ([] ++ []) done (next :: todo) := h
    have hkeeps := (hnow.poll_some hpoll hr).expects
    have hsame : (l.step (.poll [])).network.reader = l.network.reader := hidle
    rw [hsame] at hkeeps
    have hbefore := FrameFormat.arrived_add_length h.expects
    have hafter := FrameFormat.arrived_add_length hkeeps
    simp only [List.map_cons, FrameFormat.stream_cons, List.length_append,
      FrameFormat.Frame.length_letters] at hbefore
    omega

theorem Keeps.idle (h : l.Keeps [] done []) : l.Idle := by
  have hnow : Expects l.network.reader ([] ++ []) ([] : List Network.format.Frame) := h.expects
  unfold Idle
  rw [Network.datagramIsPending_eq, (FrameFormat.poll_nil hnow).1]
  rfl

theorem Keeps.finish (h : l.Keeps [] done todo) :
    (l.run (List.replicate todo.length (.poll []))).Keeps [] (done ++ todo) [] := by
  induction todo generalizing l done with
  | nil => rwa [List.append_nil]
  | cons next todo ih =>
    obtain ⟨r, hpoll, hr⟩ :=
      FrameFormat.poll_complete (requestFrame next) (todo.map requestFrame) h.expects
    have hnow : l.Keeps ([] ++ []) done (next :: todo) := h
    have hfinish := ih (hnow.poll_some hpoll hr)
    rw [List.append_assoc] at hfinish
    exact hfinish

/-- Both ends agree: whatever the requests, the ids and the way the bytes arrive, nothing is ever
reported as damaged, what has been accepted is a beginning of what was issued, and once all bytes
are there, polling on until nothing is consumed has accepted each request once and in order. -/
theorem framing_round_trip (m : AlkoManager) (requests : List Payload) (network : Network)
    (hidle : network.sizePending = 0) (hempty : network.rx = []) (steps : List LineStep)
    (harrive : arrivals steps = written requests m) :
    let l := Line.run steps ⟨network, [], []⟩
    let asked := (issued requests m).map requestKey
    l.sent = [] ∧ l.accepted.map datagramKey <+: asked ∧
      (l.Idle → l.accepted.map datagramKey = asked) ∧
      ∃ n, (l.run (List.replicate n (.poll []))).Idle := by
  have hstart : (⟨network, [], []⟩ : Line).Keeps (arrivals steps ++ []) []
      (issued requests m) := by
    refine ⟨rfl, rfl, .header hidle ?_⟩
    rw [stream_issued, List.append_nil, harrive]
    exact congrArg (· ++ written requests m) hempty
  obtain ⟨done, todo, hall, hkeeps⟩ := hstart.run
  have hasked : done ++ todo = issued requests m := hall
  refine ⟨hkeeps.sent, ?_, ?_, todo.length, hkeeps.finish.idle⟩
  · rw [hkeeps.accepted, ← hasked, List.map_append]
    exact List.prefix_append ..
  · intro hidle
    rw [hkeeps.accepted, ← hasked, hkeeps.of_idle hidle, List.append_nil]

theorem ping_pos : 1 ≤ [Cmd.ping.toByte].length := by decide

theorem ping_le : [Cmd.ping.toByte].length ≤ 25 := by decide

theorem text_pos : 1 ≤ (Cmd.setText3.toByte :: [0x48, 0x65, 0x69]).length := by decide

theorem text_le : (Cmd.setText3.toByte :: [0x48, 0x65, 0x69]).length ≤ 25 := by decide

def pingAndText : List Payload :=
  [⟨[Cmd.ping.toByte], ping_pos, ping_le⟩,
    ⟨Cmd.setText3.toByte :: [0x48, 0x65, 0x69], text_pos, text_le⟩]

def cutTwice (bytes : List UInt8) : List LineStep :=
  [.arrive (bytes.take 2), .poll [], .poll ((bytes.drop 2).take 9), .arrive (bytes.drop 11),
    .poll []]

theorem framing_round_trip_cut :
    let l := Line.run (cutTwice (written pingAndText AlkoManager.new)) ⟨Network.new, [], []⟩
    let asked := [(2, [Cmd.ping.toByte]), (3, Cmd.setText3.toByte :: [0x48, 0x65, 0x69])]
    l.sent = [] ∧ l.accepted.map datagramKey <+: asked ∧
      (l.Idle → l.accepted.map datagramKey = asked) ∧
      ∃ n, (l.run (List.replicate n (.poll []))).Idle :=
  framing_round_trip AlkoManager.new pingAndText Network.new rfl rfl _ (by decide +kernel)

end Line

end Alko.System
