import Alko.Arduino.Retries
import Alko.System.Link

/-! What goes over the link, of requests of 1 to 25 bytes: each request is handled once, each frame
of the machine's is acted on once, in the order they were written, and nothing is ever taken for
damaged. -/

namespace Alko.System

open Foundation Alkod Arduino
open AlkoManager (received answered)
open FrameFormat (Expects Frame arrived)

structure Balanced (q : Ends (Desk UInt8 ManagerEnd) (Desk UInt8 Dixie)) : Prop where
  settled : q.right.state.control.Settled
  requests : ∀ letters ∈ q.right.inbox, IsRequest letters
  asked : q.left.state.written = q.right.state.handled.map Datagram.toBytes ++ q.right.inbox
  told : q.right.state.sent.map Datagram.toBytes = q.left.state.dispatched ++ q.left.inbox
  plain : ∀ frame ∈ q.right.state.sent,
    Dixie.Plain frame ∨ frame = Network.sendCommand .ping 0

theorem managerParty_records (k : ManagerTurn) (found : Option (List UInt8)) (e : ManagerEnd)
    (hfound : found ≠ none → managerParty.reads k) :
    (managerParty.step k found e).1.written = e.written ++ (managerParty.step k found e).2 ∧
      (managerParty.step k found e).1.dispatched = e.dispatched ++
        (found.map fun body => 0x42 :: 0x53 :: UInt8.ofNat (body.length + 3) :: body).toList := by
  cases k with
  | ask request =>
    cases found with
    | none => exact ⟨rfl, (List.append_nil _).symm⟩
    | some body => exact absurd (hfound nofun) Bool.false_ne_true
  | arrive =>
    cases found with
    | none => exact ⟨(List.append_nil _).symm, (List.append_nil _).symm⟩
    | some body => exact absurd (hfound nofun) Bool.false_ne_true
  | readyRead =>
    cases found with
    | none => exact ⟨(List.append_nil _).symm, (List.append_nil _).symm⟩
    | some body =>
      refine ⟨rfl, ?_⟩
      exact congrArg (e.dispatched ++ ·) (AlkoManager.received_dispatch _ e.manager)

theorem intake_requestFrame (r : UInt16 × Payload) :
    Dixie.intake (some (requestFrame r).body) = some (Network.parse (requestFrame r).body) :=
  Option.filter_eq_some_iff.mpr ⟨rfl, checksumIsValid_requestBody r⟩

theorem framesSince_eq {d d' : Dixie} {frames : List Datagram} (h : d'.sent = d.sent ++ frames) :
    d.framesSince d' = frames.map Datagram.toBytes := by
  rw [Dixie.framesSince, h, List.drop_left]

theorem forall_mem_append {α : Type*} {P : α → Prop} {xs ys : List α} (hxs : ∀ x ∈ xs, P x)
    (hys : ∀ y ∈ ys, P y) : ∀ z ∈ xs ++ ys, P z := by
  intro z hz
  rcases List.mem_append.mp hz with hz | hz
  · exact hxs z hz
  · exact hys z hz

/-- What a step of the machine does with a request, or with none. -/
theorem serve_requests {d : Dixie} (hd : d.control.Settled) {c : Call}
    {found : Option (List UInt8)} {before after : List (List UInt8)}
    (hfinds : Desk.Finds machineParty c before found after)
    (hrequests : ∀ letters ∈ before, IsRequest letters) :
    ∃ pending frames, d.Served pending frames (d.serve c found) ∧
      pending.toList.map Datagram.toBytes ++ after = before := by
  cases hfinds with
  | leaves =>
    cases c with
    | update w =>
      have hnone : ∀ body ∈ (none : Option (List UInt8)),
          (Network.parse body).checksumIsValid ∧ (Network.parse body).data.length ≤ 24 := nofun
      obtain ⟨frames, hserved⟩ := Dixie.served_update hd w hnone
      exact ⟨none, frames, hserved, rfl⟩
    | forceServiceState w =>
      obtain ⟨frames, hserved⟩ := Dixie.served_forceServiceState hd w none
      exact ⟨none, frames, hserved, rfl⟩
  | takes reads frame =>
    obtain ⟨r, rfl⟩ := hrequests frame List.mem_cons_self
    cases c with
    | forceServiceState w => exact absurd reads Bool.false_ne_true
    | update w =>
      have hfound : ∀ body ∈ some (requestFrame r).body,
          (Network.parse body).checksumIsValid ∧ (Network.parse body).data.length ≤ 24 := by
        intro body hbody
        obtain rfl := Option.some.inj hbody
        exact ⟨checksumIsValid_requestBody r, length_data_parse (requestFrame r)⟩
      obtain ⟨frames, hserved⟩ := Dixie.served_update hd w hfound
      rw [intake_requestFrame] at hserved
      refine ⟨_, frames, hserved, ?_⟩
      rw [Option.toList_some, List.map_singleton, toBytes_parse]
      rfl

namespace Balanced

variable {q : Ends (Desk UInt8 ManagerEnd) (Desk UInt8 Dixie)}

theorem left (h : Balanced q) (hframes : ∀ x ∈ q.left.inbox, IsFrame AlkoManager.format x)
    (k : ManagerTurn) (take : Bool) :
    Balanced ⟨(q.left.step managerParty k take).1,
      q.right.deliver (q.left.step managerParty k take).2⟩ := by
  obtain ⟨found, inbox, hfinds, hstep⟩ := q.left.step_finds managerParty k take
  have hreads : found ≠ none → managerParty.reads k := by
    intro hne
    generalize q.left.inbox = before at hfinds
    cases hfinds with
    | leaves => exact absurd rfl hne
    | takes reads => exact reads
  obtain ⟨hwritten, hdispatched⟩ := managerParty_records k found q.left.state hreads
  have hinbox : (found.map fun body =>
      0x42 :: 0x53 :: UInt8.ofNat (body.length + 3) :: body).toList ++ inbox = q.left.inbox := by
    generalize q.left.inbox = before at hfinds hframes
    cases hfinds with
    | leaves => rfl
    | takes reads frame =>
      obtain ⟨f, rfl⟩ := hframes frame List.mem_cons_self
      exact congrArg (· :: inbox) (letters_frame f)
  rw [hstep]
  refine ⟨h.settled, ?_, ?_, ?_, h.plain⟩
  · exact forall_mem_append h.requests (managerParty_requests k found q.left.state)
  · simp only [hwritten, h.asked, Desk.deliver_inbox, Desk.deliver_state, List.append_assoc]
  · simp only [hdispatched, Desk.deliver_state, h.told, ← hinbox, List.append_assoc]

theorem right (h : Balanced q) (c : Call) (take : Bool) :
    Balanced ⟨q.left.deliver (q.right.step machineParty c take).2,
      (q.right.step machineParty c take).1⟩ := by
  obtain ⟨found, inbox, hfinds, hstep⟩ := q.right.step_finds machineParty c take
  obtain ⟨pending, frames, hserved, hinbox⟩ := serve_requests h.settled hfinds h.requests
  have hwrites : (machineParty.step c found q.right.state).2 = frames.map Datagram.toBytes :=
    framesSince_eq hserved.sent
  rw [hstep, hwrites]
  refine ⟨hserved.settled, ?_, ?_, ?_, ?_⟩
  · intro letters hmem
    refine h.requests letters ?_
    rw [← hinbox]
    exact List.mem_append_right _ hmem
  · rw [Desk.deliver_state, h.asked, ← hinbox, ← List.append_assoc, ← List.map_append,
      ← hserved.handled]
    rfl
  · rw [Desk.deliver_state, Desk.deliver_inbox, ← List.append_assoc, ← h.told,
      ← List.map_append, ← hserved.sent]
    rfl
  · have hplain := forall_mem_append h.plain hserved.plain
    rw [← hserved.sent] at hplain
    exact hplain

theorem isFrame (h : Balanced q) : ∀ x ∈ q.left.inbox, IsFrame AlkoManager.format x := by
  intro x hx
  have hmem : x ∈ q.right.state.sent.map Datagram.toBytes := by
    rw [h.told]
    exact List.mem_append_right _ hx
  obtain ⟨frame, hframe, rfl⟩ := List.mem_map.mp hmem
  have hroom : frame.data.length ≤ 56 := by
    rcases h.plain frame hframe with hplain | rfl
    · exact hplain.room.trans (by decide)
    · exact Nat.zero_le 56
  exact ⟨AlkoManager.sentFrame frame hroom, AlkoManager.letters_sentFrame frame hroom⟩

theorem powerOn {e : ManagerEnd} {d : Dixie} (h : PowerOn e d) : Balanced ⟨.new e, .new d⟩ := by
  obtain ⟨rfl, olat, w, rfl⟩ := h
  obtain ⟨column, hcontrol⟩ := Dixie.control_begin (.withBytes [] [] w) olat
  have htrace := Dixie.boot_trace olat (.withBytes [] [] w)
  have hsent : (Dixie.boot olat (.withBytes [] [] w)).sent = [] := by
    rw [Dixie.sent, htrace]
    rfl
  have hhandled : (Dixie.boot olat (.withBytes [] [] w)).handled = [] := by
    rw [Dixie.handled, htrace]
    rfl
  refine ⟨?_, fun letters hmem => absurd hmem List.not_mem_nil, ?_, ?_, ?_⟩
  · exact hcontrol ▸ Control.settled_initial column
  · simp only [Desk.new, hhandled, List.map_nil, List.append_nil]
  · simp only [Desk.new, hsent, List.map_nil, List.append_nil]
  · simp only [Desk.new, hsent, List.not_mem_nil, false_implies, implies_true]

theorem reachable (h : frameLink.Reachable q) : Balanced q := by
  refine h.invariant (I := Balanced) (fun q hq => ?_) fun q k q' _ hq hstep => ?_
  · obtain ⟨e, d, hpower, rfl⟩ := hq
    exact powerOn hpower
  · cases k with
    | left k take => exact hstep ▸ hq.left hq.isFrame k take
    | right c take => exact hstep ▸ hq.right c take

end Balanced

namespace Link

variable {l : Link} {q : Ends (Desk UInt8 ManagerEnd) (Desk UInt8 Dixie)}

theorem length_of_reads {σ : Type*} {F : FrameFormat UInt8} {p : Port UInt8 σ} {d : Desk UInt8 σ}
    (h : p.Reads F d) : arrived p.reader + p.inbox.length = d.inbox.flatten.length := by
  obtain ⟨frames, hinbox, hexp⟩ := h.frames
  rw [FrameFormat.arrived_add_length hexp, hinbox]
  rfl

/-- What the two ends have on record is the same on streams and on queues. -/
structure Records (l : Link) (q : Ends (Desk UInt8 ManagerEnd) (Desk UInt8 Dixie)) : Prop where
  written : l.daemon.written = q.left.state.written
  dispatched : l.daemon.dispatched = q.left.state.dispatched
  handled : l.dixie.handled = q.right.state.handled
  sent : l.dixie.sent = q.right.state.sent
  gotPong : l.dixie.gotPong = q.right.state.gotPong

theorem records_of_reads (h : l.ends.Reads AlkoManager.format Network.format q) : l.Records q where
  written := by rw [← h.left.state]; rfl
  dispatched := by rw [← h.left.state]; rfl
  handled := by rw [← h.right.state]; rfl
  sent := by rw [← h.right.state]; rfl
  gotPong := by rw [← h.right.state]; rfl

theorem exists_balanced (h : system.Reachable l) :
    ∃ q, Balanced q ∧ l.ends.Reads AlkoManager.format Network.format q ∧ l.Records q := by
  obtain ⟨q, hq, hreads⟩ := queued.reachable h
  exact ⟨q, Balanced.reachable hq, hreads, records_of_reads hreads⟩

/-- Over every run on requests of 1 to 25 bytes, and with the bytes cut up and delayed at will but
none lost in a buffer that overflows: the requests handled are the first of those written, the
datagrams acted on the first of those sent, the bytes of the others are all underway, and the
machine never complains of a checksum. -/
theorem link_in_order (h : system.Reachable l) :
    ∃ pending waiting,
      l.daemon.written = l.dixie.handled.map Datagram.toBytes ++ pending ∧
      l.dixie.sent.map Datagram.toBytes = l.daemon.dispatched ++ waiting ∧
      arrived l.dixie.network.reader + l.toMachine.length = pending.flatten.length ∧
      arrived l.daemon.manager.reader + l.toDaemon.length = waiting.flatten.length ∧
      ∀ frame ∈ l.dixie.sent, frame.command ≠ Cmd.chksumInvalid.toByte := by
  obtain ⟨q, hbalanced, hreads, hrecords⟩ := exists_balanced h
  refine ⟨q.right.inbox, q.left.inbox, ?_, ?_, length_of_reads hreads.right,
    length_of_reads hreads.left, fun frame hframe => ?_⟩
  · rw [hrecords.written, hrecords.handled, hbalanced.asked]
  · rw [hrecords.sent, hrecords.dispatched, hbalanced.told]
  · rcases hbalanced.plain frame (hrecords.sent ▸ hframe) with hplain | rfl
    · exact hplain.complaint
    · decide

theorem link_in_order_exchange :
    exchange.dixie.handled.map Datagram.toBytes = exchange.daemon.written ∧
    ∃ pending waiting,
      exchange.daemon.written = exchange.dixie.handled.map Datagram.toBytes ++ pending ∧
      exchange.dixie.sent.map Datagram.toBytes = exchange.daemon.dispatched ++ waiting ∧
      arrived exchange.dixie.network.reader + exchange.toMachine.length =
        pending.flatten.length ∧
      arrived exchange.daemon.manager.reader + exchange.toDaemon.length =
        waiting.flatten.length ∧
      ∀ frame ∈ exchange.dixie.sent, frame.command ≠ Cmd.chksumInvalid.toByte :=
  ⟨by decide +kernel, link_in_order reachable_exchange⟩

theorem handled_pass (h : system.Reachable l) (w : World) {n : ℕ}
    (hall : l.toMachine.length ≤ n) :
    (l.step (.update w n 0)).dixie.handled.map Datagram.toBytes =
      l.daemon.written.take (l.dixie.handled.length + 1) := by
  obtain ⟨q, hbalanced, hreads, hrecords⟩ := exists_balanced h
  obtain ⟨-, hstate⟩ :=
    hreads.right.step_arrived (P := machineParty) (k := .update w) rfl hall 0
  have hnext : (l.step (.update w n 0)).dixie.handled =
      (q.right.step machineParty (.update w) true).1.state.handled := by
    rw [← hstate.state, ← congrArg (fun e => e.right.state.handled) (ends_update w n 0 l)]
    rfl
  have hafter := (hbalanced.right (.update w) true).asked
  rw [Desk.deliver_state, Desk.step_takes rfl, ← hnext, ← hrecords.written] at hafter
  have hbefore := hbalanced.asked
  rw [← hrecords.written, ← hrecords.handled] at hbefore
  generalize (l.step (.update w n 0)).dixie.handled = after at hafter ⊢
  generalize l.dixie.handled = before at hbefore ⊢
  have hlength := congrArg List.length (hafter.symm.trans hbefore)
  rw [hafter]
  cases hinbox : q.right.inbox with
  | nil =>
    rw [hinbox] at hlength
    simp only [List.length_append, List.length_map, List.tail_nil, List.length_nil] at hlength
    rw [List.tail_nil, List.append_nil, List.take_of_length_le]
    rw [List.length_map]
    omega
  | cons letters inbox =>
    rw [hinbox] at hlength
    simp only [List.length_append, List.length_map, List.tail_cons, List.length_cons] at hlength
    rw [List.tail_cons, List.take_append_of_le_length, List.take_of_length_le]
    · rw [List.length_map]
      omega
    · rw [List.length_map]
      omega

/-- Of such requests, once every byte is there, so many passes handle the next so many, in order. -/
theorem link_catches_up (h : system.Reachable l) (ws : List World) :
    (l.run (ws.map fun w => .update w l.toMachine.length 0)).dixie.handled.map Datagram.toBytes =
      l.daemon.written.take (l.dixie.handled.length + ws.length) := by
  suffices hmore : ∀ n, l.toMachine.length ≤ n →
      (l.run (ws.map fun w => .update w n 0)).dixie.handled.map Datagram.toBytes =
        l.daemon.written.take (l.dixie.handled.length + ws.length) from hmore _ le_rfl
  intro n hall
  induction ws generalizing l with
  | nil =>
    obtain ⟨q, hbalanced, -, hrecords⟩ := exists_balanced h
    rw [hrecords.written, hbalanced.asked, ← hrecords.handled, List.length_nil, Nat.add_zero,
      List.take_append_of_le_length, List.take_of_length_le]
    · rfl
    · rw [List.length_map]
    · rw [List.length_map]
  | cons w ws ih =>
    have hpass := handled_pass h w hall
    have hlength := congrArg List.length hpass
    rw [List.length_map, List.length_take] at hlength
    have hrest : (l.step (.update w n 0)).toMachine.length ≤ n := by
      simp [step, machineCalls, List.drop_eq_nil_of_le hall]
    have hlater := ih (h.step (k := .update w n 0) rfl) hrest
    rw [hlength] at hlater
    rw [List.map_cons, List.length_cons]
    refine hlater.trans ?_
    rw [show (l.step (.update w n 0)).daemon = l.daemon from rfl, List.take_eq_take_iff]
    omega

def backlog : Link :=
  (boot 0xFFFF (.turning 0 false [])).run
    [.ask pingQuestion, .ask pingQuestion, .update (.turning 1 false []) 2 0, .ask pingQuestion]

theorem link_catches_up_backlog :
    (backlog.run ([World.turning 2 false [], .turning 3 false [], .turning 4 false []].map
      fun w => .update w backlog.toMachine.length 0)).dixie.handled.map Datagram.toBytes =
        backlog.daemon.written.take (backlog.dixie.handled.length + 3) :=
  link_catches_up (reachable_run (.init ⟨_, _, rfl⟩) _) _

end Link

end Alko.System
