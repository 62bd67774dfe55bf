import Alko.System.InOrder

/-! The keep-alive of the link: READY sends a PING and takes its flag down, the daemon sends a PONG
for it, and the PONG puts the flag up again. Flag, PING and PONG are one token that goes round. -/

namespace Alko.System

open Foundation Alkod Arduino
open AlkoManager (received answered isPing)

abbrev FrameState : Type := Ends (Desk UInt8 ManagerEnd) (Desk UInt8 Dixie)

def isPong (letters : List UInt8) : Bool := letters.getD 7 0 = Cmd.pong.toByte

/-- The flag, the PINGs underway to the daemon and the PONGs underway to the machine. -/
def token (q : FrameState) : ℕ :=
  q.right.state.gotPong.toNat + q.left.inbox.countP isPing + q.right.inbox.countP isPong

structure Ready (q : FrameState) : Prop where
  settled : q.right.state.control.Settled
  requests : ∀ letters ∈ q.right.inbox, IsRequest letters

theorem isPong_get (request : Payload) (m : AlkoManager) :
    isPong (m.get request.bytes).1 = decide (request.bytes.head? = some Cmd.pong.toByte) := by
  obtain ⟨command, data, hbytes⟩ := exists_command request
  have hget : (m.get request.bytes).1 = (requestFrame (m.getID, request)).letters := by
    rw [letters_requestFrame, AlkoManager.get_fst]
  have hseventh : (requestFrame (m.getID, request)).letters.getD 7 0 = command := by
    simp [FrameFormat.Frame.letters, requestFrame, requestBody, hbytes]
  rw [isPong, hget, hseventh, hbytes, List.head?_cons]
  simp only [Option.some.injEq]

theorem isPing_rebuilt (frame : List UInt8) :
    isPing (0x42 :: 0x53 :: UInt8.ofNat ((frame.drop 3).length + 3) :: frame.drop 3) =
      isPing frame := by
  have hseventh : (0x42 :: 0x53 :: UInt8.ofNat ((frame.drop 3).length + 3) ::
      frame.drop 3).getD 7 0 = frame.getD 7 0 := by
    simp [List.getD_eq_getElem?_getD]
  rw [isPing, isPing, hseventh]

theorem countP_managerParty {k : ManagerTurn} {found : Option (List UInt8)}
    {before after : List (List UInt8)}
    (hfinds : Desk.Finds managerParty k before found after) (e : ManagerEnd) :
    after.countP isPing + (managerParty.step k found e).2.countP isPong =
      before.countP isPing := by
  cases hfinds with
  | leaves =>
    cases k with
    | ask request =>
      have hnot : isPong (e.manager.get request.bytes).1 = false := by
        rw [isPong_get]
        exact decide_eq_false request.not_pong
      have hwrites : (managerParty.step (.ask request) none e).2 =
          [(e.manager.get request.bytes).1] := rfl
      rw [hwrites, List.countP_singleton, hnot, if_neg Bool.false_ne_true, Nat.add_zero]
    | arrive => rfl
    | readyRead => rfl
  | takes reads frame =>
    cases k with
    | ask request => exact absurd reads Bool.false_ne_true
    | arrive => exact absurd reads Bool.false_ne_true
    | readyRead =>
      have hwrites : (managerParty.step .readyRead (some (frame.drop 3)) e).2 =
          if isPing frame then [(e.manager.get [Cmd.pong.toByte]).1] else [] := by
        rw [← isPing_rebuilt, ← answered_dispatch_eq]
        rfl
      rw [hwrites, List.countP_cons]
      cases isPing frame with
      | false => rfl
      | true =>
        have hpong : isPong (e.manager.get [Cmd.pong.toByte]).1 = true := by
          have hget := isPong_get pongPayload e.manager
          exact hget.trans rfl
        rw [if_pos rfl, if_pos rfl, List.countP_singleton, hpong]
        rfl

theorem countP_toBytes (frames : List Datagram) :
    (frames.map Datagram.toBytes).countP isPing = frames.countP Dixie.isPing := by
  rw [List.countP_map]
  rfl

theorem isPong_toBytes (dgr : Datagram) : isPong dgr.toBytes = Dixie.isPong dgr := rfl

namespace Ready

variable {q q' : FrameState}

/-- The machine's turn: a PONG it handles puts the flag up, a PING it sends takes it down. -/
theorem machineParty_turn (h : Ready q) (c : Call) (take : Bool) :
    ∃ pending frames, q.right.state.Served pending frames
        (q.right.step machineParty c take).1.state ∧
      (q.right.step machineParty c take).2 = frames.map Datagram.toBytes ∧
      pending.toList.map Datagram.toBytes ++ (q.right.step machineParty c take).1.inbox =
        q.right.inbox := by
  obtain ⟨found, inbox, hfinds, hstep⟩ := q.right.step_finds machineParty c take
  obtain ⟨pending, frames, hserved, hinbox⟩ := serve_requests h.settled hfinds h.requests
  rw [hstep]
  exact ⟨pending, frames, hserved, framesSince_eq hserved.sent, hinbox⟩

theorem left (h : Ready q) (k : ManagerTurn) (take : Bool) :
    Ready ⟨(q.left.step managerParty k take).1,
      q.right.deliver (q.left.step managerParty k take).2⟩ := by
  obtain ⟨found, inbox, -, hstep⟩ := q.left.step_finds managerParty k take
  rw [hstep]
  exact ⟨h.settled,
    forall_mem_append h.requests (managerParty_requests k found q.left.state)⟩

theorem right (h : Ready q) (c : Call) (take : Bool) :
    Ready ⟨q.left.deliver (q.right.step machineParty c take).2,
      (q.right.step machineParty c take).1⟩ := by
  obtain ⟨pending, frames, hserved, -, hinbox⟩ := h.machineParty_turn c take
  refine ⟨hserved.settled, fun letters hmem => h.requests letters ?_⟩
  rw [← hinbox]
  exact List.mem_append_right _ hmem

theorem token_left (k : ManagerTurn) (take : Bool) :
    token ⟨(q.left.step managerParty k take).1,
      q.right.deliver (q.left.step managerParty k take).2⟩ = token q := by
  obtain ⟨found, inbox, hfinds, hstep⟩ := q.left.step_finds managerParty k take
  have hcount := countP_managerParty hfinds q.left.state
  rw [hstep]
  simp only [token, Desk.deliver_state, Desk.deliver_inbox, List.countP_append]
  omega

/-- A flag that is up leaves no PONG to be handled, so the token is kept; a PING takes it. -/
theorem token_right (h : Ready q) (hle : token q ≤ 1) (c : Call) (take : Bool) :
    ∃ frames, (q.right.step machineParty c take).1.state.sent = q.right.state.sent ++ frames ∧
      frames.countP Dixie.isPing ≤ token q ∧
      token ⟨q.left.deliver (q.right.step machineParty c take).2,
          (q.right.step machineParty c take).1⟩ = token q := by
  obtain ⟨pending, frames, hserved, hwrites, hinbox⟩ := h.machineParty_turn c take
  have hpongs : (pending.toList.map Datagram.toBytes).countP isPong =
      (pending.any Dixie.isPong).toNat := by
    cases pending with
    | none => rfl
    | some dgr =>
      rw [Option.toList_some, List.map_singleton, List.countP_singleton, isPong_toBytes,
        Option.any_some]
      cases Dixie.isPong dgr <;> rfl
  have hcount := congrArg (List.countP isPong) hinbox
  rw [List.countP_append, hpongs] at hcount
  have hone : q.right.state.gotPong.toNat + (pending.any Dixie.isPong).toNat ≤ 1 := by
    rw [token] at hle
    omega
  have hor : (q.right.state.gotPong || pending.any Dixie.isPong).toNat =
      q.right.state.gotPong.toNat + (pending.any Dixie.isPong).toNat := by
    cases hflag : q.right.state.gotPong with
    | false => rw [Bool.false_or, Bool.toNat_false, Nat.zero_add]
    | true =>
      rw [hflag, Bool.toNat_true] at hone
      rw [Bool.true_or, Bool.toNat_true]
      omega
  have hflag := hserved.flag.trans hor
  refine ⟨frames, hserved.sent, ?_, ?_⟩
  · rw [token]
    omega
  · rw [hwrites]
    simp only [token, Desk.deliver_inbox, List.countP_append, countP_toBytes]
    omega

theorem powerOn {e : ManagerEnd} {d : Dixie} (h : PowerOn e d) :
    Ready ⟨.new e, .new d⟩ ∧ token ⟨.new e, .new d⟩ = 1 := by
  refine ⟨⟨(Balanced.powerOn h).settled, nofun⟩, ?_⟩
  obtain ⟨-, olat, w, rfl⟩ := h
  have hflag := Dixie.boot_gotPong olat (.withBytes [] [] w)
  simp only [token, Desk.new, hflag, List.countP_nil]
  rfl

end Ready

theorem token_eq_one {q : FrameState} (h : frameLink.Reachable q) : Ready q ∧ token q = 1 := by
  refine h.invariant (I := fun q => Ready q ∧ token q = 1) (fun q hq => ?_)
    fun q k q' _ hq hstep => ?_
  · obtain ⟨e, d, hpower, rfl⟩ := hq
    exact Ready.powerOn hpower
  · obtain ⟨hready, htoken⟩ := hq
    cases k with
    | left k take =>
      obtain rfl := hstep
      exact ⟨hready.left k take, (Ready.token_left k take).trans htoken⟩
    | right c take =>
      obtain rfl := hstep
      obtain ⟨-, -, -, hkept⟩ := hready.token_right htoken.le c take
      exact ⟨hready.right c take, hkept.trans htoken⟩

/-- In every run on bytes, with requests of 1 to 25 bytes and buffers that do not overflow, the flag
is up, or one PING is underway, or one PONG. -/
theorem keepalive {l : Link} (h : Link.system.Reachable l) :
    ∃ q, l.ends.Reads AlkoManager.format Network.format q ∧
      l.dixie.gotPong.toNat + q.left.inbox.countP isPing + q.right.inbox.countP isPong = 1 := by
  obtain ⟨q, hq, hreads⟩ := Link.queued.reachable h
  refine ⟨q, hreads, ?_⟩
  rw [(Link.records_of_reads hreads).gotPong]
  exact (token_eq_one hq).2

theorem keepalive_exchange :
    ∃ q, Link.exchange.ends.Reads AlkoManager.format Network.format q ∧
      Link.exchange.dixie.gotPong.toNat + q.left.inbox.countP isPing +
        q.right.inbox.countP isPong = 1 :=
  keepalive Link.reachable_exchange

/-! Frames lost. -/

/-- A step of either end, the loss of a frame underway, or a fresh start of the daemon, which loses
what was underway to it. -/
inductive Mishap
  | none (k : Errand ManagerTurn Call)
  | loseRequest (place : ℕ)
  | loseFrame (place : ℕ)
  | restart

def befall (q : FrameState) : Mishap → FrameState
  | .none k => q.serve managerParty machineParty k
  | .loseRequest place =>
    { q with right := { q.right with inbox := q.right.inbox.eraseIdx place } }
  | .loseFrame place =>
    { q with left := { q.left with inbox := q.left.inbox.eraseIdx place } }
  | .restart => { q with left := .new ⟨.new, [], []⟩ }

def lossyLink : TransitionSystem FrameState Mishap where
  init := frameLink.init
  step q k q' := q' = befall q k

theorem countP_eraseIdx_le {α : Type*} (P : α → Bool) (xs : List α) (place : ℕ) :
    (xs.eraseIdx place).countP P ≤ xs.countP P :=
  (List.eraseIdx_sublist xs place).countP_le

def pings (q : FrameState) : ℕ := q.right.state.sent.countP Dixie.isPing

/-- A step makes no token, and sends a PING only where there is one. -/
theorem lossy_step {q q' : FrameState} {k : Mishap} (h : Ready q) (hle : token q ≤ 1)
    (hstep : lossyLink.step q k q') :
    Ready q' ∧ token q' ≤ token q ∧ pings q ≤ pings q' ∧ pings q' ≤ pings q + token q := by
  obtain rfl := hstep
  cases k with
  | none k =>
    cases k with
    | left k take =>
      exact ⟨h.left k take, (Ready.token_left k take).le, le_rfl, Nat.le_add_right _ _⟩
    | right c take =>
      obtain ⟨frames, hsent, hpings, hkept⟩ := h.token_right hle c take
      refine ⟨h.right c take, hkept.le, ?_⟩
      simp only [pings, befall, Ends.serve, hsent, List.countP_append]
      exact ⟨Nat.le_add_right _ _, Nat.add_le_add_left hpings _⟩
  | loseRequest place =>
    refine ⟨⟨h.settled, fun letters hmem => ?_⟩, ?_, le_rfl, Nat.le_add_right _ _⟩
    · exact h.requests letters (List.mem_of_mem_eraseIdx hmem)
    · exact Nat.add_le_add_left (countP_eraseIdx_le _ _ _) _
  | loseFrame place =>
    refine ⟨⟨h.settled, h.requests⟩, ?_, le_rfl, Nat.le_add_right _ _⟩
    exact Nat.add_le_add_right (Nat.add_le_add_left (countP_eraseIdx_le _ _ _) _) _
  | restart =>
    refine ⟨⟨h.settled, h.requests⟩, ?_, le_rfl, Nat.le_add_right _ _⟩
    exact Nat.add_le_add_right (Nat.add_le_add_left (Nat.zero_le _) _) _

theorem token_le_one {q : FrameState} (h : lossyLink.Reachable q) : Ready q ∧ token q ≤ 1 := by
  refine h.invariant (I := fun q => Ready q ∧ token q ≤ 1) (fun q hq => ?_)
    fun q k q' _ hq hstep => ?_
  · obtain ⟨e, d, hpower, rfl⟩ := hq
    obtain ⟨hready, htoken⟩ := Ready.powerOn hpower
    exact ⟨hready, htoken.le⟩
  · obtain ⟨hready, hle, -⟩ := lossy_step hq.1 hq.2 hstep
    exact ⟨hready, hle.trans hq.2⟩

/-- Since `q` the machine has sent no PING, and it will not: its flag is down for good, and READY
gives way to READY_WAIT each time the ping timer has run out. -/
structure Silenced (q q' : FrameState) : Prop where
  token : token q' = 0
  gotPong : q'.right.state.gotPong = false
  pings : pings q' = pings q
  gives_way : ∀ w take, q'.right.state.currentState = .ready →
    (q'.right.state.timers .ping).timedOut (w.millis 0) = true →
      (befall q' (.none (.right (.update w) take))).right.state.currentState = .readyWait

/-- A token that is lost stays lost, whatever happens then. -/
theorem token_lost {q q' : FrameState} (h : lossyLink.Reachable q) (hlost : token q = 0)
    (hlater : (lossyLink.onwards q).Reachable q') : Silenced q q' := by
  have hbefore := token_le_one h
  have hkept : Ready q' ∧ token q' = 0 ∧ pings q' = pings q := by
    refine hlater.invariant (I := fun q' => Ready q' ∧ token q' = 0 ∧ pings q' = pings q)
      (fun q' hq' => ?_) fun q' k q'' _ hq' hstep => ?_
    · obtain rfl := hq'
      exact ⟨hbefore.1, hlost, rfl⟩
    · obtain ⟨hready, hzero, hpings⟩ := hq'
      obtain ⟨hready', htoken', hmore, hpings'⟩ := lossy_step hready (by omega) hstep
      exact ⟨hready', by omega, by omega⟩
  obtain ⟨hready, hzero, hpings⟩ := hkept
  have hdown : q'.right.state.gotPong = false := by
    rw [token] at hzero
    rw [← Bool.toNat_eq_zero]
    omega
  refine ⟨hzero, hdown, hpings, fun w take hcurrent hdue => ?_⟩
  obtain ⟨found, inbox, hfinds, hright⟩ := q'.right.step_finds machineParty (.update w) take
  have hpong : (Dixie.intake found).any Dixie.isPong = false := by
    have hnone : q'.right.inbox.countP isPong = 0 := by
      rw [token] at hzero
      omega
    have hrequests := hready.requests
    generalize q'.right.inbox = before at hfinds hnone hrequests
    cases hfinds with
    | leaves => rfl
    | takes reads frame =>
      obtain ⟨r, rfl⟩ := hrequests frame List.mem_cons_self
      have hnot := List.countP_eq_zero.mp hnone _ List.mem_cons_self
      rw [show (requestFrame r).letters.drop 3 = (requestFrame r).body from rfl,
        intake_requestFrame, Option.any_some, ← isPong_toBytes, toBytes_parse]
      exact Bool.eq_false_of_not_eq_true hnot
  simp only [befall, Ends.serve, hright]
  exact Dixie.serve_gives_way hready.settled hcurrent hdown hpong hdue

theorem ready_pos : 1 ≤ [Cmd.setState.toByte, State.ready.toByte].length := by decide

theorem ready_le : [Cmd.setState.toByte, State.ready.toByte].length ≤ 25 := by decide

theorem ready_not_pong :
    [Cmd.setState.toByte, State.ready.toByte].head? ≠ some Cmd.pong.toByte := by decide

def restartedLink : FrameState :=
  [.none (.left (.ask ⟨⟨[Cmd.setState.toByte, State.ready.toByte], ready_pos, ready_le⟩,
      ready_not_pong⟩) true),
    .none (.right (.update (.turning 0 false [])) true),
    .none (.right (.update (.turning 3000 false [])) true),
    .none (.right (.update (.turning 33000 false [])) true), .restart].foldl befall
    ⟨.new ⟨.new, [], []⟩, .new (.boot 0xFFFF (.withBytes [] [] (.turning 0 false [])))⟩

theorem reachable_restartedLink : lossyLink.Reachable restartedLink := by
  have hpower : lossyLink.init
      ⟨.new ⟨.new, [], []⟩, .new (.boot 0xFFFF (.withBytes [] [] (.turning 0 false [])))⟩ :=
    ⟨_, _, ⟨rfl, 0xFFFF, .turning 0 false [], rfl⟩, rfl⟩
  exact (TransitionSystem.Reachable.init hpower).foldl (fun _ _ => rfl) _

theorem token_lost_restarted :
    pings restartedLink = 1 ∧
      ∀ ks : List Mishap, Silenced restartedLink (ks.foldl befall restartedLink) := by
  refine ⟨by decide +kernel, fun ks => ?_⟩
  have hstart : (lossyLink.onwards restartedLink).Reachable restartedLink := .init rfl
  exact token_lost reachable_restartedLink (by decide +kernel) (hstart.foldl (fun _ _ => rfl) ks)

end Alko.System
