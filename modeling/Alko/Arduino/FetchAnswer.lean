import Alko.Arduino.StateRequests

/-! What the machine answers to a FETCH: the handler refuses it, or `enterDeployState` answers it
after a second look at the columns. -/

namespace Alko.Arduino

open Control

def Narco.after (scans : ℕ) (n : Narco) : Narco :=
  { n with
    mcp0 := { n.mcp0 with reads := n.mcp0.reads + 2 * scans }
    mcp1 := { n.mcp1 with reads := n.mcp1.reads + 16 * scans } }

def Narco.ScannedFrom (n : Narco) (scans : ℕ) (m : Narco) : Prop :=
  m.mcp0 = (n.after scans).mcp0 ∧ m.mcp1 = (n.after scans).mcp1

theorem Narco.scannedFrom_getDeployColumn (n : Narco) : n.ScannedFrom 1 n.getDeployColumn.2 := by
  obtain ⟨w, hw⟩ := n.getDeployColumn_snd
  rw [hw]
  exact ⟨rfl, rfl⟩

theorem Narco.ScannedFrom.getInfoText {n m : Narco} {scans : ℕ} (h : n.ScannedFrom scans m) :
    n.ScannedFrom (scans + 1) m.getInfoText.2 := by
  obtain ⟨w, text, hw⟩ := m.getInfoText_snd
  rw [hw]
  refine ⟨?_, ?_⟩
  · simp only [scanned, h.1, after, Nat.mul_add, Nat.add_assoc, Nat.mul_one]
  · simp only [scanned, h.2, after, Nat.mul_add, Nat.add_assoc, Nat.mul_one]

theorem Narco.ScannedFrom.getDeployColumn_eq_zero_iff {n m : Narco} {scans : ℕ}
    (h : n.ScannedFrom scans m) :
    m.getDeployColumn.1 = 0 ↔ (n.after scans).columnAvailable = false := by
  rw [Narco.getDeployColumn_eq_zero_iff, columnAvailable_congr h.1 h.2]

namespace Dixie

def narcoRead (d : Dixie) : ℕ :=
  d.clock.reads + (if (d.timers .ping).isActive then 1 else 0) +
    if d.due .ping && d.gotPong then 1 else 0

def refreshes (d : Dixie) : Bool := (d.timers .narco).timedOut (d.clock.millis d.narcoRead)

def pinged (d : Dixie) : Dixie :=
  if (d.timedOut .ping).1 then (d.timedOut .ping).2.doPingPong else (d.timedOut .ping).2

theorem pinged_frame (d : Dixie) :
    d.pinged.narco = d.narco ∧ d.pinged.timers .narco = d.timers .narco ∧
      d.pinged.clock.now = d.clock.millis d.narcoRead := by
  unfold pinged narcoRead
  by_cases hdue : d.due .ping = true
  · have hactive : (d.timers .ping).isActive = true := by
      simp only [due, Timer.timedOut, Bool.and_eq_true] at hdue
      exact hdue.1
    rw [if_pos (show (d.timedOut .ping).1 = true from hdue), timedOut_snd_of_due hdue, hdue,
      hactive, doPingPong]
    cases hpong : d.gotPong
    · simp [Clock.now]
    · simp [Clock.now, emit, setGotPong]
  · rw [if_neg (show ¬(d.timedOut .ping).1 = true from hdue), Bool.eq_false_of_not_eq_true hdue]
    unfold timedOut
    simp only
    split
    · simp [Clock.now]
    · simp [Clock.now]

theorem scannedFrom_updateReadyState {n : Narco} {scans : ℕ} {d : Dixie}
    (h : n.ScannedFrom scans d.narco) :
    n.ScannedFrom (if d.refreshes then scans + 1 else scans) d.updateReadyState.narco := by
  obtain ⟨hnarco, htimer, hclock⟩ := pinged_frame d
  have hrefreshes : (d.pinged.timedOut .narco).1 = d.refreshes := by
    simp only [timedOut, htimer, hclock, refreshes]
  have hsame : (d.pinged.timedOut .narco).2.narco = d.narco := by
    obtain ⟨clock, htick⟩ := timedOut_snd .narco d.pinged
    rw [htick]
    exact hnarco
  rw [show d.updateReadyState = if (d.pinged.timedOut .narco).1 then
    (d.pinged.timedOut .narco).2.showInfoText.startTimer .narco
    else (d.pinged.timedOut .narco).2 from rfl, hrefreshes]
  cases d.refreshes with
  | true =>
    simp only [if_true, startTimer_narco, showInfoText_narco, hsame]
    exact h.getInfoText
  | false => simpa [hsame] using h

variable {d : Dixie} {w : World} {dgr : Datagram}

def fetchFrames (dgr : Datagram) (d : Dixie) : List Datagram :=
  if d.currentState ≠ .ready then [dgr.updateChecksum]
  else if d.narco.getDeployColumn.1 ≠ 0 then []
  else [(response dgr.id .empty).updateChecksum]

theorem accepted_fetch (hcmd : dgr.command = Cmd.fetch.toByte) (d : Dixie) :
    d.accepted dgr =
      if d.currentState = .ready ∧ d.narco.getDeployColumn.1 ≠ 0 then some .deploy else none := by
  unfold accepted
  rw [ofByte?_command hcmd]

theorem datagramHandler_fetch (hcmd : dgr.command = Cmd.fetch.toByte) (d : Dixie) :
    d.datagramHandler dgr = (d.received dgr).handleFetch dgr := by
  simp only [datagramHandler, ofByte?_command hcmd]

theorem sent_datagramHandler_fetch (hcmd : dgr.command = Cmd.fetch.toByte) (d : Dixie) :
    (d.datagramHandler dgr).sent = d.sent ++ d.fetchFrames dgr := by
  rw [datagramHandler_fetch hcmd]
  unfold handleFetch fetchFrames
  rw [received_currentState, received_narco]
  split_ifs
  · rw [sent_sendDatagram, sent_received]
  · rw [sent_setNextState, sent_emit _ _ rfl, sent_setDeployId, sent_scanColumns, sent_received,
      List.append_nil]
  · rw [sent_sendDatagram, sent_scanColumns, sent_received]

theorem narco_datagramHandler_fetch (hcmd : dgr.command = Cmd.fetch.toByte) (d : Dixie) :
    (d.datagramHandler dgr).narco =
      if d.currentState = .ready then d.narco.getDeployColumn.2 else d.narco := by
  rw [datagramHandler_fetch hcmd]
  unfold handleFetch
  rw [received_currentState, received_narco]
  by_cases hready : d.currentState = .ready
  · rw [if_neg (not_not.mpr hready), if_pos hready]
    split <;> simp
  · rw [if_pos hready, if_neg hready]
    simp

def updatedIn (w : World) (d : Dixie) : Dixie := (d.handledIn w).callUpdateState

theorem updated_updatedIn (h : machine.Reachable d) (w : World) :
    Updated (d.handledIn w).readings
      (d.control.receive ((d.inWorld w).handling (d.pendingIn w))) (d.updatedIn w).control := by
  rw [updatedIn, control_callUpdateState, control_handledIn]
  exact ((settled h).toCoherent.receive (admissible_pendingIn d w)).updated _

theorem updatedIn_currentState (h : machine.Reachable d) (w : World) :
    (d.updatedIn w).currentState = d.currentState := by
  rw [← control_currentState, (updated_updatedIn h w).currentState_eq, receive_currentState]
  rfl

theorem updatedIn_nextState (h : machine.Reachable d) (w : World) :
    (d.updatedIn w).nextState = (d.call (.update w)).currentState := by
  rw [← control_nextState, (updated_updatedIn h w).nextState_eq, receive_expiry,
    call_update_currentState h]
  rfl

theorem handledIn_updateState (h : machine.Reachable d) (w : World) :
    (d.handledIn w).updateState = d.currentState := by
  rw [← control_updateState, control_handledIn]
  exact ((settled h).toCoherent.receive (admissible_pendingIn d w)).updateState_eq.trans
    (receive_currentState ..)

theorem laterFrames_eq (h : machine.Reachable d) (w : World) :
    (d.handledIn w).laterFrames = (d.handledIn w).updateFrames ++
      if (d.call (.update w)).currentState = d.currentState then []
      else (d.updatedIn w).entering.enterFrames := by
  have hcur : (d.handledIn w).callUpdateState.currentState = d.currentState :=
    updatedIn_currentState h w
  have hnext : (d.handledIn w).callUpdateState.nextState = (d.call (.update w)).currentState :=
    updatedIn_nextState h w
  rw [laterFrames, hcur, hnext]
  simp only [eq_comm (a := d.currentState)]
  rfl

theorem sent_call_fetch (h : machine.Reachable d) (hpending : d.pendingIn w = some dgr)
    (hcmd : dgr.command = Cmd.fetch.toByte) :
    (d.call (.update w)).sent.drop d.sent.length =
      (d.inWorld w).fetchFrames dgr ++ ((d.handledIn w).updateFrames ++
        if (d.call (.update w)).currentState = d.currentState then []
        else (d.updatedIn w).entering.enterFrames) := by
  rw [sent_call_update hpending (sent_datagramHandler_fetch hcmd _), List.drop_left,
    laterFrames_eq h w]
  rfl

theorem exited_updatedIn (h : machine.Reachable d) (w : World) :
    (d.updatedIn w).callExitState.control = (d.updatedIn w).control.exited := by
  rw [control_callExitState, (updated_updatedIn h w).coherent.exit_eq]

theorem entering_enterState (h : machine.Reachable d) (w : World) :
    (d.updatedIn w).entering.enterState = (d.call (.update w)).currentState := by
  have hnext := congrArg Control.nextState (exited_updatedIn h w)
  exact hnext.trans (updatedIn_nextState h w)

theorem enterFrames_deploy (h : machine.Reachable d) (hcur : d.currentState ≠ .deploy)
    (hdep : (d.call (.update w)).currentState = .deploy) :
    (d.updatedIn w).entering.enterFrames =
      if (d.updatedIn w).columnOnEntry = 0 then []
      else [byteFrame (d.updatedIn w).deployId .fetch
        (UInt8.ofNat (d.updatedIn w).columnOnEntry)] := by
  have hid : (d.updatedIn w).entering.deployId = (d.updatedIn w).deployId := by
    have hid := congrArg Control.deployId (exited_updatedIn h w)
    rw [exited_deployId, control_currentState, updatedIn_currentState h w, if_neg hcur] at hid
    exact hid
  rw [enterFrames, entering_enterState h w, hdep, ← hid]
  rfl

theorem call_eq_updatedIn (h : machine.Reachable d)
    (hstay : (d.call (.update w)).currentState = d.currentState) :
    d.call (.update w) = d.updatedIn w := by
  have hcall : d.call (.update w) =
      if (d.updatedIn w).currentState ≠ (d.updatedIn w).nextState
      then (d.updatedIn w).switchState else d.updatedIn w := rfl
  rw [hcall, if_neg]
  rw [updatedIn_currentState h, updatedIn_nextState h, hstay]
  exact not_not.mpr rfl

theorem call_eq_switchState (h : machine.Reachable d)
    (hmove : (d.call (.update w)).currentState ≠ d.currentState) :
    d.call (.update w) = (d.updatedIn w).switchState := by
  have hcall : d.call (.update w) =
      if (d.updatedIn w).currentState ≠ (d.updatedIn w).nextState
      then (d.updatedIn w).switchState else d.updatedIn w := rfl
  rw [hcall, if_pos]
  rw [updatedIn_currentState h, updatedIn_nextState h]
  exact hmove.symm

theorem switched_updatedIn (h : machine.Reachable d)
    (hmove : (d.call (.update w)).currentState ≠ d.currentState)
    (hhome : (d.call (.update w)).currentState ≠ .autoHome) :
    Switched (d.updatedIn w).columnOnEntry (d.updatedIn w).control
      (d.call (.update w)).control := by
  rw [call_eq_switchState h hmove, control_switchState]
  refine (updated_updatedIn h w).coherent.switched ?_ ?_ (columnOnEntry_le _)
  · have hmem := call_currentState_mem h (.update w) hmove
    rwa [← updatedIn_nextState h, ← updatedIn_currentState h w] at hmem
  · exact fun hnext => absurd ((updatedIn_nextState h w).symm.trans hnext) hhome

theorem deployColumn_deploy (h : machine.Reachable d) (hcur : d.currentState ≠ .deploy)
    (hdep : (d.call (.update w)).currentState = .deploy) :
    (d.call (.update w)).deployColumn = (d.updatedIn w).columnOnEntry := by
  have hswitched := switched_updatedIn h (hdep ▸ hcur.symm) (by simp [hdep])
  have hnext : (d.updatedIn w).control.nextState = .deploy := (updatedIn_nextState h w).trans hdep
  rw [← control_deployColumn, hswitched.deployColumn_eq, columnAfter, if_pos hnext]

theorem call_deployId (h : machine.Reachable d) (hcur : d.currentState ≠ .deploy)
    (hhome : (d.call (.update w)).currentState ≠ .autoHome) :
    (d.call (.update w)).deployId = (d.updatedIn w).deployId := by
  by_cases hmove : (d.call (.update w)).currentState = d.currentState
  · rw [call_eq_updatedIn h hmove]
  · have hid := (switched_updatedIn h hmove hhome).deployId_eq
    rw [control_currentState, updatedIn_currentState h, if_neg hcur] at hid
    exact hid

theorem updatedIn_deployId (h : machine.Reachable d) (hpending : d.pendingIn w = some dgr) :
    (d.updatedIn w).deployId =
      if (d.inWorld w).accepted dgr = some .deploy then dgr.id else d.deployId := by
  have hid := (updated_updatedIn h w).deployId_eq
  rw [hpending] at hid
  exact hid

theorem filter_updateFrames {id : UInt16} (hid : id ≠ 0) (hup : d.updateState = .ready) :
    d.updateFrames.filter (fun frame => frame.id = id) = [] := by
  rw [updateFrames, hup]
  simp only
  split
  · rw [List.filter_cons_of_neg]
    · rfl
    · simpa [show (Network.sendCommand .ping 0).id = 0 from rfl] using hid.symm
  · rfl

theorem handledIn_frame_fetch (hpending : d.pendingIn w = some dgr)
    (hcmd : dgr.command = Cmd.fetch.toByte) :
    (d.handledIn w).gotPong = d.gotPong ∧ (d.handledIn w).refreshes = (d.inWorld w).refreshes ∧
      (d.handledIn w).due .ping = (d.inWorld w).due .ping := by
  obtain ⟨htimers, hclock⟩ := handledIn_frame w d
  have hpong : (d.handledIn w).gotPong = d.gotPong := by
    rw [handledIn, hpending]
    apply (datagramHandler_frame dgr ((d.inWorld w).poll w.late)).2.2.1
    rw [ofByte?_command hcmd]
    decide
  have hdue : (d.handledIn w).due .ping = (d.inWorld w).due .ping := by
    simp only [due, htimers, hclock]
    rfl
  refine ⟨hpong, ?_, hdue⟩
  simp only [refreshes, narcoRead, hdue, htimers, hclock, hpong]
  rfl

theorem columnOnEntry_eq_zero_iff (h : machine.Reachable d) (hpending : d.pendingIn w = some dgr)
    (hcmd : dgr.command = Cmd.fetch.toByte) (hready : d.currentState = .ready) :
    (d.updatedIn w).columnOnEntry = 0 ↔
      ((d.inWorld w).narco.after (if (d.inWorld w).refreshes then 2 else 1)).columnAvailable =
        false := by
  have hhandled : (d.handledIn w).narco = (d.inWorld w).narco.getDeployColumn.2 := by
    rw [handledIn, hpending]
    refine (narco_datagramHandler_fetch hcmd ((d.inWorld w).poll w.late)).trans ?_
    rw [if_pos (show ((d.inWorld w).poll w.late).currentState = .ready from hready), poll_narco]
  have hupdated : d.updatedIn w = (d.handledIn w).updateReadyState := by
    rw [updatedIn, callUpdateState, handledIn_updateState h w, hready]
  have hscanned : (d.inWorld w).narco.ScannedFrom (if (d.inWorld w).refreshes then 2 else 1)
      (d.updatedIn w).narco := by
    rw [hupdated, ← (handledIn_frame_fetch hpending hcmd).2.1]
    apply scannedFrom_updateReadyState
    rw [hhandled]
    exact Narco.scannedFrom_getDeployColumn _
  have hexit : (d.updatedIn w).callExitState = d.updatedIn w := by
    have hstate : (d.updatedIn w).exitState = .ready :=
      (updated_updatedIn h w).coherent.exitState_eq.trans
        ((updatedIn_currentState h w).trans hready)
    rw [callExitState, hstate]
    rfl
  rw [columnOnEntry, hexit]
  exact hscanned.getDeployColumn_eq_zero_iff

theorem readings_afterHandler_fetch (h : d.control.Settled) (hcmd : dgr.command = Cmd.fetch.toByte)
    (hready : d.currentState = .ready) :
    (d.afterHandler (some dgr)).readings.due = (d.due .ping && !d.gotPong) := by
  obtain ⟨htimers, hclock, hpong, -⟩ := datagramHandler_frame dgr d
  have hstate : (d.datagramHandler dgr).updateState = .ready := by
    have hcoherent := h.toCoherent.receive (admissible_handling (some dgr) d)
    rw [← control_afterHandler] at hcoherent
    have hcur := (hcoherent.updateState_eq).trans
      (congrArg Control.currentState (control_afterHandler (some dgr) d))
    rw [receive_currentState] at hcur
    exact hcur.trans hready
  have hkept := hpong (by rw [ofByte?_command hcmd]; decide)
  simp only [afterHandler, readings, hstate, due, htimers, hclock, hkept]

theorem updateWith_currentState (h : d.control.Settled) (pending : Option Datagram) :
    (d.updateWith pending).currentState =
      d.control.resolve (d.handling pending) (d.afterHandler pending).readings := by
  have hpass := h.pass_currentState (r := (d.afterHandler pending).readings)
    (admissible_handling pending d) (columnOnEntry_le (d.afterHandler pending).callUpdateState)
  rw [← control_updateWith] at hpass
  exact hpass

theorem updateWith_fetch_ready (h : d.control.Settled) (hcmd : dgr.command = Cmd.fetch.toByte)
    (hready : d.currentState = .ready) :
    (d.updateWith (some dgr)).currentState =
      if d.due .ping && !d.gotPong then .readyWait
      else if d.narco.getDeployColumn.1 ≠ 0 then .deploy else .ready := by
  have hnext : d.control.nextState = .ready :=
    (h.next_eq_current (by simp [hready])).trans hready
  have hawaited : d.control.awaited (d.handling (some dgr)) =
      if d.narco.getDeployColumn.1 ≠ 0 then .deploy else .ready := by
    simp only [handling, Option.map_some, accepted_fetch hcmd, hready, true_and, awaited, receive,
      handle_nextState, control_currentState, hnext]
    split <;> rfl
  rw [updateWith_currentState h, resolve, hawaited]
  simp only [expiry, control_currentState, hready, readings_afterHandler_fetch h hcmd hready]
  split <;> rfl

theorem updateWith_deployId (h : d.control.Settled) (hcur : d.currentState ≠ .deploy)
    (hdep : (d.updateWith (some dgr)).currentState = .deploy) :
    (d.updateWith (some dgr)).deployId =
      if d.accepted dgr = some .deploy then dgr.id else d.deployId := by
  have hid := h.pass_deployId (r := (d.afterHandler (some dgr)).readings)
    (admissible_handling (some dgr) d)
    (columnOnEntry_le (d.afterHandler (some dgr)).callUpdateState) hcur
  rw [← control_updateWith] at hid
  exact hid hdep

theorem settled_updateWith (h : d.control.Settled) (pending : Option Datagram) :
    (d.updateWith pending).control.Settled := by
  rw [control_updateWith]
  exact h.step (.pass _ _ _ (admissible_handling pending d) (columnOnEntry_le _))

/-- Into DEPLOY from another state than READY is the retry of a vend, which has lost its id. -/
theorem deployId_retry (h : d.control.Settled) (hdeploy : d.currentState ≠ .deploy)
    (hready : d.currentState ≠ .ready) (hdep : (d.updateWith (some dgr)).currentState = .deploy) :
    (d.updateWith (some dgr)).deployId = 0 := by
  have hmem := h.resolve_mem (r := (d.afterHandler (some dgr)).readings)
    (admissible_handling (some dgr) d)
  rw [← updateWith_currentState h, hdep, control_currentState] at hmem
  have herror : d.currentState = .deployError := by
    rcases hmem with hsame | hmem
    · exact absurd hsame.symm hdeploy
    · exact (before_deploy hmem).resolve_left hready
  rw [updateWith_deployId h hdeploy hdep, if_neg]
  · exact h.id_eq herror
  · intro hacc
    have hadmits := admits_accepted hacc
    rw [herror] at hadmits
    cases hadmits

theorem call_fetch_ready (h : machine.Reachable d) (hpending : d.pendingIn w = some dgr)
    (hcmd : dgr.command = Cmd.fetch.toByte) (hready : d.currentState = .ready) :
    (d.call (.update w)).currentState =
      if (d.inWorld w).due .ping && !d.gotPong then .readyWait
      else if (d.inWorld w).narco.getDeployColumn.1 ≠ 0 then .deploy else .ready := by
  have hsettled : ((d.inWorld w).poll w.late).control.Settled := by
    rw [control_poll, control_inWorld]
    exact settled h
  have hfetch := updateWith_fetch_ready hsettled hcmd hready
  rw [← hpending] at hfetch
  exact hfetch

end Dixie

/-! The answer. -/

def NoVendFor (id : UInt16) (d d' : Dixie) : Prop :=
  (d'.deployId = id → d.deployId = id) ∧ ¬(d'.currentState = .deploy ∧ d'.deployId = id)

/-- `frame` is a truthful answer to a FETCH that took the machine from `d` to `d'`. -/
inductive Truthful (id : UInt16) (frame : Datagram) (d d' : Dixie) : Prop
  | fetch (c : UInt8) (hcmd : frame.command = Cmd.fetch.toByte) (hdata : frame.data = [c])
      (hpos : 1 ≤ c.toNat) (hle : c.toNat ≤ 9) (hdep : d'.currentState = .deploy)
      (hcol : d'.deployColumn = c.toNat)
      (hpowered : d'.narco.poweredPins = [Narco.motorPin c.toNat])
  | empty (hcmd : frame.command = Cmd.empty.toByte) (hready : d.currentState = .ready)
      (hnone : d.narco.columnAvailable = false) (hvend : NoVendFor id d d')
  | busy (hcmd : frame.command = Cmd.busy.toByte) (hbusy : d.currentState ≠ .ready)
      (hvend : NoVendFor id d d')

/-- An `update()` in `w` sends exactly one frame with the id of the FETCH `dgr`, and the truth. -/
def AnswersTruthfully (dgr : Datagram) (w : World) (d : Dixie) : Prop :=
  ∃ frame, ((d.call (.update w)).sent.drop d.sent.length).filter (fun f => f.id = dgr.id) = [frame] ∧
    Truthful dgr.id frame (d.inWorld w) (d.call (.update w))

def MeetsFetch (dgr : Datagram) (d : Dixie) : Prop :=
  match d.currentState with
  | .ready => d.narco.columnAvailable = true →
      (d.due .ping = true → d.gotPong = true) ∧
        (d.narco.after (if d.refreshes then 2 else 1)).columnAvailable = true
  -- the request that comes back happens to say what the machine is doing
  | .deploy => d.deployColumn ≠ 0 ∧ dgr.data = [UInt8.ofNat d.deployColumn] ∧ d.Undisturbed .deploy
  | .deployError => d.due .deployError = true ∧ d.narco.columnAvailable = true ∧
      dgr.data = [UInt8.ofNat d.narco.getDeployColumn.1]
  | _ => False

section Answer

variable {d : Dixie} {w : World} {dgr : Datagram} (h : Dixie.machine.Reachable d)
  (hpending : d.pendingIn w = some dgr) (hcmd : dgr.command = Cmd.fetch.toByte) (hid : dgr.id ≠ 0)

include h in
theorem truthful_fetch {id : UInt16} {frame : Datagram} (hfetch : frame.command = Cmd.fetch.toByte)
    (hdep : (d.call (.update w)).currentState = .deploy)
    (hcol : (d.call (.update w)).deployColumn ≠ 0)
    (hdata : frame.data = [UInt8.ofNat (d.call (.update w)).deployColumn]) :
    Truthful id frame (d.inWorld w) (d.call (.update w)) := by
  have hset := Dixie.settled (h.step (k := Call.update w) rfl)
  have hpos : 1 ≤ (d.call (.update w)).deployColumn := Nat.one_le_iff_ne_zero.mpr hcol
  have hle : (d.call (.update w)).deployColumn ≤ 9 := hset.column_le hdep
  have hpowered : (d.call (.update w)).narco.poweredPins =
      [Narco.motorPin (d.call (.update w)).deployColumn] :=
    hset.powered.trans (if_pos ⟨Or.inl hdep, hpos, hle⟩)
  have htoNat : (UInt8.ofNat (d.call (.update w)).deployColumn).toNat =
      (d.call (.update w)).deployColumn := by
    rw [UInt8.toNat_ofNat']
    omega
  apply Truthful.fetch _ hfetch hdata
  · rwa [htoNat]
  · rwa [htoNat]
  · exact hdep
  · exact htoNat.symm
  · rwa [htoNat]

include h hpending hcmd hid in
theorem frames_ready (hready : d.currentState = .ready) :
    ((d.call (.update w)).sent.drop d.sent.length).filter (fun f => f.id = dgr.id) =
      if (d.inWorld w).narco.getDeployColumn.1 = 0 then
        [(Dixie.response dgr.id .empty).updateChecksum]
      else if (d.inWorld w).due .ping && !d.gotPong then []
      else if (d.updatedIn w).columnOnEntry = 0 then []
      else [Dixie.byteFrame dgr.id .fetch (UInt8.ofNat (d.updatedIn w).columnOnEntry)] := by
  have hcur := Dixie.call_fetch_ready h hpending hcmd hready
  have hready' : (d.inWorld w).currentState = .ready := hready
  have hframes : (d.inWorld w).fetchFrames dgr =
      if (d.inWorld w).narco.getDeployColumn.1 = 0 then
        [(Dixie.response dgr.id .empty).updateChecksum] else [] := by
    unfold Dixie.fetchFrames
    rw [if_neg (not_not.mpr hready'), ite_not]
  have hup : (d.handledIn w).updateState = .ready := (Dixie.handledIn_updateState h w).trans hready
  rw [Dixie.sent_call_fetch h hpending hcmd, List.filter_append, List.filter_append,
    Dixie.filter_updateFrames hid hup, List.nil_append, hframes]
  rw [hready, hcur]
  by_cases hlost : ((d.inWorld w).due .ping && !d.gotPong) = true
  · have hwait : (d.updatedIn w).entering.enterFrames = [] := by
      rw [Dixie.enterFrames, Dixie.entering_enterState h w, hcur, if_pos hlost]
    simp only [if_pos hlost, hwait, ite_self, List.filter_nil, List.append_nil]
    split
    · simp [Dixie.response]
    · rfl
  · by_cases hcol : (d.inWorld w).narco.getDeployColumn.1 = 0
    · simp [hlost, hcol, Dixie.response]
    · have hdep : (d.call (.update w)).currentState = .deploy := by
        rw [hcur, if_neg hlost, if_pos hcol]
      have hacc : (d.inWorld w).accepted dgr = some .deploy := by
        rw [Dixie.accepted_fetch hcmd, if_pos ⟨hready', hcol⟩]
      have hdeployId : (d.updatedIn w).deployId = dgr.id := by
        rw [Dixie.updatedIn_deployId h hpending, if_pos hacc]
      rw [Dixie.enterFrames_deploy h (by simp [hready]) hdep, hdeployId]
      simp only [if_neg hlost, if_neg hcol, if_pos hcol]
      by_cases hzero : (d.updatedIn w).columnOnEntry = 0
      · simp [hzero]
      · simp [hzero, Dixie.byteFrame]

include h hpending hcmd in
theorem truthful_empty (hready : d.currentState = .ready)
    (hcol : (d.inWorld w).narco.getDeployColumn.1 = 0) :
    Truthful dgr.id (Dixie.response dgr.id .empty).updateChecksum (d.inWorld w)
      (d.call (.update w)) := by
  have hcur := Dixie.call_fetch_ready h hpending hcmd hready
  rw [if_neg (not_not.mpr hcol)] at hcur
  have hdep : (d.call (.update w)).currentState ≠ .deploy := by
    rw [hcur]
    split <;> decide
  have hhome : (d.call (.update w)).currentState ≠ .autoHome := by
    rw [hcur]
    split <;> decide
  have hacc : (d.inWorld w).accepted dgr ≠ some .deploy := by
    rw [Dixie.accepted_fetch hcmd, if_neg fun hacc => hacc.2 hcol]
    exact (Option.some_ne_none _).symm
  have hdeployId : (d.call (.update w)).deployId = d.deployId := by
    rw [Dixie.call_deployId h (by simp [hready]) hhome, Dixie.updatedIn_deployId h hpending,
      if_neg hacc]
  refine .empty rfl hready ((Narco.getDeployColumn_eq_zero_iff _).mp hcol) ⟨?_, ?_⟩
  · exact fun hid => hdeployId.symm.trans hid
  · exact fun hvend => hdep hvend.1

include h hpending hcmd hid in
theorem answersTruthfully_ready (hready : d.currentState = .ready) :
    AnswersTruthfully dgr w d ↔
      ((d.inWorld w).narco.columnAvailable = true →
        ((d.inWorld w).due .ping = true → d.gotPong = true) ∧
          ((d.inWorld w).narco.after (if (d.inWorld w).refreshes then 2 else 1)).columnAvailable =
            true) := by
  have hcur := Dixie.call_fetch_ready h hpending hcmd hready
  have hready' : (d.inWorld w).currentState = .ready := hready
  have hzero := Dixie.columnOnEntry_eq_zero_iff h hpending hcmd hready
  unfold AnswersTruthfully
  rw [frames_ready h hpending hcmd hid hready]
  by_cases hcol : (d.inWorld w).narco.getDeployColumn.1 = 0
  · have hnone := (Narco.getDeployColumn_eq_zero_iff _).mp hcol
    rw [if_pos hcol]
    apply iff_of_true ⟨_, rfl, truthful_empty h hpending hcmd hready hcol⟩
    intro havail
    rw [hnone] at havail
    cases havail
  · have havail : (d.inWorld w).narco.columnAvailable = true := by
      rw [← Bool.not_eq_false, ← Narco.getDeployColumn_eq_zero_iff]
      exact hcol
    rw [if_neg hcol]
    simp only [havail, true_implies]
    by_cases hlost : ((d.inWorld w).due .ping && !d.gotPong) = true
    -- the link check turns the accepted FETCH into READY_WAIT, and nothing is sent
    · rw [if_pos hlost]
      refine iff_of_false (fun ⟨frame, hframe, _⟩ => by cases hframe) (fun hquiet => ?_)
      rw [Bool.and_eq_true] at hlost
      simp [hquiet.1 hlost.1] at hlost
    · have hquiet : (d.inWorld w).due .ping = true → d.gotPong = true := by
        simpa using hlost
      rw [if_neg hlost]
      by_cases hentry : (d.updatedIn w).columnOnEntry = 0
      · rw [if_pos hentry]
        refine iff_of_false (fun ⟨frame, hframe, _⟩ => by cases hframe) (fun h' => ?_)
        rw [hzero.mp hentry] at h'
        cases h'.2
      · have hdep : (d.call (.update w)).currentState = .deploy := by
          rw [hcur, if_neg hlost, if_pos hcol]
        have hcolumn := Dixie.deployColumn_deploy h (by simp [hready]) hdep
        -- columns for the handler and for DEPLOY: the frame names the second choice
        rw [if_neg hentry]
        refine iff_of_true ⟨_, rfl, ?_⟩ ⟨hquiet, ?_⟩
        · apply truthful_fetch h rfl hdep (hcolumn ▸ hentry)
          rw [hcolumn]
          rfl
        · rw [← Bool.not_eq_false]
          exact fun hnone => hentry (hzero.mpr hnone)

include h hpending hcmd in
theorem frames_busy (hbusy : d.currentState ≠ .ready) :
    ((d.call (.update w)).sent.drop d.sent.length).filter (fun f => f.id = dgr.id) =
      dgr.updateChecksum :: ((d.handledIn w).updateFrames ++
        if (d.call (.update w)).currentState = d.currentState then []
        else (d.updatedIn w).entering.enterFrames).filter fun f => f.id = dgr.id := by
  have hframes : (d.inWorld w).fetchFrames dgr = [dgr.updateChecksum] := if_pos hbusy
  rw [Dixie.sent_call_fetch h hpending hcmd, hframes, List.singleton_append,
    List.filter_cons_of_pos (by simp)]

include hcmd in
theorem accepted_busy (hbusy : d.currentState ≠ .ready) : (d.inWorld w).accepted dgr = none := by
  rw [Dixie.accepted_fetch hcmd, if_neg fun hacc => hbusy hacc.1]

include h hpending hcmd hid in
theorem laterFrames_busy (hbusy : d.currentState ≠ .ready)
    (hdep : (d.call (.update w)).currentState = .deploy) :
    ((d.handledIn w).updateFrames ++
      if (d.call (.update w)).currentState = d.currentState then []
      else (d.updatedIn w).entering.enterFrames).filter (fun f => f.id = dgr.id) = [] := by
  have hup := Dixie.handledIn_updateState h w
  by_cases hcur : d.currentState = .deploy
  · rw [if_pos (hdep.trans hcur.symm), Dixie.updateFrames, hup, hcur]
    rfl
  · have hmem := Dixie.call_currentState_mem h (.update w) (hdep ▸ Ne.symm hcur)
    have herror : d.currentState = .deployError := by
      rw [hdep] at hmem
      exact (before_deploy hmem).resolve_left hbusy
    have hzero : (d.updatedIn w).deployId = 0 := by
      rw [Dixie.updatedIn_deployId h hpending, if_neg (by simp [accepted_busy hcmd hbusy])]
      exact (Dixie.settled h).id_eq herror
    rw [if_neg (by rw [hdep]; exact Ne.symm hcur), Dixie.updateFrames, hup, herror,
      Dixie.enterFrames_deploy h hcur hdep, hzero, List.nil_append]
    split
    · rfl
    · rw [List.filter_cons_of_neg]
      · rfl
      · simpa [Dixie.byteFrame] using hid.symm

include h hpending hcmd hid in
theorem answersTruthfully_busy (hbusy : d.currentState ≠ .ready) :
    AnswersTruthfully dgr w d ↔
      (d.call (.update w)).currentState = .deploy ∧ (d.call (.update w)).deployColumn ≠ 0 ∧
        dgr.data = [UInt8.ofNat (d.call (.update w)).deployColumn] := by
  unfold AnswersTruthfully
  rw [frames_busy h hpending hcmd hbusy]
  constructor
  · rintro ⟨frame, hframe, htrue⟩
    obtain ⟨rfl, -⟩ := List.cons.inj hframe
    have hne {command : Cmd} (hfetch : dgr.updateChecksum.command = command.toByte) :
        .fetch = command := Cmd.toByte_injective (hcmd.symm.trans hfetch)
    cases htrue with
    | fetch c _ hdata hpos _ hdep hcol _ =>
      refine ⟨hdep, by omega, ?_⟩
      rw [hcol, UInt8.ofNat_toNat]
      exact hdata
    | empty hempty => cases hne hempty
    | busy hbusy => cases hne hbusy
  · rintro ⟨hdep, hcol, hdata⟩
    rw [laterFrames_busy h hpending hcmd hid hbusy hdep]
    exact ⟨_, rfl, truthful_fetch h hcmd hdep hcol hdata⟩

include hpending hcmd in
theorem narco_busy (hbusy : d.currentState ≠ .ready) :
    (d.handledIn w).narco = (d.inWorld w).narco := by
  rw [Dixie.handledIn, hpending]
  refine (Dixie.narco_datagramHandler_fetch hcmd ((d.inWorld w).poll w.late)).trans ?_
  rw [if_neg (show ((d.inWorld w).poll w.late).currentState ≠ .ready from hbusy), Dixie.poll_narco]

include hpending hcmd in
theorem awaited_busy (hbusy : d.currentState ≠ .ready) (hwait : d.currentState ≠ .readyWait) :
    d.control.awaited ((d.inWorld w).handling (d.pendingIn w)) = d.nextState := by
  simp only [hpending, Dixie.handling, Option.map_some, accepted_busy hcmd hbusy, awaited, receive,
    handle_nextState, Option.getD_none, Dixie.control_currentState, if_neg hwait,
    Dixie.control_nextState]

include h hpending hcmd in
theorem stays_in_deploy (hcur : d.currentState = .deploy) :
    (d.call (.update w)).currentState = .deploy ↔
      d.deployColumn ≠ 0 ∧ (d.inWorld w).Undisturbed .deploy := by
  have hbusy : d.currentState ≠ .ready := by simp [hcur]
  obtain ⟨htimers, hclock⟩ := Dixie.handledIn_frame w d
  have hup := (Dixie.handledIn_updateState h w).trans hcur
  have hcol : (d.handledIn w).deployColumn = d.deployColumn := by
    rw [← Dixie.control_deployColumn, Dixie.control_handledIn, receive_deployColumn]
    rfl
  have hreadings : (d.handledIn w).readings =
      ⟨(d.inWorld w).due .motorStart, ((d.inWorld w).narco.isHome d.deployColumn).1,
        (d.timers .motorRun).timedOut (w.millis 1)⟩ := by
    simp only [Dixie.readings, hup, hcol, narco_busy hpending hcmd hbusy, Dixie.due, htimers,
      hclock]
    rfl
  have hnext : d.nextState = if d.deployColumn = 0 then .prepareReady else .deploy := by
    have hnext := (Dixie.settled h).next_eq
    simpa only [Dixie.control_nextState, Dixie.control_currentState, Dixie.control_deployColumn,
      hcur, true_and] using hnext
  have hquiet : (d.inWorld w).Undisturbed .deploy ↔
      ((d.inWorld w).due .motorStart = true →
        ((d.inWorld w).narco.isHome d.deployColumn).1 = false ∧
          (d.timers .motorRun).timedOut (w.millis 1) = false) := by
    unfold Dixie.Undisturbed
    rw [Dixie.inWorld_currentState, hcur]
    simp only [Dixie.inWorld_deployColumn, reduceCtorEq]
    cases ((d.inWorld w).narco.isHome d.deployColumn).1 <;> simp [Dixie.inWorld]
  rw [Dixie.call_update_currentState h, resolve,
    awaited_busy hpending hcmd hbusy (by simp [hcur]), hreadings, hnext, hquiet]
  simp only [expiry, Dixie.control_currentState, hcur]
  cases (d.inWorld w).due .motorStart <;>
    cases ((d.inWorld w).narco.isHome d.deployColumn).1 <;>
    cases (d.timers .motorRun).timedOut (w.millis 1) <;>
    by_cases hzero : d.deployColumn = 0 <;> simp [hzero]

include h in
theorem deployColumn_stays (hcur : d.currentState = .deploy)
    (hdep : (d.call (.update w)).currentState = .deploy) :
    (d.call (.update w)).deployColumn = d.deployColumn := by
  rw [Dixie.call_eq_updatedIn h (hdep.trans hcur.symm), ← Dixie.control_deployColumn,
    (Dixie.updated_updatedIn h w).column_eq (by simp [hcur]) (by simp [hcur]),
    receive_deployColumn]
  rfl

include h hpending hcmd in
theorem deploy_stays_iff (hcur : d.currentState = .deploy) :
    ((d.call (.update w)).currentState = .deploy ∧ (d.call (.update w)).deployColumn ≠ 0 ∧
        dgr.data = [UInt8.ofNat (d.call (.update w)).deployColumn]) ↔
      d.deployColumn ≠ 0 ∧ dgr.data = [UInt8.ofNat d.deployColumn] ∧
        (d.inWorld w).Undisturbed .deploy := by
  have hstays := stays_in_deploy h hpending hcmd hcur
  constructor
  · rintro ⟨hdep, hcol, hdata⟩
    rw [deployColumn_stays h hcur hdep] at hcol hdata
    exact ⟨hcol, hdata, (hstays.mp hdep).2⟩
  · rintro ⟨hcol, hdata, hquiet⟩
    have hdep := hstays.mpr ⟨hcol, hquiet⟩
    rw [deployColumn_stays h hcur hdep]
    exact ⟨hdep, hcol, hdata⟩

include h hpending hcmd in
theorem retries_deploy (hcur : d.currentState = .deployError) :
    (d.call (.update w)).currentState = .deploy ↔ (d.inWorld w).due .deployError = true := by
  have hbusy : d.currentState ≠ .ready := by simp [hcur]
  obtain ⟨htimers, hclock⟩ := Dixie.handledIn_frame w d
  have hdue : (d.handledIn w).readings.due = (d.inWorld w).due .deployError := by
    simp only [Dixie.readings, Dixie.handledIn_updateState h w, hcur, Dixie.due, htimers, hclock]
    rfl
  have hnext : d.nextState = .deployError :=
    ((Dixie.settled h).next_eq_current (by simp [hcur])).trans hcur
  rw [Dixie.call_update_currentState h, resolve,
    awaited_busy hpending hcmd hbusy (by simp [hcur]), hnext]
  simp only [expiry, Dixie.control_currentState, hcur, hdue]
  cases (d.inWorld w).due .deployError <;> simp

include h hpending hcmd in
theorem deployColumn_retried (hcur : d.currentState = .deployError)
    (hdep : (d.call (.update w)).currentState = .deploy) :
    (d.call (.update w)).deployColumn = (d.inWorld w).narco.getDeployColumn.1 := by
  have hbusy : d.currentState ≠ .ready := by simp [hcur]
  have hexit : (d.updatedIn w).callExitState = d.updatedIn w := by
    have hstate : (d.updatedIn w).exitState = .deployError :=
      (Dixie.updated_updatedIn h w).coherent.exitState_eq.trans
        ((Dixie.updatedIn_currentState h w).trans hcur)
    rw [Dixie.callExitState, hstate]
    rfl
  have hnarco : (d.updatedIn w).narco = (d.inWorld w).narco := by
    obtain ⟨clock, hclock⟩ := Dixie.timedOut_snd .deployError (d.handledIn w)
    rw [← narco_busy hpending hcmd hbusy, Dixie.updatedIn, Dixie.callUpdateState,
      Dixie.handledIn_updateState h w, hcur]
    simp only [Dixie.updateDeployErrorState, hclock]
    split <;> rfl
  rw [Dixie.deployColumn_deploy h (by simp [hcur]) hdep, Dixie.columnOnEntry, hexit, hnarco]

include h hpending hcmd in
theorem deployError_retries_iff (hcur : d.currentState = .deployError) :
    ((d.call (.update w)).currentState = .deploy ∧ (d.call (.update w)).deployColumn ≠ 0 ∧
        dgr.data = [UInt8.ofNat (d.call (.update w)).deployColumn]) ↔
      (d.inWorld w).due .deployError = true ∧ (d.inWorld w).narco.columnAvailable = true ∧
        dgr.data = [UInt8.ofNat (d.inWorld w).narco.getDeployColumn.1] := by
  have hretries := retries_deploy h hpending hcmd hcur
  have havail : (d.inWorld w).narco.getDeployColumn.1 ≠ 0 ↔
      (d.inWorld w).narco.columnAvailable = true := by
    rw [ne_eq, Narco.getDeployColumn_eq_zero_iff, Bool.not_eq_false]
  constructor
  · rintro ⟨hdep, hcol, hdata⟩
    rw [deployColumn_retried h hpending hcmd hcur hdep] at hcol hdata
    exact ⟨hretries.mp hdep, havail.mp hcol, hdata⟩
  · rintro ⟨hdue, hcol, hdata⟩
    have hdep := hretries.mpr hdue
    rw [deployColumn_retried h hpending hcmd hcur hdep]
    exact ⟨hdep, havail.mpr hcol, hdata⟩

end Answer

theorem fetch_answered_iff {d : Dixie} (h : Dixie.machine.Reachable d) {w : World} {dgr : Datagram}
    (hpending : d.pendingIn w = some dgr) (hcmd : dgr.command = Cmd.fetch.toByte)
    (hid : 2 ≤ dgr.id.toNat) : AnswersTruthfully dgr w d ↔ MeetsFetch dgr (d.inWorld w) := by
  have hid' : dgr.id ≠ 0 := by
    rintro heq
    rw [heq] at hid
    exact absurd hid (by decide)
  unfold MeetsFetch
  rw [Dixie.inWorld_currentState]
  by_cases hready : d.currentState = .ready
  · rw [hready]
    exact answersTruthfully_ready h hpending hcmd hid' hready
  · rw [answersTruthfully_busy h hpending hcmd hid' hready]
    cases hcur : d.currentState with
    | ready => exact absurd hcur hready
    | deploy => exact deploy_stays_iff h hpending hcmd hcur
    | deployError => exact deployError_retries_iff h hpending hcmd hcur
    | _ =>
      -- from the other states no pass leads to DEPLOY
      refine iff_of_false (fun hdep => ?_) id
      have hmem := Dixie.call_currentState_mem h (.update w) (by simp [hdep.1, hcur])
      rw [hdep.1, hcur] at hmem
      exact absurd hmem (by decide)

def serving : Dixie := Dixie.boot 0 (.turning 0 false [])

theorem serving_reachable : Dixie.machine.Reachable serving := Dixie.reachable_run _ _ []

def fetching (millis : UInt32) : World :=
  .turning millis false (Datagram.request 2 .fetch []).toBytes

/-- In SERVICE the FETCH comes back as it went out, and nothing says BUSY. -/
theorem fetch_answer_lost :
    Dixie.machine.Reachable serving ∧ serving.currentState = .service ∧
      serving.pendingIn (fetching 1) = some (Datagram.request 2 .fetch []) ∧
      (serving.call (.update (fetching 1))).sent = [Datagram.request 2 .fetch []] ∧
      ¬AnswersTruthfully (Datagram.request 2 .fetch []) (fetching 1) serving := by
  have hpending : serving.pendingIn (fetching 1) = some (Datagram.request 2 .fetch []) := by
    decide +kernel
  have hbusy : serving.currentState ≠ .ready := by decide +kernel
  refine ⟨serving_reachable, by decide +kernel, hpending, by decide +kernel, fun hanswers => ?_⟩
  have hdep :=
    (answersTruthfully_busy serving_reachable hpending rfl (by decide) hbusy).mp hanswers
  exact absurd hdep.1 (by decide +kernel)

def waiting : Dixie := serving.run
  [.update (.turning 0 false (Datagram.request 2 .setState [State.ready.toByte]).toBytes),
    .update (.turning 3000 false [])]

theorem waiting_reachable : Dixie.machine.Reachable waiting := Dixie.reachable_run _ _ _

theorem fetch_answered_waiting :
    AnswersTruthfully (Datagram.request 2 .fetch []) (fetching 3001) waiting := by
  have hpending : waiting.pendingIn (fetching 3001) = some (Datagram.request 2 .fetch []) := by
    decide +kernel
  have hready : (waiting.inWorld (fetching 3001)).currentState = .ready := by decide +kernel
  apply (fetch_answered_iff waiting_reachable hpending rfl (by decide)).mpr
  unfold MeetsFetch
  rw [hready]
  exact fun _ => ⟨by decide +kernel, by decide +kernel⟩

end Alko.Arduino
