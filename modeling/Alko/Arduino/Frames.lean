import Alko.Arduino.Refinement

/-! The frames each function of the machine sends. -/

namespace Alko.Arduino

def Event.frame? : Event → Option Datagram
  | .tx dgr => some dgr
  | _ => none

namespace Dixie

def sent (d : Dixie) : List Datagram := d.trace.filterMap Event.frame?

theorem sent_emit (e : Event) (d : Dixie) (h : e.isTx = false) : (d.emit e).sent = d.sent := by
  simp only [sent, emit, List.filterMap_append]
  cases e with
  | tx dgr => cases h
  | _ => exact List.append_nil _

@[simp] theorem sent_sendDatagram (dgr : Datagram) (d : Dixie) :
    (d.sendDatagram dgr).sent = d.sent ++ [dgr.updateChecksum] := by
  simp [sent, sendDatagram, emit, Event.frame?]

@[simp] theorem sent_onLcd (f : LCD → LCD) (d : Dixie) : (d.onLcd f).sent = d.sent := rfl

@[simp] theorem sent_setNextState (state : State) (d : Dixie) :
    (d.setNextState state).sent = d.sent := rfl

@[simp] theorem sent_setDeployColumn (column : ℕ) (d : Dixie) :
    (d.setDeployColumn column).sent = d.sent := rfl

@[simp] theorem sent_setDeployId (id : UInt16) (d : Dixie) : (d.setDeployId id).sent = d.sent := rfl

@[simp] theorem sent_setGotPong (b : Bool) (d : Dixie) : (d.setGotPong b).sent = d.sent := rfl

@[simp] theorem sent_showInfoText (d : Dixie) : d.showInfoText.sent = d.sent := rfl

@[simp] theorem sent_scanColumns (d : Dixie) : d.scanColumns.sent = d.sent := rfl

@[simp] theorem sent_updateWithJam (d : Dixie) : d.updateWithJam.sent = d.sent := rfl

@[simp] theorem sent_setJammed (column : ℕ) (b : Bool) (d : Dixie) :
    (d.setJammed column b).sent = d.sent := rfl

@[simp] theorem sent_powerOff (d : Dixie) : d.powerOff.sent = d.sent := sent_emit _ _ rfl

@[simp] theorem sent_powerOn (column : ℕ) (d : Dixie) : (d.powerOn column).sent = d.sent :=
  sent_emit _ _ rfl

@[simp] theorem sent_isHome (column : ℕ) (d : Dixie) : (d.isHome column).2.sent = d.sent :=
  sent_emit _ _ rfl

@[simp] theorem sent_timedOut (t : TimerId) (d : Dixie) : (d.timedOut t).2.sent = d.sent := by
  unfold timedOut
  simp only
  split <;> rfl

@[simp] theorem sent_startTimer (t : TimerId) (d : Dixie) : (d.startTimer t).sent = d.sent := rfl

@[simp] theorem sent_startTimerFor (t : TimerId) (interval : UInt32) (d : Dixie) :
    (d.startTimerFor t interval).sent = d.sent := rfl

@[simp] theorem sent_stopTimer (t : TimerId) (d : Dixie) : (d.stopTimer t).sent = d.sent := rfl

@[simp] theorem sent_received (dgr : Datagram) (d : Dixie) : (d.received dgr).sent = d.sent := by
  have hemit : (d.emit (.handled d.currentState dgr)).sent = d.sent := sent_emit _ _ rfl
  unfold received
  simp only
  split
  · exact hemit
  · exact hemit

@[simp] theorem sent_emitCurrentState (id : UInt16) (d : Dixie) :
    (d.emitCurrentState id).sent = d.sent ++
      [((((Datagram.new 1).setCommand .getState).setId id).setData
        [d.currentState.toByte] 1).updateChecksum] :=
  sent_sendDatagram _ _

def byteFrame (id : UInt16) (command : Cmd) (b : UInt8) : Datagram :=
  ((((Datagram.new 1).setId id).setCommand command).setData [b] 1).updateChecksum

def homingFrames (column : ℕ) (d : Dixie) : List Datagram :=
  if d.previousState ≠ .prepareAutoHome ∧ d.previousState ≠ .autoHome then []
  else [byteFrame d.deployId .homing (UInt8.ofNat column)]

def enterFrames (d : Dixie) : List Datagram :=
  match d.enterState with
  | .deploy =>
    if d.narco.getDeployColumn.1 = 0 then []
    else [byteFrame d.deployId .fetch (UInt8.ofNat d.narco.getDeployColumn.1)]
  | .autoHome => d.homingFrames d.deployColumn
  | _ => []

def updateFrames (d : Dixie) : List Datagram :=
  match d.updateState with
  | .ready => if d.due .ping && d.gotPong then [Network.sendCommand .ping 0] else []
  | .prepareAutoHome =>
    if d.due .prepareAutoHome then [(response d.deployId .homeBegin).updateChecksum] else []
  | .autoHome =>
    if 9 < d.deployColumn then []
    else if d.readings.home ∨ d.readings.late then
      d.homingFrames ((d.deployColumn + 1) % 256)
    else []
  | _ => []

theorem sent_enterAutoHomeState (d : Dixie) :
    d.enterAutoHomeState.sent = d.sent ++ d.homingFrames d.deployColumn := by
  unfold enterAutoHomeState homingFrames
  split
  · rw [sent_setNextState, sent_emit _ _ rfl, List.append_nil]
  · simp [byteFrame]

theorem sent_callEnterState (d : Dixie) : d.callEnterState.sent = d.sent ++ d.enterFrames := by
  unfold callEnterState enterFrames
  cases d.enterState with
  | service => simp [enterServiceState]
  | prepareReady => simp [enterPrepareReadyState]
  | ready => simp [enterReadyState]
  | readyWait => simp [enterReadyWaitState]
  | deploy =>
    simp only [enterDeployState, onLcd_narco]
    split <;> simp [byteFrame]
  | deployError => simp [enterDeployErrorState]
  | prepareAutoHome => simp [enterPrepareAutoHomeState]
  | autoHome => exact sent_enterAutoHomeState d
  | info => simp [enterInfoState]

@[simp] theorem sent_callExitState (d : Dixie) : d.callExitState.sent = d.sent := by
  unfold callExitState
  cases d.exitState with
  | deploy => simp [exitDeployState]
  | autoHome => simp [exitAutoHomeState]
  | _ => rfl

theorem sent_doPingPong (d : Dixie) :
    d.doPingPong.sent = d.sent ++ if d.gotPong then [Network.sendCommand .ping 0] else [] := by
  unfold doPingPong
  cases d.gotPong with
  | true => simp [sent, emit, Event.frame?]
  | false => simp

theorem sent_updateReadyWaitState (d : Dixie) : d.updateReadyWaitState.sent = d.sent := by
  unfold updateReadyWaitState
  simp only
  split <;> simp

theorem sent_updateReadyState (d : Dixie) :
    d.updateReadyState.sent =
      d.sent ++ if d.due .ping && d.gotPong then [Network.sendCommand .ping 0] else [] := by
  rw [show d.updateReadyState = (if (d.timedOut .ping).1 then (d.timedOut .ping).2.doPingPong
    else (d.timedOut .ping).2).updateReadyWaitState from rfl, sent_updateReadyWaitState]
  by_cases hdue : d.due .ping = true
  · rw [if_pos (show (d.timedOut .ping).1 = true from hdue), sent_doPingPong, sent_timedOut,
      timedOut_snd_of_due hdue, hdue, Bool.true_and]
  · rw [if_neg (show ¬(d.timedOut .ping).1 = true from hdue), sent_timedOut,
      Bool.eq_false_of_not_eq_true hdue]
    simp

theorem sent_updateAutoHomeState (d : Dixie) (h : d.updateState = .autoHome) :
    d.updateAutoHomeState.sent = d.sent ++ d.updateFrames := by
  have hlate : d.readings.late = (d.isHome d.deployColumn).2.due .motorRun := by
    simp only [readings, h]
    rfl
  unfold updateAutoHomeState updateFrames
  simp only [h]
  split
  · exact (List.append_nil _).symm
  · by_cases hhome : d.readings.home = true
    · rw [if_pos (Or.inl hhome), if_pos (show (d.isHome d.deployColumn).1 = true from hhome),
        sent_enterAutoHomeState, sent_setDeployColumn, sent_powerOff, sent_isHome]
      rfl
    · rw [if_neg (show ¬(d.isHome d.deployColumn).1 = true from hhome)]
      by_cases hrun : d.readings.late = true
      · have hdue := hlate.symm.trans hrun
        rw [if_pos (Or.inr hrun), timedOut_snd_of_due hdue,
          if_pos (show ((d.isHome d.deployColumn).2.timedOut .motorRun).1 = true from hdue),
          sent_enterAutoHomeState, sent_setDeployColumn, sent_setJammed, sent_powerOff]
        exact congrArg (· ++ _) (sent_isHome d.deployColumn d)
      · have hdue : ¬((d.isHome d.deployColumn).2.timedOut .motorRun).1 = true :=
          fun hdue => hrun (hlate.trans hdue)
        rw [if_neg (not_or.mpr ⟨hhome, hrun⟩), if_neg hdue, sent_timedOut, sent_isHome, List.append_nil]

theorem sent_callUpdateState (d : Dixie) : d.callUpdateState.sent = d.sent ++ d.updateFrames := by
  unfold callUpdateState
  cases h : d.updateState with
  | service =>
    simp only [updateServiceState, updateFrames, h]
    split <;> simp
  | prepareReady =>
    simp only [updatePrepareReadyState, updateFrames, h]
    split <;> simp
  | ready =>
    simp only [updateFrames, h]
    exact sent_updateReadyState d
  | readyWait =>
    simp only [updateFrames, h, List.append_nil]
    exact sent_updateReadyWaitState d
  | deploy =>
    simp only [updateDeployState, updateFrames, h]
    split_ifs <;> simp
  | deployError =>
    simp only [updateDeployErrorState, updateFrames, h]
    split <;> simp
  | prepareAutoHome =>
    simp only [updatePrepareAutoHomeState, updateFrames, h]
    by_cases hdue : d.due .prepareAutoHome = true
    · rw [if_pos hdue, if_pos (show (d.timedOut .prepareAutoHome).1 = true from hdue),
        timedOut_snd_of_due hdue]
      simp [sent, response, Event.frame?, emit, sendDatagram]
    · rw [if_neg hdue, if_neg (show ¬(d.timedOut .prepareAutoHome).1 = true from hdue)]
      simp
  | autoHome => exact sent_updateAutoHomeState d h
  | info =>
    simp only [updateInfoState, updateFrames, h]
    split <;> simp

def answers (dgr : Datagram) (d : Dixie) : List Datagram :=
  (d.datagramHandler dgr).sent.drop d.sent.length

theorem answers_of_sent {dgr : Datagram} {d : Dixie} {frames : List Datagram}
    (h : (d.datagramHandler dgr).sent = d.sent ++ frames) : d.answers dgr = frames := by
  rw [answers, h, List.drop_left]

def entering (d : Dixie) : Dixie :=
  { d.callExitState.emit (.switched d.callExitState.currentState d.callExitState.nextState) with
    previousState := d.callExitState.currentState
    currentState := d.callExitState.nextState
    enterState := d.callExitState.nextState
    updateState := d.callExitState.nextState
    exitState := d.callExitState.nextState }

theorem sent_switchState (d : Dixie) : d.switchState.sent = d.sent ++ d.entering.enterFrames := by
  rw [show d.switchState = d.entering.callEnterState from rfl, sent_callEnterState]
  congr 1
  exact (sent_emit _ _ rfl).trans (sent_callExitState d)

theorem sent_poll_of_pending {late : List UInt8} {d : Dixie} {dgr : Datagram}
    (h : d.pendingDatagram late = some dgr) : (d.poll late).sent = d.sent := by
  -- a poll that hands on a datagram has not reported a bad one
  have hnone : (d.network.datagramIsPending late).sent = [] := by
    have hpending : (d.network.datagramIsPending late).pending = true := by
      simp only [pendingDatagram] at h
      split_ifs at h with hp
      exact hp
    revert hpending
    rw [Network.datagramIsPending_eq]
    unfold Network.accept
    split
    · exact fun hp => by cases hp
    · split
      · exact fun _ => rfl
      · exact fun hp => by cases hp
  simp [sent, poll, hnone]

def laterFrames (d : Dixie) : List Datagram :=
  d.updateFrames ++
    if d.callUpdateState.currentState = d.callUpdateState.nextState then []
    else d.callUpdateState.entering.enterFrames

theorem sent_call (w : World) (d : Dixie) :
    (d.call (.update w)).sent = (d.handledIn w).sent ++ (d.handledIn w).laterFrames := by
  have hcall : d.call (.update w) =
      if (d.handledIn w).callUpdateState.currentState ≠ (d.handledIn w).callUpdateState.nextState
      then (d.handledIn w).callUpdateState.switchState
      else (d.handledIn w).callUpdateState := rfl
  rw [hcall, laterFrames]
  by_cases hstay : (d.handledIn w).callUpdateState.currentState =
      (d.handledIn w).callUpdateState.nextState
  · rw [if_neg (not_not.mpr hstay), if_pos hstay, sent_callUpdateState, List.append_nil]
  · rw [if_pos hstay, if_neg hstay, sent_switchState, sent_callUpdateState, List.append_assoc]

theorem sent_call_update {w : World} {d : Dixie} {dgr : Datagram} {frames : List Datagram}
    (hpending : d.pendingIn w = some dgr)
    (hhandler : ((((d.inWorld w).poll w.late).datagramHandler dgr)).sent =
      ((d.inWorld w).poll w.late).sent ++ frames) :
    (d.call (.update w)).sent = d.sent ++ (frames ++ (d.handledIn w).laterFrames) := by
  have hhandled : (d.handledIn w).sent = d.sent ++ frames := by
    rw [handledIn, hpending]
    refine hhandler.trans (congrArg (· ++ frames) ?_)
    exact sent_poll_of_pending hpending
  rw [sent_call, hhandled, List.append_assoc]

end Dixie

end Alko.Arduino
