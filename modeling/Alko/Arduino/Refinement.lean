import Alko.Arduino.Control

/-! The machine refines its control automaton. -/

namespace Alko.Arduino

namespace Dixie

@[simps] def control (d : Dixie) : Control where
  previousState := d.previousState
  currentState := d.currentState
  nextState := d.nextState
  enterState := d.enterState
  updateState := d.updateState
  exitState := d.exitState
  deployId := d.deployId
  deployColumn := d.deployColumn
  poweredPins := d.narco.poweredPins
  events := d.trace.filter fun e => !e.isTx

theorem control_emit (e : Event) (d : Dixie) (h : e.isTx = false) :
    (d.emit e).control = d.control.emit e := by
  simp [control, emit, Control.emit, List.filter_append, h]

@[simp] theorem control_sendDatagram (dgr : Datagram) (d : Dixie) :
    (d.sendDatagram dgr).control = d.control := by
  simp [control, sendDatagram, emit, List.filter_append, Event.isTx]

@[simp] theorem control_onLcd (f : LCD → LCD) (d : Dixie) : (d.onLcd f).control = d.control := rfl

@[simp] theorem control_setNextState (state : State) (d : Dixie) :
    (d.setNextState state).control = d.control.setNextState state := rfl

@[simp] theorem control_setDeployColumn (column : ℕ) (d : Dixie) :
    (d.setDeployColumn column).control = d.control.setDeployColumn column := rfl

@[simp] theorem control_setDeployId (id : UInt16) (d : Dixie) :
    (d.setDeployId id).control = d.control.setDeployId id := rfl

@[simp] theorem control_setGotPong (b : Bool) (d : Dixie) : (d.setGotPong b).control = d.control :=
  rfl

theorem control_narco (d : Dixie) (n : Narco) (h : n.mcp0.olat = d.narco.mcp0.olat) :
    ({ d with narco := n } : Dixie).control = d.control := by
  simp only [control, Narco.poweredPins, h]

@[simp] theorem control_showInfoText (d : Dixie) : d.showInfoText.control = d.control := by
  obtain ⟨w, text, hn⟩ := d.narco.getInfoText_snd
  exact control_narco (d.onLcd fun l => l.setText 0 (some d.narco.getInfoText.1) 20)
    d.narco.getInfoText.2 (by rw [hn]; rfl)

@[simp] theorem control_scanColumns (d : Dixie) : d.scanColumns.control = d.control := by
  obtain ⟨w, hn⟩ := d.narco.getDeployColumn_snd
  exact control_narco _ _ (by rw [hn]; rfl)

@[simp] theorem control_updateWithJam (d : Dixie) : d.updateWithJam.control = d.control := by
  obtain ⟨w, hn, -⟩ := d.narco.updateWithJam_spec
  exact control_narco _ _ (by rw [hn])

@[simp] theorem control_setJammed (column : ℕ) (b : Bool) (d : Dixie) :
    (d.setJammed column b).control = d.control := by
  apply control_narco
  unfold Narco.setJammed
  split <;> rfl

@[simp] theorem control_powerOff (d : Dixie) : d.powerOff.control = d.control.powerOff := by
  rw [powerOff, control_emit _ _ rfl]
  simp only [control, Narco.poweredPins_powerOff, Control.powerOff]

@[simp] theorem control_powerOn (column : ℕ) (d : Dixie) :
    (d.powerOn column).control = d.control.powerOn column := by
  rw [powerOn, control_emit _ _ rfl]
  simp only [control, Narco.poweredPins_powerOn, Control.powerOn]

@[simp] theorem control_isHome (column : ℕ) (d : Dixie) :
    (d.isHome column).2.control =
      d.control.emit (.readHome d.currentState column (d.isHome column).1) := by
  rw [isHome, control_emit _ _ rfl]
  congr 1
  apply control_narco
  unfold Narco.isHome
  split <;> rfl

@[simp] theorem control_timedOut (t : TimerId) (d : Dixie) :
    (d.timedOut t).2.control = d.control := by
  unfold timedOut
  simp only
  split <;> rfl

@[simp] theorem control_startTimer (t : TimerId) (d : Dixie) :
    (d.startTimer t).control = d.control := rfl

@[simp] theorem control_startTimerFor (t : TimerId) (interval : UInt32) (d : Dixie) :
    (d.startTimerFor t interval).control = d.control := rfl

@[simp] theorem control_stopTimer (t : TimerId) (d : Dixie) :
    (d.stopTimer t).control = d.control := rfl

theorem control_enterAutoHomeState (d : Dixie) :
    d.enterAutoHomeState.control = d.control.enterAutoHome := by
  unfold enterAutoHomeState Control.enterAutoHome
  simp only [control_previousState]
  split
  · rw [control_setNextState, control_emit _ _ rfl]
  · simp

theorem control_callEnterState (d : Dixie) :
    d.callEnterState.control = d.control.enter d.narco.getDeployColumn.1 := by
  unfold callEnterState Control.enter
  rw [control_enterState]
  cases d.enterState with
  | service => simp [enterServiceState]
  | prepareReady => simp [enterPrepareReadyState]
  | ready => simp [enterReadyState]
  | readyWait => simp [enterReadyWaitState]
  | deploy =>
    simp only [enterDeployState, onLcd_narco]
    split <;> simp
  | deployError => simp [enterDeployErrorState]
  | prepareAutoHome => simp [enterPrepareAutoHomeState]
  | autoHome => exact control_enterAutoHomeState d
  | info => simp [enterInfoState]

theorem control_callExitState (d : Dixie) : d.callExitState.control = d.control.exit := by
  unfold callExitState Control.exit
  rw [control_exitState]
  cases d.exitState with
  | service => simp [exitServiceState]
  | prepareReady => simp [exitPrepareReadyState]
  | ready => rfl
  | readyWait => rfl
  | deploy => simp [exitDeployState]
  | deployError => rfl
  | prepareAutoHome => rfl
  | autoHome => simp [exitAutoHomeState]
  | info => rfl

def columnOnEntry (d : Dixie) : ℕ := d.callExitState.narco.getDeployColumn.1

theorem control_switchState (d : Dixie) :
    d.switchState.control = d.control.switch d.columnOnEntry := by
  rw [switchState, control_callEnterState, Control.switch, columnOnEntry]
  congr 1
  rw [← control_callExitState]
  simp only [control, Control.become, emit, List.filter_append, Narco.poweredPins]
  rfl

def due (t : TimerId) (d : Dixie) : Bool := (d.timers t).timedOut d.clock.now

def readings (d : Dixie) : Readings where
  due :=
    match d.updateState with
    | .prepareReady => d.due .prepareReady
    | .ready => d.due .ping && !d.gotPong
    | .deploy => d.due .motorStart
    | .deployError => d.due .deployError
    | .prepareAutoHome => d.due .prepareAutoHome
    | .info => d.due .info
    | _ => false
  home := (d.narco.isHome d.deployColumn).1
  late :=
    -- in DEPLOY the start timer has taken the first clock reading
    match d.updateState with
    | .deploy => (d.timers .motorRun).timedOut (d.clock.millis (d.clock.reads + 1))
    | _ => d.due .motorRun

theorem timedOut_snd_of_due {t : TimerId} {d : Dixie} (h : d.due t = true) :
    (d.timedOut t).2 = { d with clock := d.clock.tick } := by
  simp only [due, Timer.timedOut, Bool.and_eq_true] at h
  exact if_pos h.1

theorem timedOut_snd (t : TimerId) (d : Dixie) :
    ∃ clock, (d.timedOut t).2 = { d with clock := clock } := by
  unfold timedOut
  simp only
  split
  · exact ⟨_, rfl⟩
  · exact ⟨d.clock, rfl⟩

theorem control_doPingPong (d : Dixie) :
    d.doPingPong.control = if d.gotPong then d.control else d.control.setNextState .readyWait := by
  unfold doPingPong
  cases d.gotPong with
  | true => simp [control, emit, List.filter_append, Event.isTx]
  | false => simp

theorem control_updateReadyWaitState (d : Dixie) : d.updateReadyWaitState.control = d.control := by
  unfold updateReadyWaitState
  simp only
  split <;> simp

theorem control_updateReadyState (d : Dixie) (h : d.updateState = .ready) :
    d.updateReadyState.control = d.control.dueState d.readings .readyWait := by
  have hpong : (d.timedOut .ping).2.gotPong = d.gotPong := by
    obtain ⟨clock, hclock⟩ := timedOut_snd .ping d
    rw [hclock]
  -- the second half refreshes the info line exactly as READY_WAIT does
  have hrest : d.updateReadyState = (if (d.timedOut .ping).1 then (d.timedOut .ping).2.doPingPong
      else (d.timedOut .ping).2).updateReadyWaitState := rfl
  rw [hrest, control_updateReadyWaitState]
  simp only [Control.dueState, readings, h, show (d.timedOut .ping).1 = d.due .ping from rfl]
  cases d.due .ping <;> cases hg : d.gotPong <;> simp [control_doPingPong, hpong, hg]

theorem control_whenDue (t : TimerId) (state : State) (d : Dixie) (h : d.readings.due = d.due t) :
    (if (d.timedOut t).1 then (d.timedOut t).2.setNextState state else (d.timedOut t).2).control =
      d.control.dueState d.readings state := by
  rw [Control.dueState, h, show (d.timedOut t).1 = d.due t from rfl]
  split <;> simp

theorem control_updateDeployState (d : Dixie) (h : d.updateState = .deploy) :
    d.updateDeployState.control = d.control.update d.readings := by
  unfold updateDeployState
  simp only [Control.update, control_updateState, h]
  have hdue : d.readings.due = (d.timedOut .motorStart).1 := by simp only [readings, h]; rfl
  rw [hdue]
  by_cases hd : (d.timedOut .motorStart).1 = true
  -- the start timer is due: the clock has ticked once before the motor timer is asked
  · have hstart := timedOut_snd_of_due (show d.due .motorStart = true from hd)
    have hhome : d.readings.home = ((d.timedOut .motorStart).2.isHome d.deployColumn).1 := by
      rw [hstart]
      rfl
    have hlate : d.readings.late =
        (((d.timedOut .motorStart).2.isHome d.deployColumn).2.timedOut .motorRun).1 := by
      rw [hstart]
      simp only [readings, h]
      rfl
    have hcur : (d.timedOut .motorStart).2.currentState = d.currentState := by rw [hstart]
    simp only [if_pos hd, Control.readHome, hhome, hlate, control_currentState,
      control_deployColumn]
    split
    · simp [hcur]
    · split <;> simp [hcur]
  · simp only [if_neg hd, control_timedOut]

theorem control_updateAutoHomeState (d : Dixie) (h : d.updateState = .autoHome) :
    d.updateAutoHomeState.control = d.control.update d.readings := by
  unfold updateAutoHomeState
  simp only [Control.update, control_updateState, h, control_deployColumn]
  have hlate : d.readings.late = ((d.isHome d.deployColumn).2.timedOut .motorRun).1 := by
    simp only [readings, h]
    rfl
  have hread : (d.isHome d.deployColumn).2.control = d.control.readHome d.readings :=
    control_isHome _ _
  have hcol (d' : Dixie) (h' : d'.control = d.control.readHome d.readings) :
      (d'.powerOff.setDeployColumn ((d.deployColumn + 1) % 256)).enterAutoHomeState.control =
        ((d.control.readHome d.readings).powerOff.setDeployColumn
          ((d.deployColumn + 1) % 256)).enterAutoHome := by
    rw [control_enterAutoHomeState, control_setDeployColumn, control_powerOff, h']
  have hdep (d' : Dixie) (h' : d'.control = d.control.readHome d.readings) :
      d'.deployColumn = d.deployColumn := congrArg Control.deployColumn h'
  split
  · rfl
  · by_cases hh : d.readings.home = true
    · rw [if_pos (Or.inl hh), if_pos (show (d.isHome d.deployColumn).1 = true from hh),
        powerOff_deployColumn, hdep _ hread]
      exact hcol _ hread
    · have hrun := (control_timedOut .motorRun (d.isHome d.deployColumn).2).trans hread
      rw [if_neg (show ¬(d.isHome d.deployColumn).1 = true from hh)]
      by_cases hl : d.readings.late = true
      · rw [if_pos (Or.inr hl), if_pos (hlate.symm.trans hl)]
        simp only [setJammed_deployColumn, powerOff_deployColumn, hdep _ hrun]
        rw [control_enterAutoHomeState, control_setDeployColumn, control_setJammed,
          control_powerOff, hrun]
      · rw [if_neg (not_or.mpr ⟨hh, hl⟩), if_neg (fun h' => hl (hlate.trans h'))]
        exact hrun

theorem control_updatePrepareAutoHomeState (d : Dixie) (h : d.updateState = .prepareAutoHome) :
    d.updatePrepareAutoHomeState.control = d.control.update d.readings := by
  have hdue : d.readings.due = (d.timedOut .prepareAutoHome).1 := by
    simp only [readings, h]
    rfl
  unfold updatePrepareAutoHomeState
  simp only [Control.update, control_updateState, h, hdue]
  split <;> simp

theorem control_callUpdateState (d : Dixie) :
    d.callUpdateState.control = d.control.update d.readings := by
  unfold callUpdateState
  have hupdate : d.control.updateState = d.updateState := rfl
  cases h : d.updateState with
  | service =>
    simp only [Control.update, hupdate, h, updateServiceState]
    split <;> simp
  | prepareReady =>
    simp only [Control.update, hupdate, h]
    exact control_whenDue .prepareReady .ready d (by simp only [readings, h])
  | ready =>
    simp only [Control.update, hupdate, h]
    exact control_updateReadyState d h
  | readyWait =>
    simp only [Control.update, hupdate, h]
    exact control_updateReadyWaitState d
  | deploy => exact control_updateDeployState d h
  | deployError =>
    simp only [Control.update, hupdate, h]
    exact control_whenDue .deployError .deploy d (by simp only [readings, h])
  | prepareAutoHome => exact control_updatePrepareAutoHomeState d h
  | autoHome => exact control_updateAutoHomeState d h
  | info =>
    simp only [Control.update, hupdate, h]
    exact control_whenDue .info .ready d (by simp only [readings, h])

/-- The state for which the handler accepts `dgr`, if it accepts it. -/
def accepted (dgr : Datagram) (d : Dixie) : Option State :=
  match Cmd.ofByte? dgr.command with
  | some .setState =>
    match dgr.data with
    | [newState] => if newState = d.currentState.toByte then none else requestedState newState
    | _ => none
  | some .homeAbort =>
    if d.currentState = .prepareAutoHome ∨ d.currentState = .autoHome then some .service else none
  | some .homeBegin => if d.currentState = .service then some .prepareAutoHome else none
  | some .fetch =>
    if d.currentState = .ready ∧ d.narco.getDeployColumn.1 ≠ 0 then some .deploy else none
  | some .showInfo => if d.currentState = .ready then some .info else none
  | _ => none

theorem control_received (dgr : Datagram) (d : Dixie) :
    (d.received dgr).control = d.control.handle none dgr := by
  have hemit : (d.emit (.handled d.currentState dgr)).control =
      d.control.emit (.handled d.currentState dgr) := control_emit _ _ rfl
  unfold received Control.handle
  simp only [emit_currentState, control_currentState]
  split
  · rw [control_setNextState, hemit]
    rfl
  · rw [hemit]
    rfl

@[simp] theorem received_currentState (dgr : Datagram) (d : Dixie) :
    (d.received dgr).currentState = d.currentState :=
  congrArg Control.currentState (control_received dgr d)

@[simp] theorem received_narco (dgr : Datagram) (d : Dixie) :
    (d.received dgr).narco = d.narco := by
  unfold received
  simp only
  split <;> rfl

theorem requestedState_eq_some {newState : UInt8} {state : State}
    (h : requestedState newState = some state) : state = .service ∨ state = .prepareReady := by
  unfold requestedState at h
  split at h <;> simp_all

@[simp] theorem control_emitCurrentState (id : UInt16) (d : Dixie) :
    (d.emitCurrentState id).control = d.control := control_sendDatagram _ d

theorem control_handleSetState (dgr : Datagram) (d : Dixie)
    (hcmd : Cmd.ofByte? dgr.command = some .setState) :
    ((d.received dgr).handleSetState dgr).control = d.control.handle (d.accepted dgr) dgr := by
  unfold handleSetState accepted
  simp only [hcmd, received_currentState]
  rcases dgr.data with _ | ⟨newState, _ | ⟨second, later⟩⟩
  · simp only [control_emitCurrentState, control_received]
  · simp only
    split
    · rw [control_emitCurrentState, control_received]
    · cases hreq : requestedState newState with
      | none => simp only [control_emitCurrentState, control_received]
      | some state =>
        have hstate : state ≠ .deploy := by
          rcases requestedState_eq_some hreq with rfl | rfl <;> decide
        simp only [control_setNextState, control_sendDatagram, control_received,
          Control.handle_some hstate]
  · simp only [control_emitCurrentState, control_received]

theorem control_handleFetch (dgr : Datagram) (d : Dixie)
    (hcmd : Cmd.ofByte? dgr.command = some .fetch) :
    ((d.received dgr).handleFetch dgr).control = d.control.handle (d.accepted dgr) dgr := by
  unfold handleFetch accepted
  simp only [hcmd, received_currentState, received_narco]
  by_cases hready : d.currentState = .ready
  · rw [if_neg (not_not.mpr hready)]
    by_cases hcol : d.narco.getDeployColumn.1 = 0
    · rw [if_neg (not_not.mpr hcol), if_neg (fun h => h.2 hcol), control_sendDatagram,
        control_scanColumns, control_received]
    · rw [if_pos hcol, if_pos ⟨hready, hcol⟩, control_setNextState, control_emit _ _ rfl,
        control_setDeployId, control_scanColumns, control_received, Control.handle_deploy]
  · rw [if_pos hready, if_neg (fun h => hready h.1), control_sendDatagram, control_received]

/-- The handler, whatever it answers, is one `handle` of the automaton. -/
theorem control_datagramHandler (dgr : Datagram) (d : Dixie) :
    (d.datagramHandler dgr).control = d.control.handle (d.accepted dgr) dgr := by
  have hnone {d' : Dixie} (h : d'.control = (d.received dgr).control) :
      d'.control = d.control.handle none dgr := h.trans (control_received dgr d)
  unfold datagramHandler
  cases hcmd : Cmd.ofByte? dgr.command with
  | none => exact (hnone (by simp)).trans (by simp only [accepted, hcmd])
  | some cmd =>
    cases cmd with
    | setState => exact control_handleSetState dgr d hcmd
    | fetch => exact control_handleFetch dgr d hcmd
    | homeAbort =>
      simp only [accepted, hcmd, received_currentState]
      split
      · rw [control_setNextState, control_sendDatagram, control_received,
          Control.handle_some (by decide)]
      · exact hnone (by simp)
    | homeBegin =>
      simp only [accepted, hcmd, received_currentState, ne_eq, ite_not]
      split
      · rw [control_setNextState, control_sendDatagram, control_received,
          Control.handle_some (by decide)]
      · exact hnone (by simp)
    | showInfo =>
      simp only [accepted, hcmd, received_currentState]
      split
      · rw [control_sendDatagram, control_setNextState, control_received,
          Control.handle_some (by decide)]
      · exact hnone (by simp)
    | lcdRgb =>
      simp only [accepted, hcmd]
      split
      · exact hnone (by simp)
      · exact hnone rfl
    | _ => exact (hnone (by simp [setText])).trans (by simp only [accepted, hcmd])

theorem received_eq (dgr : Datagram) (d : Dixie) :
    ∃ state trace, d.received dgr = { d with nextState := state, trace := trace } := by
  unfold received
  simp only
  split
  · exact ⟨_, _, rfl⟩
  · exact ⟨_, _, rfl⟩

theorem datagramHandler_frame (dgr : Datagram) (d : Dixie) :
    (d.datagramHandler dgr).timers = d.timers ∧ (d.datagramHandler dgr).clock = d.clock ∧
      (Cmd.ofByte? dgr.command ≠ some .pong → (d.datagramHandler dgr).gotPong = d.gotPong) ∧
      (Cmd.ofByte? dgr.command ≠ some .checkAvail → Cmd.ofByte? dgr.command ≠ some .fetch →
        (d.datagramHandler dgr).narco = d.narco) := by
  obtain ⟨state, trace, hrec⟩ := received_eq dgr d
  unfold datagramHandler
  simp only [hrec]
  cases Cmd.ofByte? dgr.command with
  | none => exact ⟨rfl, rfl, fun _ => rfl, fun _ _ => rfl⟩
  | some cmd =>
    cases cmd with
    | pong => exact ⟨rfl, rfl, fun h => absurd rfl h, fun _ _ => rfl⟩
    | checkAvail => exact ⟨rfl, rfl, fun _ => rfl, fun h => absurd rfl h⟩
    | setState =>
      simp only [handleSetState]
      repeat' split
      all_goals exact ⟨rfl, rfl, fun _ => rfl, fun _ _ => rfl⟩
    | fetch =>
      simp only [handleFetch]
      repeat' split
      all_goals exact ⟨rfl, rfl, fun _ => rfl, fun _ h => absurd rfl h⟩
    | homeAbort => simp only; split <;> exact ⟨rfl, rfl, fun _ => rfl, fun _ _ => rfl⟩
    | homeBegin => simp only; split <;> exact ⟨rfl, rfl, fun _ => rfl, fun _ _ => rfl⟩
    | showInfo => simp only; split <;> exact ⟨rfl, rfl, fun _ => rfl, fun _ _ => rfl⟩
    | lcdRgb => simp only; split <;> exact ⟨rfl, rfl, fun _ => rfl, fun _ _ => rfl⟩
    | _ => exact ⟨rfl, rfl, fun _ => rfl, fun _ _ => rfl⟩

def afterHandler (pending : Option Datagram) (d : Dixie) : Dixie :=
  match pending with
  | some dgr => d.datagramHandler dgr
  | none => d

def handling (pending : Option Datagram) (d : Dixie) : Option (Option State × Datagram) :=
  pending.map fun dgr => (d.accepted dgr, dgr)

theorem control_afterHandler (pending : Option Datagram) (d : Dixie) :
    (d.afterHandler pending).control = d.control.receive (d.handling pending) := by
  cases pending with
  | none => rfl
  | some dgr => exact control_datagramHandler dgr d

theorem control_updateWith (pending : Option Datagram) (d : Dixie) :
    (d.updateWith pending).control = d.control.pass (d.handling pending)
      (d.afterHandler pending).readings (d.afterHandler pending).callUpdateState.columnOnEntry := by
  have hmid : (d.afterHandler pending).callUpdateState.control =
      (d.control.receive (d.handling pending)).update (d.afterHandler pending).readings := by
    rw [control_callUpdateState, control_afterHandler]
  have hupdate : d.updateWith pending =
      if (d.afterHandler pending).callUpdateState.currentState ≠
        (d.afterHandler pending).callUpdateState.nextState
      then (d.afterHandler pending).callUpdateState.switchState
      else (d.afterHandler pending).callUpdateState := rfl
  rw [hupdate, Control.pass]
  simp only [← hmid, control_currentState, control_nextState]
  split
  · rw [control_switchState]
  · rfl

theorem admits_accepted {dgr : Datagram} {d : Dixie} {state : State}
    (h : d.accepted dgr = some state) : Control.Admits d.currentState state := by
  unfold accepted at h
  split at h
  · split at h
    · rename_i newState _
      split_ifs at h with hcur
      -- a request for the state the machine is in is answered and not accepted
      rcases requestedState_eq_some h with rfl | rfl
      · refine .service fun hservice => hcur ?_
        rw [hservice]
        unfold requestedState at h
        split at h <;> simp_all [State.ofByte?_eq_some]
      · exact .prepareReady
    · cases h
  · split_ifs at h with hcur
    obtain rfl := Option.some.inj h
    exact .service (by rcases hcur with hc | hc <;> simp [hc])
  · split_ifs at h with hcur
    obtain rfl := Option.some.inj h
    exact hcur ▸ .prepareAutoHome
  · split_ifs at h with hcur
    obtain rfl := Option.some.inj h
    exact hcur.1 ▸ .deploy
  · split_ifs at h with hcur
    obtain rfl := Option.some.inj h
    exact hcur ▸ .info
  · cases h

theorem admissible_handling (pending : Option Datagram) (d : Dixie) :
    d.control.Admissible (d.handling pending) := by
  intro state dgr h
  cases pending with
  | none => cases h
  | some dgr' =>
    have hpair := Prod.mk.inj (Option.some.inj h)
    exact admits_accepted hpair.1

theorem columnOnEntry_le (d : Dixie) : d.columnOnEntry ≤ 9 := Narco.getDeployColumn_le _

@[simp] theorem control_inWorld (w : World) (d : Dixie) : (d.inWorld w).control = d.control := rfl

@[simp] theorem control_poll (late : List UInt8) (d : Dixie) :
    (d.poll late).control = d.control := by
  have hsent : ∀ sent : List Datagram,
      (sent.map Event.tx).filter (fun e => !e.isTx) = [] := by
    intro sent
    simp [List.filter_eq_nil_iff, Event.isTx]
  simp only [control, poll, List.filter_append, hsent, List.append_nil]

theorem control_forceServiceState (d : Dixie) :
    ∃ column ≤ 9, d.forceServiceState.control = d.control.force column := by
  unfold forceServiceState Control.force
  simp only [control_currentState]
  split
  · rw [control_onLcd, control_switchState, control_setNextState, control_sendDatagram]
    exact ⟨_, columnOnEntry_le _, rfl⟩
  · exact ⟨0, Nat.zero_le 9, rfl⟩

theorem control_begin (w : World) (olat : BitVec 16) :
    ∃ column, (((new olat).inWorld w).begin).control = Control.initial column := by
  have hstart : ({ (new olat).inWorld w with
      narco := ((new olat).inWorld w).narco.begin } : Dixie).control =
      { Control.initial 0 with events := [] } := by
    ext1 <;> first | rfl | exact Narco.poweredPins_powerOff _
  rw [begin, control_callEnterState]
  simp only [control_setDeployColumn, control_scanColumns, control_onLcd, hstart]
  exact ⟨_, rfl⟩

end Dixie

inductive Call
  | update (w : World)
  | forceServiceState (w : World)

def World.still (millis : UInt32) (mcp0 mcp1 : ℕ → Bool) (arrived : List UInt8) : World where
  millis _ := millis
  mcp0 _ := mcp0
  mcp1 _ := mcp1
  arrived := arrived
  late := []

def Datagram.request (id : UInt16) (command : Cmd) (data : List UInt8) : Datagram :=
  (⟨id, 0, command.toByte, data⟩ : Datagram).updateChecksum

namespace Dixie

def call : Call → Dixie → Dixie
  | .update w, d => (d.inWorld w).update w.late
  | .forceServiceState w, d => (d.inWorld w).forceServiceState

def boot (olat : BitVec 16) (w : World) : Dixie := ((new olat).inWorld w).begin

def run (calls : List Call) (d : Dixie) : Dixie := calls.foldl (fun d c => d.call c) d

/-- The machine: one `begin()`, then calls in any order. -/
def machine : Foundation.TransitionSystem Dixie Call where
  init d := ∃ olat w, d = boot olat w
  step d c d' := d' = d.call c

theorem reachable_run (olat : BitVec 16) (w : World) (calls : List Call) :
    machine.Reachable (run calls (boot olat w)) := by
  apply List.foldlRecOn (motive := machine.Reachable)
  · exact .init ⟨olat, w, rfl⟩
  · intro d hd c _
    exact hd.step (k := c) rfl

theorem step_call (c : Call) (d : Dixie) : Control.Step d.control (d.call c).control := by
  cases c with
  | update w =>
    have hd : ((d.inWorld w).poll w.late).control = d.control := by simp
    rw [call, update, control_updateWith, hd]
    exact .pass _ _ _ (hd ▸ admissible_handling _ _) (columnOnEntry_le _)
  | forceServiceState w =>
    obtain ⟨column, hle, hforce⟩ := control_forceServiceState (d.inWorld w)
    rw [call, hforce]
    exact .force column hle

theorem simulation : Foundation.TransitionSystem.Simulation machine Control.system control where
  init _ h := by
    obtain ⟨olat, w, rfl⟩ := h
    exact control_begin w olat
  step d c _ h := ⟨(), h ▸ step_call c d⟩

theorem settled {d : Dixie} (h : machine.Reachable d) : d.control.Settled :=
  .of_reachable (simulation.reachable h)

/-! One call of `update()`, in a world. -/

@[simp] theorem poll_currentState (late : List UInt8) (d : Dixie) :
    (d.poll late).currentState = d.currentState := rfl

@[simp] theorem poll_narco (late : List UInt8) (d : Dixie) : (d.poll late).narco = d.narco := rfl

@[simp] theorem accepted_poll (late : List UInt8) (dgr : Datagram) (d : Dixie) :
    (d.poll late).accepted dgr = d.accepted dgr := by
  unfold accepted
  rw [poll_currentState, poll_narco]

def pendingIn (w : World) (d : Dixie) : Option Datagram := (d.inWorld w).pendingDatagram w.late

def handledIn (w : World) (d : Dixie) : Dixie :=
  ((d.inWorld w).poll w.late).afterHandler (d.pendingIn w)

theorem call_update_control (w : World) (d : Dixie) :
    (d.call (.update w)).control = d.control.pass ((d.inWorld w).handling (d.pendingIn w))
      (d.handledIn w).readings (d.handledIn w).callUpdateState.columnOnEntry := by
  rw [call, update, control_updateWith, control_poll, control_inWorld]
  rfl

variable {d : Dixie} {w : World}

theorem admissible_pendingIn (d : Dixie) (w : World) :
    d.control.Admissible ((d.inWorld w).handling (d.pendingIn w)) :=
  admissible_handling (d.pendingIn w) (d.inWorld w)

theorem call_update_currentState (h : machine.Reachable d) (w : World) :
    (d.call (.update w)).currentState =
      d.control.resolve ((d.inWorld w).handling (d.pendingIn w)) (d.handledIn w).readings := by
  have hpass := (settled h).pass_currentState (r := (d.handledIn w).readings)
    (admissible_pendingIn d w) (columnOnEntry_le (d.handledIn w).callUpdateState)
  rw [← call_update_control] at hpass
  exact hpass

theorem call_force_currentState (h : machine.Reachable d) (w : World) :
    (d.call (.forceServiceState w)).currentState = .service := by
  obtain ⟨column, hle, hforce⟩ := control_forceServiceState (d.inWorld w)
  have hcur := (settled h).force_currentState hle
  rw [← control_inWorld w d, ← hforce] at hcur
  exact hcur

theorem exists_accepted {state : State}
    (h : ((d.inWorld w).handling (d.pendingIn w)).bind Prod.fst = some state) :
    ∃ dgr, d.pendingIn w = some dgr ∧ (d.inWorld w).accepted dgr = some state := by
  cases hpending : d.pendingIn w with
  | none =>
    rw [hpending] at h
    cases h
  | some dgr =>
    rw [hpending] at h
    exact ⟨dgr, rfl, h⟩

theorem handling_poll (late : List UInt8) (pending : Option Datagram) (d : Dixie) :
    (d.poll late).handling pending = d.handling pending := by
  unfold handling
  simp only [accepted_poll]

theorem control_handledIn (w : World) (d : Dixie) :
    (d.handledIn w).control = d.control.receive ((d.inWorld w).handling (d.pendingIn w)) := by
  rw [handledIn, control_afterHandler, handling_poll, control_poll, control_inWorld]

theorem handledIn_frame (w : World) (d : Dixie) :
    (d.handledIn w).timers = d.timers ∧ (d.handledIn w).clock = ⟨w.millis, 0⟩ := by
  unfold handledIn
  cases d.pendingIn w with
  | none => exact ⟨rfl, rfl⟩
  | some dgr =>
    obtain ⟨htimers, hclock, -⟩ := datagramHandler_frame dgr ((d.inWorld w).poll w.late)
    exact ⟨htimers, hclock⟩

theorem accepted_eq_deploy {dgr : Datagram} (h : d.accepted dgr = some .deploy) :
    dgr.command = Cmd.fetch.toByte ∧ d.currentState = .ready ∧ d.narco.getDeployColumn.1 ≠ 0 := by
  unfold accepted at h
  -- of the five requests that name a state only FETCH names DEPLOY
  split at h <;> rename_i hcmd
  · split at h
    · split_ifs at h
      rcases requestedState_eq_some h with h | h <;> cases h
    · cases h
  · split_ifs at h
    cases h
  · split_ifs at h
    cases h
  · split_ifs at h with hready
    exact ⟨Cmd.ofByte?_eq_some.mp hcmd, hready⟩
  · split_ifs at h
    cases h
  · cases h

theorem accepted_of_service {dgr : Datagram} {state : State} (hcur : d.currentState = .service)
    (h : d.accepted dgr = some state) :
    dgr.command = Cmd.setState.toByte ∨ dgr.command = Cmd.homeBegin.toByte := by
  unfold accepted at h
  split at h <;> rename_i hcmd
  · exact Or.inl (Cmd.ofByte?_eq_some.mp hcmd)
  · simp [hcur] at h
  · exact Or.inr (Cmd.ofByte?_eq_some.mp hcmd)
  · simp [hcur] at h
  · simp [hcur] at h
  · cases h

end Dixie

end Alko.Arduino
