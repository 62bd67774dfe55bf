import Alko.Arduino.Frames
import Alko.Arduino.Safety

/-! State requests: what the handler accepts, and when the update function that runs after it, in
the same pass, overrules it. -/

namespace Alko.Arduino

open Control

namespace Dixie

def AnswersWith (command : Cmd) (dgr : Datagram) (d : Dixie) : Prop :=
  ∃ frame ∈ d.answers dgr, frame.command = command.toByte

inductive Accepts (dgr : Datagram) (d : Dixie) : State → Prop
  | setState (hcmd : dgr.command = Cmd.setState.toByte) (hans : d.AnswersWith .setState dgr) :
      Accepts dgr d (d.datagramHandler dgr).nextState
  | homeBegin (hcmd : dgr.command = Cmd.homeBegin.toByte) (hans : d.AnswersWith .homeBegin dgr) :
      Accepts dgr d .prepareAutoHome
  | homeAbort (hcmd : dgr.command = Cmd.homeAbort.toByte) (hans : d.AnswersWith .homeAbort dgr) :
      Accepts dgr d .service
  | showInfo (hcmd : dgr.command = Cmd.showInfo.toByte) (hready : d.currentState = .ready)
      (hans : d.answers dgr = [dgr.updateChecksum]) : Accepts dgr d .info
  | fetch (hcmd : dgr.command = Cmd.fetch.toByte) (hready : d.currentState = .ready)
      (hcol : d.narco.getDeployColumn.1 ≠ 0) : Accepts dgr d .deploy

variable {d : Dixie} {dgr : Datagram}

theorem ofByte?_command {command : Cmd} (h : dgr.command = command.toByte) :
    Cmd.ofByte? dgr.command = some command := Cmd.ofByte?_eq_some.mpr h

theorem not_answersWith_of_emitCurrentState {command : Cmd} (hne : command ≠ .getState)
    (h : d.datagramHandler dgr = (d.received dgr).emitCurrentState dgr.id) :
    ¬d.AnswersWith command dgr := by
  rintro ⟨frame, hmem, hframe⟩
  rw [answers_of_sent (by rw [h, sent_emitCurrentState, sent_received]), List.mem_singleton] at hmem
  rw [hmem] at hframe
  exact hne (Cmd.toByte_injective (show Cmd.getState.toByte = command.toByte from hframe)).symm

theorem answersWith_of_sendDatagram {command : Cmd} (frame : Datagram)
    (hframe : frame.command = command.toByte)
    (h : (d.datagramHandler dgr).sent = d.sent ++ [frame.updateChecksum]) :
    d.AnswersWith command dgr :=
  ⟨frame.updateChecksum, by rw [answers_of_sent h]; exact List.mem_singleton_self _, hframe⟩

theorem answersWith_setState_iff (hcmd : dgr.command = Cmd.setState.toByte) :
    d.AnswersWith .setState dgr ↔ (d.accepted dgr).isSome := by
  have hcmd' := ofByte?_command hcmd
  have hhandler : d.datagramHandler dgr = (d.received dgr).handleSetState dgr := by
    simp only [datagramHandler, hcmd']
  have hrefused (h : d.datagramHandler dgr = (d.received dgr).emitCurrentState dgr.id) :
      d.AnswersWith .setState dgr ↔ (none : Option State).isSome :=
    iff_of_false (not_answersWith_of_emitCurrentState (by decide) h) (by simp)
  simp only [accepted, hcmd']
  -- refused: the state it is in, no state at all, or data that is not one byte
  rcases hdata : dgr.data with _ | ⟨newState, _ | ⟨second, later⟩⟩
  · exact hrefused (by simp only [hhandler, handleSetState, hdata])
  · simp only
    by_cases hcur : newState = d.currentState.toByte
    · rw [if_pos hcur]
      exact hrefused (by simp only [hhandler, handleSetState, hdata, received_currentState, hcur,
        if_true])
    · rw [if_neg hcur]
      cases hreq : requestedState newState with
      | none =>
        exact hrefused (by simp only [hhandler, handleSetState, hdata, received_currentState,
          if_neg hcur, hreq])
      | some state =>
        refine iff_of_true (answersWith_of_sendDatagram ((((Datagram.new 1).setId
          dgr.id).setCommand .setState).setData [newState] 1) rfl ?_) rfl
        simp only [hhandler, handleSetState, hdata, received_currentState, if_neg hcur, hreq,
          sent_setNextState, sent_sendDatagram, sent_received]
  · exact hrefused (by simp only [hhandler, handleSetState, hdata])

theorem answersWith_homeBegin_iff (hcmd : dgr.command = Cmd.homeBegin.toByte) :
    d.AnswersWith .homeBegin dgr ↔ d.currentState = .service := by
  have hcmd' := ofByte?_command hcmd
  by_cases hcur : d.currentState = .service
  · refine iff_of_true (answersWith_of_sendDatagram (response dgr.id .homeBegin) rfl ?_) hcur
    simp only [datagramHandler, hcmd', received_currentState, hcur, ne_eq, not_true_eq_false,
      if_false, sent_setNextState, sent_sendDatagram, sent_received]
  · refine iff_of_false (not_answersWith_of_emitCurrentState (by decide) ?_) hcur
    simp only [datagramHandler, hcmd', received_currentState, ne_eq, hcur, not_false_eq_true,
      if_true]

theorem answersWith_homeAbort_iff (hcmd : dgr.command = Cmd.homeAbort.toByte) :
    d.AnswersWith .homeAbort dgr ↔
      d.currentState = .prepareAutoHome ∨ d.currentState = .autoHome := by
  have hcmd' := ofByte?_command hcmd
  by_cases hcur : d.currentState = .prepareAutoHome ∨ d.currentState = .autoHome
  · refine iff_of_true (answersWith_of_sendDatagram (response dgr.id .homeAbort) rfl ?_) hcur
    simp only [datagramHandler, hcmd', received_currentState, if_pos hcur, sent_setNextState,
      sent_sendDatagram, sent_received]
  · refine iff_of_false (not_answersWith_of_emitCurrentState (by decide) ?_) hcur
    simp only [datagramHandler, hcmd', received_currentState, if_neg hcur]

theorem answers_showInfo (hcmd : dgr.command = Cmd.showInfo.toByte)
    (hcur : d.currentState = .ready) : d.answers dgr = [dgr.updateChecksum] := by
  apply answers_of_sent
  simp only [datagramHandler, ofByte?_command hcmd, received_currentState, hcur, if_true,
    sent_sendDatagram, sent_setNextState, sent_received]

theorem nextState_of_accepted {state : State} (h : d.accepted dgr = some state) :
    (d.datagramHandler dgr).nextState = state := by
  have hnext := congrArg Control.nextState (control_datagramHandler dgr d)
  rw [h] at hnext
  exact hnext

theorem accepts_iff {state : State} : Accepts dgr d state ↔ d.accepted dgr = some state := by
  constructor
  · intro h
    cases h with
    | setState hcmd hans =>
      obtain ⟨state, hstate⟩ := Option.isSome_iff_exists.mp ((answersWith_setState_iff hcmd).mp hans)
      rw [nextState_of_accepted hstate, hstate]
    | homeBegin hcmd hans =>
      simp only [accepted, ofByte?_command hcmd, (answersWith_homeBegin_iff hcmd).mp hans, if_true]
    | homeAbort hcmd hans =>
      simp only [accepted, ofByte?_command hcmd, (answersWith_homeAbort_iff hcmd).mp hans, if_true]
    | showInfo hcmd hready hans => simp only [accepted, ofByte?_command hcmd, hready, if_true]
    | fetch hcmd hready hcol =>
      simp only [accepted, ofByte?_command hcmd, hready, true_and, if_pos hcol]
  · intro h
    have hsome : (d.accepted dgr).isSome := by simp [h]
    have hnext := nextState_of_accepted h
    unfold accepted at h
    split at h <;> rename_i hcmd <;> (try rw [Cmd.ofByte?_eq_some] at hcmd)
    · exact hnext ▸ .setState hcmd ((answersWith_setState_iff hcmd).mpr hsome)
    · split_ifs at h with hcur
      exact Option.some.inj h ▸ .homeAbort hcmd ((answersWith_homeAbort_iff hcmd).mpr hcur)
    · split_ifs at h with hcur
      exact Option.some.inj h ▸ .homeBegin hcmd ((answersWith_homeBegin_iff hcmd).mpr hcur)
    · split_ifs at h with hcur
      exact Option.some.inj h ▸ .fetch hcmd hcur.1 hcur.2
    · split_ifs at h with hcur
      exact Option.some.inj h ▸ .showInfo hcmd hcur (answers_showInfo hcmd hcur)
    · cases h

theorem accepted_ofByte? {state : State} (h : d.accepted dgr = some state) :
    Cmd.ofByte? dgr.command ≠ some .pong ∧ Cmd.ofByte? dgr.command ≠ some .checkAvail ∧
      (state ≠ .deploy → Cmd.ofByte? dgr.command ≠ some .fetch) := by
  unfold accepted at h
  split at h <;> rename_i hcmd
  case h_4 =>
    split_ifs at h
    simp [hcmd, ← Option.some.inj h]
  case h_6 => cases h
  all_goals simp [hcmd]

/-- An accepted request changes nothing that the update function of the current state will read. -/
theorem expiry_readings_of_accepted {state : State} (h : d.accepted dgr = some state) :
    d.control.expiry (d.datagramHandler dgr).readings = d.control.expiry d.readings := by
  obtain ⟨hpong, hcheck, hfetch⟩ := accepted_ofByte? h
  obtain ⟨htimers, hclock, hgot, hnarco⟩ := datagramHandler_frame dgr d
  have hcontrol := control_datagramHandler dgr d
  have hup : (d.datagramHandler dgr).updateState = d.updateState :=
    congrArg Control.updateState hcontrol
  have hcol : (d.datagramHandler dgr).deployColumn = d.deployColumn :=
    congrArg Control.deployColumn hcontrol
  have hdue : (d.datagramHandler dgr).readings.due = d.readings.due := by
    simp only [readings, due, hup, htimers, hclock, hgot hpong]
  have hlate : (d.datagramHandler dgr).readings.late = d.readings.late := by
    simp only [readings, due, hup, htimers, hclock]
  -- a FETCH scans the columns, but READY does not look at them
  by_cases hdep : state = .deploy
  · have hready := (accepted_eq_deploy (hdep ▸ h)).2.1
    simp only [expiry, control_currentState, hready, hdue]
  · have hhome : (d.datagramHandler dgr).readings.home = d.readings.home := by
      simp only [readings, hcol, hnarco hcheck (hfetch hdep)]
    simp only [expiry, hdue, hlate, hhome]

def Undisturbed (state : State) (d : Dixie) : Prop :=
  match d.currentState with
  | .service => True
  | .prepareReady => d.due .prepareReady = false
  | .ready => d.due .ping = true → d.gotPong = true
  | .readyWait => True
  | .deploy =>
    d.due .motorStart = true →
      if (d.narco.isHome d.deployColumn).1 then state = .prepareReady
      else (d.timers .motorRun).timedOut (d.clock.millis (d.clock.reads + 1)) = false
  | .deployError => d.due .deployError = false
  | .prepareAutoHome => d.due .prepareAutoHome = false
  | .autoHome => d.deployColumn ≤ 9 ∨ state = .service
  | .info => d.due .info = false

theorem undisturbed_iff {state : State} (hupdate : d.updateState = d.currentState)
    (hadmits : Admits d.currentState state) :
    d.Undisturbed state ↔ (d.control.expiry d.readings).getD state = state := by
  unfold Undisturbed expiry readings
  simp only [control_currentState, control_deployColumn, hupdate]
  cases hcur : d.currentState with
  | service => simp
  | readyWait => simp
  | prepareReady =>
    rw [hcur] at hadmits
    cases hadmits <;> cases d.due .prepareReady <;> simp
  | ready =>
    rw [hcur] at hadmits
    cases hadmits <;> cases d.due .ping <;> cases d.gotPong <;> simp
  | deploy =>
    rw [hcur] at hadmits
    cases hadmits <;> cases d.due .motorStart <;> cases (d.narco.isHome d.deployColumn).1 <;>
      cases (d.timers .motorRun).timedOut (d.clock.millis (d.clock.reads + 1)) <;> simp
  | deployError =>
    rw [hcur] at hadmits
    cases hadmits <;> cases d.due .deployError <;> simp
  | prepareAutoHome =>
    rw [hcur] at hadmits
    cases hadmits <;> cases d.due .prepareAutoHome <;> simp
  | autoHome =>
    rw [hcur] at hadmits
    rcases Nat.lt_or_ge 9 d.deployColumn with hlt | hle
    · simp [hlt, eq_comm]
    · simp [hle, Nat.not_lt.mpr hle]
  | info =>
    rw [hcur] at hadmits
    cases hadmits <;> cases d.due .info <;> simp

end Dixie

/-- An accepted request is served in the same pass exactly if the update function that runs in
between asks for nothing else: it has the last word. -/
theorem accepted_request_served_iff {d : Dixie} (h : Dixie.machine.Reachable d) {w : World}
    {dgr : Datagram} (hpending : d.pendingIn w = some dgr) {state : State}
    (haccepts : ((d.inWorld w).poll w.late).Accepts dgr state) :
    (d.call (.update w)).currentState = state ↔ (d.inWorld w).Undisturbed state := by
  have hset := Dixie.settled h
  have hpolled := Dixie.accepts_iff.mp haccepts
  have hacc : (d.inWorld w).accepted dgr = some state := (Dixie.accepted_poll ..).symm.trans hpolled
  have hexp : d.control.expiry (d.handledIn w).readings =
      d.control.expiry (d.inWorld w).readings := by
    rw [Dixie.handledIn, hpending]
    have hreadings := Dixie.expiry_readings_of_accepted hpolled
    rw [Dixie.control_poll, Dixie.control_inWorld] at hreadings
    exact hreadings
  have hawaited : d.control.awaited ((d.inWorld w).handling (d.pendingIn w)) = state := by
    simp only [hpending, Dixie.handling, Option.map_some, hacc, awaited, receive,
      handle_nextState, Option.getD_some]
  have hup : (d.inWorld w).updateState = (d.inWorld w).currentState := hset.updateState_eq
  have hiff := Dixie.undisturbed_iff hup (Dixie.admits_accepted hacc)
  rw [Dixie.control_inWorld] at hiff
  rw [Dixie.call_update_currentState h w, resolve, hexp, hawaited]
  exact hiff.symm

def preparing : Dixie :=
  (Dixie.boot 0 (.turning 0 false [])).run
    [.update (.turning 0 false (Datagram.request 2 .homeBegin []).toBytes)]

theorem preparing_reachable : Dixie.machine.Reachable preparing := Dixie.reachable_run _ _ _

def stop : World :=
  .turning 10000 false (Datagram.request 3 .setState [State.service.toByte]).toBytes

theorem accepted_request_lost :
    Dixie.machine.Reachable preparing ∧
      preparing.pendingIn stop = some (Datagram.request 3 .setState [State.service.toByte]) ∧
      ((preparing.inWorld stop).poll stop.late).Accepts
        (Datagram.request 3 .setState [State.service.toByte]) .service ∧
      (preparing.call (.update stop)).currentState = .autoHome :=
  ⟨preparing_reachable, by decide +kernel, Dixie.accepts_iff.mpr (by decide +kernel),
    by decide +kernel⟩

def abort : World := .turning 500 false (Datagram.request 3 .homeAbort []).toBytes

theorem accepted_request_served_abort :
    (preparing.call (.update abort)).currentState = .service := by
  have hcur : (preparing.inWorld abort).currentState = .prepareAutoHome := by decide +kernel
  have hpending : preparing.pendingIn abort = some (Datagram.request 3 .homeAbort []) := by
    decide +kernel
  apply (accepted_request_served_iff preparing_reachable hpending
    (Dixie.accepts_iff.mpr (by decide +kernel))).mpr
  unfold Dixie.Undisturbed
  rw [hcur]
  decide +kernel

end Alko.Arduino
