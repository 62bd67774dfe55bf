import Alko.Arduino.StateRequests

/-! A DEPLOY that finds no column: it should give up, but looks at the motor timers of the vend
before. -/

namespace Alko.Arduino

open Control

namespace Dixie

variable {d : Dixie} {w : World}

/-- Both motor timers, which an entry without a column does not start again, are due. -/
def motorTimersDue (d : Dixie) : Bool :=
  d.due .motorStart && (d.timers .motorRun).timedOut (d.clock.millis (d.clock.reads + 1))

def IsSetService (dgr : Datagram) : Prop :=
  dgr.command = Cmd.setState.toByte ∧ dgr.data = [State.service.toByte]

theorem isSetService_of_accepted {dgr : Datagram} (hcur : d.currentState = .deploy)
    (h : d.accepted dgr = some .service) : IsSetService dgr := by
  unfold accepted at h
  split at h <;> rename_i hcmd
  · split at h
    · rename_i newState hdata
      split_ifs at h
      refine ⟨Cmd.ofByte?_eq_some.mp hcmd, ?_⟩
      unfold requestedState at h
      split at h <;> simp_all [State.ofByte?_eq_some]
    · cases h
  · simp [hcur] at h
  · simp [hcur] at h
  · simp [hcur] at h
  · simp [hcur] at h
  · cases h

theorem awaited_of_no_column (h : machine.Reachable d) (hcur : d.currentState = .deploy)
    (hcol : d.deployColumn = 0) (hservice : ∀ dgr, d.pendingIn w = some dgr → ¬IsSetService dgr) :
    d.control.awaited ((d.inWorld w).handling (d.pendingIn w)) = .prepareReady := by
  have hnext : d.control.nextState = .prepareReady := by
    rw [(settled h).next_eq, if_pos ⟨hcur, hcol⟩]
  have hcur' : (d.inWorld w).currentState = .deploy := hcur
  cases hpending : d.pendingIn w with
  | none => exact hnext
  | some dgr =>
    cases hacc : (d.inWorld w).accepted dgr with
    | none =>
      simp only [handling, Option.map_some, hacc, awaited, receive, handle_nextState,
        Option.getD_none, control_currentState, hcur, hnext]
      rfl
    | some state =>
      have hadmits : Admits .deploy state := hcur' ▸ admits_accepted hacc
      have hstate : state = .prepareReady := by
        cases hadmits with
        | service => exact absurd (isSetService_of_accepted hcur' hacc) (hservice dgr hpending)
        | prepareReady => rfl
      simp only [handling, Option.map_some, hacc, awaited, receive, handle_nextState,
        Option.getD_some, hstate]

theorem expiry_of_no_column (h : machine.Reachable d) (hcur : d.currentState = .deploy)
    (hcol : d.deployColumn = 0) :
    d.control.expiry (d.handledIn w).readings =
      if (d.inWorld w).motorTimersDue then some .deployError else none := by
  obtain ⟨htimers, hclock⟩ := handledIn_frame w d
  have hcontrol := control_handledIn w d
  have hup : (d.handledIn w).updateState = .deploy := by
    rw [← control_updateState, hcontrol]
    exact ((settled h).toCoherent.receive (admissible_pendingIn d w)).updateState_eq.trans
      ((receive_currentState ..).trans hcur)
  have hcol' : (d.handledIn w).deployColumn = 0 := by
    rw [← control_deployColumn, hcontrol, receive_deployColumn]
    exact hcol
  -- there is no column 0 to read home, so only the timers can end this DEPLOY
  have hhome : (d.handledIn w).readings.home = false := by
    simp [readings, hcol', Narco.isHome]
  have hdue : (d.handledIn w).readings.due = (d.inWorld w).due .motorStart := by
    simp only [readings, hup, due, htimers, hclock]
    rfl
  have hlate : (d.handledIn w).readings.late =
      ((d.inWorld w).timers .motorRun).timedOut (w.millis 1) := by
    simp only [readings, hup, htimers, hclock]
    rfl
  simp only [expiry, control_currentState, hcur, hhome, hdue, hlate, motorTimersDue,
    Bool.and_eq_true]
  split_ifs <;> simp_all

end Dixie

/-- A DEPLOY without a column gives way to PREPARE_READY in the next pass exactly if the motor
timers left over from the vend before are not both due; if they are, to DEPLOY_ERROR. -/
theorem gives_up_iff {d : Dixie} (h : Dixie.machine.Reachable d) (hcur : d.currentState = .deploy)
    (hcol : d.deployColumn = 0) {w : World}
    (hservice : ∀ dgr, d.pendingIn w = some dgr → ¬Dixie.IsSetService dgr) :
    ((d.call (.update w)).currentState = .prepareReady ↔ (d.inWorld w).motorTimersDue = false) ∧
      ((d.call (.update w)).currentState = .deployError ↔ (d.inWorld w).motorTimersDue = true) := by
  rw [Dixie.call_update_currentState h w, resolve, Dixie.expiry_of_no_column h hcur hcol,
    Dixie.awaited_of_no_column h hcur hcol hservice]
  cases (d.inWorld w).motorTimersDue <;> simp

def World.lastColumn (millis : UInt32) (turning : Bool) (arrived : List UInt8) : World :=
  .still millis (fun p => p != 0) (fun p => decide (p < 7) || (p == 7 && turning)) arrived

def readyRun : List Call :=
  [.update (.lastColumn 0 false (Datagram.request 2 .setState [State.ready.toByte]).toBytes),
    .update (.lastColumn 3000 false [])]

/-- The last column does not come home in thirteen seconds; five seconds later DEPLOY is entered
again, and there is no column left. -/
def exhausted : Dixie :=
  (Dixie.boot 0 (.lastColumn 0 false [])).run (readyRun ++
    [.update (.lastColumn 3001 false (Datagram.request 3 .fetch []).toBytes),
      .update (.lastColumn 16001 true []), .update (.lastColumn 21001 true [])])

theorem exhausted_reachable : Dixie.machine.Reachable exhausted := Dixie.reachable_run _ _ _

theorem gives_up_lost :
    Dixie.machine.Reachable exhausted ∧ exhausted.previousState = .deployError ∧
      exhausted.currentState = .deploy ∧ exhausted.deployColumn = 0 ∧
      exhausted.pendingIn (.lastColumn 21002 true []) = none ∧
      (exhausted.call (.update (.lastColumn 21002 true []))).currentState = .deployError :=
  ⟨exhausted_reachable, by decide +kernel, by decide +kernel, by decide +kernel, by decide +kernel,
    by decide +kernel⟩

def flickering : World where
  millis _ := 3001
  mcp0 _ p := p != 0
  mcp1 n p := decide (p < 7) || (p == 7 && decide (16 ≤ n))
  arrived := (Datagram.request 3 .fetch []).toBytes
  late := []

def emptyHanded : Dixie :=
  (Dixie.boot 0 (.lastColumn 0 false [])).run (readyRun ++ [.update flickering])

theorem emptyHanded_reachable : Dixie.machine.Reachable emptyHanded := Dixie.reachable_run _ _ _

theorem gives_up_emptyHanded :
    (emptyHanded.call (.update (.lastColumn 3002 true []))).currentState = .prepareReady := by
  have hnone : emptyHanded.pendingIn (.lastColumn 3002 true []) = none := by decide +kernel
  exact (gives_up_iff emptyHanded_reachable (by decide +kernel) (by decide +kernel)
    (fun dgr hdgr => by rw [hnone] at hdgr; cases hdgr)).1.mpr (by decide +kernel)

end Alko.Arduino
