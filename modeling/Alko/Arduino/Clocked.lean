import Alko.Arduino.FetchAnswer
import Alko.Foundation.History

/-! Runs of the machine in time: each call with the time of its clock readings, and the log of all
that was done, with the call that did it. -/

namespace Alko.Arduino

open Control

def Event.isPower : Event → Bool
  | .powerOn _ _ => true
  | .powerOff _ => true
  | _ => false

def Call.world : Call → World
  | .update w => w
  | .forceServiceState w => w

/-- A call, and how many milliseconds after power-on each of its clock readings comes; the clock
itself wraps around. -/
structure TimedCall where
  call : Call
  time : ℕ → ℕ
  finish : ℕ
  mono : Monotone time
  le_finish : ∀ n, time n ≤ finish
  millis : ∀ n, call.world.millis n = UInt32.ofNat (time n)

structure Clocked where
  dixie : Dixie
  now : ℕ
  -- What the calls have done, in order; no step reads it.
  log : List (TimedCall × Event)

namespace Dixie

def since (d d' : Dixie) : List Event := d'.trace.drop d.trace.length

end Dixie

namespace Clocked

@[simps] def call (c : TimedCall) (s : Clocked) : Clocked where
  dixie := s.dixie.call c.call
  now := c.finish
  log := s.log ++ (s.dixie.since (s.dixie.call c.call)).map (c, ·)

def system : Foundation.TransitionSystem Clocked TimedCall where
  init s := ∃ olat w, s = ⟨Dixie.boot olat w, 0, []⟩
  step s c s' := s.now ≤ c.time 0 ∧ s' = s.call c

theorem simulation :
    Foundation.TransitionSystem.Simulation system Dixie.machine Clocked.dixie where
  init s hs := by
    obtain ⟨olat, w, rfl⟩ := hs
    exact ⟨olat, w, rfl⟩
  step s c s' hstep := ⟨c.call, by rw [hstep.2]; rfl⟩

theorem reachable_dixie {s : Clocked} (h : system.Reachable s) :
    Dixie.machine.Reachable s.dixie := simulation.reachable h

def run (calls : List TimedCall) (s : Clocked) : Clocked := calls.foldl (fun s c => s.call c) s

def Follow (P : Clocked → TimedCall → Prop) : List TimedCall → Clocked → Prop
  | [], _ => True
  | c :: calls, s => P s c ∧ s.now ≤ c.time 0 ∧ Follow P calls (s.call c)

theorem reachable_run {P : Clocked → TimedCall → Prop} {calls : List TimedCall} {s : Clocked}
    (h : (system.restrict P).Reachable s) (hcalls : Follow P calls s) :
    (system.restrict P).Reachable (s.run calls) := by
  induction calls generalizing s with
  | nil => exact h
  | cons c calls ih => exact ih (h.step ⟨hcalls.1, hcalls.2.1, rfl⟩) hcalls.2.2

end Clocked

def TimedCall.turning (t : ℕ) (turning : Bool) (arrived : List UInt8) : TimedCall where
  call := .update (.turning (UInt32.ofNat t) turning arrived)
  time _ := t
  finish := t
  mono := monotone_const
  le_finish _ := le_rfl
  millis _ := rfl

namespace Dixie

variable {t : TimerId} {d : Dixie}

@[simp] theorem timedOut_trace (t : TimerId) (d : Dixie) : (d.timedOut t).2.trace = d.trace := by
  obtain ⟨clock, hclock⟩ := timedOut_snd t d
  rw [hclock]

@[simp] theorem isHome_trace (column : ℕ) (d : Dixie) :
    (d.isHome column).2.trace =
      d.trace ++ [.readHome d.currentState column (d.isHome column).1] := rfl

theorem prefix_enterAutoHomeState (d : Dixie) : d.trace <+: d.enterAutoHomeState.trace := by
  unfold enterAutoHomeState
  split <;> simp

theorem prefix_callEnterState (d : Dixie) : d.trace <+: d.callEnterState.trace := by
  unfold callEnterState
  cases d.enterState with
  | service => simp [enterServiceState]
  | prepareReady => simp [enterPrepareReadyState]
  | ready => simp [enterReadyState]
  | readyWait => simp [enterReadyWaitState]
  | deploy =>
    simp only [enterDeployState]
    split <;> simp
  | deployError => simp [enterDeployErrorState]
  | prepareAutoHome => simp [enterPrepareAutoHomeState]
  | autoHome => exact prefix_enterAutoHomeState d
  | info => simp [enterInfoState]

theorem prefix_callExitState (d : Dixie) : d.trace <+: d.callExitState.trace := by
  unfold callExitState
  cases d.exitState with
  | service => simp [exitServiceState]
  | prepareReady => simp [exitPrepareReadyState]
  | deploy => simp [exitDeployState]
  | autoHome => simp [exitAutoHomeState]
  | _ => exact List.prefix_refl _

theorem prefix_switchState (d : Dixie) : d.trace <+: d.switchState.trace := by
  have hentering : d.callExitState.trace <+: d.entering.trace := List.prefix_append ..
  exact (prefix_callExitState d).trans (hentering.trans (prefix_callEnterState d.entering))

theorem prefix_callUpdateState (d : Dixie) : d.trace <+: d.callUpdateState.trace := by
  unfold callUpdateState
  cases d.updateState with
  | service => simp only [updateServiceState]; split <;> simp
  | prepareReady => simp only [updatePrepareReadyState]; split <;> simp
  | ready =>
    simp only [updateReadyState, doPingPong]
    split_ifs <;> simp
  | readyWait => simp only [updateReadyWaitState]; split <;> simp
  | deploy => simp only [updateDeployState]; split_ifs <;> simp
  | deployError => simp only [updateDeployErrorState]; split <;> simp
  | prepareAutoHome => simp only [updatePrepareAutoHomeState]; split <;> simp
  | autoHome =>
    simp only [updateAutoHomeState]
    split_ifs
    · simp
    · exact .trans (by simp) (prefix_enterAutoHomeState _)
    · exact .trans (by simp) (prefix_enterAutoHomeState _)
    · simp
  | info => simp only [updateInfoState]; split <;> simp

theorem prefix_received (dgr : Datagram) (d : Dixie) : d.trace <+: (d.received dgr).trace := by
  unfold received
  simp only
  split <;> simp

theorem prefix_handleSetState (dgr : Datagram) (d : Dixie) :
    d.trace <+: (d.handleSetState dgr).trace := by
  unfold handleSetState
  repeat' split
  all_goals simp [emitCurrentState]

theorem prefix_handleFetch (dgr : Datagram) (d : Dixie) :
    d.trace <+: (d.handleFetch dgr).trace := by
  unfold handleFetch
  split_ifs <;> simp

theorem prefix_datagramHandler (dgr : Datagram) (d : Dixie) :
    d.trace <+: (d.datagramHandler dgr).trace := by
  refine (prefix_received dgr d).trans ?_
  unfold datagramHandler
  generalize d.received dgr = d'
  cases Cmd.ofByte? dgr.command with
  | none => simp
  | some cmd =>
    cases cmd with
    | setState => exact prefix_handleSetState dgr d'
    | fetch => exact prefix_handleFetch dgr d'
    | homeAbort => simp only; split <;> simp [emitCurrentState]
    | homeBegin => simp only; split <;> simp [emitCurrentState]
    | showInfo => simp only; split <;> simp
    | lcdRgb => simp only; split <;> simp
    | _ => simp [emitCurrentState, setText]

theorem prefix_handledIn (w : World) (d : Dixie) : d.trace <+: (d.handledIn w).trace := by
  have hpoll : d.trace <+: ((d.inWorld w).poll w.late).trace := List.prefix_append ..
  unfold handledIn
  cases d.pendingIn w with
  | none => exact hpoll
  | some dgr => exact hpoll.trans (prefix_datagramHandler dgr _)

theorem prefix_call (c : Call) (d : Dixie) : d.trace <+: (d.call c).trace := by
  cases c with
  | update w =>
    have hupdated := (prefix_handledIn w d).trans (prefix_callUpdateState (d.handledIn w))
    have hcall : d.call (.update w) =
        if (d.updatedIn w).currentState ≠ (d.updatedIn w).nextState
        then (d.updatedIn w).switchState else d.updatedIn w := rfl
    rw [hcall]
    split
    · exact hupdated.trans (prefix_switchState _)
    · exact hupdated
  | forceServiceState w =>
    have hswitch := prefix_switchState (((d.inWorld w).sendDatagram
      ((((Datagram.new 2).setId 0).setCommand .setState).setData
        [State.service.toByte, 0xCE] 2)).setNextState .service)
    simp only [call, forceServiceState]
    split
    · exact .trans (by simp) hswitch
    · exact List.prefix_refl _

theorem trace_call (c : Call) (d : Dixie) :
    (d.call c).trace = d.trace ++ d.since (d.call c) := by
  obtain ⟨events, hevents⟩ := prefix_call c d
  rw [since, ← hevents, List.drop_left]

theorem filter_since {c : Call} {d : Dixie} {events : List Event}
    (h : (d.call c).control.events = d.control.events ++ events) :
    (d.since (d.call c)).filter (fun e => !e.isTx) = events := by
  rw [control_events, trace_call, List.filter_append] at h
  exact List.append_cancel_left h

theorem since_update (h : machine.Reachable d) (w : World) :
    (d.since (d.call (.update w))).filter (fun e => !e.isTx) =
      handledEvents ((d.inWorld w).handling (d.pendingIn w)) d.currentState ++
        (d.control.updateEvents (d.handledIn w).readings ++
          if (d.call (.update w)).currentState = d.currentState then []
          else switchEvents d.currentState (d.call (.update w)).currentState
            (d.updatedIn w).columnOnEntry) := by
  apply filter_since
  rw [call_update_control, (settled h).pass_events (admissible_pendingIn d w)
    (columnOnEntry_le _), call_update_currentState h]
  rfl

theorem mem_filter_of_mem_since {e : Event} {d' : Dixie} (h : e ∈ d.since d')
    (htx : e.isTx = false) : e ∈ (d.since d').filter (fun e => !e.isTx) :=
  List.mem_filter.mpr ⟨h, by rw [htx]; rfl⟩

/-! The timers: which of them the functions of a state may start. -/

def updateTimers : State → List TimerId
  | .service => [.narco]
  | .ready => [.ping, .narco]
  | .readyWait => [.narco]
  | .autoHome => [.motorRun]
  | _ => []

@[simp] theorem timedOut_timers (t : TimerId) (d : Dixie) :
    (d.timedOut t).2.timers = d.timers := by
  obtain ⟨clock, hclock⟩ := timedOut_snd t d
  rw [hclock]

@[simp] theorem isHome_timers (column : ℕ) (d : Dixie) :
    (d.isHome column).2.timers = d.timers := rfl

theorem enterAutoHomeState_timers (h : t ≠ .motorRun) :
    d.enterAutoHomeState.timers t = d.timers t := by
  unfold enterAutoHomeState
  split <;> simp [Function.update_of_ne h]

theorem callUpdateState_timers (h : t ∉ updateTimers d.updateState) :
    d.callUpdateState.timers t = d.timers t := by
  unfold callUpdateState
  cases hs : d.updateState <;> rw [hs] at h <;>
    simp only [updateTimers, List.mem_cons, List.not_mem_nil, or_false, not_or] at h
  case service =>
    simp only [updateServiceState]
    split <;> simp [Function.update_of_ne h]
  case ready =>
    simp only [updateReadyState, doPingPong]
    split_ifs <;> simp [Function.update_of_ne h.1, Function.update_of_ne h.2]
  case readyWait =>
    simp only [updateReadyWaitState]
    split <;> simp [Function.update_of_ne h]
  case deploy =>
    simp only [updateDeployState]
    split_ifs <;> simp
  case autoHome =>
    simp only [updateAutoHomeState]
    split_ifs <;> simp [enterAutoHomeState_timers h]
  case prepareReady => simp only [updatePrepareReadyState]; split <;> simp
  case deployError => simp only [updateDeployErrorState]; split <;> simp
  case prepareAutoHome => simp only [updatePrepareAutoHomeState]; split <;> simp
  case info => simp only [updateInfoState]; split <;> simp

def Intervals (d : Dixie) : Prop := ∀ t, (d.timers t).interval = (initialTimers t).interval

theorem Intervals.startTimer (h : d.Intervals) (t : TimerId) : (d.startTimer t).Intervals := by
  intro t'
  by_cases ht : t' = t
  · subst ht
    simpa using h t'
  · simpa [Function.update_of_ne ht] using h t'

theorem Intervals.startTimerFor (h : d.Intervals) {t : TimerId} {interval : UInt32}
    (hinterval : interval = (initialTimers t).interval) :
    (d.startTimerFor t interval).Intervals := by
  intro t'
  by_cases ht : t' = t
  · subst ht
    simpa using hinterval
  · simpa [Function.update_of_ne ht] using h t'

theorem Intervals.stopTimer (h : d.Intervals) (t : TimerId) : (d.stopTimer t).Intervals := by
  intro t'
  by_cases ht : t' = t
  · subst ht
    simpa using h t'
  · simpa [Function.update_of_ne ht] using h t'

theorem Intervals.congr {d' : Dixie} (h : d.Intervals) (ht : ∀ t, d'.timers t = d.timers t) :
    d'.Intervals := fun t => (congrArg Timer.interval (ht t)).trans (h t)

theorem Intervals.timedOut (h : d.Intervals) (t : TimerId) : (d.timedOut t).2.Intervals :=
  h.congr fun t' => congrFun (timedOut_timers t d) t'

theorem Intervals.enterAutoHomeState (h : d.Intervals) : d.enterAutoHomeState.Intervals := by
  unfold Dixie.enterAutoHomeState
  split
  · exact h.congr fun _ => rfl
  · exact (h.startTimer .motorRun).congr fun _ => rfl

theorem Intervals.callEnterState (h : d.Intervals) : d.callEnterState.Intervals := by
  unfold Dixie.callEnterState
  cases d.enterState with
  | service => exact (h.startTimerFor (t := .narco) rfl).congr fun _ => rfl
  | prepareReady => exact (h.startTimerFor (t := .prepareReady) rfl).congr fun _ => rfl
  | ready => exact ((h.startTimerFor (t := .ping) rfl).startTimer .narco).congr fun _ => rfl
  | readyWait => exact h.congr fun _ => rfl
  | deploy =>
    simp only [enterDeployState]
    split
    · exact h.congr fun _ => rfl
    · exact ((h.startTimer .motorStart).startTimer .motorRun).congr fun _ => rfl
  | deployError => exact (h.startTimer .deployError).congr fun _ => rfl
  | prepareAutoHome => exact (h.startTimer .prepareAutoHome).congr fun _ => rfl
  | autoHome => exact h.enterAutoHomeState
  | info => exact (h.startTimer .info).congr fun _ => rfl

theorem Intervals.callExitState (h : d.Intervals) : d.callExitState.Intervals := by
  unfold Dixie.callExitState
  cases d.exitState with
  | service => exact h.stopTimer .narco
  | prepareReady => exact h.stopTimer .prepareReady
  | _ => exact h.congr fun _ => rfl

theorem Intervals.switchState (h : d.Intervals) : d.switchState.Intervals := by
  have hentering : d.entering.Intervals := h.callExitState.congr fun _ => rfl
  exact hentering.callEnterState

theorem Intervals.doPingPong (h : d.Intervals) : d.doPingPong.Intervals := by
  unfold Dixie.doPingPong
  split
  · exact h.congr fun _ => rfl
  · exact (h.startTimer .ping).congr fun _ => rfl

theorem Intervals.callUpdateState (h : d.Intervals) : d.callUpdateState.Intervals := by
  have hrefresh {d : Dixie} (h : d.Intervals) : d.updateReadyWaitState.Intervals := by
    unfold Dixie.updateReadyWaitState
    simp only
    split
    · exact ((h.timedOut .narco).startTimer .narco).congr fun _ => rfl
    · exact h.timedOut .narco
  have hwait (t : TimerId) (state : State) :
      (if (d.timedOut t).1 then (d.timedOut t).2.setNextState state
        else (d.timedOut t).2).Intervals := by
    split
    · exact (h.timedOut t).congr fun _ => rfl
    · exact h.timedOut t
  unfold Dixie.callUpdateState
  cases d.updateState with
  | service =>
    simp only [updateServiceState]
    split
    · exact ((h.timedOut .narco).startTimer .narco).congr fun _ => rfl
    · exact h.timedOut .narco
  | prepareReady => exact hwait .prepareReady .ready
  | ready =>
    refine hrefresh (d := if (d.timedOut .ping).1 then (d.timedOut .ping).2.doPingPong
      else (d.timedOut .ping).2) ?_
    split
    · exact (h.timedOut .ping).doPingPong
    · exact h.timedOut .ping
  | readyWait => exact hrefresh h
  | deploy =>
    refine h.congr fun t => ?_
    simp only [updateDeployState]
    split_ifs <;> simp
  | deployError => exact hwait .deployError .deploy
  | prepareAutoHome =>
    refine h.congr fun t => ?_
    simp only [updatePrepareAutoHomeState]
    split <;> simp
  | autoHome =>
    simp only [updateAutoHomeState]
    split_ifs
    · exact h.congr fun t => by simp
    · exact Intervals.enterAutoHomeState (h.congr fun t => by simp)
    · exact Intervals.enterAutoHomeState (h.congr fun t => by simp)
    · exact h.congr fun t => by simp
  | info => exact hwait .info .ready

theorem Intervals.call (h : d.Intervals) (c : Call) : (d.call c).Intervals := by
  cases c with
  | update w =>
    have hupdated : (d.updatedIn w).Intervals :=
      (h.congr fun t => congrFun (handledIn_frame w d).1 t).callUpdateState
    have hcall : d.call (.update w) =
        if (d.updatedIn w).currentState ≠ (d.updatedIn w).nextState
        then (d.updatedIn w).switchState else d.updatedIn w := rfl
    rw [hcall]
    split
    · exact hupdated.switchState
    · exact hupdated
  | forceServiceState w =>
    have hsent (dgr : Datagram) :
        (((d.inWorld w).sendDatagram dgr).setNextState .service).Intervals := h.congr fun _ => rfl
    simp only [Dixie.call, forceServiceState]
    split
    · exact (hsent _).switchState.congr fun _ => rfl
    · exact h.congr fun _ => rfl

theorem intervals (h : machine.Reachable d) : d.Intervals := by
  refine h.invariant (I := Intervals) (fun d hd => ?_) fun d c d' _ hd hstep => ?_
  · obtain ⟨olat, w, rfl⟩ := hd
    rw [boot, begin]
    apply Intervals.callEnterState
    intro t
    simp [new]
  · rw [hstep]
    exact hd.call c

@[simp] theorem timedOut_millis (t : TimerId) (d : Dixie) (n : ℕ) :
    (d.timedOut t).2.clock.millis n = d.clock.millis n := by
  unfold timedOut
  simp only
  split <;> rfl

@[simp] theorem isHome_clock (column : ℕ) (d : Dixie) : (d.isHome column).2.clock = d.clock := rfl

theorem callExitState_clock (d : Dixie) : d.callExitState.clock = d.clock := by
  unfold callExitState
  cases d.exitState <;> rfl

theorem enterAutoHomeState_millis (d : Dixie) (n : ℕ) :
    d.enterAutoHomeState.clock.millis n = d.clock.millis n := by
  unfold enterAutoHomeState
  split <;> rfl

theorem callUpdateState_millis (d : Dixie) (n : ℕ) :
    d.callUpdateState.clock.millis n = d.clock.millis n := by
  unfold callUpdateState
  cases d.updateState with
  | service => simp only [updateServiceState]; split <;> simp
  | prepareReady => simp only [updatePrepareReadyState]; split <;> simp
  | ready =>
    simp only [updateReadyState, doPingPong]
    split_ifs <;> simp
  | readyWait => simp only [updateReadyWaitState]; split <;> simp
  | deploy => simp only [updateDeployState]; split_ifs <;> simp
  | deployError => simp only [updateDeployErrorState]; split <;> simp
  | prepareAutoHome => simp only [updatePrepareAutoHomeState]; split <;> simp
  | autoHome =>
    simp only [updateAutoHomeState]
    split_ifs <;> simp [enterAutoHomeState_millis]
  | info => simp only [updateInfoState]; split <;> simp

end Dixie

end Alko.Arduino
