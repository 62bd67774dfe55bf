import Alko.Arduino.LinkLoss
import Alko.Arduino.MotorTime
import Alko.Foundation.Schedule

/-! How long the machine is away from the states in which it rests: whatever arrives and whatever
the sensors show, each of the others is left in time, and only a vend that fails makes the way back
longer. -/

namespace Alko.State

open Arduino

/-- Only a request, or a link that is lost, ends these. -/
def atRest : State → Bool
  | .service | .ready | .readyWait => true
  | _ => false

def waitsFor : State → Option TimerId
  | .prepareReady => some .prepareReady
  | .deployError => some .deployError
  | .prepareAutoHome => some .prepareAutoHome
  | .info => some .info
  | _ => none

/-- How long a visit to a state may take, by the time of a call that still finds it, if the calls
come within `δ`. -/
def longest (δ : ℕ) : State → ℕ
  | .prepareReady => Config.prepareReadyTimer.toNat + δ
  | .deploy => Config.motorRunTimer.toNat + δ
  | .deployError => Config.deployErrorTimer.toNat + δ
  | .prepareAutoHome => Config.prepareAutoHomeTimer.toNat + δ
  | .autoHome => 9 * (Config.motorRunTimer.toNat + 2 * δ)
  | .info => Config.infoTimer.toNat + δ
  | _ => 0

theorem notMem_successors (state : State) : state ∉ Control.successors state := by
  cases state <;> decide

end Alko.State

namespace Alko.Arduino

open Control Foundation

def Event.entered? : Event → Option State
  | .switched _ new => some new
  | _ => none

namespace Dixie

variable {d : Dixie} {w : World}

theorem entered_handledEvents (handled : Option (Option State × Datagram)) (state : State) :
    (handledEvents handled state).filterMap Event.entered? = [] := by
  unfold handledEvents
  split
  · split <;> rfl
  · rfl

theorem entered_updateEvents (r : Readings) (c : Control) :
    (c.updateEvents r).filterMap Event.entered? = [] := by
  unfold updateEvents
  split
  · split <;> rfl
  · split
    · rfl
    · split <;> rfl
  · rfl

theorem entered_switchEvents (old new : State) (column : ℕ) :
    (switchEvents old new column).filterMap Event.entered? = [new] := by
  have hexit : (exitEvents old).filterMap Event.entered? = [] := by cases old <;> rfl
  have henter (column : ℕ) : (enterEvents new column).filterMap Event.entered? = [] := by
    cases new <;> simp only [enterEvents] <;> first | rfl | (split <;> rfl)
  rw [switchEvents, List.filterMap_append, hexit, List.nil_append]
  simp only [List.filterMap_cons, Event.entered?, henter]

theorem filterMap_entered (events : List Event) :
    (events.filter fun e => !e.isTx).filterMap Event.entered? =
      events.filterMap Event.entered? := by
  rw [List.filterMap_filter]
  congr 1
  funext e
  cases e <;> rfl

theorem entered_call (h : machine.Reachable d) (c : Call) :
    (d.since (d.call c)).filterMap Event.entered? =
      if (d.call c).currentState = d.currentState then [] else [(d.call c).currentState] := by
  rw [← filterMap_entered]
  cases c with
  | update w =>
    rw [since_update h w, List.filterMap_append, List.filterMap_append, entered_handledEvents,
      entered_updateEvents, List.nil_append, List.nil_append]
    split
    · rfl
    · exact entered_switchEvents ..
  | forceServiceState w =>
    obtain ⟨column, hle, hforce⟩ := control_forceServiceState (d.inWorld w)
    have hevents := (congrArg Control.events hforce).trans ((settled h).force_events hle)
    rw [filter_since (c := .forceServiceState w) hevents, call_force_currentState h w]
    by_cases hservice : d.currentState = .service
    · rw [if_pos hservice.symm, control_currentState, if_pos hservice]
      rfl
    · rw [if_neg (Ne.symm hservice), control_currentState, if_neg hservice]
      exact entered_switchEvents ..

def StartedIn (w : World) (t : TimerId) (d : Dixie) : Prop :=
  ∃ n, d.timers t = Timer.startFor (initialTimers t).interval (w.millis n)

theorem startedIn_entering {t : TimerId} {d' : Dixie} (h : machine.Reachable d)
    (hstart : ∃ n, d'.timers t = ((d.updatedIn w).entering.timers t).start
      ((d.updatedIn w).entering.clock.millis n)) : d'.StartedIn w t := by
  obtain ⟨n, hn⟩ := hstart
  refine ⟨n, hn.trans ?_⟩
  rw [entering_millis, (entering_intervals h w).start]

theorem startedIn_switch (h : machine.Reachable d)
    (hmove : (d.call (.update w)).currentState ≠ d.currentState) {t : TimerId}
    (ht : (d.call (.update w)).currentState.waitsFor = some t) :
    (d.call (.update w)).StartedIn w t := by
  have henter := entering_enterState h w
  have hcall : d.call (.update w) = (d.updatedIn w).entering.callEnterState :=
    call_eq_switchState h hmove
  cases hnew : (d.call (.update w)).currentState <;> rw [hnew] at henter ht <;> cases ht
  case prepareReady =>
    refine ⟨(d.updatedIn w).entering.clock.reads, ?_⟩
    rw [hcall, callEnterState, henter, ← entering_millis d w]
    simp [enterPrepareReadyState, Clock.now]
    rfl
  all_goals
    apply startedIn_entering h
    rw [hcall, callEnterState, henter]
    exact ⟨(d.updatedIn w).entering.clock.reads, by
      simp [enterDeployErrorState, enterPrepareAutoHomeState, enterInfoState, Clock.now]⟩

theorem startedIn_deploy (h : machine.Reachable d)
    (hmove : (d.call (.update w)).currentState ≠ d.currentState)
    (hdep : (d.call (.update w)).currentState = .deploy)
    (hcol : (d.call (.update w)).deployColumn ≠ 0) :
    (d.call (.update w)).StartedIn w .motorStart ∧ (d.call (.update w)).StartedIn w .motorRun := by
  have hfound : (d.updatedIn w).entering.narco.getDeployColumn.1 ≠ 0 :=
    fun hzero => hcol ((deployColumn_deploy h (hdep ▸ hmove.symm) hdep).trans hzero)
  have hcall : d.call (.update w) = (d.updatedIn w).entering.enterDeployState := by
    rw [call_eq_switchState h hmove]
    show (d.updatedIn w).entering.callEnterState = _
    rw [callEnterState, entering_enterState h w, hdep]
  refine ⟨startedIn_entering h ⟨(d.updatedIn w).entering.clock.reads, ?_⟩,
    startedIn_entering h ⟨(d.updatedIn w).entering.clock.reads + 1, ?_⟩⟩
  all_goals
    rw [hcall]
    simp [enterDeployState, hfound, Clock.now]

theorem enterAutoHomeState_timer (hprev : d.previousState = .prepareAutoHome) :
    d.enterAutoHomeState.timers .motorRun = (d.timers .motorRun).start d.clock.now := by
  simp [enterAutoHomeState, hprev]

theorem startedIn_autoHome (h : machine.Reachable d)
    (hmove : (d.call (.update w)).currentState ≠ d.currentState)
    (hhome : (d.call (.update w)).currentState = .autoHome) :
    (d.call (.update w)).deployColumn = 1 ∧ (d.call (.update w)).StartedIn w .motorRun := by
  obtain ⟨hprepare, hcol⟩ := column_autoHome h (hhome ▸ hmove.symm) hhome
  have hcall : d.call (.update w) = (d.updatedIn w).entering.enterAutoHomeState := by
    rw [call_eq_switchState h hmove]
    show (d.updatedIn w).entering.callEnterState = _
    rw [callEnterState, entering_enterState h w, hhome]
  refine ⟨hcol, startedIn_entering h ?_⟩
  rw [hcall]
  exact ⟨_, enterAutoHomeState_timer ((entering_previousState h w).trans hprepare)⟩

/-! A pass that stays where it is: the timer of the state has not run out. -/

theorem expiry_of_stay (h : machine.Reachable d)
    (hstay : (d.call (.update w)).currentState = d.currentState) :
    d.control.expiry (d.handledIn w).readings = none := by
  have hres := (call_update_currentState h w).symm.trans hstay
  cases hexp : d.control.expiry (d.handledIn w).readings with
  | none => rfl
  | some state =>
    rw [resolve, hexp, Option.getD_some] at hres
    have hmem := expiry_mem_successors hexp
    rw [hres] at hmem
    exact absurd hmem (State.notMem_successors d.currentState)

theorem waits_on (h : machine.Reachable d)
    (hstay : (d.call (.update w)).currentState = d.currentState) {t : TimerId}
    (ht : d.currentState.waitsFor = some t) :
    (d.call (.update w)).timers t = d.timers t ∧ (d.timers t).timedOut (w.millis 0) = false := by
  have hnone := expiry_of_stay h hstay
  have hup := handledIn_updateState h w
  rw [call_eq_updatedIn h hstay, ← due_handledIn]
  cases hcur : d.currentState <;> rw [hcur] at ht hup <;> cases ht
  all_goals
    refine ⟨updatedIn_timers h (by rw [hcur]; decide), ?_⟩
    simp only [expiry, control_currentState, hcur, readings, hup] at hnone
    exact Bool.eq_false_of_not_eq_true fun hdue => by rw [if_pos hdue] at hnone; cases hnone

theorem vends_on (h : machine.Reachable d)
    (hstay : (d.call (.update w)).currentState = d.currentState)
    (hcur : d.currentState = .deploy) :
    d.deployColumn ≠ 0 ∧ (d.call (.update w)).deployColumn = d.deployColumn ∧
      (∀ t, (d.call (.update w)).timers t = d.timers t) ∧
      ((d.timers .motorStart).timedOut (w.millis 0) = false ∨
        (d.timers .motorRun).timedOut (w.millis 1) = false) := by
  have hnone := expiry_of_stay h hstay
  have hup := (handledIn_updateState h w).trans hcur
  obtain ⟨htimers, hclock⟩ := handledIn_frame w d
  refine ⟨fun hzero => ?_, deployColumn_stays h hcur (hstay.trans hcur), fun t => ?_, ?_⟩
  · have hleft := (settled h).resolve_ne (r := (d.handledIn w).readings) (admissible_pendingIn d w)
      hcur hzero
    rw [← call_update_currentState h w, hstay] at hleft
    exact hleft hcur
  · rw [call_eq_updatedIn h hstay, updatedIn_timers h]
    rw [hcur]
    exact List.not_mem_nil
  · simp only [expiry, control_currentState, hcur] at hnone
    split_ifs at hnone with hdue hhome hlate
    · simp only [readings, hup, htimers, hclock] at hlate
      exact Or.inr (Bool.eq_false_of_not_eq_true hlate)
    · simp only [readings, hup, due, Clock.now, htimers, hclock] at hdue
      exact Or.inl (Bool.eq_false_of_not_eq_true hdue)

theorem updateAutoHomeState_timer (hup : d.updateState = .autoHome)
    (hprev : d.previousState = .prepareAutoHome) (hcol : d.deployColumn ≤ 9)
    {millis : ℕ → UInt32} (hclock : ∀ n, d.clock.millis n = millis n) :
    if d.readings.home ∨ d.readings.late then
      ∃ n, d.updateAutoHomeState.timers .motorRun = (d.timers .motorRun).start (millis n)
    else d.updateAutoHomeState.timers .motorRun = d.timers .motorRun ∧
      (d.timers .motorRun).timedOut (d.clock.now) = false := by
  have hlate : d.readings.late = ((d.isHome d.deployColumn).2.timedOut .motorRun).1 := by
    simp only [readings, hup]
    rfl
  have hhome : d.readings.home = (d.isHome d.deployColumn).1 := rfl
  simp only [updateAutoHomeState, hlate, hhome, if_neg (Nat.not_lt.mpr hcol)]
  have hmillis (n : ℕ) := (timedOut_millis .motorRun (d.isHome d.deployColumn).2 n).trans (hclock n)
  obtain ⟨clock, hlater⟩ := timedOut_snd .motorRun (d.isHome d.deployColumn).2
  by_cases hh : (d.isHome d.deployColumn).1 = true
  · rw [if_pos hh, if_pos (Or.inl hh)]
    refine ⟨d.clock.reads, ?_⟩
    rw [enterAutoHomeState_timer, ← hclock]
    · rfl
    · exact hprev
  · rw [if_neg hh]
    by_cases hl : ((d.isHome d.deployColumn).2.timedOut .motorRun).1 = true
    · rw [if_pos hl, if_pos (Or.inr hl)]
      rw [hlater] at hmillis ⊢
      refine ⟨clock.reads, ?_⟩
      rw [enterAutoHomeState_timer, ← hmillis]
      · rfl
      · exact hprev
    · rw [if_neg hl, if_neg (not_or.mpr ⟨hh, hl⟩), timedOut_timers]
      exact ⟨rfl, Bool.eq_false_of_not_eq_true hl⟩

theorem homes_on (h : machine.Reachable d)
    (hstay : (d.call (.update w)).currentState = d.currentState)
    (hcur : d.currentState = .autoHome) :
    d.deployColumn ≤ 9 ∧
      (((d.call (.update w)).deployColumn = d.deployColumn + 1 ∧
          (d.call (.update w)).StartedIn w .motorRun) ∨
        ((d.call (.update w)).deployColumn = d.deployColumn ∧
          (d.call (.update w)).timers .motorRun = d.timers .motorRun ∧
          (d.timers .motorRun).timedOut (w.millis 0) = false)) := by
  have hcol : d.deployColumn ≤ 9 := by
    have hnone := expiry_of_stay h hstay
    simp only [expiry, control_currentState, control_deployColumn, hcur] at hnone
    by_contra hover
    rw [if_pos (Nat.lt_of_not_le hover)] at hnone
    cases hnone
  obtain ⟨htimers, hclock⟩ := handledIn_frame w d
  have hcolumn := column_homing (w := w) h hcur hcol
  have hup := (handledIn_updateState h w).trans hcur
  have hprev : (d.handledIn w).previousState = .prepareAutoHome := by
    have hcoherent := (settled h).toCoherent.receive (admissible_pendingIn d w)
    rw [← control_previousState, control_handledIn]
    exact (hcoherent.homing ((receive_currentState ..).trans hcur)).1
  have hhandled : (d.handledIn w).deployColumn = d.deployColumn := by
    rw [← control_deployColumn, control_handledIn, receive_deployColumn]
    rfl
  have hmillis (n : ℕ) : (d.handledIn w).clock.millis n = w.millis n :=
    congrArg (fun c => c.millis n) hclock
  have htimer := updateAutoHomeState_timer hup hprev (hhandled.trans_le hcol) hmillis
  rw [show (d.handledIn w).updateAutoHomeState = d.call (.update w) by
    rw [call_eq_updatedIn h hstay, updatedIn, callUpdateState, hup], htimers, hclock] at htimer
  simp only [(intervals h).start .motorRun] at htimer
  rw [call_eq_updatedIn h hstay] at htimer ⊢
  refine ⟨hcol, ?_⟩
  split_ifs at hcolumn htimer with hmove
  · rw [hcolumn, Nat.mod_eq_of_lt (by omega)]
    exact Or.inl ⟨rfl, htimer⟩
  · exact Or.inr ⟨hcolumn, htimer⟩

def Armed (t : ℕ) (timer : TimerId) (d : Dixie) : Prop :=
  ∃ a ≤ t, d.timers timer = Timer.startFor (initialTimers timer).interval (UInt32.ofNat a)

theorem interval_le (timer : TimerId) : (initialTimers timer).interval.toNat ≤ 30000 := by
  cases timer <;> decide

theorem Armed.congr {t : ℕ} {timer : TimerId} {d' : Dixie} (h : d.Armed t timer)
    (hsame : d'.timers timer = d.timers timer) : d'.Armed t timer := by
  obtain ⟨a, hle, htimer⟩ := h
  exact ⟨a, hle, hsame.trans htimer⟩

theorem Armed.in_time {t b : ℕ} {timer : TimerId} (h : d.Armed t timer) (ht : t < 2 ^ 32 - 30000)
    (hb : b < 2 ^ 32) (hnot : (d.timers timer).timedOut (UInt32.ofNat b) = false) :
    b < t + (initialTimers timer).interval.toNat := by
  obtain ⟨a, hle, htimer⟩ := h
  have hinterval := interval_le timer
  rw [htimer, Timer.timedOut_startFor (by omega) hb, decide_eq_false_iff_not] at hnot
  omega

theorem StartedIn.armed {timer : TimerId} {c : TimedCall} (h : d.StartedIn w timer)
    (hcall : c.call = .update w) : d.Armed c.finish timer := by
  obtain ⟨n, hn⟩ := h
  refine ⟨c.time n, c.le_finish n, hn.trans ?_⟩
  rw [← c.millis n, hcall]
  rfl

end Dixie

namespace Clocked

def visits (s : Clocked) : List (State × ℕ) :=
  s.log.filterMap fun x => x.2.entered?.map (·, x.1.finish)

/-- The machine looks at the clock at least every `δ` milliseconds, and the last 30 s before the
clock wraps around have not begun: from there on a deadline can lie behind the wrap-around. -/
def paced (δ : ℕ) : TransitionSystem Clocked TimedCall :=
  system.restrict fun s c => c.finish ≤ s.now + δ ∧ c.finish < 2 ^ 32 - 30000

variable {δ t : ℕ} {s : Clocked} {c : TimedCall}

theorem visits_call (h : Dixie.machine.Reachable s.dixie) (c : TimedCall) :
    (s.call c).visits = s.visits ++
      if (s.call c).dixie.currentState = s.dixie.currentState then []
      else [((s.call c).dixie.currentState, c.finish)] := by
  have hentered := Dixie.entered_call h c.call
  have hlater : ((s.dixie.since (s.dixie.call c.call)).map (c, ·)).filterMap
      (fun x => x.2.entered?.map (·, x.1.finish)) =
      ((s.dixie.since (s.dixie.call c.call)).filterMap Event.entered?).map (·, c.finish) := by
    rw [List.filterMap_map, List.map_filterMap]
    rfl
  simp only [visits, call_log, call_dixie, List.filterMap_append, hlater, hentered]
  split <;> rfl

/-- The machine has been in its state since `t`, and what will end that is under way. -/
structure Visit (δ t : ℕ) (s : Clocked) : Prop where
  le_now : t ≤ s.now
  waiting : ∀ timer, s.dixie.currentState.waitsFor = some timer → s.dixie.Armed t timer ∧
    s.now ≤ t + (Dixie.initialTimers timer).interval.toNat + δ
  vending : s.dixie.currentState = .deploy →
    (s.dixie.deployColumn = 0 ∧ s.now = t) ∨
      (s.dixie.Armed t .motorStart ∧ s.dixie.Armed t .motorRun ∧
        s.now ≤ t + Config.motorRunTimer.toNat + δ)
  homing : s.dixie.currentState = .autoHome → ∃ q ≤ s.now, s.dixie.Armed q .motorRun ∧
    q ≤ t + (s.dixie.deployColumn - 1) * (Config.motorRunTimer.toNat + 2 * δ) ∧
    s.dixie.deployColumn ≤ 10 ∧ s.now ≤ q + Config.motorRunTimer.toNat + δ ∧
    (9 < s.dixie.deployColumn → s.now = q)

theorem visit_at_rest (h : s.dixie.currentState.atRest = true) (hle : t ≤ s.now) :
    s.Visit δ t where
  le_now := hle
  waiting timer ht := by
    cases hcur : s.dixie.currentState <;> rw [hcur] at h ht <;> cases h <;> cases ht
  vending hcur := by rw [hcur] at h; cases h
  homing hcur := by rw [hcur] at h; cases h

theorem Visit.now_le (h : s.Visit δ t) (haway : s.dixie.currentState.atRest = false) :
    s.now ≤ t + s.dixie.currentState.longest δ := by
  have hwait {timer : TimerId} (ht : s.dixie.currentState.waitsFor = some timer) :=
    (h.waiting timer ht).2
  cases hcur : s.dixie.currentState <;> rw [hcur] at haway <;> try cases haway
  case deploy =>
    rcases h.vending hcur with ⟨-, hnow⟩ | ⟨-, -, hnow⟩ <;> simp only [State.longest] <;> omega
  case autoHome =>
    obtain ⟨q, -, -, hq, hten, hnow, hlast⟩ := h.homing hcur
    simp only [State.longest]
    by_cases hcol : 9 < s.dixie.deployColumn
    · have hnine : s.dixie.deployColumn - 1 = 9 := by omega
      rw [hnine] at hq
      exact (hlast hcol).trans_le hq
    · have hbefore := Nat.mul_le_mul_right (Config.motorRunTimer.toNat + 2 * δ)
        (show s.dixie.deployColumn - 1 ≤ 8 by omega)
      omega
  all_goals
    have hnow := hwait (by rw [hcur]; rfl)
    exact hnow.trans_eq (Nat.add_assoc ..)

theorem in_time {timer : TimerId} {w : World} {n q : ℕ} (harmed : s.dixie.Armed q timer)
    (hq : q ≤ s.now) (hnow : s.now ≤ c.time 0)
    (hpace : c.finish ≤ s.now + δ ∧ c.finish < 2 ^ 32 - 30000) (hcall : c.call = .update w)
    (hnot : (s.dixie.timers timer).timedOut (w.millis n) = false) :
    c.finish ≤ q + (Dixie.initialTimers timer).interval.toNat + δ := by
  have hfirst := c.mono (Nat.zero_le n)
  have hfinish := c.le_finish n
  have hmillis : w.millis n = UInt32.ofNat (c.time n) := by
    rw [← c.millis n, hcall]
    rfl
  rw [hmillis] at hnot
  have hlate := harmed.in_time (by omega) (by omega) hnot
  omega

theorem Visit.stay (hvisit : s.Visit δ t) (h : Dixie.machine.Reachable s.dixie)
    (hnow : s.now ≤ c.time 0) (hpace : c.finish ≤ s.now + δ ∧ c.finish < 2 ^ 32 - 30000)
    {w : World} (hcall : c.call = .update w)
    (hstay : (s.call c).dixie.currentState = s.dixie.currentState) : (s.call c).Visit δ t := by
  have hdixie : (s.call c).dixie = s.dixie.call (.update w) := by rw [call_dixie, hcall]
  have hle : s.now ≤ c.finish := hnow.trans (c.le_finish 0)
  rw [hdixie] at hstay
  refine ⟨hvisit.le_now.trans hle, fun timer ht => ?_, fun hcur => ?_, fun hcur => ?_⟩
  · rw [hdixie] at ht ⊢
    rw [hstay] at ht
    obtain ⟨hsame, hnot⟩ := Dixie.waits_on h hstay ht
    have harmed := (hvisit.waiting timer ht).1
    exact ⟨harmed.congr hsame, in_time harmed hvisit.le_now hnow hpace hcall hnot⟩
  · rw [hdixie] at hcur ⊢
    obtain ⟨hcol, -, hsame, hnot⟩ := Dixie.vends_on h hstay (hstay.symm.trans hcur)
    rcases hvisit.vending (hstay.symm.trans hcur) with ⟨hzero, -⟩ | ⟨hstart, hrun, -⟩
    · exact absurd hzero hcol
    · refine Or.inr ⟨hstart.congr (hsame _), hrun.congr (hsame _), ?_⟩
      rcases hnot with hnot | hnot
      · have hshort := in_time hstart hvisit.le_now hnow hpace hcall hnot
        exact hshort.trans (Nat.add_le_add_right (Nat.add_le_add_left (by decide) t) δ)
      · exact in_time hrun hvisit.le_now hnow hpace hcall hnot
  · rw [hdixie] at hcur ⊢
    obtain ⟨q, hq, harmed, hbefore, -, hwithin, -⟩ := hvisit.homing (hstay.symm.trans hcur)
    obtain ⟨hnine, ⟨hcol, hstart⟩ | ⟨hcol, hsame, hnot⟩⟩ :=
      Dixie.homes_on h hstay (hstay.symm.trans hcur)
    · refine ⟨c.finish, le_rfl, hstart.armed hcall, ?_, by omega, by rw [call_now]; omega,
        fun _ => rfl⟩
      have hpos : 1 ≤ s.dixie.deployColumn := by
        have hhoming := (Dixie.settled h).homing (hstay.symm.trans hcur)
        exact hhoming.2.1
      have hmul : (s.dixie.deployColumn + 1 - 1) * (Config.motorRunTimer.toNat + 2 * δ) =
          (s.dixie.deployColumn - 1) * (Config.motorRunTimer.toNat + 2 * δ) +
            (Config.motorRunTimer.toNat + 2 * δ) := by
        rw [← Nat.succ_mul, Nat.succ_eq_add_one, Nat.sub_add_cancel hpos, Nat.add_sub_cancel]
      rw [hcol, hmul]
      omega
    · have hwithin' := in_time harmed hq hnow hpace hcall hnot
      rw [hcol]
      exact ⟨q, hq.trans hle, harmed.congr hsame, hbefore, by omega, hwithin', by omega⟩

theorem visit_enter (h : Dixie.machine.Reachable s.dixie) {w : World} (hcall : c.call = .update w)
    (hmove : (s.call c).dixie.currentState ≠ s.dixie.currentState) :
    (s.call c).Visit δ c.finish := by
  have hdixie : (s.call c).dixie = s.dixie.call (.update w) := by rw [call_dixie, hcall]
  rw [hdixie] at hmove
  refine ⟨le_rfl, fun timer ht => ?_, fun hcur => ?_, fun hcur => ?_⟩
  · rw [hdixie] at ht ⊢
    refine ⟨(Dixie.startedIn_switch h hmove ht).armed hcall, ?_⟩
    rw [call_now]
    omega
  · rw [hdixie] at hcur ⊢
    by_cases hcol : (s.dixie.call (.update w)).deployColumn = 0
    · exact Or.inl ⟨hcol, rfl⟩
    · obtain ⟨hstart, hrun⟩ := Dixie.startedIn_deploy h hmove hcur hcol
      refine Or.inr ⟨hstart.armed hcall, hrun.armed hcall, ?_⟩
      rw [call_now]
      omega
  · rw [hdixie] at hcur ⊢
    obtain ⟨hcol, hstart⟩ := Dixie.startedIn_autoHome h hmove hcur
    refine ⟨c.finish, le_rfl, hstart.armed hcall, ?_, by omega, by rw [call_now]; omega,
      fun _ => rfl⟩
    omega

def Follows (δ : ℕ) (e f : State × ℕ) : Prop :=
  f.1 ∈ successors e.1 ∧ (e.1.atRest = false → f.2 ≤ e.2 + (e.1.longest δ + δ))

/-- Power-on counts as the entry of SERVICE. -/
structure OnSchedule (δ : ℕ) (s : Clocked) : Prop where
  kept : ((State.service, 0) :: s.visits).IsChain (Follows δ)
  current : ∃ t, ((State.service, 0) :: s.visits).getLast? = some (s.dixie.currentState, t) ∧
    s.Visit δ t

theorem OnSchedule.call (hs : s.OnSchedule δ) (h : Dixie.machine.Reachable s.dixie)
    (hnow : s.now ≤ c.time 0) (hpace : c.finish ≤ s.now + δ ∧ c.finish < 2 ^ 32 - 30000) :
    (s.call c).OnSchedule δ := by
  have hvisits := visits_call h c
  have hle : s.now ≤ c.finish := hnow.trans (c.le_finish 0)
  obtain ⟨t, hlast, hvisit⟩ := hs.current
  by_cases hstay : (s.call c).dixie.currentState = s.dixie.currentState
  · rw [if_pos hstay, List.append_nil] at hvisits
    refine ⟨hvisits ▸ hs.kept, t, by rw [hvisits, hstay]; exact hlast, ?_⟩
    cases hcall : c.call with
    | update w => exact hvisit.stay h hnow hpace hcall hstay
    | forceServiceState w =>
      have hservice := Dixie.call_force_currentState h w
      rw [← hcall] at hservice
      exact visit_at_rest (by rw [call_dixie, hservice]; rfl) (hvisit.le_now.trans hle)
  · rw [if_neg hstay] at hvisits
    have hmem := Dixie.call_currentState_mem h c.call hstay
    refine ⟨?_, c.finish, by rw [hvisits, ← List.cons_append, List.getLast?_concat], ?_⟩
    · rw [hvisits, ← List.cons_append]
      refine hs.kept.append (List.isChain_singleton _) fun e he f hf => ?_
      rw [hlast] at he
      obtain rfl := Option.some.inj he
      obtain rfl := Option.some.inj hf
      refine ⟨hmem, fun haway => ?_⟩
      have htime := hvisit.now_le haway
      show c.finish ≤ t + (s.dixie.currentState.longest δ + δ)
      omega
    · cases hcall : c.call with
      | update w => exact visit_enter h hcall hstay
      | forceServiceState w =>
        have hservice := Dixie.call_force_currentState h w
        rw [← hcall] at hservice
        exact visit_at_rest (by rw [call_dixie, hservice]; rfl) le_rfl

theorem onSchedule (h : (paced δ).Reachable s) : s.OnSchedule δ := by
  refine h.invariant (I := OnSchedule δ) (fun s hs => ?_) fun s c s' hreach hs hstep => ?_
  · obtain ⟨olat, w, rfl⟩ := hs
    obtain ⟨column, hboot⟩ := Dixie.control_begin w olat
    have hcur : (Dixie.boot olat w).currentState = .service := congrArg Control.currentState hboot
    refine ⟨List.isChain_singleton _, 0, by rw [hcur]; rfl, visit_at_rest ?_ le_rfl⟩
    rw [hcur]
    rfl
  · obtain ⟨hpace, hnow, rfl⟩ := hstep
    exact hs.call (reachable_dixie hreach.of_restrict) hnow hpace

theorem visits_split {before after : List (TimedCall × Event)} {old new : State}
    (hlog : s.log = before ++ (c, .switched old new) :: after) :
    s.visits = before.filterMap (fun x => x.2.entered?.map (·, x.1.finish)) ++
      (new, c.finish) :: after.filterMap fun x => x.2.entered?.map (·, x.1.finish) := by
  rw [visits, hlog, List.filterMap_append, List.filterMap_cons]
  rfl

theorem split_events {log : List (TimedCall × Event)} {before after : List Event} {e : Event}
    (h : log.map Prod.snd = before ++ e :: after) :
    ∃ before' c after', log = before' ++ (c, e) :: after' ∧ after'.map Prod.snd = after := by
  obtain ⟨before', rest, rfl, -, hrest⟩ := List.map_eq_append_iff.mp h
  obtain ⟨⟨c, e'⟩, after', rfl, rfl, hafter⟩ := List.map_eq_cons_iff.mp hrest
  exact ⟨before', c, after', rfl, hafter⟩

/-- The way back to rest: the longest is from the homing, and a vend that fails starts another. -/
def wayBack (δ : ℕ) : Schedule State where
  next p q := q ∈ successors p ∧ p.atRest = false ∧ q.atRest = false
  limit p := p.longest δ + δ
  remaining
    | .prepareReady => 3000 + 2 * δ
    | .deploy => 16000 + 4 * δ
    | .deployError => 21000 + 6 * δ
    | .prepareAutoHome => 130000 + 23 * δ
    | .autoHome => 120000 + 21 * δ
    | .info => 7000 + 4 * δ
    | _ => 0
  extra
    | .deployError => 18000 + 4 * δ
    | _ => 0
  planned p q := by
    rintro ⟨hmem, hp, hq⟩
    cases p <;> cases hp <;> cases q <;> cases hq <;> revert hmem <;>
      simp [successors, State.longest, Config.prepareReadyTimer, Config.motorRunTimer,
        Config.deployErrorTimer, Config.prepareAutoHomeTimer, Config.infoTimer]
    all_goals omega

theorem longest_le_remaining (δ : ℕ) (state : State) :
    state.longest δ ≤ (wayBack δ).remaining state := by
  cases state <;>
    simp [wayBack, State.longest, Config.prepareReadyTimer, Config.motorRunTimer,
      Config.deployErrorTimer, Config.prepareAutoHomeTimer, Config.infoTimer] <;> omega

theorem remaining_le (δ : ℕ) (state : State) :
    (wayBack δ).remaining state ≤ 130000 + 23 * δ := by
  cases state <;> simp only [wayBack] <;> omega

def failures (log : List (TimedCall × Event)) : ℕ :=
  log.countP fun x => x.2.entered? = some .deployError

theorem extras_visits (δ : ℕ) (log : List (TimedCall × Event)) :
    (wayBack δ).extras (log.filterMap fun x => x.2.entered?.map (·, x.1.finish)) =
      failures log * (18000 + 4 * δ) := by
  induction log with
  | nil => exact (Nat.zero_mul _).symm
  | cons x log ih =>
    obtain ⟨c, e⟩ := x
    rw [failures, List.countP_cons, Nat.add_mul, ← failures, ← ih]
    cases hentered : e.entered? with
    | none => simp [hentered]
    | some state =>
      simp only [List.filterMap_cons, hentered, Option.map_some, Schedule.extras, List.map_cons,
        List.sum_cons]
      rw [Nat.add_comm]
      cases state <;> simp [wayBack]

end Clocked

/-- Up to 30 s before the clock wraps around, whatever arrives and whatever the sensors show, a
state in which the machine does not rest is left by its deadline. -/
theorem visit_bounded {δ : ℕ} {s : Clocked} (h : (Clocked.paced δ).Reachable s)
    {before after : List (TimedCall × Event)} {c : TimedCall} {old state : State}
    (hlog : s.log = before ++ (c, .switched old state) :: after) (haway : state.atRest = false)
    (hlast : ∀ x ∈ after, x.2.entered? = none) :
    s.now ≤ c.finish + state.longest δ := by
  obtain ⟨t, hcurrent, hvisit⟩ := (Clocked.onSchedule h).current
  have hnone : after.filterMap (fun x => x.2.entered?.map (·, x.1.finish)) = [] := by
    rw [List.filterMap_eq_nil_iff]
    intro x hx
    rw [hlast x hx]
    rfl
  rw [Clocked.visits_split hlog, hnone, ← List.cons_append, List.getLast?_concat] at hcurrent
  obtain ⟨rfl, rfl⟩ := Prod.mk.inj (Option.some.inj hcurrent)
  exact hvisit.now_le haway

def failingCalls : List TimedCall := vendCalls ++ [.turning 16002 true []]

def Clocked.failing : Clocked :=
  Clocked.run failingCalls ⟨Dixie.boot 0xFFFF (.turning 0 false []), 0, []⟩

theorem Clocked.failing_reachable : (Clocked.paced 15000).Reachable Clocked.failing := by
  have hcalls : Clocked.Follow (fun s c => c.finish ≤ s.now + 15000 ∧ c.finish < 2 ^ 32 - 30000)
      failingCalls ⟨Dixie.boot 0xFFFF (.turning 0 false []), 0, []⟩ :=
    ⟨⟨by decide, by decide⟩, by decide, ⟨by decide, by decide⟩, by decide, ⟨by decide, by decide⟩,
      by decide, ⟨by decide, by decide⟩, by decide, ⟨by decide, by decide⟩, by decide, trivial⟩
  exact Clocked.reachable_run (.init ⟨_, _, rfl⟩) hcalls

theorem visit_bounded_failing :
    ∃ before c old after, Clocked.failing.log = before ++ (c, .switched old .deployError) :: after ∧
      Clocked.failing.now ≤ c.finish + State.deployError.longest 15000 := by
  obtain ⟨before, c, after, hlog, hafter⟩ := Clocked.split_events
    (show Clocked.failing.log.map Prod.snd = (Clocked.failing.log.map Prod.snd).take 12 ++
      .switched .deploy .deployError :: (Clocked.failing.log.map Prod.snd).drop 13 by
      decide +kernel)
  refine ⟨before, c, _, after, hlog, visit_bounded Clocked.failing_reachable hlog rfl ?_⟩
  intro x hx
  have hmem := List.mem_map_of_mem (f := Prod.snd) hx
  rw [hafter] at hmem
  revert hmem
  generalize x.2 = e
  revert e
  decide +kernel

/-- Up to 30 s before the clock wraps around, whatever arrives and whatever the sensors show, the
machine is back at rest within a fixed time, and a fixed time more for each vend that has failed
meanwhile. -/
theorem back_at_rest {δ : ℕ} {s : Clocked} (h : (Clocked.paced δ).Reachable s)
    {before after : List (TimedCall × Event)} {c : TimedCall} {old new : State}
    (hlog : s.log = before ++ (c, .switched old new) :: after) (hnew : new.atRest = false)
    (haway : ∀ x ∈ after, ∀ state ∈ x.2.entered?, state.atRest = false) :
    s.now ≤ c.finish + (130000 + 23 * δ) + Clocked.failures after * (18000 + 4 * δ) := by
  obtain ⟨hkept, t, hcurrent, hvisit⟩ := Clocked.onSchedule h
  set later := after.filterMap fun x => x.2.entered?.map (·, x.1.finish) with hlater
  have haway' : ∀ e ∈ (new, c.finish) :: later, e.1.atRest = false := by
    intro e he
    rcases List.mem_cons.mp he with rfl | he
    · exact hnew
    · obtain ⟨x, hx, hmap⟩ := List.mem_filterMap.mp he
      obtain ⟨state, hstate, rfl⟩ := Option.map_eq_some_iff.mp hmap
      exact haway x hx state hstate
  rw [Clocked.visits_split hlog, ← List.cons_append] at hkept hcurrent
  have hwayBack : (Clocked.wayBack δ).Kept ((new, c.finish) :: later) := by
    refine List.IsChain.imp_of_mem_imp (fun e f he hf hfollows => ?_) hkept.right_of_append
    exact ⟨⟨hfollows.1, haway' e he, haway' f hf⟩, hfollows.2 (haway' e he)⟩
  rw [List.getLast?_append_of_ne_nil _ (List.cons_ne_nil _ _)] at hcurrent
  have hentered := hwayBack.entered_by hcurrent
  rw [hlater, Clocked.extras_visits] at hentered
  have hnow := hvisit.now_le (haway' _ (List.mem_of_getLast? hcurrent))
  have hlongest := Clocked.longest_le_remaining δ s.dixie.currentState
  have hremaining := Clocked.remaining_le δ new
  simp only at hentered
  omega

theorem back_at_rest_failing :
    ∃ before c old after, Clocked.failing.log = before ++ (c, .switched old .deploy) :: after ∧
      Clocked.failing.now ≤ c.finish + (130000 + 23 * 15000) +
        Clocked.failures after * (18000 + 4 * 15000) := by
  obtain ⟨before, c, after, hlog, hafter⟩ := Clocked.split_events
    (show Clocked.failing.log.map Prod.snd = (Clocked.failing.log.map Prod.snd).take 7 ++
      .switched .ready .deploy :: (Clocked.failing.log.map Prod.snd).drop 8 by decide +kernel)
  refine ⟨before, c, _, after, hlog, back_at_rest Clocked.failing_reachable hlog rfl ?_⟩
  intro x hx
  have hmem := List.mem_map_of_mem (f := Prod.snd) hx
  rw [hafter] at hmem
  revert hmem
  generalize x.2 = e
  revert e
  decide +kernel

end Alko.Arduino
