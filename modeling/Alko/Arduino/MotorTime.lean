import Alko.Arduino.Clocked

/-! How long a motor runs. -/

namespace Alko.Arduino

open Control Foundation

/-- The clock stands still while the call lasts, and no deadline lies behind its wrap-around. -/
def TimedCall.Steady (c : TimedCall) : Prop :=
  (∀ n, c.time n = c.finish) ∧ c.finish < 2 ^ 32 - 30000

theorem Timer.timedOut_startFor {s t : ℕ} {interval : UInt32} (hs : s + interval.toNat < 2 ^ 32)
    (ht : t < 2 ^ 32) :
    (startFor interval (UInt32.ofNat s)).timedOut (UInt32.ofNat t) =
      decide (s + interval.toNat ≤ t) := by
  have hs' : s < 2 ^ 32 := (Nat.le_add_right ..).trans_lt hs
  have hend : (UInt32.ofNat s + interval).toNat = s + interval.toNat := by
    rw [UInt32.toNat_add, UInt32.toNat_ofNat_of_lt' hs', Nat.mod_eq_of_lt hs]
  simp only [timedOut, startFor, Bool.true_and, UInt32.le_iff_toNat_le, hend,
    UInt32.toNat_ofNat_of_lt' ht]

namespace Dixie

variable {d : Dixie} {w : World} {m : UInt32}

def Running (d : Dixie) : Prop :=
  (d.currentState = .deploy ∨ d.currentState = .autoHome) ∧ 1 ≤ d.deployColumn ∧
    d.deployColumn ≤ 9

structure PoweredAt (m : UInt32) (d : Dixie) : Prop where
  motorRun : d.timers .motorRun = Timer.startFor Config.motorRunTimer m
  motorStart : d.currentState = .deploy →
    d.timers .motorStart = Timer.startFor Config.motorStartTimer m

def EndsWithPowerOn (events : List Event) (d : Dixie) : Prop :=
  Latest (.powerOn d.currentState d.deployColumn) (fun e => e.isPower = false) events

theorem Intervals.start (h : d.Intervals) (t : TimerId) :
    (d.timers t).start m = Timer.startFor (initialTimers t).interval m := by
  rw [← h t]
  rfl

theorem enterAutoHomeState_motorRun (hprev : d.previousState = .prepareAutoHome)
    (hclock : ∀ n, d.clock.millis n = m) :
    d.enterAutoHomeState.timers .motorRun = (d.timers .motorRun).start m := by
  have hnow : d.clock.now = m := hclock _
  simp [enterAutoHomeState, hprev, hnow]

theorem updateAutoHomeState_motorRun (hup : d.updateState = .autoHome)
    (hprev : d.previousState = .prepareAutoHome) (hcol : d.deployColumn ≤ 9)
    (hclock : ∀ n, d.clock.millis n = m) :
    d.updateAutoHomeState.timers .motorRun =
      if d.readings.home ∨ d.readings.late then (d.timers .motorRun).start m
      else d.timers .motorRun := by
  have hlate : d.readings.late = ((d.isHome d.deployColumn).2.timedOut .motorRun).1 := by
    simp only [readings, hup]
    rfl
  have hhome : d.readings.home = (d.isHome d.deployColumn).1 := rfl
  simp only [updateAutoHomeState, hlate, hhome, if_neg (Nat.not_lt.mpr hcol)]
  by_cases hh : (d.isHome d.deployColumn).1 = true
  · rw [if_pos hh, if_pos (Or.inl hh)]
    exact enterAutoHomeState_motorRun hprev hclock
  · rw [if_neg hh]
    by_cases hl : ((d.isHome d.deployColumn).2.timedOut .motorRun).1 = true
    · obtain ⟨clock, hlater⟩ := timedOut_snd .motorRun (d.isHome d.deployColumn).2
      have hmillis (n : ℕ) := (timedOut_millis .motorRun (d.isHome d.deployColumn).2 n).trans
        (hclock n)
      rw [if_pos hl, if_pos (Or.inr hl)]
      rw [hlater] at hmillis ⊢
      exact enterAutoHomeState_motorRun hprev hmillis
    · rw [if_neg hl, if_neg (not_or.mpr ⟨hh, hl⟩), timedOut_timers]
      rfl

theorem not_isPower_of_mem_handledEvents {handled : Option (Option State × Datagram)}
    {state : State} {e : Event} (h : e ∈ handledEvents handled state) : e.isPower = false := by
  unfold handledEvents at h
  split at h
  · split_ifs at h <;> simp only [List.mem_cons, List.not_mem_nil, or_false] at h
    · rcases h with rfl | rfl <;> rfl
    · exact h ▸ rfl
  · cases h

theorem endsWithPowerOn_of_filter {events : List Event} (es : List Event)
    (h : events.filter (fun e => !e.isTx) = es ++ [.powerOn d.currentState d.deployColumn]) :
    EndsWithPowerOn events d := by
  obtain ⟨before, rest, rfl, -, hrest⟩ := List.filter_eq_append_iff.mp h
  obtain ⟨tx, after, rfl, -, -, hafter⟩ := List.filter_eq_cons_iff.mp hrest
  refine ⟨before ++ tx, after, by rw [List.append_assoc], fun e he => ?_⟩
  have htx := List.filter_eq_nil_iff.mp hafter e he
  cases e with
  | tx dgr => rfl
  | _ => exact absurd rfl htx

theorem not_isPower_of_filter {events : List Event}
    (h : ∀ e ∈ events.filter (fun e => !e.isTx), e.isPower = false) :
    ∀ e ∈ events, e.isPower = false := by
  intro e he
  cases htx : e.isTx with
  | true =>
    cases e with
    | tx dgr => rfl
    | _ => cases htx
  | false => exact h e (List.mem_filter.mpr ⟨he, by rw [htx]; rfl⟩)

theorem enterDeployState_timers (hcol : d.narco.getDeployColumn.1 ≠ 0)
    (hclock : ∀ n, d.clock.millis n = m) :
    d.enterDeployState.timers .motorStart = (d.timers .motorStart).start m ∧
      d.enterDeployState.timers .motorRun = (d.timers .motorRun).start m := by
  have hnow : d.clock.now = m := hclock _
  have hnext : d.clock.tick.now = m := hclock _
  constructor <;> simp [enterDeployState, hcol, hnow, hnext]

theorem entering_millis (d : Dixie) (w : World) (n : ℕ) :
    (d.updatedIn w).entering.clock.millis n = w.millis n := by
  have hexit : (d.updatedIn w).entering.clock = (d.updatedIn w).clock := callExitState_clock _
  rw [hexit, updatedIn, callUpdateState_millis, (handledIn_frame w d).2]

theorem entering_intervals (h : machine.Reachable d) (w : World) :
    (d.updatedIn w).entering.Intervals := by
  have hhandled : (d.handledIn w).Intervals :=
    (intervals h).congr fun t => congrFun (handledIn_frame w d).1 t
  exact hhandled.callUpdateState.callExitState.congr fun _ => rfl

theorem entering_previousState (h : machine.Reachable d) (w : World) :
    (d.updatedIn w).entering.previousState = d.currentState :=
  (congrArg Control.currentState (exited_updatedIn h w)).trans (updatedIn_currentState h w)

theorem column_autoHome (h : machine.Reachable d) (hcur : d.currentState ≠ .autoHome)
    (hhome : (d.call (.update w)).currentState = .autoHome) :
    d.currentState = .prepareAutoHome ∧ (d.call (.update w)).deployColumn = 1 := by
  have hset := settled h
  have hadmits := admissible_pendingIn d w
  rw [call_update_currentState h] at hhome
  refine ⟨(hset.expiry_of_resolve_autoHome hadmits hcur hhome).1, ?_⟩
  rw [← control_deployColumn, call_update_control]
  obtain ⟨mid, hup, hnext, ⟨hstay, -⟩ | ⟨hmove, -, hswitched⟩⟩ :=
    hset.pass_cases hadmits (columnOnEntry_le (d.handledIn w).callUpdateState)
  · exact absurd (hstay.symm.trans hhome) hcur
  · have hnextHome := hnext.trans hhome
    rw [hswitched.deployColumn_eq, columnAfter, if_neg (by rw [hnextHome]; decide)]
    exact hset.start_column hadmits hup hmove hhome

theorem powered_of_switch (h : machine.Reachable d) (hstill : ∀ n, w.millis n = m)
    (hmove : (d.call (.update w)).currentState ≠ d.currentState)
    (hrun : (d.call (.update w)).Running) :
    EndsWithPowerOn (d.since (d.call (.update w))) (d.call (.update w)) ∧
      (d.call (.update w)).PoweredAt m := by
  have hsince := since_update h w
  set handled := (d.inWorld w).handling (d.pendingIn w)
  rw [if_neg hmove] at hsince
  have hcall : d.call (.update w) = (d.updatedIn w).entering.callEnterState :=
    call_eq_switchState h hmove
  have henter := entering_enterState h w
  have hclock (n : ℕ) := (entering_millis d w n).trans (hstill n)
  have hint := entering_intervals h w
  rcases hrun.1 with hdep | hhome
  · rw [hdep] at hmove
    have hcol := deployColumn_deploy h hmove.symm hdep
    have hpos : (d.updatedIn w).columnOnEntry ≠ 0 := by
      rw [← hcol]
      exact Nat.one_le_iff_ne_zero.mp hrun.2.1
    refine ⟨endsWithPowerOn_of_filter (handledEvents handled d.currentState ++
      (d.control.updateEvents (d.handledIn w).readings ++
        (exitEvents d.currentState ++ [.switched d.currentState .deploy]))) ?_, ?_⟩
    · rw [hsince, hcol, hdep, switchEvents, enterEvents, if_pos rfl, if_neg hpos]
      simp
    · obtain ⟨hstart, hmotor⟩ := enterDeployState_timers (d := (d.updatedIn w).entering) hpos hclock
      rw [hcall, callEnterState, henter, hdep]
      exact ⟨hmotor.trans (hint.start .motorRun), fun _ => hstart.trans (hint.start .motorStart)⟩
  · rw [hhome] at hmove
    obtain ⟨hprepare, hcol⟩ := column_autoHome h hmove.symm hhome
    refine ⟨endsWithPowerOn_of_filter (handledEvents handled d.currentState ++
      (d.control.updateEvents (d.handledIn w).readings ++
        (exitEvents d.currentState ++ [.switched d.currentState .autoHome]))) ?_, ?_⟩
    · rw [hsince, hcol, hhome, switchEvents, enterEvents, if_neg (by decide)]
      simp
    · have hprev := (entering_previousState h w).trans hprepare
      have hmotor := enterAutoHomeState_motorRun hprev hclock
      refine ⟨?_, fun hdep => ?_⟩
      · rw [hcall, callEnterState, henter, hhome]
        exact hmotor.trans (hint.start .motorRun)
      · rw [hhome] at hdep
        cases hdep

structure RunsOn (m : UInt32) (d d' : Dixie) : Prop where
  currentState : d'.currentState = d.currentState
  deployColumn : d'.deployColumn = d.deployColumn
  events : ∀ e ∈ d.since d', e.isPower = false
  motorRun : d'.timers .motorRun = d.timers .motorRun
  motorStart : d'.timers .motorStart = d.timers .motorStart
  inTime : (d.timers .motorRun).timedOut m = false ∨
    d.currentState = .deploy ∧ (d.timers .motorStart).timedOut m = false

theorem updatedIn_timers (h : machine.Reachable d) {t : TimerId}
    (ht : t ∉ updateTimers d.currentState) : (d.updatedIn w).timers t = d.timers t := by
  rw [← handledIn_updateState h w] at ht
  rw [updatedIn, callUpdateState_timers ht, (handledIn_frame w d).1]

theorem since_stay (h : machine.Reachable d)
    (hstay : (d.call (.update w)).currentState = d.currentState) :
    (d.since (d.call (.update w))).filter (fun e => !e.isTx) =
      handledEvents ((d.inWorld w).handling (d.pendingIn w)) d.currentState ++
        d.control.updateEvents (d.handledIn w).readings := by
  rw [since_update h w, if_pos hstay, List.append_nil]

theorem runsOn_deploy (h : machine.Reachable d) (hstill : ∀ n, w.millis n = m)
    (hcur : d.currentState = .deploy)
    (hstay : (d.call (.update w)).currentState = d.currentState) :
    RunsOn m d (d.call (.update w)) := by
  have hupdate := call_eq_updatedIn h hstay
  have hnone : d.control.expiry (d.handledIn w).readings = none := by
    have hres := (call_update_currentState h w).symm.trans hstay
    cases hexp : d.control.expiry (d.handledIn w).readings with
    | none => rfl
    | some state =>
      rw [resolve, hexp, Option.getD_some, hcur] at hres
      have hmem := expiry_mem_successors hexp
      rw [hres, control_currentState, hcur] at hmem
      exact absurd hmem (by decide)
  have hsince := since_stay h hstay
  set handled := (d.inWorld w).handling (d.pendingIn w)
  obtain ⟨htimers, hclock⟩ := handledIn_frame w d
  have hup := (handledIn_updateState h w).trans hcur
  exact
    { currentState := hstay
      deployColumn := by
        rw [hupdate]
        exact ((updated_updatedIn h w).column_eq (by simp [hcur]) (by simp [hcur])).trans
          (receive_deployColumn ..)
      events := by
        apply not_isPower_of_filter
        rw [hsince]
        intro e he
        rcases List.mem_append.mp he with he | he
        · exact not_isPower_of_mem_handledEvents he
        · simp only [updateEvents, control_currentState, hcur] at he
          split_ifs at he
          · exact List.mem_singleton.mp he ▸ rfl
          · cases he
      motorRun := by rw [hupdate, updatedIn_timers h (by rw [hcur]; decide)]
      motorStart := by rw [hupdate, updatedIn_timers h (by rw [hcur]; decide)]
      inTime := by
        simp only [expiry, control_currentState, hcur] at hnone
        split_ifs at hnone with hdue hhome hlate
        · -- the start timer has run out, the motor timer has not
          simp only [readings, hup, htimers, hclock, hstill] at hlate
          exact Or.inl (Bool.eq_false_of_not_eq_true hlate)
        · simp only [readings, hup, due, Clock.now, htimers, hclock, hstill] at hdue
          exact Or.inr ⟨hcur, Bool.eq_false_of_not_eq_true hdue⟩ }

theorem column_homing (h : machine.Reachable d) (hcur : d.currentState = .autoHome)
    (hcol : d.deployColumn ≤ 9) :
    (d.updatedIn w).deployColumn =
      if (d.handledIn w).readings.home ∨ (d.handledIn w).readings.late
      then (d.deployColumn + 1) % 256 else d.deployColumn := by
  have henter (c : Control) : c.enterAutoHome.deployColumn = c.deployColumn := by
    unfold Control.enterAutoHome
    split <;> rfl
  have hup : (d.handledIn w).control.updateState = .autoHome :=
    (handledIn_updateState h w).trans hcur
  have hhandled : (d.handledIn w).deployColumn = d.deployColumn := by
    rw [← control_deployColumn, control_handledIn, receive_deployColumn]
    rfl
  rw [← control_deployColumn, updatedIn, control_callUpdateState]
  simp only [Control.update, hup, control_deployColumn, hhandled, if_neg (Nat.not_lt.mpr hcol)]
  split
  · rw [henter]
    rfl
  · exact hhandled

theorem homing_cases (h : machine.Reachable d) (hstill : ∀ n, w.millis n = m)
    (hcur : d.currentState = .autoHome)
    (hstay : (d.call (.update w)).currentState = d.currentState) :
    (EndsWithPowerOn (d.since (d.call (.update w))) (d.call (.update w)) ∧
      (d.call (.update w)).PoweredAt m) ∨ RunsOn m d (d.call (.update w)) := by
  have hupdate := call_eq_updatedIn h hstay
  have hcol : d.deployColumn ≤ 9 := by
    by_contra hover
    have hres := (call_update_currentState h w).symm.trans hstay
    simp only [resolve, expiry, control_currentState, control_deployColumn, hcur,
      if_pos (Nat.lt_of_not_le hover), Option.getD_some] at hres
    cases hres
  have hcolumn := column_homing (w := w) h hcur hcol
  have hsince := since_stay h hstay
  set handled := (d.inWorld w).handling (d.pendingIn w)
  obtain ⟨htimers, hclock⟩ := handledIn_frame w d
  have hup := (handledIn_updateState h w).trans hcur
  have hprev : (d.handledIn w).previousState = .prepareAutoHome := by
    have hcoherent := (settled h).toCoherent.receive (admissible_pendingIn d w)
    rw [← control_previousState, control_handledIn]
    exact (hcoherent.homing ((receive_currentState ..).trans hcur)).1
  have hhandled : (d.handledIn w).deployColumn = d.deployColumn := by
    rw [← control_deployColumn, control_handledIn, receive_deployColumn]
    rfl
  have hmotor := updateAutoHomeState_motorRun hup hprev (hhandled.trans_le hcol)
    fun n => (congrArg (fun c => c.millis n) hclock).trans (hstill n)
  rw [show (d.handledIn w).updateAutoHomeState = d.call (.update w) by
    rw [hupdate, updatedIn, callUpdateState, hup], htimers] at hmotor
  simp only [updateEvents, control_currentState, control_deployColumn, hcur,
    if_neg (Nat.not_lt.mpr hcol)] at hsince
  by_cases hmove : (d.handledIn w).readings.home ∨ (d.handledIn w).readings.late
  · rw [if_pos hmove] at hcolumn hmotor hsince
    refine Or.inl ⟨endsWithPowerOn_of_filter (handledEvents handled .autoHome ++
      [.readHome .autoHome d.deployColumn (d.handledIn w).readings.home, .powerOff .autoHome])
      ?_, hmotor.trans ((intervals h).start .motorRun), fun hdep => ?_⟩
    · rw [hsince, hstay, hcur, hupdate, hcolumn]
      simp
    · rw [hstay, hcur] at hdep
      cases hdep
  · rw [if_neg hmove] at hcolumn hmotor hsince
    refine Or.inr
      { currentState := hstay
        deployColumn := by rw [hupdate, hcolumn]
        events := not_isPower_of_filter fun e he => ?_
        motorRun := hmotor
        motorStart := by rw [hupdate, updatedIn_timers h (by rw [hcur]; decide)]
        inTime := Or.inl ?_ }
    · rw [hsince] at he
      rcases List.mem_append.mp he with he | he
      · exact not_isPower_of_mem_handledEvents he
      · exact List.mem_singleton.mp he ▸ rfl
    · have hlate := (not_or.mp hmove).2
      simp only [readings, hup, due, Clock.now, htimers, hclock, hstill] at hlate
      exact Bool.eq_false_of_not_eq_true hlate

theorem running_cases (h : machine.Reachable d) (hstill : ∀ n, w.millis n = m)
    (hrun : (d.call (.update w)).Running) :
    (EndsWithPowerOn (d.since (d.call (.update w))) (d.call (.update w)) ∧
      (d.call (.update w)).PoweredAt m) ∨ RunsOn m d (d.call (.update w)) := by
  by_cases hstay : (d.call (.update w)).currentState = d.currentState
  · rcases hrun.1 with hdep | hhome
    · exact Or.inr (runsOn_deploy h hstill (hstay.symm.trans hdep) hstay)
    · exact homing_cases h hstill (hstay.symm.trans hhome) hstay
  · exact Or.inl (powered_of_switch h hstill hstay hrun)

end Dixie

namespace Clocked

/-- The motor that is on was last switched on by the call `c`, in time. -/
structure SwitchedOnBy (c : TimedCall) (s : Clocked) : Prop where
  log : Latest (c, .powerOn s.dixie.currentState s.dixie.deployColumn)
    (fun x => x.2.isPower = false) s.log
  powered : s.dixie.PoweredAt (UInt32.ofNat c.finish)
  le_now : c.finish ≤ s.now
  now_lt : s.now < c.finish + Config.motorRunTimer.toNat

def steady : Foundation.TransitionSystem Clocked TimedCall := system.restrict fun _ c => c.Steady

structure InTime (s : Clocked) : Prop where
  now_lt : s.now < 2 ^ 32 - 30000
  switchedOn : s.dixie.Running → ∃ c, s.SwitchedOnBy c

theorem SwitchedOnBy.runsOn {s : Clocked} {c c' : TimedCall} (h : s.SwitchedOnBy c)
    (hs : s.now < 2 ^ 32 - 30000) (hnow : s.now ≤ c'.finish) (hsteady : c'.Steady)
    (hruns : Dixie.RunsOn (UInt32.ofNat c'.finish) s.dixie (s.call c').dixie) :
    (s.call c').SwitchedOnBy c where
  log := by
    rw [hruns.currentState, hruns.deployColumn]
    refine h.log.append fun x hx => ?_
    obtain ⟨e, he, rfl⟩ := List.mem_map.mp hx
    exact hruns.events e he
  powered :=
    { motorRun := hruns.motorRun.trans h.powered.motorRun
      motorStart := fun hdep =>
        hruns.motorStart.trans (h.powered.motorStart (hruns.currentState.symm.trans hdep)) }
  le_now := h.le_now.trans hnow
  now_lt := by
    have hle : c.finish < 2 ^ 32 - 30000 := h.le_now.trans_lt hs
    have hlt := hsteady.2
    have hmotorRun : Config.motorRunTimer.toNat = 13000 := rfl
    have hmotorStart : Config.motorStartTimer.toNat = 3000 := rfl
    rw [call_now]
    rcases hruns.inTime with htime | ⟨hdep, htime⟩
    · rw [h.powered.motorRun, Timer.timedOut_startFor (by omega) (by omega),
        decide_eq_false_iff_not] at htime
      exact Nat.lt_of_not_le htime
    · rw [h.powered.motorStart hdep, Timer.timedOut_startFor (by omega) (by omega),
        decide_eq_false_iff_not] at htime
      omega

theorem inTime_call {s : Clocked} {c : TimedCall} (hreach : Dixie.machine.Reachable s.dixie)
    (h : s.InTime) (hnow : s.now ≤ c.time 0) (hsteady : c.Steady) : (s.call c).InTime := by
  refine ⟨hsteady.2, fun hrun => ?_⟩
  have hmillis := c.millis
  have hlog : (s.call c).log = s.log ++ (s.dixie.since (s.call c).dixie).map (c, ·) := rfl
  have hdixie : (s.call c).dixie = s.dixie.call c.call := rfl
  cases hcall : c.call with
  | forceServiceState w =>
    have hcur := Dixie.call_force_currentState hreach w
    rw [← hcall] at hcur
    rcases hrun.1 with hdep | hhome
    · exact State.noConfusion (hcur.symm.trans hdep)
    · exact State.noConfusion (hcur.symm.trans hhome)
  | update w =>
    have hstill (n : ℕ) : w.millis n = UInt32.ofNat c.finish := by
      rw [← hsteady.1 n, ← hmillis n, hcall]
      rfl
    rw [hcall] at hdixie
    rw [hdixie] at hrun hlog
    rcases Dixie.running_cases hreach hstill hrun with ⟨hends, hpowered⟩ | hruns
    · refine ⟨c, ?_, ?_, le_rfl, ?_⟩
      · rw [hlog, hdixie]
        exact (hends.map (c, ·) fun _ he => he).prepend s.log
      · rw [hdixie]
        exact hpowered
      · exact Nat.lt_add_of_pos_right (by decide)
    · have hbefore : s.dixie.Running := by
        refine ⟨?_, ?_⟩
        · rw [← hruns.currentState]
          exact hrun.1
        · rw [← hruns.deployColumn]
          exact hrun.2
      obtain ⟨c₀, hc₀⟩ := h.switchedOn hbefore
      rw [← hdixie] at hruns
      exact ⟨c₀, hc₀.runsOn h.now_lt (hnow.trans (c.le_finish 0)) hsteady hruns⟩

theorem inTime {s : Clocked} (h : steady.Reachable s) : s.InTime := by
  refine h.invariant (I := InTime) (fun s hs => ?_) fun s c s' hreach hs hstep => ?_
  · obtain ⟨olat, w, rfl⟩ := hs
    obtain ⟨column, hboot⟩ := Dixie.control_begin w olat
    have hcur : (Dixie.boot olat w).currentState = .service := congrArg Control.currentState hboot
    refine ⟨show 0 < 2 ^ 32 - 30000 by decide, fun hrun => ?_⟩
    rcases hrun.1 with hdep | hhome
    · exact State.noConfusion (hcur.symm.trans hdep)
    · exact State.noConfusion (hcur.symm.trans hhome)
  · obtain ⟨hsteady, hnow, rfl⟩ := hstep
    exact inTime_call (reachable_dixie hreach.of_restrict) hs hnow hsteady

end Clocked

/-- A motor that is on has been on for less than the motor timer, in DEPLOY and at homing. -/
theorem bounded_motor_time {s : Clocked} (h : Clocked.steady.Reachable s) {p : ℕ}
    (hp : p ∈ Narco.motorPins) (high : s.dixie.pinIsHigh p = true) :
    ∃ before c state column after, s.log = before ++ (c, .powerOn state column) :: after ∧
      Narco.motorPin column = p ∧ (∀ x ∈ after, x.2.isPower = false) ∧ c.finish ≤ s.now ∧
      s.now - c.finish < Config.motorRunTimer.toNat := by
  have hreach := Clocked.reachable_dixie h.of_restrict
  obtain ⟨hstate, hpos, hle, rfl⟩ := (Dixie.high_iff hreach hp).mp high
  obtain ⟨c, hc⟩ := (Clocked.inTime h).switchedOn ⟨hstate, hpos, hle⟩
  obtain ⟨before, after, hlog, hafter⟩ := hc.log
  exact ⟨before, c, _, _, after, hlog, rfl, hafter, hc.le_now,
    Nat.sub_lt_left_of_lt_add hc.le_now hc.now_lt⟩

theorem TimedCall.steady_turning {t : ℕ} (h : t < 2 ^ 32 - 30000) (turning : Bool)
    (arrived : List UInt8) : (TimedCall.turning t turning arrived).Steady := ⟨fun _ => rfl, h⟩

def vendCalls : List TimedCall :=
  [.turning 0 false (Datagram.request 2 .setState [State.ready.toByte]).toBytes,
    .turning 3000 false [], .turning 3001 false (Datagram.request 3 .fetch []).toBytes,
    .turning 4001 true []]

def Clocked.vending : Clocked :=
  Clocked.run vendCalls ⟨Dixie.boot 0xFFFF (.turning 0 false []), 0, []⟩

theorem bounded_motor_time_vending :
    Clocked.vending.dixie.pinIsHigh 8 = true ∧
      ∃ before c state column after,
        Clocked.vending.log = before ++ (c, .powerOn state column) :: after ∧
          Narco.motorPin column = 8 ∧ (∀ x ∈ after, x.2.isPower = false) ∧
          c.finish ≤ Clocked.vending.now ∧
          Clocked.vending.now - c.finish < Config.motorRunTimer.toNat := by
  have high : Clocked.vending.dixie.pinIsHigh 8 = true := by decide +kernel
  have hcalls : Clocked.Follow (fun _ c => c.Steady) vendCalls
      ⟨Dixie.boot 0xFFFF (.turning 0 false []), 0, []⟩ :=
    ⟨TimedCall.steady_turning (by decide) .., Nat.zero_le _,
      TimedCall.steady_turning (by decide) .., Nat.zero_le _,
      TimedCall.steady_turning (by decide) .., show 3000 ≤ 3001 by decide,
      TimedCall.steady_turning (by decide) .., show 3001 ≤ 4001 by decide, trivial⟩
  have hreach : Clocked.steady.Reachable Clocked.vending :=
    Clocked.reachable_run (.init ⟨_, _, rfl⟩) hcalls
  exact ⟨high, bounded_motor_time hreach (by decide) high⟩

end Alko.Arduino
