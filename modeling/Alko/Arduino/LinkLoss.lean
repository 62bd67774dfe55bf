import Alko.Arduino.Clocked

/-! When READY gives way to READY_WAIT: a PING that has stayed without an answer for the whole ping
timer, and an old flag that looks like one. -/

namespace Alko.Arduino

open Control Foundation

def Event.isPong : Event → Bool
  | .handled _ dgr => dgr.command = Cmd.pong.toByte
  | _ => false

def Event.entersReady : Event → Bool
  | .switched _ new => new = .ready
  | _ => false

def Event.ping : Event := .tx (Network.sendCommand .ping 0)

theorem Timer.elapsed_le {start now : ℕ} {interval : UInt32} (hle : start ≤ now)
    (h : interval ≤ UInt32.ofNat now - UInt32.ofNat start) : start + interval.toNat ≤ now := by
  have hmod := UInt32.le_iff_toNat_le.mp h
  rw [← UInt32.ofNat_sub hle, UInt32.toNat_ofNat'] at hmod
  have hless := Nat.mod_le (now - start) (2 ^ 32)
  omega

namespace Dixie

variable {d : Dixie} {w : World} {e : Event}

theorem quiet_of_isTx (h : e.isTx = true) : e.isPong = false ∧ e.entersReady = false := by
  cases e with
  | tx dgr => exact ⟨rfl, rfl⟩
  | _ => cases h

theorem quiet_of_isPower (h : e.isPower = true) : e.isPong = false ∧ e.entersReady = false := by
  cases e with
  | powerOn state column => exact ⟨rfl, rfl⟩
  | powerOff state => exact ⟨rfl, rfl⟩
  | _ => cases h

theorem quiet_of_mem_updateEvents {r : Readings} {c : Control} (h : e ∈ c.updateEvents r) :
    e.isPong = false ∧ e.entersReady = false := by
  unfold updateEvents at h
  split at h <;> (try split_ifs at h) <;>
    simp only [List.mem_cons, List.not_mem_nil, or_false] at h
  · exact h ▸ ⟨rfl, rfl⟩
  · rcases h with rfl | rfl | rfl <;> exact ⟨rfl, rfl⟩
  · exact h ▸ ⟨rfl, rfl⟩

theorem mem_switchEvents {old new : State} {column : ℕ} (h : e ∈ switchEvents old new column) :
    e = .switched old new ∨ e.isPower = true := by
  rw [switchEvents, List.mem_append, List.mem_cons] at h
  rcases h with h | rfl | h
  · unfold exitEvents at h
    split at h <;> simp only [List.mem_cons, List.not_mem_nil, or_false] at h <;>
      exact Or.inr (h ▸ rfl)
  · exact Or.inl rfl
  · unfold enterEvents at h
    split at h <;> (try split_ifs at h) <;>
      simp only [List.mem_cons, List.not_mem_nil, or_false] at h <;> exact Or.inr (h ▸ rfl)

theorem not_isPong_of_mem_switchEvents {old new : State} {column : ℕ}
    (h : e ∈ switchEvents old new column) : e.isPong = false := by
  rcases mem_switchEvents h with rfl | hpower
  · rfl
  · exact (quiet_of_isPower hpower).1

theorem entersReady_of_mem_switchEvents {old new : State} {column : ℕ}
    (h : e ∈ switchEvents old new column) (hnew : new ≠ .ready) : e.entersReady = false := by
  rcases mem_switchEvents h with rfl | hpower
  · exact decide_eq_false hnew
  · exact (quiet_of_isPower hpower).2

theorem callExitState_gotPong (d : Dixie) : d.callExitState.gotPong = d.gotPong := by
  unfold callExitState
  cases d.exitState <;> rfl

theorem callEnterState_gotPong (d : Dixie) : d.callEnterState.gotPong = d.gotPong := by
  unfold callEnterState
  cases d.enterState with
  | deploy => simp only [enterDeployState]; split <;> rfl
  | autoHome => simp only [enterAutoHomeState]; split <;> rfl
  | _ => rfl

theorem switchState_gotPong (d : Dixie) : d.switchState.gotPong = d.gotPong :=
  (callEnterState_gotPong d.entering).trans (callExitState_gotPong d)

@[simp] theorem timedOut_gotPong (t : TimerId) (d : Dixie) :
    (d.timedOut t).2.gotPong = d.gotPong := by
  obtain ⟨clock, hclock⟩ := timedOut_snd t d
  rw [hclock]

@[simp] theorem isHome_gotPong (column : ℕ) (d : Dixie) :
    (d.isHome column).2.gotPong = d.gotPong := rfl

theorem enterAutoHomeState_gotPong (d : Dixie) : d.enterAutoHomeState.gotPong = d.gotPong := by
  unfold enterAutoHomeState
  split <;> rfl

theorem callUpdateState_gotPong (h : d.updateState ≠ .ready) :
    d.callUpdateState.gotPong = d.gotPong := by
  unfold callUpdateState
  cases hs : d.updateState with
  | service => simp only [updateServiceState]; split <;> simp
  | prepareReady => simp only [updatePrepareReadyState]; split <;> simp
  | ready => exact absurd hs h
  | readyWait => simp only [updateReadyWaitState]; split <;> simp
  | deploy => simp only [updateDeployState]; split_ifs <;> simp
  | deployError => simp only [updateDeployErrorState]; split <;> simp
  | prepareAutoHome => simp only [updatePrepareAutoHomeState]; split <;> simp
  | autoHome =>
    simp only [updateAutoHomeState]
    split_ifs <;> simp [enterAutoHomeState_gotPong]
  | info => simp only [updateInfoState]; split <;> simp

theorem updateReadyState_gotPong (d : Dixie) :
    d.updateReadyState.gotPong = (d.gotPong && !d.due .ping) := by
  have hrefresh : d.updateReadyState.gotPong = d.pinged.gotPong := by
    rw [show d.updateReadyState = d.pinged.updateReadyWaitState from rfl]
    simp only [updateReadyWaitState]
    split <;> simp
  rw [hrefresh, pinged, show (d.timedOut .ping).1 = d.due .ping from rfl, doPingPong,
    timedOut_gotPong]
  cases d.due .ping <;> cases hpong : d.gotPong <;> simp [hpong]

theorem forceServiceState_gotPong (w : World) (d : Dixie) :
    (d.call (.forceServiceState w)).gotPong = d.gotPong := by
  simp only [call, forceServiceState]
  split
  · exact switchState_gotPong _
  · rfl

theorem boot_gotPong (olat : BitVec 16) (w : World) : (boot olat w).gotPong = true :=
  callEnterState_gotPong _

theorem updateReadyWaitState_frame (d : Dixie) :
    d.updateReadyWaitState.trace = d.trace ∧
      d.updateReadyWaitState.timers .ping = d.timers .ping := by
  unfold updateReadyWaitState
  simp only
  split <;> simp

theorem updateReadyState_ping (hdue : d.due .ping = true) (hpong : d.gotPong = true) :
    d.updateReadyState.trace = d.trace ++ [.ping] ∧
      (d.updateReadyState.timers .ping).startTime = d.clock.millis (d.clock.reads + 1) := by
  obtain ⟨htrace, htimer⟩ := updateReadyWaitState_frame d.pinged
  have hpinged : d.pinged = ({ d with clock := d.clock.tick } : Dixie).doPingPong := by
    rw [pinged, if_pos (show (d.timedOut .ping).1 = true from hdue), timedOut_snd_of_due hdue]
  rw [show d.updateReadyState = d.pinged.updateReadyWaitState from rfl, htrace, htimer, hpinged]
  simp [doPingPong, hpong, Clock.now, Event.ping]

theorem updateReadyState_timer (h : (d.due .ping && d.gotPong) = false) :
    d.updateReadyState.timers .ping = d.timers .ping := by
  rw [show d.updateReadyState = d.pinged.updateReadyWaitState from rfl,
    (updateReadyWaitState_frame d.pinged).2, pinged,
    show (d.timedOut .ping).1 = d.due .ping from rfl]
  split
  · rename_i hdue
    rw [hdue, Bool.true_and] at h
    simp [doPingPong, h]
  · rw [timedOut_timers]

theorem due_handledIn (w : World) (d : Dixie) (t : TimerId) :
    (d.handledIn w).due t = (d.timers t).timedOut (w.millis 0) := by
  rw [due, (handledIn_frame w d).1, (handledIn_frame w d).2]
  rfl

theorem call_update_eq (w : World) (d : Dixie) :
    d.call (.update w) = (d.updatedIn w).switchState ∨ d.call (.update w) = d.updatedIn w := by
  have hcall : d.call (.update w) =
      if (d.updatedIn w).currentState ≠ (d.updatedIn w).nextState
      then (d.updatedIn w).switchState else d.updatedIn w := rfl
  rw [hcall]
  split
  · exact Or.inl rfl
  · exact Or.inr rfl

theorem call_gotPong (w : World) (d : Dixie) :
    (d.call (.update w)).gotPong = (d.updatedIn w).gotPong := by
  rcases call_update_eq w d with hcall | hcall
  · rw [hcall, switchState_gotPong]
  · rw [hcall]

theorem handledIn_gotPong (h : (d.handledIn w).gotPong = false) :
    d.gotPong = false ∧ ∀ dgr, d.pendingIn w = some dgr → dgr.command ≠ Cmd.pong.toByte := by
  unfold handledIn at h
  cases hpending : d.pendingIn w with
  | none =>
    rw [hpending] at h
    exact ⟨h, nofun⟩
  | some dgr =>
    rw [hpending] at h
    have hcmd : Cmd.ofByte? dgr.command ≠ some .pong := by
      intro hpong
      simp [afterHandler, datagramHandler, hpong] at h
    have hframe := (datagramHandler_frame dgr ((d.inWorld w).poll w.late)).2.2.1 hcmd
    refine ⟨hframe.symm.trans h, fun dgr' heq hpong => ?_⟩
    obtain rfl := Option.some.inj heq
    exact hcmd (ofByte?_command hpong)

theorem mem_since_update (h : machine.Reachable d) (he : e ∈ d.since (d.call (.update w))) :
    e.isTx = true ∨ e ∈ handledEvents ((d.inWorld w).handling (d.pendingIn w)) d.currentState ∨
      e ∈ d.control.updateEvents (d.handledIn w).readings ∨
      (d.call (.update w)).currentState ≠ d.currentState ∧
        e ∈ switchEvents d.currentState (d.call (.update w)).currentState
          (d.updatedIn w).columnOnEntry := by
  cases htx : e.isTx with
  | true => exact Or.inl rfl
  | false =>
    have hmem := mem_filter_of_mem_since he htx
    rw [since_update h] at hmem
    rcases List.mem_append.mp hmem with hmem | hmem
    · exact Or.inr (Or.inl hmem)
    · rcases List.mem_append.mp hmem with hmem | hmem
      · exact Or.inr (Or.inr (Or.inl hmem))
      · split_ifs at hmem with hstay
        · cases hmem
        · exact Or.inr (Or.inr (Or.inr ⟨hstay, hmem⟩))

theorem not_isPong_of_mem_since (h : machine.Reachable d)
    (hpong : ∀ dgr, d.pendingIn w = some dgr → dgr.command ≠ Cmd.pong.toByte)
    (he : e ∈ d.since (d.call (.update w))) : e.isPong = false := by
  rcases mem_since_update h he with htx | hmem | hmem | ⟨-, hmem⟩
  · exact (quiet_of_isTx htx).1
  · unfold handling at hmem
    cases hpending : d.pendingIn w with
    | none =>
      rw [hpending] at hmem
      cases hmem
    | some dgr =>
      rw [hpending] at hmem
      rcases List.mem_cons.mp hmem with rfl | hmem
      · exact decide_eq_false (hpong dgr hpending)
      · split_ifs at hmem
        · exact List.mem_singleton.mp hmem ▸ rfl
        · cases hmem
  · exact (quiet_of_mem_updateEvents hmem).1
  · exact not_isPong_of_mem_switchEvents hmem

theorem switched_of_mem_since (h : machine.Reachable d) {old new : State}
    (he : .switched old new ∈ d.since (d.call (.update w))) :
    old = d.currentState ∧ new = (d.call (.update w)).currentState ∧ new ≠ old := by
  rcases mem_since_update h he with htx | hmem | hmem | ⟨hmove, hmem⟩
  · cases htx
  · unfold handledEvents at hmem
    split at hmem
    · split_ifs at hmem <;> simp at hmem
    · cases hmem
  · unfold updateEvents at hmem
    split at hmem <;> (try split_ifs at hmem) <;> simp at hmem
  · rcases mem_switchEvents hmem with heq | hpower
    · obtain ⟨rfl, rfl⟩ := Event.switched.inj heq
      exact ⟨rfl, rfl, hmove⟩
    · cases hpower

theorem switched_mem_since (h : machine.Reachable d)
    (hmove : (d.call (.update w)).currentState ≠ d.currentState) :
    .switched d.currentState (d.call (.update w)).currentState ∈
      d.since (d.call (.update w)) := by
  have hmem : Event.switched d.currentState (d.call (.update w)).currentState ∈
      (d.since (d.call (.update w))).filter (fun e => !e.isTx) := by
    rw [since_update h w, if_neg hmove, switchEvents]
    simp
  exact (List.mem_filter.mp hmem).1

theorem filter_handledIn {before : List Event}
    (hbefore : d.trace ++ before = (d.handledIn w).trace) :
    before.filter (fun e => !e.isTx) =
      handledEvents ((d.inWorld w).handling (d.pendingIn w)) d.currentState := by
  have hevents := congrArg Control.events (control_handledIn w d)
  rw [receive_events, control_events, ← hbefore, List.filter_append] at hevents
  exact List.append_cancel_left hevents

theorem mem_behind_ping (h : machine.Reachable d) (hready : d.currentState = .ready)
    {before after : List Event} (hbefore : d.trace ++ before = (d.handledIn w).trace)
    (hsince : d.since (d.call (.update w)) = before ++ .ping :: after) (he : e ∈ after) :
    e.isTx = true ∨ (d.call (.update w)).currentState ≠ .ready ∧
      e ∈ switchEvents .ready (d.call (.update w)).currentState (d.updatedIn w).columnOnEntry := by
  have hfilter := since_update h w
  have hnone : d.control.updateEvents (d.handledIn w).readings = [] := by
    simp only [updateEvents, control_currentState, hready]
  rw [hsince, List.filter_append, filter_handledIn hbefore, hnone, List.nil_append,
    List.append_cancel_left_eq, List.filter_cons_of_neg (by decide), hready] at hfilter
  cases htx : e.isTx with
  | true => exact Or.inl rfl
  | false =>
    have hmem : e ∈ after.filter (fun e => !e.isTx) :=
      List.mem_filter.mpr ⟨he, by rw [htx]; rfl⟩
    rw [hfilter] at hmem
    split_ifs at hmem with hstay
    · cases hmem
    · exact Or.inr ⟨hstay, hmem⟩

theorem mem_since_force (h : machine.Reachable d)
    (he : e ∈ d.since (d.call (.forceServiceState w))) :
    e.isTx = true ∨ ∃ column, e ∈ switchEvents d.currentState .service column := by
  cases htx : e.isTx with
  | true => exact Or.inl rfl
  | false =>
    obtain ⟨column, hle, hforce⟩ := control_forceServiceState (d.inWorld w)
    have hevents := (congrArg Control.events hforce).trans ((settled h).force_events hle)
    have hmem := mem_filter_of_mem_since he htx
    rw [filter_since (c := .forceServiceState w) hevents] at hmem
    split_ifs at hmem
    · cases hmem
    · exact Or.inr ⟨column, hmem⟩

theorem gives_way (h : machine.Reachable d) (hready : d.currentState = .ready)
    (hwait : (d.call (.update w)).currentState = .readyWait) :
    (d.handledIn w).due .ping = true ∧ (d.handledIn w).gotPong = false := by
  have hres := (call_update_currentState h w).symm.trans hwait
  have hdue : (d.handledIn w).readings.due = true := by
    by_contra hnot
    simp only [resolve, expiry, control_currentState, hready, if_neg hnot, Option.getD_none] at hres
    -- no request leads to READY_WAIT
    rcases awaited_cases (admissible_pendingIn d w) with hnext | ⟨hcur, -⟩ | hadmits
    · rw [hres, (settled h).next_eq_current (by simp [hready]), control_currentState,
        hready] at hnext
      cases hnext
    · rw [control_currentState, hready] at hcur
      cases hcur
    · rw [hres, control_currentState, hready] at hadmits
      cases hadmits
  simp only [readings, handledIn_updateState h w, hready, Bool.and_eq_true,
    Bool.not_eq_true'] at hdue
  exact hdue

theorem pings (h : machine.Reachable d) (hready : d.currentState = .ready)
    (hdue : (d.handledIn w).due .ping = true) (hpong : (d.handledIn w).gotPong = true) :
    Latest .ping (fun e => e.isPong = false ∧ e.entersReady = false)
        (d.since (d.call (.update w))) ∧
      ((d.call (.update w)).currentState = .ready →
        ((d.call (.update w)).timers .ping).startTime = w.millis 1) := by
  have hupdated : d.updatedIn w = (d.handledIn w).updateReadyState := by
    rw [updatedIn, callUpdateState, handledIn_updateState h w, hready]
  obtain ⟨htrace, hstart⟩ := updateReadyState_ping hdue hpong
  rw [← hupdated] at htrace hstart
  obtain ⟨before, hbefore⟩ := prefix_handledIn w d
  obtain ⟨after, hafter⟩ : (d.updatedIn w).trace <+: (d.call (.update w)).trace := by
    rcases call_update_eq w d with hcall | hcall
    · exact hcall ▸ prefix_switchState _
    · exact hcall ▸ List.prefix_refl _
  have hsince : d.since (d.call (.update w)) = before ++ .ping :: after := by
    rw [since, ← hafter, htrace, ← hbefore, List.append_assoc, List.append_assoc, List.drop_left]
    rfl
  refine ⟨⟨before, after, hsince, fun e he => ?_⟩, fun hstay => ?_⟩
  · rcases mem_behind_ping h hready hbefore hsince he with htx | ⟨hleft, hmem⟩
    · exact quiet_of_isTx htx
    · exact ⟨not_isPong_of_mem_switchEvents hmem, entersReady_of_mem_switchEvents hmem hleft⟩
  · rw [call_eq_updatedIn h (hstay.trans hready.symm), hstart, (handledIn_frame w d).2]

end Dixie

namespace Clocked

/-- The machine's last PING, sent in the call `p`, has not been answered; while the machine is in
READY ever since, the ping timer runs from then. -/
structure Unanswered (p : TimedCall) (s : Clocked) : Prop where
  log : ∃ before after, s.log = before ++ (p, .ping) :: after ∧
    (∀ x ∈ after, x.2.isPong = false) ∧
    (s.dixie.currentState = .ready → (∀ x ∈ after, x.2.entersReady = false) →
      (s.dixie.timers .ping).startTime = UInt32.ofNat (p.time 1))
  le_now : p.time 1 ≤ s.now

/-- READY is left for READY_WAIT only after a PING in the same visit and the ping timer's time
without a PONG. -/
def LosesLinkLawfully (s : Clocked) : Prop :=
  ∀ before c after, s.log = before ++ (c, .switched .ready .readyWait) :: after →
    ∃ p, Latest (p, .ping) (fun x => x.2.isPong = false ∧ x.2.entersReady = false) before ∧
      p.time 1 + Config.pingTimer.toNat ≤ c.time 0

/-- A PING from before the machine has entered READY has not been answered. -/
def Outstanding (s : Clocked) : Prop :=
  ∃ before p after, s.log = before ++ (p, .ping) :: after ∧
    (∀ x ∈ after, x.2.isPong = false) ∧ ∃ x ∈ after, x.2.entersReady = true

/-- If the call finds READY with the ping timer due and the flag down, and brings no PONG, then no
PING from before is outstanding, and the ping timer's time has passed on the clock, which wraps. -/
def Careful (s : Clocked) (c : TimedCall) : Prop :=
  ∀ w, c.call = .update w → s.dixie.currentState = .ready →
    (s.dixie.timers .ping).timedOut (w.millis 0) = true → s.dixie.gotPong = false →
    (∀ dgr, s.dixie.pendingIn w = some dgr → dgr.command ≠ Cmd.pong.toByte) →
      ¬s.Outstanding ∧ Config.pingTimer ≤ w.millis 0 - (s.dixie.timers .ping).startTime

theorem Unanswered.call {s : Clocked} {p c : TimedCall} (h : s.Unanswered p)
    (hnow : s.now ≤ c.time 0)
    (hpong : ∀ e ∈ s.dixie.since (s.call c).dixie, e.isPong = false)
    (hready : (s.call c).dixie.currentState = .ready →
      (∀ e ∈ s.dixie.since (s.call c).dixie, e.entersReady = false) →
        s.dixie.currentState = .ready ∧
          (s.call c).dixie.timers .ping = s.dixie.timers .ping) :
    (s.call c).Unanswered p where
  log := by
    obtain ⟨before, after, hlog, hafter, htimer⟩ := h.log
    refine ⟨before, after ++ (s.dixie.since (s.call c).dixie).map (c, ·), ?_, ?_, ?_⟩
    · rw [call_log, hlog, List.append_assoc]
      rfl
    · intro x hx
      rcases List.mem_append.mp hx with hx | hx
      · exact hafter x hx
      · obtain ⟨e, he, rfl⟩ := List.mem_map.mp hx
        exact hpong e he
    · intro hcur hquiet
      obtain ⟨hbefore, hsame⟩ := hready hcur fun e he =>
        hquiet (c, e) (List.mem_append_right _ (List.mem_map_of_mem he))
      rw [hsame]
      exact htimer hbefore fun x hx => hquiet x (List.mem_append_left _ hx)
  le_now := h.le_now.trans (hnow.trans (c.le_finish 0))

/-- The flag is down only while a PING is unanswered. -/
def Flagged (s : Clocked) : Prop := s.dixie.gotPong = false → ∃ p, s.Unanswered p

theorem flagged_update {s : Clocked} {c : TimedCall} {w : World}
    (hreach : Dixie.machine.Reachable s.dixie) (h : s.Flagged) (hnow : s.now ≤ c.time 0)
    (hcall : c.call = .update w) : (s.call c).Flagged := by
  intro hdown
  have hdixie : (s.call c).dixie = s.dixie.call (.update w) := by rw [call_dixie, hcall]
  rw [hdixie, Dixie.call_gotPong, Dixie.updatedIn] at hdown
  have hup := Dixie.handledIn_updateState hreach w
  by_cases hping : s.dixie.currentState = .ready ∧ (s.dixie.handledIn w).due .ping = true ∧
      (s.dixie.handledIn w).gotPong = true
  · -- the PING of this call
    obtain ⟨hlatest, hstart⟩ := Dixie.pings hreach hping.1 hping.2.1 hping.2.2
    obtain ⟨before, after, hsince, hafter⟩ := hlatest
    refine ⟨c, ⟨s.log ++ before.map (c, ·), after.map (c, ·), ?_, ?_, ?_⟩, c.le_finish 1⟩
    · rw [call_log, hcall, hsince, List.map_append, List.map_cons, List.append_assoc]
    · intro x hx
      obtain ⟨e, he, rfl⟩ := List.mem_map.mp hx
      exact (hafter e he).1
    · intro hcur _
      rw [hdixie] at hcur ⊢
      rw [hstart hcur, ← c.millis 1, hcall]
      rfl
  · have hhandled : (s.dixie.handledIn w).gotPong = false := by
      by_cases hready : s.dixie.currentState = .ready
      · rw [Dixie.callUpdateState, hup, hready] at hdown
        rw [Dixie.updateReadyState_gotPong] at hdown
        cases hpong : (s.dixie.handledIn w).gotPong with
        | false => rfl
        | true =>
          rw [hpong, Bool.true_and, Bool.not_eq_false'] at hdown
          exact absurd ⟨hready, hdown, hpong⟩ hping
      · rwa [Dixie.callUpdateState_gotPong (by rw [hup]; exact hready)] at hdown
    obtain ⟨hbefore, hpong⟩ := Dixie.handledIn_gotPong hhandled
    obtain ⟨p, hp⟩ := h hbefore
    refine ⟨p, hp.call hnow ?_ ?_⟩
    · rw [hdixie]
      exact fun e he => Dixie.not_isPong_of_mem_since hreach hpong he
    · rw [hdixie]
      intro hcur hquiet
      have hstay : (s.dixie.call (.update w)).currentState = s.dixie.currentState := by
        by_contra hmove
        have hquiet := hquiet _ (Dixie.switched_mem_since hreach hmove)
        exact absurd hcur (of_decide_eq_false hquiet)
      have hready := hstay.symm.trans hcur
      refine ⟨hready, ?_⟩
      rw [Dixie.call_eq_updatedIn hreach hstay, Dixie.updatedIn, Dixie.callUpdateState, hup, hready,
        Dixie.updateReadyState_timer (by rw [hhandled, Bool.and_false]),
        (Dixie.handledIn_frame w s.dixie).1]

theorem flagged_force {s : Clocked} {c : TimedCall} {w : World}
    (hreach : Dixie.machine.Reachable s.dixie) (h : s.Flagged) (hnow : s.now ≤ c.time 0)
    (hcall : c.call = .forceServiceState w) : (s.call c).Flagged := by
  intro hdown
  have hdixie : (s.call c).dixie = s.dixie.call (.forceServiceState w) := by
    rw [call_dixie, hcall]
  rw [hdixie, Dixie.forceServiceState_gotPong] at hdown
  obtain ⟨p, hp⟩ := h hdown
  refine ⟨p, hp.call hnow ?_ ?_⟩
  · rw [hdixie]
    intro e he
    rcases Dixie.mem_since_force hreach he with htx | ⟨column, hmem⟩
    · exact (Dixie.quiet_of_isTx htx).1
    · exact Dixie.not_isPong_of_mem_switchEvents hmem
  · rw [hdixie]
    intro hcur
    rw [Dixie.call_force_currentState hreach w] at hcur
    cases hcur

theorem flagged {s : Clocked} (h : system.Reachable s) : s.Flagged := by
  refine h.invariant (I := Flagged) (fun s hs => ?_) fun s c s' hreach hs hstep => ?_
  · obtain ⟨olat, w, rfl⟩ := hs
    intro hdown
    exact absurd (Dixie.boot_gotPong olat w) (Bool.eq_false_iff.mp hdown)
  · obtain ⟨hnow, rfl⟩ := hstep
    cases hcall : c.call with
    | update w => exact flagged_update (reachable_dixie hreach) hs hnow hcall
    | forceServiceState w => exact flagged_force (reachable_dixie hreach) hs hnow hcall

theorem lawful_pass {s : Clocked} {c : TimedCall} {w : World} (hreach : system.Reachable s)
    (hnow : s.now ≤ c.time 0) (hcareful : s.Careful c) (hcall : c.call = .update w)
    (hready : s.dixie.currentState = .ready)
    (hwait : (s.dixie.call (.update w)).currentState = .readyWait) :
    ∃ p, Latest (p, .ping) (fun x => x.2.isPong = false ∧ x.2.entersReady = false) s.log ∧
      p.time 1 + Config.pingTimer.toNat ≤ c.time 0 := by
  have hmachine := reachable_dixie hreach
  obtain ⟨hdue, hdown⟩ := Dixie.gives_way hmachine hready hwait
  obtain ⟨hbefore, hpong⟩ := Dixie.handledIn_gotPong hdown
  rw [Dixie.due_handledIn] at hdue
  obtain ⟨hfresh, hpassed⟩ := hcareful w hcall hready hdue hbefore hpong
  obtain ⟨p, hp⟩ := flagged hreach hbefore
  obtain ⟨before, after, hlog, hafter, hstart⟩ := hp.log
  have hvisit (x) (hx : x ∈ after) : x.2.entersReady = false := by
    by_contra henters
    exact hfresh ⟨before, p, after, hlog, hafter, x, hx, Bool.eq_true_of_not_eq_false henters⟩
  refine ⟨p, ⟨before, after, hlog, fun x hx => ⟨hafter x hx, hvisit x hx⟩⟩, ?_⟩
  have hmillis : w.millis 0 = UInt32.ofNat (c.time 0) := by
    rw [← c.millis 0, hcall]
    rfl
  rw [hmillis, hstart hready hvisit] at hpassed
  exact Timer.elapsed_le (hp.le_now.trans hnow) hpassed

theorem lawful_call {s : Clocked} {c : TimedCall} (hreach : system.Reachable s)
    (h : s.LosesLinkLawfully) (hnow : s.now ≤ c.time 0) (hcareful : s.Careful c) :
    (s.call c).LosesLinkLawfully := by
  intro before c' after hlog
  rcases append_eq_split hlog with ⟨later, hold⟩ | ⟨earlier, later, hnew, rfl⟩
  · exact h before c' later hold
  · -- the call that has just been made
    obtain ⟨events, rest, hsince, rfl, hrest⟩ := List.map_eq_append_iff.mp hnew
    obtain ⟨e, events', rfl, he, -⟩ := List.map_eq_cons_iff.mp hrest
    obtain ⟨rfl, rfl⟩ := Prod.mk.inj he
    have hmachine := reachable_dixie hreach
    have hmem : Event.switched .ready .readyWait ∈ s.dixie.since (s.dixie.call c.call) := by
      rw [hsince]
      exact List.mem_append_right _ List.mem_cons_self
    cases hcall : c.call with
    | forceServiceState w =>
      rw [hcall] at hmem
      rcases Dixie.mem_since_force hmachine hmem with htx | ⟨column, hmem⟩
      · cases htx
      · rcases Dixie.mem_switchEvents hmem with heq | hpower
        · cases (Event.switched.inj heq).2
        · cases hpower
    | update w =>
      rw [hcall] at hmem hsince
      obtain ⟨hready, hwait, -⟩ := Dixie.switched_of_mem_since hmachine hmem
      obtain ⟨p, hlatest, htime⟩ :=
        lawful_pass hreach hnow hcareful hcall hready.symm hwait.symm
      refine ⟨p, hlatest.append fun x hx => ?_, htime⟩
      obtain ⟨e, he, rfl⟩ := List.mem_map.mp hx
      have he : e ∈ s.dixie.since (s.dixie.call (.update w)) := by
        rw [hsince]
        exact List.mem_append_left _ he
      have hdown := (Dixie.gives_way hmachine hready.symm hwait.symm).2
      refine ⟨Dixie.not_isPong_of_mem_since hmachine (Dixie.handledIn_gotPong hdown).2 he, ?_⟩
      cases e with
      | switched old new =>
        obtain ⟨-, hnew, -⟩ := Dixie.switched_of_mem_since hmachine he
        rw [hnew, ← hwait]
        rfl
      | _ => rfl

end Clocked

/-- In every run whose calls are all careful the machine loses its link lawfully. -/
theorem link_loss {s : Clocked}
    (h : (Clocked.system.restrict Clocked.Careful).Reachable s) : s.LosesLinkLawfully := by
  refine h.invariant (I := Clocked.LosesLinkLawfully) (fun s hs => ?_)
    fun s c s' hreach hs hstep => ?_
  · obtain ⟨olat, w, rfl⟩ := hs
    intro before c after hlog
    exact absurd hlog.symm (by simp)
  · obtain ⟨hcareful, hnow, rfl⟩ := hstep
    exact Clocked.lawful_call hreach.of_restrict hs hnow hcareful

def pingCalls : List TimedCall :=
  [.turning 0 false (Datagram.request 2 .setState [State.ready.toByte]).toBytes,
    .turning 3000 false [], .turning 33000 false []]

def Clocked.started : Clocked := ⟨Dixie.boot 0xFFFF (.turning 0 false []), 0, []⟩

def Clocked.silent : Clocked := Clocked.started.run (pingCalls ++ [.turning 63000 false []])

theorem link_loss_silent :
    Event.switched .ready .readyWait ∈ Clocked.silent.log.map Prod.snd ∧
      Clocked.silent.LosesLinkLawfully := by
  refine ⟨by decide +kernel, link_loss (Clocked.reachable_run (.init ⟨_, _, rfl⟩) ?_)⟩
  refine ⟨fun w _ hready => ?_, Nat.zero_le _, fun w _ hready => ?_, Nat.zero_le _,
    fun w _ _ _ hdown => ?_, ?_, fun w hw _ _ _ _ => ⟨?_, ?_⟩, ?_, trivial⟩
  · exact absurd hready (by decide +kernel)
  · exact absurd hready (by decide +kernel)
  · exact absurd hdown (by decide +kernel)
  · exact show 3000 ≤ 33000 by decide
  · -- READY was entered before the PING
    rintro ⟨before, p, after, hlog, -, x, hx, henters⟩
    have horder : ((Clocked.started.run pingCalls).log.map Prod.snd).Pairwise
        fun e e' => e = .ping → e'.entersReady = false := by decide +kernel
    rw [show (Clocked.started.run pingCalls).log = before ++ (p, .ping) :: after from hlog,
      List.map_append, List.map_cons] at horder
    have hbehind := (List.pairwise_cons.mp (List.pairwise_append.mp horder).2.1).1 x.2
      (List.mem_map_of_mem hx) rfl
    exact Bool.false_ne_true (hbehind.symm.trans henters)
  · obtain rfl := Call.update.inj hw
    decide +kernel
  · exact show 33000 ≤ 63000 by decide

def infoCalls : List TimedCall :=
  [.turning 33001 false (Datagram.request 3 .showInfo []).toBytes, .turning 37001 false []]

def Clocked.detoured : Clocked := Clocked.started.run (pingCalls ++ infoCalls)

def Clocked.strayed : Clocked := Clocked.detoured.call (.turning 67001 false [])

theorem Clocked.reachable_strayed : Clocked.system.Reachable Clocked.strayed := by
  have hdetoured : Clocked.system.Reachable Clocked.detoured := by
    apply TransitionSystem.Reachable.of_restrict (P := fun _ _ => True)
    refine Clocked.reachable_run (.init ⟨_, _, rfl⟩) ⟨trivial, Nat.zero_le _, trivial,
      Nat.zero_le _, trivial, ?_, trivial, ?_, trivial, ?_, trivial⟩
    · exact show 3000 ≤ 33000 by decide
    · exact show 33000 ≤ 33001 by decide
    · exact show 33001 ≤ 37001 by decide
  have hnow : Clocked.detoured.now ≤ (TimedCall.turning 67001 false []).time 0 :=
    show 37001 ≤ 67001 by decide
  exact hdetoured.step ⟨hnow, rfl⟩

theorem link_lost_early :
    Clocked.system.Reachable Clocked.strayed ∧ ¬Clocked.strayed.LosesLinkLawfully := by
  refine ⟨Clocked.reachable_strayed, fun h => ?_⟩
  have hsince : Clocked.detoured.dixie.since (Clocked.detoured.dixie.call
      (TimedCall.turning 67001 false []).call) = [.switched .ready .readyWait] := by
    decide +kernel
  have hlog : Clocked.strayed.log =
      Clocked.detoured.log ++ [(.turning 67001 false [], .switched .ready .readyWait)] := by
    rw [Clocked.strayed, Clocked.call_log, hsince]
    rfl
  obtain ⟨p, hlatest, -⟩ := h _ _ [] hlog
  have hevents : Latest Event.ping (fun e => e.isPong = false ∧ e.entersReady = false)
      (Clocked.detoured.log.map Prod.snd) := hlatest.map Prod.snd fun _ hx => hx
  exact absurd hevents (by decide +kernel)

end Alko.Arduino
