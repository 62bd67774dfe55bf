import Alko.Arduino.MotorTime
import Alko.Arduino.Operations

/-! Auto-home: one update a pass, and the loop over the columns with its end test in the update
function and its next turn in the enter function. -/

namespace Alko.Arduino

open Control Foundation

def Event.motor? : Event → Option ℕ
  | .powerOn _ column => if 1 ≤ column ∧ column ≤ 9 then some column else none
  | _ => none

def Event.isPowerOn : Event → Bool
  | .powerOn _ _ => true
  | _ => false

def Datagram.isHoming (dgr : Datagram) : Bool := dgr.command = Cmd.homing.toByte

def homings (events : List Event) : List (List UInt8) :=
  ((events.filterMap Event.frame?).filter Datagram.isHoming).map Datagram.data

theorem homings_append (events events' : List Event) :
    homings (events ++ events') = homings events ++ homings events' := by
  simp [homings]

theorem Narco.isJammed_setJammed (n : Narco) {column : ℕ} (h : 1 ≤ column) (h' : column ≤ 9) :
    (n.setJammed column true).isJammed column = true := by
  have hrange : ¬((column : ℤ) < 1 ∨ 9 < (column : ℤ)) := by omega
  rw [isJammed, if_neg hrange, setJammed, if_neg hrange, BitVec.getLsbD_ushiftRight,
    getLsbD_writeBit _ _ _ _ (by omega), if_pos (Nat.add_zero _)]

namespace Dixie

variable {d : Dixie} {w : World} {dgr : Datagram}

def homingsSent (d : Dixie) : List Datagram := d.sent.filter Datagram.isHoming

theorem homings_trace (d : Dixie) : homings d.trace = d.homingsSent.map Datagram.data := rfl

theorem homingsSent_sendDatagram (h : dgr.isHoming = false) (d : Dixie) :
    (d.sendDatagram dgr).homingsSent = d.homingsSent := by
  rw [homingsSent, sent_sendDatagram, List.filter_append, List.filter_cons_of_neg, List.filter_nil,
    List.append_nil]
  · rfl
  · rw [show dgr.updateChecksum.isHoming = dgr.isHoming from rfl, h]
    exact Bool.false_ne_true

theorem homingsSent_emitCurrentState (id : UInt16) (d : Dixie) :
    (d.emitCurrentState id).homingsSent = d.homingsSent := homingsSent_sendDatagram rfl d

theorem homingsSent_datagramHandler (dgr : Datagram) (d : Dixie) :
    (d.datagramHandler dgr).homingsSent = d.homingsSent := by
  have hreceived : d.homingsSent = (d.received dgr).homingsSent := by
    rw [homingsSent, homingsSent, sent_received]
  rw [hreceived]
  unfold datagramHandler
  generalize d.received dgr = d
  cases hcmd : Cmd.ofByte? dgr.command with
  | none => exact homingsSent_sendDatagram rfl d
  | some cmd =>
    have hbyte := Cmd.toByte_of_ofByte? hcmd
    cases cmd with
    | ping =>
      apply homingsSent_sendDatagram
      split_ifs <;> rfl
    | setState =>
      simp only [handleSetState]
      split
      · split_ifs
        · exact homingsSent_emitCurrentState _ d
        · split
          · exact homingsSent_sendDatagram rfl d
          · exact homingsSent_emitCurrentState _ d
      · exact homingsSent_emitCurrentState _ d
    | fetch =>
      have hrequest : dgr.isHoming = false := by
        rw [Datagram.isHoming, ← hbyte]
        rfl
      simp only [handleFetch]
      split_ifs
      · exact homingsSent_sendDatagram hrequest d
      · exact congrArg (List.filter Datagram.isHoming) (sent_emit _ _ rfl)
      · exact homingsSent_sendDatagram rfl _
    | homeAbort =>
      simp only
      split
      · exact homingsSent_sendDatagram rfl d
      · exact homingsSent_emitCurrentState _ d
    | homeBegin =>
      simp only
      split
      · exact homingsSent_emitCurrentState _ d
      · exact homingsSent_sendDatagram rfl d
    | checkAvail =>
      apply homingsSent_sendDatagram
      split_ifs <;> rfl
    | showInfo =>
      simp only
      split
      · refine homingsSent_sendDatagram ?_ _
        rw [Datagram.isHoming, ← hbyte]
        rfl
      · exact homingsSent_sendDatagram rfl d
    | lcdRgb =>
      simp only
      split <;> rfl
    | getState => exact homingsSent_emitCurrentState _ d
    | setConfig | pong | setText0 | setText1 | setText2 | setText3 | clrText | lcdUpdate
      | lcdRedCycle => rfl
    | _ => exact homingsSent_sendDatagram rfl d

theorem homingsSent_handledIn (w : World) (d : Dixie) :
    (d.handledIn w).homingsSent = d.homingsSent := by
  have hpoll : ((d.inWorld w).poll w.late).homingsSent = d.homingsSent := by
    have hsent : ((d.inWorld w).poll w.late).sent =
        d.sent ++ ((d.inWorld w).network.datagramIsPending w.late).sent := by
      simp [sent, poll, Event.frame?, List.filterMap_map, Function.comp_def]
    have hquiet : ((d.inWorld w).network.datagramIsPending w.late).sent.filter
        Datagram.isHoming = [] := by
      rw [Network.datagramIsPending_eq]
      unfold Network.accept
      split
      · rfl
      · split <;> rfl
    rw [homingsSent, hsent, List.filter_append, hquiet, List.append_nil]
    rfl
  unfold handledIn
  cases d.pendingIn w with
  | none => exact hpoll
  | some dgr => exact (homingsSent_datagramHandler dgr _).trans hpoll

/-- A pass of AUTO_HOME in which no datagram changes the state. -/
def HomingPass (d : Dixie) (w : World) : Prop :=
  d.currentState = .autoHome ∧ ∀ dgr ∈ d.pendingIn w, (d.inWorld w).accepted dgr = none

instance (d : Dixie) (w : World) : Decidable (d.HomingPass w) :=
  inferInstanceAs (Decidable (_ ∧ ∀ dgr ∈ d.pendingIn w, (d.inWorld w).accepted dgr = none))

def columnDone (w : World) (d : Dixie) : Bool :=
  (d.handledIn w).readings.home || (d.handledIn w).readings.late

theorem handledIn_deployColumn (w : World) (d : Dixie) :
    (d.handledIn w).deployColumn = d.deployColumn := by
  rw [← control_deployColumn, control_handledIn, receive_deployColumn]
  rfl

theorem HomingPass.call_currentState (hpass : HomingPass d w) (h : machine.Reachable d) :
    (d.call (.update w)).currentState = if 9 < d.deployColumn then .service else .autoHome := by
  have hcur : d.control.currentState = .autoHome := hpass.1
  have hnext : d.control.nextState = .autoHome :=
    ((settled h).next_eq_current (by simp [hpass.1])).trans hcur
  have hawaited : d.control.awaited ((d.inWorld w).handling (d.pendingIn w)) = .autoHome := by
    cases hpending : d.pendingIn w with
    | none => exact hnext
    | some dgr =>
      rw [handling, Option.map_some, hpass.2 dgr hpending, awaited, receive, handle_nextState,
        Option.getD_none, hcur, hnext]
      rfl
  rw [call_update_currentState h w, resolve, hawaited]
  simp only [expiry, hcur, control_deployColumn]
  split <;> rfl

theorem filter_isPower_since (h : machine.Reachable d) (w : World) :
    (d.since (d.call (.update w))).filter Event.isPower =
      (d.control.updateEvents (d.handledIn w).readings ++
        if (d.call (.update w)).currentState = d.currentState then []
        else switchEvents d.currentState (d.call (.update w)).currentState
          (d.updatedIn w).columnOnEntry).filter Event.isPower := by
  have hpower : (fun e : Event => e.isPower && !e.isTx) = Event.isPower := by
    funext e
    cases e <;> simp [Event.isPower, Event.isTx]
  have hhandled : (handledEvents ((d.inWorld w).handling (d.pendingIn w)) d.currentState).filter
      Event.isPower = [] := by
    rw [List.filter_eq_nil_iff]
    intro e he
    rw [not_isPower_of_mem_handledEvents he]
    exact Bool.false_ne_true
  have hsince := congrArg (List.filter Event.isPower) (since_update h w)
  rwa [List.filter_filter, hpower, List.filter_append, hhandled, List.nil_append] at hsince

theorem HomingPass.powers (hpass : HomingPass d w) (h : machine.Reachable d) :
    (d.since (d.call (.update w))).filter Event.isPower =
      if 9 < d.deployColumn then [.powerOff .autoHome, .powerOff .service]
      else if d.columnDone w then
        [.powerOff .autoHome, .powerOn .autoHome ((d.deployColumn + 1) % 256)]
      else [] := by
  rw [filter_isPower_since h, hpass.call_currentState h, hpass.1, updateEvents, columnDone]
  simp only [control_currentState, hpass.1, control_deployColumn, Bool.or_eq_true]
  by_cases hover : 9 < d.deployColumn
  · simp only [if_pos hover]
    rfl
  · simp only [if_neg hover, if_true, List.append_nil]
    split <;> rfl

theorem homings_since (w : World) (d : Dixie) :
    homings (d.since (d.call (.update w))) =
      ((d.handledIn w).laterFrames.filter Datagram.isHoming).map Datagram.data := by
  have hsent : (d.call (.update w)).homingsSent =
      d.homingsSent ++ (d.handledIn w).laterFrames.filter Datagram.isHoming := by
    rw [homingsSent, sent_call, List.filter_append]
    exact congrArg (· ++ _) (homingsSent_handledIn w d)
  have htrace : homings (d.call (.update w)).trace =
      homings d.trace ++ homings (d.since (d.call (.update w))) := by
    rw [← homings_append, ← trace_call]
  rw [homings_trace, homings_trace, hsent, List.map_append] at htrace
  exact (List.append_cancel_left htrace).symm

theorem homingFrames_of_previousState (column : ℕ) (h : d.previousState = .prepareAutoHome) :
    ((d.homingFrames column).filter Datagram.isHoming).map Datagram.data =
      [[UInt8.ofNat column]] := by
  rw [homingFrames, if_neg fun hrefused => hrefused.1 h]
  rfl

theorem laterFrames_stay (h : machine.Reachable d)
    (hstay : (d.call (.update w)).currentState = d.currentState) :
    (d.handledIn w).laterFrames = (d.handledIn w).updateFrames := by
  rw [laterFrames_eq h, if_pos hstay, List.append_nil]

theorem laterFrames_move (h : machine.Reachable d)
    (hmove : (d.call (.update w)).currentState ≠ d.currentState) :
    (d.handledIn w).laterFrames =
      (d.handledIn w).updateFrames ++ (d.updatedIn w).entering.enterFrames := by
  rw [laterFrames_eq h, if_neg hmove]

theorem HomingPass.homings (hpass : HomingPass d w) (h : machine.Reachable d) :
    homings (d.since (d.call (.update w))) =
      if 9 < d.deployColumn then []
      else if d.columnDone w then [[UInt8.ofNat ((d.deployColumn + 1) % 256)]]
      else [] := by
  have hup : (d.handledIn w).updateState = .autoHome := (handledIn_updateState h w).trans hpass.1
  have hnext := hpass.call_currentState h
  have hupdate : (d.handledIn w).updateFrames =
      if 9 < d.deployColumn then []
      else if d.columnDone w then (d.handledIn w).homingFrames ((d.deployColumn + 1) % 256)
      else [] := by
    simp only [updateFrames, hup, handledIn_deployColumn, columnDone, Bool.or_eq_true]
  rw [homings_since]
  by_cases hover : 9 < d.deployColumn
  · rw [if_pos hover] at hnext hupdate
    have hmove : (d.call (.update w)).currentState ≠ d.currentState := by
      rw [hnext, hpass.1]
      decide
    rw [laterFrames_move h hmove, hupdate, enterFrames, entering_enterState h w, hnext, if_pos hover]
    rfl
  · rw [if_neg hover] at hnext hupdate
    rw [laterFrames_stay h (hnext.trans hpass.1.symm), hupdate, if_neg hover]
    split
    · apply homingFrames_of_previousState
      have hcoherent := (settled h).toCoherent.receive (admissible_pendingIn d w)
      rw [← control_previousState, control_handledIn]
      exact (hcoherent.homing ((receive_currentState ..).trans hpass.1)).1
    · rfl

theorem HomingPass.call_deployColumn (hpass : HomingPass d w) (h : machine.Reachable d)
    (hcol : d.deployColumn ≤ 9) :
    (d.call (.update w)).deployColumn =
      if d.columnDone w then d.deployColumn + 1 else d.deployColumn := by
  have hnext := hpass.call_currentState h
  rw [if_neg (Nat.not_lt.mpr hcol)] at hnext
  rw [call_eq_updatedIn h (hnext.trans hpass.1.symm), column_homing h hpass.1 hcol,
    Nat.mod_eq_of_lt (show d.deployColumn + 1 < 256 by omega)]
  simp only [columnDone, Bool.or_eq_true]

/-- A motor goes off only as its column reads home, or as its timer has run out; then the column
is marked as jammed. -/
def Released (d : Dixie) (w : World) : Prop :=
  ∀ column, 1 ≤ column → column ≤ 9 → d.pinIsHigh (Narco.motorPin column) = true →
    (d.call (.update w)).pinIsHigh (Narco.motorPin column) = false →
      .readHome .autoHome column true ∈ d.since (d.call (.update w)) ∨
        ((d.timers .motorRun).timedOut (w.millis 0) = true ∧
          (d.call (.update w)).narco.isJammed column = true)

theorem isJammed_enterAutoHomeState (hprev : d.previousState = .prepareAutoHome) (column : ℤ) :
    d.enterAutoHomeState.narco.isJammed column = d.narco.isJammed column := by
  have hnarco : d.enterAutoHomeState.narco.narco = d.narco.narco := by
    rw [enterAutoHomeState, if_neg fun hrefused => hrefused.1 hprev]
    exact (Narco.powerOn_frame ..).2
  rw [Narco.isJammed, Narco.isJammed, hnarco]

theorem updateAutoHomeState_jammed (hup : d.updateState = .autoHome)
    (hprev : d.previousState = .prepareAutoHome) (hpos : 1 ≤ d.deployColumn)
    (hcol : d.deployColumn ≤ 9) (hhome : d.readings.home = false) (hlate : d.readings.late = true) :
    d.updateAutoHomeState.narco.isJammed d.deployColumn = true := by
  have hnot : ¬(d.isHome d.deployColumn).1 = true := Bool.eq_false_iff.mp hhome
  have hdue : ((d.isHome d.deployColumn).2.timedOut .motorRun).1 = true := by
    simp only [readings, hup] at hlate
    exact hlate
  obtain ⟨clock, hclock⟩ := timedOut_snd .motorRun (d.isHome d.deployColumn).2
  simp only [updateAutoHomeState, if_neg (Nat.not_lt.mpr hcol), if_neg hnot, if_pos hdue, hclock]
  refine (isJammed_enterAutoHomeState ?_ _).trans (Narco.isJammed_setJammed _ hpos hcol)
  exact hprev

theorem motorPin_inj {column column' : ℕ} (h : 1 ≤ column) (h' : 1 ≤ column') (hle : column ≤ 9)
    (hle' : column' ≤ 9) (hpin : Narco.motorPin column = Narco.motorPin column') :
    column = column' := by
  unfold Narco.motorPin at hpin
  split_ifs at hpin <;> omega

theorem motorPin_mem {column : ℕ} (h : 1 ≤ column) (hle : column ≤ 9) :
    Narco.motorPin column ∈ Narco.motorPins := by
  interval_cases column <;> decide

theorem HomingPass.released (hpass : HomingPass d w) (h : machine.Reachable d) : d.Released w := by
  intro column hpos hle hon hoff
  have hmem := motorPin_mem hpos hle
  obtain ⟨-, hpos', hle', hpin⟩ := (high_iff h hmem).mp hon
  obtain rfl := motorPin_inj hpos hpos' hle hle' hpin
  have hcur := hpass.call_currentState h
  rw [if_neg (Nat.not_lt.mpr hle)] at hcur
  have hdone : d.columnDone w = true := by
    by_contra hnot
    have hsame := hpass.call_deployColumn h hle
    rw [if_neg hnot] at hsame
    have hstill := (high_iff (h.step (k := Call.update w) rfl) hmem).mpr
      ⟨Or.inr hcur, hsame ▸ hpos, hsame ▸ hle, hsame ▸ rfl⟩
    rw [hoff] at hstill
    cases hstill
  have hup : (d.handledIn w).updateState = .autoHome := (handledIn_updateState h w).trans hpass.1
  obtain ⟨htimers, hclock⟩ := handledIn_frame w d
  cases hhome : (d.handledIn w).readings.home with
  | true =>
    refine Or.inl (List.mem_of_mem_filter (p := fun e => !e.isTx) ?_)
    rw [since_update h w, updateEvents]
    simp [hpass.1, hhome, Nat.not_lt.mpr hle]
  | false =>
    have hlate : (d.handledIn w).readings.late = true := by
      rw [columnDone, hhome, Bool.false_or] at hdone
      exact hdone
    refine Or.inr ⟨?_, ?_⟩
    · simpa only [readings, hup, due, Clock.now, htimers, hclock] using hlate
    · have hcoherent := (settled h).toCoherent.receive (admissible_pendingIn d w)
      have hprev : (d.handledIn w).previousState = .prepareAutoHome := by
        rw [← control_previousState, control_handledIn]
        exact (hcoherent.homing ((receive_currentState ..).trans hpass.1)).1
      have hupdate : d.call (.update w) = (d.handledIn w).updateAutoHomeState := by
        rw [call_eq_updatedIn h (hcur.trans hpass.1.symm), updatedIn, callUpdateState, hup]
      have hjam := updateAutoHomeState_jammed (d := d.handledIn w) hup hprev
      simp only [handledIn_deployColumn] at hjam
      rw [hupdate]
      exact hjam hpos hle hhome hlate

def updates (ws : List World) (d : Dixie) : Dixie := ws.foldl (fun d w => d.call (.update w)) d

theorem prefix_updates (ws : List World) (d : Dixie) : d.trace <+: (d.updates ws).trace := by
  induction ws generalizing d with
  | nil => exact List.prefix_refl _
  | cons w ws ih => exact (prefix_call (.update w) d).trans (ih _)

theorem since_trans {d' d'' : Dixie} (h : d.trace <+: d'.trace) (h' : d'.trace <+: d''.trace) :
    d.since d'' = d.since d' ++ d'.since d'' := by
  obtain ⟨events, htrace⟩ := h
  obtain ⟨events', htrace'⟩ := h'
  simp only [since, ← htrace', ← htrace, List.append_assoc, List.drop_left]
  rw [← List.append_assoc, List.drop_left]

def Homes (passes : List World) (d : Dixie) : Prop :=
  AllSteps (fun d w => d.call (.update w)) HomingPass passes d ∧
    (d.updates passes).currentState = .service

theorem homes_events {passes : List World} (h : machine.Reachable d)
    (hcur : d.currentState = .autoHome)
    (hhomes : d.Homes passes) :
    (d.since (d.updates passes)).filter Event.isPower =
      (List.range' (d.deployColumn + 1) (10 - d.deployColumn)).flatMap
        (fun column => [.powerOff .autoHome, .powerOn .autoHome column]) ++
        [.powerOff .autoHome, .powerOff .service] ∧
      homings (d.since (d.updates passes)) =
        (List.range' (d.deployColumn + 1) (10 - d.deployColumn)).map fun column =>
          [UInt8.ofNat column] := by
  induction passes generalizing d with
  | nil => exact absurd (hcur.symm.trans hhomes.2) (by decide)
  | cons w passes ih =>
    obtain ⟨⟨hpass, hrest⟩, hends⟩ := hhomes
    have hnext := hpass.call_currentState h
    have hpowers := hpass.powers h
    have hhomings := hpass.homings h
    have hle : d.deployColumn ≤ 10 := ((settled h).homing hcur).2.2
    have hreach : machine.Reachable (d.call (.update w)) := h.step (k := Call.update w) rfl
    have hsince : d.since (d.updates (w :: passes)) =
        d.since (d.call (.update w)) ++ (d.call (.update w)).since (d.updates (w :: passes)) :=
      since_trans (prefix_call _ d) (prefix_updates passes _)
    rw [hsince, List.filter_append, homings_append, hpowers, hhomings]
    by_cases hover : 9 < d.deployColumn
    · -- the column past the last: this pass leaves
      rw [if_pos hover] at hnext
      cases passes with
      | nil =>
        have hten : d.deployColumn = 10 := by omega
        have hnil : (d.call (.update w)).since (d.updates [w]) = [] := List.drop_length
        rw [if_pos hover, if_pos hover, hnil, hten]
        exact ⟨rfl, rfl⟩
      | cons w' passes => exact absurd (hnext.symm.trans hrest.1.1) (by decide)
    · rw [if_neg hover] at hnext
      have hcolumn := hpass.call_deployColumn h (Nat.le_of_not_lt hover)
      obtain ⟨ihpowers, ihhomings⟩ := ih hreach hnext ⟨hrest, hends⟩
      rw [if_neg hover, if_neg hover]
      rw [show (d.call (.update w)).updates passes = d.updates (w :: passes) from rfl]
        at ihpowers ihhomings
      rw [ihpowers, ihhomings, hcolumn]
      by_cases hdone : d.columnDone w = true
      · have hcount : 10 - d.deployColumn = (10 - (d.deployColumn + 1)) + 1 := by omega
        have hmod : (d.deployColumn + 1) % 256 = d.deployColumn + 1 := by omega
        rw [if_pos hdone, if_pos hdone, if_pos hdone, hcount, List.range'_succ, hmod]
        exact ⟨rfl, rfl⟩
      · rw [if_neg hdone, if_neg hdone, if_neg hdone]
        exact ⟨rfl, rfl⟩

theorem homes_released {passes : List World} (h : machine.Reachable d)
    (hhomes : AllSteps (fun d w => d.call (.update w)) HomingPass passes d) :
    AllSteps (fun d w => d.call (.update w)) Released passes d := by
  induction passes generalizing d with
  | nil => trivial
  | cons w passes ih =>
    exact ⟨hhomes.1.released h, ih (h.step (k := Call.update w) rfl) hhomes.2⟩

/-- A run through AUTO_HOME, from the pass that enters it to the one that leaves it by itself. -/
structure HomingRun (d : Dixie) (entry : World) (passes : List World) : Prop where
  reachable : machine.Reachable d
  before : d.currentState ≠ .autoHome
  enters : (d.call (.update entry)).currentState = .autoHome
  homes : (d.call (.update entry)).Homes passes

variable {entry : World} {passes : List World}

theorem HomingRun.entry_events (hrun : HomingRun d entry passes) :
    (d.since (d.call (.update entry))).filter Event.isPower = [.powerOn .autoHome 1] ∧
      homings (d.since (d.call (.update entry))) = [[UInt8.ofNat 1]] := by
  have h := hrun.reachable
  obtain ⟨hprepare, hcolumn⟩ := column_autoHome h hrun.before hrun.enters
  have hmove : (d.call (.update entry)).currentState ≠ d.currentState := by
    rw [hrun.enters]
    exact hrun.before.symm
  constructor
  · rw [filter_isPower_since h, if_neg hmove, hrun.enters, updateEvents]
    simp only [control_currentState, hprepare]
    rfl
  · have hentering : (d.updatedIn entry).entering.deployColumn = 1 := by
      have hsame : (d.call (.update entry)).deployColumn =
          (d.updatedIn entry).entering.enterAutoHomeState.deployColumn := by
        rw [call_eq_switchState h hmove,
          show (d.updatedIn entry).switchState = (d.updatedIn entry).entering.callEnterState from rfl,
          callEnterState, entering_enterState h entry, hrun.enters]
      rw [← hcolumn, hsame, enterAutoHomeState]
      split <;> rfl
    have hprev := (entering_previousState h entry).trans hprepare
    have hup := (handledIn_updateState h entry).trans hprepare
    have hupdate : (d.handledIn entry).updateFrames.filter Datagram.isHoming = [] := by
      simp only [updateFrames, hup]
      split <;> rfl
    rw [homings_since, laterFrames_move h hmove, List.filter_append, hupdate, List.nil_append,
      enterFrames, entering_enterState h entry, hrun.enters]
    simp only
    rw [hentering, homingFrames_of_previousState 1 hprev]

/-- Homing announces these columns, powers each of the nine motors once, one at a time, and releases
it in order. -/
structure HomingLaw (columns : List ℕ) (d : Dixie) (entry : World) (passes : List World) :
    Prop where
  announced : homings (d.since ((d.call (.update entry)).updates passes)) =
    columns.map fun column => [UInt8.ofNat column]
  powered : (d.since ((d.call (.update entry)).updates passes)).filterMap Event.motor? =
    List.range' 1 9
  apart : ((d.since ((d.call (.update entry)).updates passes)).filter Event.isPower).IsChain
    fun e e' => e.isPowerOn = true → e'.isPowerOn = false
  released : AllSteps (fun d w => d.call (.update w)) Released passes (d.call (.update entry))

theorem filterMap_motor? (events : List Event) :
    events.filterMap Event.motor? = (events.filter Event.isPower).filterMap Event.motor? := by
  rw [List.filterMap_filter]
  congr 1
  funext e
  cases e <;> rfl

theorem HomingRun.events (hrun : HomingRun d entry passes) :
    (d.since ((d.call (.update entry)).updates passes)).filter Event.isPower =
      .powerOn .autoHome 1 :: ((List.range' 2 9).flatMap
        (fun column => [.powerOff .autoHome, .powerOn .autoHome column]) ++
        [.powerOff .autoHome, .powerOff .service]) ∧
      homings (d.since ((d.call (.update entry)).updates passes)) =
        (List.range' 1 10).map fun column => [UInt8.ofNat column] := by
  have hcolumn := (column_autoHome hrun.reachable hrun.before hrun.enters).2
  obtain ⟨hpowers, hhomings⟩ := hrun.entry_events
  obtain ⟨hpowers', hhomings'⟩ :=
    homes_events (hrun.reachable.step (k := Call.update entry) rfl) hrun.enters hrun.homes
  rw [hcolumn] at hpowers' hhomings'
  rw [since_trans (prefix_call _ d) (prefix_updates passes _), List.filter_append, homings_append,
    hpowers, hpowers', hhomings, hhomings']
  exact ⟨rfl, rfl⟩

end Dixie

/-- Every run through AUTO_HOME announces a tenth column, which has no motor; but for that it is as
it ought to be. -/
theorem homing_overshoots {d : Dixie} {entry : World} {passes : List World}
    (hrun : Dixie.HomingRun d entry passes) :
    Dixie.HomingLaw (List.range' 1 10) d entry passes ∧
      ¬Dixie.HomingLaw (List.range' 1 9) d entry passes := by
  obtain ⟨hpowers, hhomings⟩ := hrun.events
  constructor
  · exact
      { announced := hhomings
        powered := by
          rw [Dixie.filterMap_motor?, hpowers]
          rfl
        apart := by
          rw [hpowers]
          decide
        released := Dixie.homes_released (hrun.reachable.step (k := Call.update entry) rfl)
          hrun.homes.1 }
  · intro hlaw
    have hlength := congrArg List.length (hhomings.symm.trans hlaw.announced)
    simp at hlength

def preparingHome : Dixie :=
  (Dixie.boot 0 (.turning 0 false [])).run
    [.update (.turning 0 false (Datagram.request 2 .homeBegin []).toBytes)]

def homePasses : List World := List.replicate 10 (.turning 10001 false [])

theorem homingRun_preparingHome :
    Dixie.HomingRun preparingHome (.turning 10000 false []) homePasses where
  reachable := Dixie.reachable_run _ _ _
  before := by decide +kernel
  enters := by decide +kernel
  homes := ⟨by decide +kernel, by decide +kernel⟩

theorem homing_overshoots_preparingHome :
    ¬Dixie.HomingLaw (List.range' 1 9) preparingHome (.turning 10000 false []) homePasses :=
  (homing_overshoots homingRun_preparingHome).2

theorem tenth_column_announced :
    Dixie.HomingRun preparingHome (.turning 10000 false []) homePasses ∧
      ¬Dixie.HomingLaw (List.range' 1 9) preparingHome (.turning 10000 false []) homePasses := by
  refine ⟨homingRun_preparingHome, fun hlaw => ?_⟩
  exact absurd hlaw.announced (by decide +kernel)

end Alko.Arduino
