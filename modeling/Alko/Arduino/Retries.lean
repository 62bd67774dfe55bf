import Alko.Arduino.GivingUp
import Alko.Arduino.LinkLoss
import Alko.Arduino.Rotation
import Alko.Arduino.Vends

/-! The retry of a vend: five seconds after DEPLOY_ERROR the machine enters DEPLOY again and scans
the columns anew. -/

namespace Alko.Arduino

open Control Foundation

def Event.isTurn : Event → Bool
  | .switched _ _ => true
  | .powerOn .deploy _ => true
  | _ => false

namespace Control

theorem isTurn_handledEvents (handled : Option (Option State × Datagram)) (state : State) :
    (handledEvents handled state).filter Event.isTurn = [] := by
  unfold handledEvents
  split
  · split_ifs <;> rfl
  · rfl

theorem isTurn_updateEvents (r : Readings) (c : Control) :
    (c.updateEvents r).filter Event.isTurn = [] := by
  unfold updateEvents
  split <;> (try split_ifs) <;> rfl

theorem isTurn_switchEvents (old new : State) (column : ℕ) :
    (switchEvents old new column).filter Event.isTurn =
      .switched old new :: if new = .deploy then enterEvents .deploy column else [] := by
  have hexit : (exitEvents old).filter Event.isTurn = [] := by
    cases old <;> rfl
  rw [switchEvents, List.filter_append, hexit, List.nil_append,
    List.filter_cons_of_pos (show (Event.switched old new).isTurn = true from rfl)]
  cases new <;> simp only [enterEvents, reduceCtorEq, if_false, if_true]
  case deploy => split <;> rfl
  all_goals rfl

end Control

namespace Dixie

variable {d : Dixie} {w : World}

theorem boot_trace (olat : BitVec 16) (w : World) : (boot olat w).trace = [.powerOff .service] :=
  rfl

def turns (d : Dixie) : List Event := d.trace.filter Event.isTurn

theorem turns_of_filter {d' : Dixie} {events : List Event}
    (htrace : d'.trace = d.trace ++ d.since d')
    (h : (d.since d').filter (fun e => !e.isTx) = events) :
    d'.turns = d.turns ++ events.filter Event.isTurn := by
  have hturn : (fun e : Event => e.isTurn && !e.isTx) = Event.isTurn := by
    funext e
    cases e <;> simp [Event.isTurn, Event.isTx]
  rw [turns, htrace, List.filter_append, ← h, List.filter_filter, hturn]
  rfl

theorem turns_call_update (h : machine.Reachable d) (w : World) :
    (d.call (.update w)).turns = d.turns ++
      if (d.call (.update w)).currentState = d.currentState then []
      else .switched d.currentState (d.call (.update w)).currentState ::
        if (d.call (.update w)).currentState = .deploy then
          enterEvents .deploy (d.updatedIn w).columnOnEntry
        else [] := by
  rw [turns_of_filter (trace_call _ d) (since_update h w), List.filter_append, List.filter_append,
    isTurn_handledEvents, isTurn_updateEvents, List.nil_append, List.nil_append]
  split
  · rfl
  · rw [isTurn_switchEvents]

theorem turns_call_force (h : machine.Reachable d) (w : World) :
    (d.call (.forceServiceState w)).turns = d.turns ++
      if d.currentState = .service then [] else [.switched d.currentState .service] := by
  obtain ⟨column, hle, hforce⟩ := control_forceServiceState (d.inWorld w)
  have hevents := (congrArg Control.events hforce).trans ((settled h).force_events hle)
  rw [turns_of_filter (trace_call _ d) (filter_since (c := .forceServiceState w) hevents),
    control_currentState]
  by_cases hservice : d.currentState = .service
  · rw [if_pos hservice, if_pos hservice]
    rfl
  · rw [if_neg hservice, if_neg hservice, isTurn_switchEvents]
    rfl

theorem deployColumn_vend (h : machine.Reachable d)
    (hcur : d.currentState = .deploy ∨ d.currentState = .deployError)
    (hnext : (d.call (.update w)).currentState = .deployError ∨
      (d.call (.update w)).currentState = d.currentState) :
    (d.call (.update w)).deployColumn = d.deployColumn := by
  have hprepare : d.currentState ≠ .prepareAutoHome := by
    rcases hcur with hcur | hcur <;> simp [hcur]
  have hhome : d.currentState ≠ .autoHome := by
    rcases hcur with hcur | hcur <;> simp [hcur]
  have hupdated : (d.updatedIn w).control.deployColumn = d.deployColumn := by
    rw [(updated_updatedIn h w).column_eq (by simpa using hprepare) (by simpa using hhome),
      receive_deployColumn]
    rfl
  by_cases hstay : (d.call (.update w)).currentState = d.currentState
  · rw [call_eq_updatedIn h hstay]
    exact hupdated
  · have herror := hnext.resolve_right hstay
    have hswitched := switched_updatedIn h hstay (by simp [herror])
    have hnext : (d.updatedIn w).control.nextState ≠ .deploy := by
      rw [control_nextState, updatedIn_nextState h, herror]
      decide
    rw [← control_deployColumn, hswitched.deployColumn_eq, columnAfter, if_neg hnext]
    exact hupdated

structure Turned (d : Dixie) : Prop where
  deploy : d.currentState = .deploy → ∃ earlier old, d.turns =
    earlier ++ .switched old .deploy :: enterEvents .deploy d.deployColumn
  deployError : d.currentState = .deployError → ∃ earlier old, d.turns =
    earlier ++ .switched old .deploy :: (enterEvents .deploy d.deployColumn ++
      [.switched .deploy .deployError])

theorem Turned.update (hturned : d.Turned) (h : machine.Reachable d) (w : World) :
    (d.call (.update w)).Turned := by
  have hturns := turns_call_update h w
  by_cases hstay : (d.call (.update w)).currentState = d.currentState
  · rw [if_pos hstay, List.append_nil] at hturns
    constructor
    · intro hcur
      rw [hturns, deployColumn_vend h (Or.inl (hstay.symm.trans hcur)) (Or.inr hstay)]
      exact hturned.deploy (hstay.symm.trans hcur)
    · intro hcur
      rw [hturns, deployColumn_vend h (Or.inr (hstay.symm.trans hcur)) (Or.inr hstay)]
      exact hturned.deployError (hstay.symm.trans hcur)
  · rw [if_neg hstay] at hturns
    constructor
    · intro hcur
      have hdep : d.currentState ≠ .deploy := fun hdep => hstay (hcur.trans hdep.symm)
      rw [hturns, if_pos hcur, hcur, deployColumn_deploy h hdep hcur]
      exact ⟨_, _, rfl⟩
    · intro hcur
      -- DEPLOY_ERROR is entered from DEPLOY only
      have hmem := call_currentState_mem h (.update w) hstay
      have hdep : d.currentState = .deploy := by
        rw [hcur] at hmem
        cases hc : d.currentState <;> simp_all [successors]
      obtain ⟨earlier, old, hold⟩ := hturned.deploy hdep
      rw [hturns, hcur, hdep, hold, deployColumn_vend h (Or.inl hdep) (Or.inl hcur)]
      exact ⟨earlier, old, by simp⟩

theorem turned (h : machine.Reachable d) : d.Turned := by
  refine h.invariant (I := Turned) (fun d hd => ?_) fun d c d' hreach hd hstep => ?_
  · obtain ⟨olat, w, rfl⟩ := hd
    exact ⟨nofun, nofun⟩
  · rw [hstep]
    cases c with
    | update w => exact hd.update hreach w
    | forceServiceState w =>
      have hcur := call_force_currentState hreach w
      exact ⟨fun hdep => by simp [hcur] at hdep, fun herror => by simp [hcur] at herror⟩

theorem retries_iff (h : machine.Reachable d) (hcur : d.currentState = .deployError) :
    (d.call (.update w)).currentState = .deploy ↔
      (d.timers .deployError).timedOut (w.millis 0) = true := by
  have hdue : (d.handledIn w).readings.due = (d.timers .deployError).timedOut (w.millis 0) := by
    rw [← due_handledIn w d, readings, handledIn_updateState h w, hcur]
  rw [call_update_currentState h w, resolve, ← hdue]
  simp only [expiry, control_currentState, hcur]
  cases (d.handledIn w).readings.due with
  | true => simp
  | false =>
    -- no request leads from DEPLOY_ERROR to DEPLOY
    simp only [Bool.false_eq_true, if_false, Option.getD_none, iff_false]
    intro hres
    rcases awaited_cases (admissible_pendingIn d w) with hnext | ⟨hwait, -⟩ | hadmits
    · rw [hres, (settled h).next_eq_current (by simp [hcur]), control_currentState,
        hcur] at hnext
      cases hnext
    · rw [control_currentState, hcur] at hwait
      cases hwait
    · rw [hres, control_currentState, hcur] at hadmits
      cases hadmits

theorem narco_datagramHandler {dgr : Datagram} (hcur : d.currentState ≠ .ready) :
    (d.datagramHandler dgr).narco =
      if dgr.command = Cmd.checkAvail.toByte then d.narco.getDeployColumn.2 else d.narco := by
  by_cases hcheck : dgr.command = Cmd.checkAvail.toByte
  · rw [if_pos hcheck]
    simp [datagramHandler, ofByte?_command hcheck]
  · rw [if_neg hcheck]
    by_cases hfetch : dgr.command = Cmd.fetch.toByte
    · rw [narco_datagramHandler_fetch hfetch, if_neg hcur]
    · have hframe := (datagramHandler_frame dgr d).2.2.2
      exact hframe (fun hcmd => hcheck (Cmd.ofByte?_eq_some.mp hcmd))
        fun hcmd => hfetch (Cmd.ofByte?_eq_some.mp hcmd)

/-- The columns as a retry finds them: a CHECK_AVAIL in the same pass has scanned them before. -/
def narcoOnRetry (w : World) (d : Dixie) : Narco :=
  if (d.pendingIn w).map Datagram.command = some Cmd.checkAvail.toByte then
    (d.inWorld w).narco.getDeployColumn.2
  else (d.inWorld w).narco

theorem columnOnEntry_retry (h : machine.Reachable d) (hcur : d.currentState = .deployError) :
    (d.updatedIn w).columnOnEntry = (d.narcoOnRetry w).getDeployColumn.1 := by
  have hexit : (d.updatedIn w).callExitState = d.updatedIn w := by
    have hstate : (d.updatedIn w).exitState = .deployError :=
      (updated_updatedIn h w).coherent.exitState_eq.trans
        ((updatedIn_currentState h w).trans hcur)
    rw [callExitState, hstate]
    rfl
  have hnarco : (d.updatedIn w).narco = (d.handledIn w).narco := by
    obtain ⟨clock, hclock⟩ := timedOut_snd .deployError (d.handledIn w)
    rw [updatedIn, callUpdateState, handledIn_updateState h w, hcur]
    simp only [updateDeployErrorState, hclock]
    split <;> rfl
  have hhandled : (d.handledIn w).narco = d.narcoOnRetry w := by
    unfold handledIn narcoOnRetry
    cases d.pendingIn w with
    | none => rfl
    | some dgr =>
      have hbusy : ((d.inWorld w).poll w.late).currentState ≠ .ready := by
        rw [poll_currentState, inWorld_currentState, hcur]
        decide
      refine (narco_datagramHandler hbusy).trans ?_
      simp only [Option.map_some, Option.some.injEq, poll_narco]
  rw [columnOnEntry, hexit, hnarco, hhandled]

def failing (column : ℕ) : List Event :=
  [.powerOn .deploy column, .switched .deploy .deployError]

/-- The vend of a column fails, and the very next vend starts the same column. -/
def retry (column : ℕ) : List Event :=
  failing column ++ [.switched .deployError .deploy, .powerOn .deploy column]

/-- No column that has failed is powered again by the retry of its vend. -/
def ExcludesFailed (d : Dixie) : Prop := ∀ column, ¬retry column <:+: d.turns

theorem retry_infix_switched {turns : List Event} {old new : State} {column : ℕ} :
    retry column <:+: turns ++ [.switched old new] ↔ retry column <:+: turns := by
  rw [List.infix_concat_iff, or_iff_right]
  rw [retry, List.append_cons]
  intro hsuffix
  have hlast := ((List.suffix_append_inj_of_length_eq (by rfl)).mp hsuffix).2
  cases hlast

/-- A new retry is one of the column powered before, and the last turns are its first two. -/
theorem retry_infix_powerOn {turns : List Event} {old : State} {column column' : ℕ} :
    retry column' <:+: turns ++ [.switched old .deploy, .powerOn .deploy column] ↔
      retry column' <:+: turns ∨ column' = column ∧ old = .deployError ∧
        failing column <:+ turns := by
  rw [List.append_cons, List.infix_concat_iff, retry_infix_switched, ← List.append_cons, or_comm]
  refine or_congr_right ((List.suffix_append_inj_of_length_eq (by rfl)).trans ?_)
  constructor
  · rintro ⟨hsuffix, hlast⟩
    obtain ⟨hold, hcolumn⟩ := List.cons.inj hlast
    obtain ⟨-, rfl⟩ := Event.powerOn.inj (List.cons.inj hcolumn).1
    exact ⟨rfl, (Event.switched.inj hold).1.symm, hsuffix⟩
  · rintro ⟨rfl, rfl, hsuffix⟩
    exact ⟨hsuffix, rfl⟩

theorem failing_suffix_iff (h : machine.Reachable d) (hcur : d.currentState = .deployError)
    {column : ℕ} :
    failing column <:+ d.turns ↔ d.deployColumn ≠ 0 ∧ column = d.deployColumn := by
  have hpair {turns : List Event} {e : Event} :
      failing column <:+ turns ++ [e, .switched .deploy .deployError] ↔
        e = .powerOn .deploy column := by
    rw [← List.nil_append (failing column), List.suffix_append_inj_of_length_eq (by simp [failing])]
    simp [failing, eq_comm]
  obtain ⟨earlier, old, hturns⟩ := (turned h).deployError hcur
  rw [hturns, enterEvents]
  by_cases hzero : d.deployColumn = 0
  · rw [if_pos hzero, List.nil_append, hpair]
    simp [hzero]
  · rw [if_neg hzero, List.append_cons, List.singleton_append, hpair]
    simp [hzero, eq_comm]

theorem excludesFailed_call_iff (h : machine.Reachable d) (c : Call) :
    (d.call c).ExcludesFailed ↔ d.ExcludesFailed ∧
      (d.currentState = .deployError → (d.call c).currentState = .deploy →
        d.deployColumn ≠ 0 → (d.call c).deployColumn ≠ d.deployColumn) := by
  have hquiet (hturns : ∀ column, retry column <:+: (d.call c).turns ↔ retry column <:+: d.turns)
      (hdep : d.currentState = .deployError → (d.call c).currentState ≠ .deploy) :
      (d.call c).ExcludesFailed ↔ d.ExcludesFailed ∧
        (d.currentState = .deployError → (d.call c).currentState = .deploy →
          d.deployColumn ≠ 0 → (d.call c).deployColumn ≠ d.deployColumn) := by
    simp only [ExcludesFailed, hturns]
    exact (and_iff_left fun herror hnext => absurd hnext (hdep herror)).symm
  cases c with
  | forceServiceState w =>
    have hservice := call_force_currentState h w
    refine hquiet (fun column => ?_) fun _ => by simp [hservice]
    rw [turns_call_force h w]
    split
    · rw [List.append_nil]
    · exact retry_infix_switched
  | update w =>
    have hturns := turns_call_update h w
    by_cases hstay : (d.call (.update w)).currentState = d.currentState
    · rw [if_pos hstay, List.append_nil] at hturns
      refine hquiet (fun column => by rw [hturns]) fun herror => ?_
      rw [hstay, herror]
      decide
    · rw [if_neg hstay] at hturns
      by_cases hdep : (d.call (.update w)).currentState = .deploy
      · have hcur : d.currentState ≠ .deploy := fun hcur => hstay (hdep.trans hcur.symm)
        rw [if_pos hdep, ← deployColumn_deploy h hcur hdep, hdep, enterEvents] at hturns
        by_cases hnone : (d.call (.update w)).deployColumn = 0
        · rw [if_pos hnone] at hturns
          simp only [ExcludesFailed, hturns, retry_infix_switched, hnone]
          exact (and_iff_left fun _ _ hcolumn => hcolumn.symm).symm
        · rw [if_neg hnone] at hturns
          simp only [ExcludesFailed, hturns, retry_infix_powerOn, not_or, forall_and]
          refine and_congr_right fun _ => ?_
          constructor
          · rintro hnew herror - hcolumn hsame
            exact hnew _ ⟨rfl, herror, (failing_suffix_iff h herror).mpr ⟨hcolumn, hsame⟩⟩
          · rintro hnew column ⟨-, herror, hsuffix⟩
            obtain ⟨hcolumn, hsame⟩ := (failing_suffix_iff h herror).mp hsuffix
            exact hnew herror hdep hcolumn hsame
      · rw [if_neg hdep] at hturns
        refine hquiet (fun column => ?_) fun _ => hdep
        rw [hturns, retry_infix_switched]

/-- Where the call retries a vend, its scan does not choose the column that has failed. -/
def SparesFailed (d : Dixie) (c : Call) : Prop :=
  ∀ w, c = .update w → d.currentState = .deployError →
    (d.timers .deployError).timedOut (w.millis 0) = true → d.deployColumn ≠ 0 →
      ¬(d.narcoOnRetry w).Chooses d.deployColumn

theorem sparesFailed_iff (h : machine.Reachable d) (c : Call) :
    d.SparesFailed c ↔
      (d.currentState = .deployError → (d.call c).currentState = .deploy →
        d.deployColumn ≠ 0 → (d.call c).deployColumn ≠ d.deployColumn) := by
  cases c with
  | forceServiceState w =>
    refine iff_of_true (fun w' heq => by cases heq) fun _ hdep => ?_
    rw [call_force_currentState h w] at hdep
    cases hdep
  | update w =>
    have hcolumn (herror : d.currentState = .deployError)
        (hdep : (d.call (.update w)).currentState = .deploy) :
        (d.call (.update w)).deployColumn = (d.narcoOnRetry w).getDeployColumn.1 := by
      rw [deployColumn_deploy h (by simp [herror]) hdep, columnOnEntry_retry h herror]
    constructor
    · intro hspares herror hdep hne hsame
      apply hspares w rfl herror ((retries_iff h herror).mp hdep) hne
      rw [Narco.chooses_iff hne, ← hcolumn herror hdep, hsame]
    · rintro hspares w' heq herror hdue hne hchooses
      obtain rfl := Call.update.inj heq
      have hdep := (retries_iff h herror).mpr hdue
      apply hspares herror hdep hne
      rw [hcolumn herror hdep, (Narco.chooses_iff hne).mp hchooses]

end Dixie

/-- From any start, a run keeps failed columns from being retried exactly if each of its calls
does. -/
theorem failed_column_excluded_iff (olat : BitVec 16) (w : World) (calls : List Call) :
    ((Dixie.boot olat w).run calls).ExcludesFailed ↔
      AllSteps (fun d c => d.call c) Dixie.SparesFailed calls (Dixie.boot olat w) := by
  have hboot : Dixie.machine.Reachable (Dixie.boot olat w) := .init ⟨olat, w, rfl⟩
  have hnone : (Dixie.boot olat w).ExcludesFailed := by
    intro column
    rw [Dixie.turns, Dixie.boot_trace]
    simp [Dixie.retry, Dixie.failing, Event.isTurn]
  refine (foldl_iff_allSteps (I := Dixie.machine.Reachable) (G := Dixie.ExcludesFailed)
    (fun d c hd => hd.step (k := c) rfl) (fun d c hd => ?_) hboot calls).trans (and_iff_right hnone)
  rw [Dixie.excludesFailed_call_iff hd c, Dixie.sparesFailed_iff hd c]

def retried : Dixie :=
  (Dixie.boot 0 (.lastColumn 0 false [])).run (readyRun ++
    [.update (.lastColumn 3001 false (Datagram.request 3 .fetch []).toBytes),
      .update (.lastColumn 16001 true []), .update (.lastColumn 21001 false [])])

theorem failed_column_retried : Dixie.machine.Reachable retried ∧ ¬retried.ExcludesFailed :=
  ⟨Dixie.reachable_run _ _ _,
    fun hexcludes => hexcludes 1 ⟨retried.turns.take 3, [], by decide +kernel⟩⟩

end Alko.Arduino
