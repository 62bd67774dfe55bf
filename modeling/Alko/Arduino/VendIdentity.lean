import Alko.Arduino.Retries

/-! The id of a vend: DEPLOY announces each column it powers by a FETCH frame, but has forgotten the
id of the FETCH by the time a vend is retried. -/

namespace Alko.Arduino

open Control Foundation

namespace Dixie

variable {d : Dixie} {w : World}

/-- The frame before the motor starts names the column, under the id of the FETCH accepted last. -/
def Announced (column : ℕ) (before : List Event) : Prop :=
  ∃ earlier frame, before = earlier ++ [.tx frame] ∧ frame.command = Cmd.fetch.toByte ∧
    frame.data = [UInt8.ofNat column] ∧
      Latest (.fetchAccepted frame.id) (fun e => e.isFetchAccepted = false) earlier

def Announces (d : Dixie) : Prop :=
  ∀ column, Preceded (.powerOn .deploy column) (Announced column) d.trace

def deployEvents (id : UInt16) (column : ℕ) : List Event :=
  if column = 0 then []
  else [.tx (byteFrame id .fetch (UInt8.ofNat column)), .powerOn .deploy column]

theorem enterDeployState_trace (hcur : d.currentState = .deploy) :
    d.enterDeployState.trace =
      d.trace ++ deployEvents d.deployId d.narco.getDeployColumn.1 := by
  simp only [enterDeployState, onLcd_narco, deployEvents]
  split
  · simp
  · simp [byteFrame, hcur]

theorem before_call_deploy (h : machine.Reachable d) (hcur : d.currentState ≠ .deploy)
    (hdep : (d.call (.update w)).currentState = .deploy) :
    d.currentState = .ready ∨ d.currentState = .deployError :=
  before_deploy (hdep ▸ call_currentState_mem h (.update w) (hdep ▸ hcur.symm))

theorem callExitState_updatedIn (h : machine.Reachable d)
    (hcur : d.currentState = .ready ∨ d.currentState = .deployError) :
    (d.updatedIn w).callExitState = d.updatedIn w := by
  have hstate : (d.updatedIn w).exitState = d.currentState :=
    (updated_updatedIn h w).coherent.exitState_eq.trans (updatedIn_currentState h w)
  rw [callExitState, hstate]
  rcases hcur with hcur | hcur <;> rw [hcur] <;> rfl

theorem trace_call_deploy (h : machine.Reachable d) (hcur : d.currentState ≠ .deploy)
    (hdep : (d.call (.update w)).currentState = .deploy) :
    (d.call (.update w)).trace = (d.updatedIn w).trace ++ .switched d.currentState .deploy ::
      deployEvents (d.updatedIn w).deployId (d.updatedIn w).columnOnEntry := by
  have hexit : (d.updatedIn w).callExitState = d.updatedIn w :=
    callExitState_updatedIn h (before_call_deploy h hcur hdep)
  have hnext : (d.updatedIn w).nextState = .deploy := (updatedIn_nextState h w).trans hdep
  have hswitch : d.call (.update w) = (d.updatedIn w).entering.callEnterState :=
    call_eq_switchState h (hdep ▸ hcur.symm)
  have hentering : (d.updatedIn w).entering.trace =
      (d.updatedIn w).trace ++ [.switched d.currentState .deploy] := by
    simp only [entering, hexit, emit_trace, updatedIn_currentState h w, hnext]
  rw [hswitch, callEnterState, entering_enterState h w, hdep]
  simp only
  rw [enterDeployState_trace (by simp only [entering, hexit, hnext]), hentering, columnOnEntry,
    List.append_assoc]
  simp only [entering, hexit]
  rfl

theorem handledEvents_before_deploy (h : machine.Reachable d) (hcur : d.currentState ≠ .deploy)
    (hdep : (d.call (.update w)).currentState = .deploy) :
    ∃ events, (d.updatedIn w).trace = d.trace ++ events ∧
      events.filter (fun e => !e.isTx) =
        handledEvents ((d.inWorld w).handling (d.pendingIn w)) d.currentState := by
  obtain ⟨events, hevents⟩ :=
    (prefix_handledIn w d).trans (prefix_callUpdateState (d.handledIn w))
  refine ⟨events, hevents.symm, ?_⟩
  have hfrom := before_call_deploy h hcur hdep
  have hstay : ¬(d.call (.update w)).currentState = d.currentState := hdep ▸ hcur.symm
  have hupdate : d.control.updateEvents (d.handledIn w).readings = [] := by
    unfold updateEvents
    rcases hfrom with hfrom | hfrom <;> simp [hfrom]
  have hexit : exitEvents d.currentState = [] := by
    rcases hfrom with hfrom | hfrom <;> rw [hfrom] <;> rfl
  have htail : (.switched d.currentState .deploy ::
      deployEvents (d.updatedIn w).deployId (d.updatedIn w).columnOnEntry).filter
        (fun e => !e.isTx) =
      .switched d.currentState .deploy :: enterEvents .deploy (d.updatedIn w).columnOnEntry := by
    unfold deployEvents enterEvents
    split <;> rfl
  have hsince := since_update h w
  rw [since, trace_call_deploy h hcur hdep, show (d.updatedIn w).trace = d.trace ++ events from
    hevents.symm, List.append_assoc, List.drop_left, List.filter_append, hupdate, if_neg hstay,
    hdep, switchEvents, hexit, List.nil_append, List.nil_append, if_pos rfl, htail] at hsince
  exact List.append_cancel_right hsince

theorem not_powerOn_of_turns {c : Call} {turns : List Event} {column : ℕ}
    (h : (d.call c).turns = d.turns ++ turns) (hturns : .powerOn .deploy column ∉ turns) :
    .powerOn .deploy column ∉ d.since (d.call c) := by
  intro hmem
  rw [Dixie.turns, trace_call, List.filter_append] at h
  apply hturns
  rw [← List.append_cancel_left h]
  exact List.mem_filter.mpr ⟨hmem, rfl⟩

theorem not_powerOn_since (h : machine.Reachable d) (c : Call) (column : ℕ)
    (hdep : (d.call c).currentState = .deploy → d.currentState = .deploy) :
    .powerOn .deploy column ∉ d.since (d.call c) := by
  cases c with
  | forceServiceState w =>
    apply not_powerOn_of_turns (turns_call_force h w)
    split <;> simp
  | update w =>
    apply not_powerOn_of_turns (turns_call_update h w)
    by_cases hstay : (d.call (.update w)).currentState = d.currentState
    · simp [hstay]
    · have hnot : (d.call (.update w)).currentState ≠ .deploy :=
        fun hnew => hstay (hnew.trans (hdep hnew).symm)
      simp [hstay, hnot]

theorem announced_concat_iff {id : UInt16} {column column' : ℕ} {trace : List Event} :
    Announced column (trace ++ [.tx (byteFrame id .fetch (UInt8.ofNat column'))]) ↔
      UInt8.ofNat column' = UInt8.ofNat column ∧
        Latest (.fetchAccepted id) (fun e => e.isFetchAccepted = false) trace := by
  constructor
  · rintro ⟨earlier, frame, hsplit, -, hdata, hlatest⟩
    obtain ⟨rfl, hframe⟩ := List.append_inj' hsplit rfl
    obtain rfl := Event.tx.inj (List.cons.inj hframe).1
    exact ⟨(List.cons.inj hdata).1, hlatest⟩
  · rintro ⟨hcolumn, hlatest⟩
    exact ⟨trace, _, rfl, rfl, congrArg (fun b => [b]) hcolumn, hlatest⟩

theorem preceded_deployEvents_iff {id : UInt16} {column : ℕ} {old : State} {trace : List Event} :
    (∀ column', Preceded (.powerOn .deploy column') (Announced column')
      (trace ++ .switched old .deploy :: deployEvents id column)) ↔
      (∀ column', Preceded (.powerOn .deploy column') (Announced column') trace) ∧
        (column ≠ 0 → Latest (.fetchAccepted id) (fun e => e.isFetchAccepted = false) trace) := by
  have hswitched (column' : ℕ) : Preceded (.powerOn .deploy column') (Announced column')
      (trace ++ [.switched old .deploy]) ↔
      Preceded (.powerOn .deploy column') (Announced column') trace :=
    preceded_append_iff (by simp)
  rw [List.append_cons, deployEvents]
  by_cases hnone : column = 0
  · rw [if_pos hnone, List.append_nil]
    exact (forall_congr' hswitched).trans (and_iff_left fun hsome => absurd hnone hsome).symm
  · have hlatest : Announced column (trace ++ [.switched old .deploy] ++
        [.tx (byteFrame id .fetch (UInt8.ofNat column))]) ↔
        Latest (.fetchAccepted id) (fun e => e.isFetchAccepted = false) trace :=
      announced_concat_iff.trans ((and_iff_right rfl).trans (latest_append_iff
        (by simp [Event.isFetchAccepted, Event.ticket])
        (by simp [Event.isFetchAccepted, Event.ticket])))
    have hpreceded (column' : ℕ) : Preceded (.powerOn .deploy column') (Announced column')
        (trace ++ [.switched old .deploy] ++
          [.tx (byteFrame id .fetch (UInt8.ofNat column)), .powerOn .deploy column]) ↔
        Preceded (.powerOn .deploy column') (Announced column') trace ∧
          (column = column' → Announced column' (trace ++ [.switched old .deploy] ++
            [.tx (byteFrame id .fetch (UInt8.ofNat column))])) := by
      rw [List.append_cons, preceded_concat_iff, preceded_append_iff (by simp), hswitched]
      simp
    rw [if_neg hnone, forall_congr' hpreceded, forall_and, forall_eq', hlatest]
    exact and_congr_right fun _ => ⟨fun hlatest _ => hlatest, fun hlatest => hlatest hnone⟩

/-- Where the call retries a vend on some column, the FETCH in hand has the id 0, which is what
`exitDeployState` leaves behind. -/
def IdKept (d : Dixie) (c : Call) : Prop :=
  ∀ w, c = .update w → d.currentState = .deployError →
    (d.timers .deployError).timedOut (w.millis 0) = true →
      (d.narcoOnRetry w).columnAvailable = true →
        Latest (.fetchAccepted 0) (fun e => e.isFetchAccepted = false) d.trace

theorem latest_of_ready (h : machine.Reachable d) (hcur : d.currentState = .ready)
    (hdep : (d.call (.update w)).currentState = .deploy) {events : List Event}
    (hevents : events.filter (fun e => !e.isTx) =
      handledEvents ((d.inWorld w).handling (d.pendingIn w)) d.currentState) :
    Latest (.fetchAccepted (d.updatedIn w).deployId) (fun e => e.isFetchAccepted = false)
      events := by
  rw [call_update_currentState h w] at hdep
  obtain ⟨dgr, hpending, hacc⟩ :=
    exists_accepted ((settled h).accepted_of_resolve_deploy hcur hdep)
  rw [updatedIn_deployId h hpending, if_pos hacc]
  apply Latest.of_filter (p := fun e => !e.isTx) (fun e he => ?_)
  · rw [hevents, hpending, handling, Option.map_some, handledEvents, hacc, if_pos rfl]
    exact ⟨[_], [], rfl, fun _ he => absurd he List.not_mem_nil⟩
  · cases e with
    | tx dgr => rfl
    | _ => cases he

theorem quiet_of_deployError (h : machine.Reachable d) (hcur : d.currentState = .deployError)
    {events : List Event}
    (hevents : events.filter (fun e => !e.isTx) =
      handledEvents ((d.inWorld w).handling (d.pendingIn w)) d.currentState) :
    (d.updatedIn w).deployId = 0 ∧ ∀ e ∈ events, e.isFetchAccepted = false := by
  constructor
  · exact (updated_updatedIn h w).coherent.id_eq ((updatedIn_currentState h w).trans hcur)
  · intro e he
    by_contra hfetch
    have hmem : e ∈ events.filter (fun e => !e.isTx) := by
      refine List.mem_filter.mpr ⟨he, ?_⟩
      cases e with
      | tx dgr => exact absurd rfl hfetch
      | _ => rfl
    rw [hevents] at hmem
    unfold handledEvents at hmem
    split at hmem
    · rename_i accepted dgr hhandled
      rw [List.mem_cons] at hmem
      rcases hmem with rfl | hmem
      · exact hfetch rfl
      · split_ifs at hmem with hdeploy
        · have hadmits := admissible_pendingIn d w .deploy dgr (hdeploy ▸ hhandled)
          rw [control_currentState, hcur] at hadmits
          cases hadmits
        · cases hmem
    · cases hmem

theorem not_powerOn_handledEvents {handled : Option (Option State × Datagram)} {state : State}
    {column : ℕ} {events : List Event}
    (hevents : events.filter (fun e => !e.isTx) = handledEvents handled state) :
    .powerOn .deploy column ∉ events := by
  intro hmem
  have hturn : .powerOn .deploy column ∈ (handledEvents handled state).filter Event.isTurn :=
    List.mem_filter.mpr ⟨hevents ▸ List.mem_filter.mpr ⟨hmem, rfl⟩, rfl⟩
  rw [isTurn_handledEvents] at hturn
  cases hturn

theorem announces_call_iff (h : machine.Reachable d) (c : Call) :
    (d.call c).Announces ↔ d.Announces ∧ d.IdKept c := by
  by_cases henter : d.currentState ≠ .deploy ∧ (d.call c).currentState = .deploy
  · obtain ⟨hcur, hdep⟩ := henter
    cases c with
    | forceServiceState w =>
      rw [call_force_currentState h w] at hdep
      cases hdep
    | update w =>
      obtain ⟨events, htrace, hevents⟩ := handledEvents_before_deploy h hcur hdep
      rw [Announces, trace_call_deploy h hcur hdep, preceded_deployEvents_iff, htrace]
      simp only [preceded_append_iff (not_powerOn_handledEvents hevents)]
      refine and_congr_right fun _ => ?_
      rcases before_call_deploy h hcur hdep with hready | herror
      · refine iff_of_true (fun _ => (latest_of_ready h hready hdep hevents).prepend _) ?_
        rintro w' - herror
        rw [hready] at herror
        cases herror
      · obtain ⟨hid, hquiet⟩ := quiet_of_deployError h herror hevents
        rw [hid, latest_append_iff (by simp [Event.isFetchAccepted, Event.ticket]) hquiet,
          columnOnEntry_retry h herror, Ne, Narco.getDeployColumn_eq_zero_iff, Bool.not_eq_false]
        constructor
        · rintro hlatest w' heq - - havailable
          obtain rfl := Call.update.inj heq
          exact hlatest havailable
        · intro hkept havailable
          exact hkept w rfl herror ((retries_iff h herror).mp hdep) havailable
  · have hstay : (d.call c).currentState = .deploy → d.currentState = .deploy := by
      tauto
    rw [Announces, trace_call]
    simp only [preceded_append_iff (not_powerOn_since h c _ hstay)]
    refine (and_iff_left ?_).symm
    rintro w rfl herror hdue
    have hdep := hstay ((retries_iff h herror).mpr hdue)
    rw [herror] at hdep
    cases hdep

end Dixie

/-- From any start, a run announces every column under the id of its FETCH exactly if no call of it
retries a vend whose id is lost. -/
theorem vend_identity_iff (olat : BitVec 16) (w : World) (calls : List Call) :
    ((Dixie.boot olat w).run calls).Announces ↔
      AllSteps (fun d c => d.call c) Dixie.IdKept calls (Dixie.boot olat w) := by
  have hboot : Dixie.machine.Reachable (Dixie.boot olat w) := .init ⟨olat, w, rfl⟩
  have hnone : (Dixie.boot olat w).Announces := by
    intro column
    rw [Dixie.boot_trace]
    exact Preceded.of_not_mem (by simp)
  exact (foldl_iff_allSteps (I := Dixie.machine.Reachable) (G := Dixie.Announces)
    (fun d c hd => hd.step (k := c) rfl) (fun d c hd => Dixie.announces_call_iff hd c) hboot
    calls).trans (and_iff_right hnone)

/-- The retry announces the column under the id 0, and the FETCH had the id 3. -/
theorem vend_identity_lost : Dixie.machine.Reachable retried ∧ ¬retried.Announces := by
  refine ⟨Dixie.reachable_run _ _ _, fun hannounces => ?_⟩
  have htrace : retried.trace = retried.trace.dropLast.dropLast ++
      [.tx (Dixie.byteFrame 0 .fetch (UInt8.ofNat 1))] ++ .powerOn .deploy 1 :: [] := by
    decide +kernel
  have hlatest := (Dixie.announced_concat_iff.mp (hannounces 1 _ _ htrace)).2
  exact absurd hlatest (by decide +kernel)

end Alko.Arduino
