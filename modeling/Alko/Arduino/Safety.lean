import Alko.Arduino.Refinement

/-! What no run of the machine does: power two motors, power one outside DEPLOY and AUTO_HOME, or
change its state but along the table of successors. -/

namespace Alko.Arduino

open Control

def Dixie.pinIsHigh (d : Dixie) (p : ℕ) : Bool := d.narco.mcp0.olat.getLsbD p

theorem Dixie.mem_poweredPins {d : Dixie} {p : ℕ} :
    p ∈ d.narco.poweredPins ↔ p ∈ Narco.motorPins ∧ d.pinIsHigh p = true :=
  List.mem_filter

theorem Control.mem_motor {state : State} {column p : ℕ} :
    p ∈ motor state column ↔ (state = .deploy ∨ state = .autoHome) ∧
      1 ≤ column ∧ column ≤ 9 ∧ p = Narco.motorPin column := by
  unfold motor
  split
  · rename_i h
    simp [h]
  · rename_i h
    simp only [List.not_mem_nil, false_iff]
    exact fun h' => h ⟨h'.1, h'.2.1, h'.2.2.1⟩

theorem Dixie.high_iff {d : Dixie} (h : machine.Reachable d) {p : ℕ} (hp : p ∈ Narco.motorPins) :
    d.pinIsHigh p = true ↔ (d.currentState = .deploy ∨ d.currentState = .autoHome) ∧
      1 ≤ d.deployColumn ∧ d.deployColumn ≤ 9 ∧ p = Narco.motorPin d.deployColumn := by
  have hpins : d.narco.poweredPins = motor d.currentState d.deployColumn := (settled h).powered
  rw [← mem_motor, ← hpins, mem_poweredPins]
  exact (and_iff_right hp).symm

theorem motor_safety {d : Dixie} (h : Dixie.machine.Reachable d) :
    (∀ p ∈ Narco.motorPins, ∀ q ∈ Narco.motorPins,
      d.pinIsHigh p = true → d.pinIsHigh q = true → p = q) ∧
    (∀ p ∈ Narco.motorPins, d.pinIsHigh p = true →
      (d.currentState = .deploy ∨ d.currentState = .autoHome) ∧
        ((1 ≤ d.deployColumn ∧ d.deployColumn ≤ 8 ∧ p = d.deployColumn + 7) ∨
          (d.deployColumn = 9 ∧ p = 2))) ∧
    (d.currentState ≠ .deploy → d.currentState ≠ .autoHome →
      ∀ p ∈ Narco.motorPins, d.pinIsHigh p = false) := by
  refine ⟨fun p hp q hq hhp hhq => ?_, fun p hp hhp => ?_, fun hdep hhome p hp => ?_⟩
  · have hp' := ((Dixie.high_iff h hp).mp hhp).2.2.2
    have hq' := ((Dixie.high_iff h hq).mp hhq).2.2.2
    exact hp'.trans hq'.symm
  · obtain ⟨hstate, hpos, hle, rfl⟩ := (Dixie.high_iff h hp).mp hhp
    refine ⟨hstate, ?_⟩
    unfold Narco.motorPin
    split <;> omega
  · rw [← Bool.not_eq_true, Dixie.high_iff h hp]
    rintro ⟨hdep' | hhome', -⟩
    · exact hdep hdep'
    · exact hhome hhome'

def World.turning (millis : UInt32) (turning : Bool) (arrived : List UInt8) : World :=
  .still millis (fun _ => false) (fun p => p = 7 && turning) arrived

def vendRun : List Call :=
  [.update (.turning 0 false (Datagram.request 2 .setState [State.ready.toByte]).toBytes),
    .update (.turning 3000 false []),
    .update (.turning 3001 false (Datagram.request 3 .fetch []).toBytes)]

def vending : Dixie := (Dixie.boot 0xFFFF (.turning 0 false [])).run vendRun

theorem vending_reachable : Dixie.machine.Reachable vending := Dixie.reachable_run _ _ _

theorem motor_safety_vending :
    vending.pinIsHigh 8 = true ∧ ∀ p ∈ Narco.motorPins, vending.pinIsHigh p = true → p = 8 :=
  have high : vending.pinIsHigh 8 = true := by decide +kernel
  ⟨high, fun p hp hhp => (motor_safety vending_reachable).1 p hp 8 (by decide) hhp high⟩

namespace Control

def Proper : Event → Prop
  | .switched old new => new ∈ successors old
  | .autoHomeRefused => False
  | _ => True

theorem proper_of_mem_handledEvents {handled : Option (Option State × Datagram)} {state : State}
    {e : Event} (h : e ∈ handledEvents handled state) : Proper e := by
  unfold handledEvents at h
  split at h
  · split_ifs at h <;> simp only [List.mem_cons, List.not_mem_nil, or_false] at h
    · rcases h with rfl | rfl <;> trivial
    · exact h ▸ trivial
  · cases h

theorem proper_of_mem_updateEvents {r : Readings} {c : Control} {e : Event}
    (h : e ∈ c.updateEvents r) : Proper e := by
  unfold updateEvents at h
  split at h <;> (try split_ifs at h) <;>
    simp only [List.mem_cons, List.not_mem_nil, or_false] at h
  · exact h ▸ trivial
  · rcases h with rfl | rfl | rfl <;> trivial
  · exact h ▸ trivial

theorem proper_of_mem_switchEvents {old new : State} {column : ℕ} {e : Event}
    (hnew : new ∈ successors old) (h : e ∈ switchEvents old new column) : Proper e := by
  rw [switchEvents, List.mem_append, List.mem_cons] at h
  rcases h with h | rfl | h
  · unfold exitEvents at h
    split at h <;> simp only [List.mem_cons, List.not_mem_nil, or_false] at h <;> exact h ▸ trivial
  · exact hnew
  · unfold enterEvents at h
    split at h <;> (try split_ifs at h) <;>
      simp only [List.mem_cons, List.not_mem_nil, or_false] at h <;> exact h ▸ trivial

theorem proper_events {c : Control} (h : system.Reachable c) : ∀ e ∈ c.events, Proper e := by
  refine h.invariant (I := fun c => ∀ e ∈ c.events, Proper e) (fun c hc => ?_)
    fun c _ c' hreach hc hstep => ?_
  · obtain ⟨column, rfl⟩ := hc
    intro e he
    exact List.mem_singleton.mp he ▸ trivial
  · have hset := Settled.of_reachable hreach
    intro e he
    cases hstep with
    | pass handled r column admits hcol =>
      rw [hset.pass_events admits hcol, List.mem_append, List.mem_append, List.mem_append] at he
      rcases he with he | he | he | he
      · exact hc e he
      · exact proper_of_mem_handledEvents he
      · exact proper_of_mem_updateEvents he
      · split_ifs at he with hstay
        · cases he
        · exact proper_of_mem_switchEvents ((hset.resolve_mem admits).resolve_left hstay) he
    | force column hcol =>
      rw [hset.force_events hcol, List.mem_append] at he
      rcases he with he | he
      · exact hc e he
      · split_ifs at he with hservice
        · cases he
        · exact proper_of_mem_switchEvents (service_mem_successors hservice) he

end Control

namespace Dixie

theorem proper_trace {d : Dixie} (h : machine.Reachable d) {e : Event} (he : e ∈ d.trace)
    (htx : e.isTx = false) : Proper e :=
  proper_events (simulation.reachable h) e
    (List.mem_filter.mpr ⟨he, by rw [htx]; rfl⟩)

theorem call_currentState_mem {d : Dixie} (h : machine.Reachable d) (c : Call)
    (hne : (d.call c).currentState ≠ d.currentState) :
    (d.call c).currentState ∈ successors d.currentState := by
  cases c with
  | update w =>
    rw [call_update_currentState h w] at hne ⊢
    exact ((settled h).resolve_mem (admissible_pendingIn d w)).resolve_left hne
  | forceServiceState w =>
    rw [call_force_currentState h w] at hne ⊢
    exact service_mem_successors hne.symm

theorem ready_to_deploy {d : Dixie} (h : machine.Reachable d) {c : Call}
    (hcur : d.currentState = .ready) (hdep : (d.call c).currentState = .deploy) :
    ∃ w dgr, c = .update w ∧ d.pendingIn w = some dgr ∧ dgr.command = Cmd.fetch.toByte ∧
      (d.inWorld w).narco.getDeployColumn.1 ≠ 0 := by
  cases c with
  | forceServiceState w =>
    rw [call_force_currentState h w] at hdep
    cases hdep
  | update w =>
    rw [call_update_currentState h w] at hdep
    obtain ⟨dgr, hpending, hacc⟩ :=
      exists_accepted ((settled h).accepted_of_resolve_deploy hcur hdep)
    obtain ⟨hcmd, -, hcol⟩ := accepted_eq_deploy hacc
    exact ⟨w, dgr, rfl, hpending, hcmd, hcol⟩

theorem service_left {d : Dixie} (h : machine.Reachable d) {c : Call}
    (hcur : d.currentState = .service) (hleft : (d.call c).currentState ≠ .service) :
    ∃ w dgr, c = .update w ∧ d.pendingIn w = some dgr ∧
      (dgr.command = Cmd.setState.toByte ∨ dgr.command = Cmd.homeBegin.toByte) := by
  cases c with
  | forceServiceState w => exact absurd (call_force_currentState h w) hleft
  | update w =>
    have hexp : d.control.expiry (d.handledIn w).readings = none := by
      simp only [expiry, control_currentState, hcur]
    rw [call_update_currentState h w, resolve, hexp, Option.getD_none] at hleft
    obtain ⟨dgr, hpending, hacc⟩ := exists_accepted <|
      accepted_of_awaited ((settled h).next_eq_current (by simp [hcur])) (by simp [hcur])
        (by simpa [hcur] using hleft)
    exact ⟨w, dgr, rfl, hpending, accepted_of_service (by simpa using hcur) hacc⟩

end Dixie

theorem lawful_transitions {d : Dixie} (h : Dixie.machine.Reachable d) :
    (∀ c, (d.call c).currentState ≠ d.currentState →
      (d.call c).currentState ∈ successors d.currentState) ∧
    (∀ old new, .switched old new ∈ d.trace → new ∈ successors old) ∧
    (∀ c, d.currentState = .ready → (d.call c).currentState = .deploy →
      ∃ w dgr, c = .update w ∧ d.pendingIn w = some dgr ∧ dgr.command = Cmd.fetch.toByte ∧
        (d.inWorld w).narco.getDeployColumn.1 ≠ 0) ∧
    (∀ c, d.currentState = .service → (d.call c).currentState ≠ .service →
      ∃ w dgr, c = .update w ∧ d.pendingIn w = some dgr ∧
        (dgr.command = Cmd.setState.toByte ∨ dgr.command = Cmd.homeBegin.toByte)) ∧
    .autoHomeRefused ∉ d.trace ∧
    ∀ w, (d.call (.forceServiceState w)).currentState = .service ∧
      (d.call (.forceServiceState w)).nextState = .service := by
  refine ⟨fun c => Dixie.call_currentState_mem h c, fun old new he => Dixie.proper_trace h he rfl,
    fun c => Dixie.ready_to_deploy h, fun c => Dixie.service_left h,
    fun he => Dixie.proper_trace h he rfl, fun w => ?_⟩
  have hcur := Dixie.call_force_currentState h w
  have hset := Dixie.settled (h.step (k := Call.forceServiceState w) rfl)
  refine ⟨hcur, ?_⟩
  rw [← Dixie.control_nextState, hset.next_eq, if_neg (by simp [hcur])]
  exact hcur

theorem lawful_transitions_vending :
    Event.switched .ready .deploy ∈ vending.trace ∧ State.deploy ∈ successors .ready :=
  have switched : Event.switched .ready .deploy ∈ vending.trace := by decide +kernel
  ⟨switched, (lawful_transitions vending_reachable).2.1 _ _ switched⟩

end Alko.Arduino
