import Alko.Arduino.Handover
import Alko.Arduino.Retries

/-! The vends of a run against the FETCHes handled in it. -/

namespace Alko.Arduino

open Control Foundation

def Event.isFetchHandled : Event → Bool
  | .handled _ dgr => dgr.command = Cmd.fetch.toByte
  | _ => false

namespace Dixie

variable {d : Dixie}

theorem countP_handledEvents_le (pending : Option Datagram) (d : Dixie) (state : State) :
    (handledEvents (d.handling pending) state).countP Event.isFetchAccepted ≤
      (handledEvents (d.handling pending) state).countP Event.isFetchHandled := by
  cases pending with
  | none => exact le_rfl
  | some dgr =>
    simp only [handling, Option.map_some, handledEvents]
    split_ifs with hdeploy
    · have hfetch : Event.isFetchHandled (.handled state dgr) = true :=
        decide_eq_true (accepted_eq_deploy hdeploy).1
      simp [List.countP_cons, hfetch, Event.isFetchAccepted, Event.ticket]
    · simp [List.countP_cons, Event.isFetchAccepted, Event.ticket]

theorem isFetchAccepted_eq_false {e : Event} (h : e.ticket = .other ∨ e.ticket = .use) :
    ¬e.isFetchAccepted = true := by
  rcases h with h | h <;> simp [Event.isFetchAccepted, h]

theorem countP_switchEvents (old new : State) (column : ℕ) :
    (switchEvents old new column).countP Event.isFetchAccepted = 0 :=
  List.countP_eq_zero.mpr fun _ he =>
    isFetchAccepted_eq_false ((ticket_of_mem_switchEvents he).imp_right And.right)

theorem countP_updateEvents (r : Readings) (c : Control) :
    (c.updateEvents r).countP Event.isFetchAccepted = 0 := by
  unfold updateEvents
  generalize r.home = home
  split
  · split_ifs
    · cases home <;> rfl
    · rfl
  · split_ifs <;> cases home <;> rfl
  · rfl

theorem countP_filter_isTx (p : Event → Bool) (hp : ∀ dgr, p (.tx dgr) = false)
    (events : List Event) : (events.filter fun e => !e.isTx).countP p = events.countP p := by
  rw [List.countP_filter]
  congr 1
  funext e
  cases e <;> simp [Event.isTx, hp]

theorem countP_since_le (h : machine.Reachable d) (c : Call) :
    (d.since (d.call c)).countP Event.isFetchAccepted ≤
      (d.since (d.call c)).countP Event.isFetchHandled := by
  cases c with
  | update w =>
    rw [← countP_filter_isTx _ (fun _ => rfl), ← countP_filter_isTx Event.isFetchHandled
      (fun _ => rfl), since_update h w, List.countP_append, List.countP_append, List.countP_append,
      countP_updateEvents]
    have hswitch : (if (d.call (.update w)).currentState = d.currentState then []
        else switchEvents d.currentState (d.call (.update w)).currentState
          (d.updatedIn w).columnOnEntry).countP Event.isFetchAccepted = 0 := by
      split_ifs
      · rfl
      · exact countP_switchEvents ..
    rw [hswitch]
    exact (countP_handledEvents_le _ _ _).trans (Nat.le_add_right _ _)
  | forceServiceState w =>
    have hnone : (d.since (d.call (.forceServiceState w))).countP Event.isFetchAccepted = 0 := by
      refine List.countP_eq_zero.mpr fun e he => ?_
      rcases mem_since_force h he with htx | ⟨column, hmem⟩
      · cases e with
        | tx dgr => exact isFetchAccepted_eq_false (.inl rfl)
        | _ => cases htx
      · exact isFetchAccepted_eq_false ((ticket_of_mem_switchEvents hmem).imp_right And.right)
    exact hnone ▸ Nat.zero_le _

theorem countP_accepted_le (h : machine.Reachable d) :
    d.trace.countP Event.isFetchAccepted ≤ d.trace.countP Event.isFetchHandled := by
  apply h.invariant (I := fun d : Dixie =>
    d.trace.countP Event.isFetchAccepted ≤ d.trace.countP Event.isFetchHandled)
  · rintro d ⟨olat, w, rfl⟩
    rw [boot_trace]
    exact le_rfl
  · rintro d c d' hd hle rfl
    rw [trace_call, List.countP_append, List.countP_append]
    exact Nat.add_le_add hle (countP_since_le hd c)

/-- The vend in hand, the failed one included that is to be retried. -/
def vending (d : Dixie) : Bool := d.currentState = .deploy ∨ d.currentState = .deployError

theorem holds_of_vending (h : machine.Reachable d) (hvending : d.vending = true) :
    Ticket.holds Event.ticket false d.control.events = true :=
  (ticketing (simulation.reachable h)).held (of_decide_eq_true hvending)

/-- The vends completed and the one in hand are no more than the FETCHes handled. -/
theorem completions_le (h : machine.Reachable d) :
    d.trace.countP Event.isCompletion + d.vending.toNat ≤
      d.handled.countP fun dgr => decide (dgr.command = Cmd.fetch.toByte) := by
  have hhandled : (d.handled.countP fun dgr => decide (dgr.command = Cmd.fetch.toByte)) =
      d.trace.countP Event.isFetchHandled := by
    rw [handled, List.countP_filterMap]
    congr 1
    funext e
    cases e <;> rfl
  have hlawful : Ticket.Lawful Event.ticket false d.control.events :=
    (ticketing (simulation.reachable h)).lawful
  have htickets := hlawful.count_holds_le
  rw [control_events] at htickets
  have hcompletion : (d.trace.filter fun e => !e.isTx).countP (fun e => e.ticket = .redeem) =
      d.trace.countP Event.isCompletion := countP_filter_isTx _ (fun _ => rfl) _
  have haccepted : (d.trace.filter fun e => !e.isTx).countP (fun e => e.ticket = .issue) =
      d.trace.countP Event.isFetchAccepted := countP_filter_isTx _ (fun _ => rfl) _
  have hheld : d.vending.toNat ≤ (Ticket.holds Event.ticket false d.control.events).toNat := by
    cases hvending : d.vending with
    | false => exact Nat.zero_le _
    | true => rw [holds_of_vending h hvending]
  rw [control_events] at hheld
  have hle := countP_accepted_le h
  rw [hcompletion, haccepted, Bool.toNat_false] at htickets
  rw [hhandled]
  omega

end Dixie

end Alko.Arduino
