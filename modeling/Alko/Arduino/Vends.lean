import Alko.Arduino.Safety
import Alko.Foundation.Ticket

/-! An accepted FETCH is a ticket: DEPLOY powers a motor on it, as often as a vend is retried, and
the column that reaches home redeems it. -/

namespace Alko.Arduino

open Foundation Ticket Control

def Event.ticket : Event → TicketEvent
  | .fetchAccepted _ => .issue
  | .powerOn .deploy _ => .use
  | .readHome .deploy _ true => .redeem
  | _ => .other

/-- A FETCH was handled in READY with a column available. -/
def Event.isFetchAccepted (e : Event) : Bool := e.ticket = .issue

/-- The column that DEPLOY turned has come home, and `updateDeployState` stops it. -/
def Event.isCompletion (e : Event) : Bool := e.ticket = .redeem

namespace Control

theorem ticketed_handledEvents (handled : Option (Option State × Datagram)) (state : State)
    (held : Bool) : Lawful Event.ticket held (handledEvents handled state) := by
  unfold handledEvents
  split
  · split_ifs <;> simp [Lawful, Event.ticket]
  · trivial

/-- Handling a datagram never costs the ticket, and a FETCH that is accepted gives one. -/
theorem holds_handledEvents (handled : Option (Option State × Datagram)) (state : State)
    (held : Bool) :
    holds Event.ticket held (handledEvents handled state) =
      (held || handled.bind Prod.fst == some .deploy) := by
  unfold handledEvents
  split
  · rename_i accepted dgr
    by_cases hacc : accepted = some .deploy <;> simp [hacc, holds, Event.ticket]
  · simp [holds]

theorem ticket_of_mem_exitEvents {state : State} {e : Event} (h : e ∈ exitEvents state) :
    e.ticket = .other := by
  cases state <;> simp only [exitEvents, List.mem_singleton, List.not_mem_nil] at h <;> rw [h] <;>
    rfl

theorem ticket_of_mem_enterEvents {state : State} {column : ℕ} {e : Event}
    (h : e ∈ enterEvents state column) :
    e.ticket = .other ∨ (state = .deploy ∧ e.ticket = .use) := by
  cases state <;> simp only [enterEvents] at h <;> (try split_ifs at h) <;>
    simp only [List.mem_singleton, List.not_mem_nil] at h <;> rw [h] <;> simp [Event.ticket]

theorem ticket_of_mem_switchEvents {old new : State} {column : ℕ} {e : Event}
    (h : e ∈ switchEvents old new column) :
    e.ticket = .other ∨ (new = .deploy ∧ e.ticket = .use) := by
  rw [switchEvents, List.mem_append, List.mem_cons] at h
  rcases h with h | rfl | h
  · exact Or.inl (ticket_of_mem_exitEvents h)
  · exact Or.inl rfl
  · exact ticket_of_mem_enterEvents h

theorem ticket_of_mem_updateEvents {r : Readings} {c : Control} {e : Event}
    (hcur : c.currentState ≠ .deploy) (h : e ∈ c.updateEvents r) : e.ticket = .other := by
  unfold updateEvents at h
  split at h
  · exact absurd ‹_› hcur
  · split_ifs at h <;> simp only [List.mem_cons, List.not_mem_nil, or_false] at h
    · rcases h with rfl | rfl | rfl <;> rfl
    · exact h ▸ rfl
  · cases h

structure Ticketing (c : Control) : Prop where
  lawful : Lawful Event.ticket false c.events
  held : c.currentState = .deploy ∨ c.currentState = .deployError →
    holds Event.ticket false c.events = true

variable {c : Control} {handled : Option (Option State × Datagram)} {r : Readings} {column : ℕ}

/-- Whoever goes on to DEPLOY or DEPLOY_ERROR holds a ticket: the FETCH of this very pass, or that
of the vend in hand. -/
theorem Ticketing.held_of_resolve (h : Ticketing c) (hset : c.Settled)
    (admits : c.Admissible handled)
    (hres : c.resolve handled r = .deploy ∨ c.resolve handled r = .deployError) :
    holds Event.ticket false (c.events ++ handledEvents handled c.currentState) = true := by
  rw [holds_append, holds_handledEvents]
  have hfrom : c.currentState = .deploy ∨ c.currentState = .deployError ∨
      (c.currentState = .ready ∧ c.resolve handled r = .deploy) := by
    rcases hset.resolve_mem (r := r) admits with hstay | hmem
    · rw [hstay] at hres
      tauto
    · rcases hres with hres | hres <;> rw [hres] at hmem <;>
        cases hc : c.currentState <;> simp_all [successors]
  rcases hfrom with hdep | herror | ⟨hready, hdep⟩
  · simp [h.held (Or.inl hdep)]
  · simp [h.held (Or.inr herror)]
  · rw [hset.accepted_of_resolve_deploy hready hdep]
    simp

theorem completing_pass (handled : Option (Option State × Datagram))
    (hcur : c.currentState = .deploy) (hdue : r.due = true) (hhome : r.home = true) :
    c.updateEvents r = [.readHome .deploy c.deployColumn true] ∧
      c.resolve handled r = .prepareReady := by
  simp [updateEvents, resolve, expiry, hcur, hdue, hhome]

theorem ticket_of_not_completing (hnot : ¬(c.currentState = .deploy ∧ r.due = true ∧ r.home = true))
    {e : Event} (he : e ∈ c.updateEvents r) : e.ticket = .other := by
  by_cases hcur : c.currentState = .deploy
  · simp only [updateEvents, hcur] at he
    split_ifs at he with hdue
    · have hhome : r.home = false := by simpa [hcur, hdue] using hnot
      rw [List.mem_singleton.mp he, hhome]
      rfl
    · cases he
  · exact ticket_of_mem_updateEvents hcur he

theorem Ticketing.pass (h : Ticketing c) (hset : c.Settled) (admits : c.Admissible handled)
    (hcol : column ≤ 9) : Ticketing (c.pass handled r column) := by
  have hheld := h.held_of_resolve (r := r) hset admits
  set held := holds Event.ticket false (c.events ++ handledEvents handled c.currentState) with hdef
  set switch := if c.resolve handled r = c.currentState then []
    else switchEvents c.currentState (c.resolve handled r) column with hswitch
  have htail : Lawful Event.ticket held (c.updateEvents r ++ switch) ∧
      (c.resolve handled r = .deploy ∨ c.resolve handled r = .deployError →
        holds Event.ticket held (c.updateEvents r ++ switch) = true) := by
    have hquiet {b : Bool} (hb : c.resolve handled r = .deploy → b = true) :
        ∀ e ∈ switch, e.ticket = .other ∨ (b = true ∧ e.ticket = .use) := by
      intro e he
      rw [hswitch] at he
      split_ifs at he
      · cases he
      · exact (ticket_of_mem_switchEvents he).imp_right fun hnew => ⟨hb hnew.1, hnew.2⟩
    by_cases hdone : c.currentState = .deploy ∧ r.due = true ∧ r.home = true
    -- the ticket is redeemed, and the switch that follows is not to DEPLOY
    · obtain ⟨hcur, hdue, hhome⟩ := hdone
      obtain ⟨hupdate, hres⟩ := completing_pass handled hcur hdue hhome
      have htrue : held = true := by
        rw [hdef, holds_append, h.held (Or.inl hcur), holds_handledEvents]
        rfl
      have hrest : Lawful Event.ticket false switch ∧ _ :=
        quiet Event.ticket (hquiet (by simp [hres]))
      rw [hupdate]
      exact ⟨⟨htrue, hrest.1⟩, by simp [hres]⟩
    -- nothing is redeemed, and a switch to DEPLOY is on the ticket held
    · have hupdate : Lawful Event.ticket held (c.updateEvents r) ∧ _ :=
        quiet Event.ticket fun e he => Or.inl (ticket_of_not_completing hdone he)
      have hrest := quiet Event.ticket (hquiet fun hdep => hheld (Or.inl hdep))
      rw [lawful_append, holds_append, hupdate.2, hrest.2]
      exact ⟨⟨hupdate.1, hrest.1⟩, hheld⟩
  constructor
  · rw [hset.pass_events admits hcol, ← List.append_assoc, lawful_append, lawful_append]
    exact ⟨⟨h.lawful, ticketed_handledEvents handled c.currentState _⟩, htail.1⟩
  · rw [hset.pass_currentState admits hcol, hset.pass_events admits hcol, ← List.append_assoc,
      holds_append]
    exact htail.2

theorem Ticketing.force (h : Ticketing c) (hset : c.Settled) (hcol : column ≤ 9) :
    Ticketing (c.force column) := by
  have hquiet : ∀ e ∈ (if c.currentState = .service then []
      else switchEvents c.currentState .service column),
      e.ticket = .other ∨ (holds Event.ticket false c.events = true ∧ e.ticket = .use) := by
    intro e he
    split_ifs at he
    · cases he
    · rcases ticket_of_mem_switchEvents he with hother | ⟨hnew, -⟩
      · exact Or.inl hother
      · cases hnew
  constructor
  · rw [hset.force_events hcol, lawful_append]
    exact ⟨h.lawful, (quiet _ hquiet).1⟩
  · rw [hset.force_currentState hcol]
    rintro (hc | hc) <;> cases hc

theorem ticketing (h : system.Reachable c) : Ticketing c := by
  apply h.invariant
  · rintro c ⟨column, rfl⟩
    exact ⟨trivial, by rintro (hc | hc) <;> cases hc⟩
  · intro c _ c' hreach hc hstep
    have hset := Settled.of_reachable hreach
    cases hstep with
    | pass handled r column admits hcol => exact hc.pass hset admits hcol
    | force column hcol => exact hc.force hset hcol

end Control

theorem Dixie.ticketed {d : Dixie} (h : machine.Reachable d) :
    Lawful Event.ticket false d.trace := by
  have hlawful : Lawful Event.ticket false (d.trace.filter fun e => !e.isTx) :=
    (ticketing (simulation.reachable h)).lawful
  apply (lawful_filter ?_).mp hlawful
  intro e he
  cases e <;> first | rfl | cases he

theorem one_vend_per_fetch {d : Dixie} (h : Dixie.machine.Reachable d) :
    d.trace.countP Event.isCompletion ≤ d.trace.countP Event.isFetchAccepted ∧
    ∀ pre mid post column column', d.trace = pre ++
        .readHome .deploy column true :: (mid ++ .powerOn .deploy column' :: post) →
      ∃ id, .fetchAccepted id ∈ mid := by
  have hlawful := Dixie.ticketed h
  refine ⟨hlawful.count_le, fun pre mid post column column' htrace => ?_⟩
  rw [htrace] at hlawful
  obtain ⟨e, he, hissue⟩ := hlawful.exists_issue rfl rfl
  cases e with
  | fetchAccepted id => exact ⟨id, he⟩
  | powerOn state column => cases state <;> cases hissue
  | readHome state column home => cases state <;> cases home <;> cases hissue
  | _ => cases hissue

def vendedRun : List Call := vendRun ++ [.update (.turning 16000 false [])]

theorem one_vend_per_fetch_vended :
    ((Dixie.boot 0xFFFF (.turning 0 false [])).run vendedRun).trace.countP Event.isCompletion = 1 ∧
    1 ≤ ((Dixie.boot 0xFFFF (.turning 0 false [])).run vendedRun).trace.countP
      Event.isFetchAccepted :=
  have once : ((Dixie.boot 0xFFFF (.turning 0 false [])).run vendedRun).trace.countP
      Event.isCompletion = 1 := by decide +kernel
  ⟨once, once ▸ (one_vend_per_fetch (Dixie.reachable_run _ _ _)).1⟩

end Alko.Arduino
