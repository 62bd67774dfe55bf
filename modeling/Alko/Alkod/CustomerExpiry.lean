import Alko.Alkod.Customer

/-! No customer is stranded: from its first call on, it has said that it is done or its timer runs,
whatever is delivered and in whatever order. -/

namespace Alko.Alkod

namespace Customer

def Finished (c : Customer) : Prop := .done ∈ c.trace

def TimerRuns (c : Customer) : Prop := c.timer.isSome = true

/-- The customer has nothing more to do, or will be woken. -/
def Bound (c : Customer) : Prop := c.Finished ∨ c.TimerRuns

variable {c : Customer}

theorem finished_emit_done (c : Customer) : (c.emit .done).Finished :=
  List.mem_append_right _ (List.mem_singleton_self _)

theorem Finished.append {d : Customer} (h : c.Finished) (htrace : c.trace <+: d.trace) :
    d.Finished := htrace.subset h

theorem Bound.of_emit_done (c : Customer) : (c.emit .done).Bound := Or.inl (finished_emit_done c)

theorem Bound.of_timer {n : ℕ} (h : c.timer = some n) : c.Bound := by
  refine Or.inr ?_
  rw [TimerRuns, h]
  rfl

theorem Bound.keep {d : Customer} (h : c.Bound) (htrace : c.trace <+: d.trace)
    (htimer : d.timer = c.timer) : d.Bound := by
  rcases h with hdone | hruns
  · exact Or.inl (hdone.append htrace)
  · refine Or.inr ?_
    rwa [TimerRuns, htimer]

theorem Bound.emit (h : c.Bound) (e : CustomerEvent) : (c.emit e).Bound :=
  h.keep (List.prefix_append _ _) rfl

theorem Bound.get (h : c.Bound) (request : List UInt8) : (c.get request).Bound :=
  h.keep (List.prefix_append _ _) rfl

theorem Bound.setData (h : c.Bound) (i : ℕ) (datagram : List UInt8) : (c.setData i datagram).Bound :=
  h.keep (List.prefix_refl _) rfl

/-! The states. The first thing most do is to stop the timer. -/

theorem bound_handleNewCustomer (c : Customer) : c.handleNewCustomer.Bound :=
  .of_timer (n := 250) rfl

theorem bound_handleStateCheckDone (c : Customer) : c.handleStateCheckDone.Bound := by
  unfold handleStateCheckDone
  simp only
  split_ifs
  · exact .of_emit_done _
  · exact .of_emit_done _
  · exact .of_timer (n := 250) rfl

theorem bound_handleSupplyCheckDone (c : Customer) : c.handleSupplyCheckDone.Bound := by
  unfold handleSupplyCheckDone
  simp only
  split_ifs
  · exact .of_emit_done _
  · exact .of_timer (n := 500) rfl

theorem bound_handlePaymentCheckDone (c : Customer) : c.handlePaymentCheckDone.Bound := by
  apply handlePaymentCheckDone_keeps
  · exact fun request c h => h.get request
  · exact fun c h => (h.emit .outOfRange).keep (List.prefix_refl _) rfl
  · exact fun c _ => .of_emit_done _
  · exact .of_timer (n := 250) rfl

theorem bound_handleCustomer (h : c.state ≠ .newCustomer → c.Bound) : c.handleCustomer.Bound := by
  unfold handleCustomer
  cases hstate : c.state with
  | newCustomer => exact bound_handleNewCustomer c
  | stateCheckDone => exact bound_handleStateCheckDone c
  | supplyCheckDone => exact bound_handleSupplyCheckDone c
  | paymentCheckDone => exact bound_handlePaymentCheckDone c
  | allDone => exact h (by simp [hstate])
  | expired => exact h (by simp [hstate])

theorem handleCustomer_state_ne (c : Customer) : c.handleCustomer.state ≠ .newCustomer := by
  unfold handleCustomer
  cases hstate : c.state with
  | newCustomer => simp [handleNewCustomer]
  | stateCheckDone =>
    simp only [handleStateCheckDone]
    split_ifs
    · simp [hstate]
    · simp
    · simp
  | supplyCheckDone =>
    simp only [handleSupplyCheckDone]
    split_ifs <;> simp
  | paymentCheckDone =>
    apply handlePaymentCheckDone_keeps (P := fun d => d.state ≠ .newCustomer)
    · exact fun request d h => h
    · exact fun d h => h
    · simp
    · simp [readLine, hstate]
  | allDone => simp [hstate]
  | expired => simp [hstate]

/-- A customer that has not been started can still be, and every other one is bound. -/
structure Awake (c : Customer) : Prop where
  startable : c.state = .newCustomer → c.starting = true ∧ c.faulted = false
  bound : c.state ≠ .newCustomer → c.Bound

theorem Awake.handleCustomer (h : c.state ≠ .newCustomer → c.Bound) : c.handleCustomer.Awake where
  startable hnew := absurd hnew (handleCustomer_state_ne c)
  bound _ := bound_handleCustomer h

theorem Awake.start (h : c.Awake) : { c with starting := false }.handleCustomer.Awake :=
  .handleCustomer fun hstate => (h.bound hstate).keep (List.prefix_refl _) rfl

theorem bound_timeout (c : Customer) : c.timeout.Bound := .of_emit_done _

theorem Awake.timeout (c : Customer) : c.timeout.Awake where
  startable hnew := absurd hnew (by simp [Customer.timeout])
  bound _ := bound_timeout c

theorem Awake.step (h : c.Awake) (signal : Signal) : (c.step signal).Awake := by
  apply step_keeps signal h
  · intro _ _
    exact h.start
  · intro i datagram r _ _ _ _ _
    exact .handleCustomer fun hstate => ((h.bound hstate).setData i datagram).emit _
  · intro i datagram
    exact ⟨h.startable, fun hstate => (h.bound hstate).setData i datagram⟩
  · intro bytes buffer _ _ _
    exact .handleCustomer fun hstate => (h.bound hstate).keep (List.prefix_refl _) rfl
  · exact .timeout c

theorem awake_new (customerID : Qt.QString) : (new customerID).Awake where
  startable _ := ⟨rfl, rfl⟩
  bound hstate := absurd rfl hstate

theorem awake_run (customerID : Qt.QString) (signals : List Signal) :
    (run signals (new customerID)).Awake :=
  List.foldlRecOn signals Customer.step (awake_new customerID) fun _ h signal _ => h.step signal

theorem step_state_ne (h : c.state ≠ .newCustomer) (signal : Signal) :
    (c.step signal).state ≠ .newCustomer := by
  apply step_keeps (P := fun d => d.state ≠ .newCustomer) signal h
  · intro _ _
    exact handleCustomer_state_ne _
  · intro i datagram r _ _ _ _ _
    exact handleCustomer_state_ne _
  · intro i datagram
    exact h
  · intro bytes buffer _ _ _
    exact handleCustomer_state_ne _
  · simp [Customer.timeout]

theorem Awake.start_state_ne (h : c.Awake) : (c.step .start).state ≠ .newCustomer := by
  by_cases hnew : c.state = .newCustomer
  · obtain ⟨hstarting, hfaulted⟩ := h.startable hnew
    simp only [Customer.step, hfaulted, hstarting]
    exact handleCustomer_state_ne _
  · exact step_state_ne hnew .start

theorem run_state_ne {customerID : Qt.QString} {signals : List Signal} (h : .start ∈ signals) :
    (run signals (new customerID)).state ≠ .newCustomer := by
  obtain ⟨before, after, rfl⟩ := List.append_of_mem h
  have hstart := (awake_run customerID before).start_state_ne
  rw [run, List.foldl_append, List.foldl_cons]
  exact List.foldlRecOn (motive := fun d => d.state ≠ .newCustomer) after step hstart
    fun _ hne signal _ => step_state_ne hne signal

/-- Once its single shot has come, a customer is done or its timer runs after every event; and the
timer's own event makes it done. -/
theorem done_or_timer_runs (customerID : Qt.QString) (signals : List Signal)
    (hstarted : .start ∈ signals) :
    ((run signals (new customerID)).Finished ∨ (run signals (new customerID)).TimerRuns) ∧
      ((run signals (new customerID)).faulted = false →
        ((run signals (new customerID)).step .timeout).Finished) := by
  refine ⟨(awake_run customerID signals).bound (run_state_ne hstarted), fun hfault => ?_⟩
  rw [step, hfault, if_neg Bool.false_ne_true]
  exact finished_emit_done _

theorem done_or_timer_runs_supplied :
    Signal.start ∈ [Signal.start, .replyReadyRead 0 [0x42, 0x53, 8, 0, 2, 0, 0, 0x03]] ∧
      ((run [.start, .replyReadyRead 0 [0x42, 0x53, 8, 0, 2, 0, 0, 0x03]] (new [0x31])).Finished ∨
        (run [.start, .replyReadyRead 0 [0x42, 0x53, 8, 0, 2, 0, 0, 0x03]] (new [0x31])).TimerRuns) :=
  ⟨List.mem_cons_self, (done_or_timer_runs [0x31] _ List.mem_cons_self).1⟩

end Customer

end Alko.Alkod
