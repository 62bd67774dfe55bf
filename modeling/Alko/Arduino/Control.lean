import Alko.Arduino.Dixie
import Alko.Foundation.Run

/-! The control automaton of the machine: what is left of `Dixie` when display, timers, sensors
and serial frames count only through what they report. Every function of the machine is an
operation of the automaton. -/

namespace Alko.Arduino

def Event.isTx : Event → Bool
  | .tx _ => true
  | _ => false

@[ext] structure Control where
  previousState : State
  currentState : State
  nextState : State
  enterState : State
  updateState : State
  exitState : State
  deployId : UInt16
  deployColumn : ℕ
  poweredPins : List ℕ
  events : List Event

structure Readings where
  -- The state's timer is due; in READY, the ping timer and no PONG came.
  due : Bool
  home : Bool
  late : Bool

namespace Control

@[simps] def emit (e : Event) (c : Control) : Control := { c with events := c.events ++ [e] }

@[simps] def setNextState (state : State) (c : Control) : Control := { c with nextState := state }

@[simps] def setDeployColumn (column : ℕ) (c : Control) : Control :=
  { c with deployColumn := column }

@[simps] def setDeployId (id : UInt16) (c : Control) : Control := { c with deployId := id }

@[simps!] def powerOff (c : Control) : Control :=
  { c with poweredPins := [] }.emit (.powerOff c.currentState)

@[simps!] def powerOn (column : ℕ) (c : Control) : Control :=
  { c with poweredPins := if 1 ≤ column ∧ column ≤ 9 then [Narco.motorPin column] else [] }.emit
    (.powerOn c.currentState column)

def enterAutoHome (c : Control) : Control :=
  if c.previousState ≠ .prepareAutoHome ∧ c.previousState ≠ .autoHome then
    (c.emit .autoHomeRefused).setNextState .service
  else c.powerOn c.deployColumn

/-- `column` is what `getDeployColumn` returns to `enterDeployState`. -/
def enter (column : ℕ) (c : Control) : Control :=
  match c.enterState with
  | .service => c.powerOff
  | .prepareReady => c.powerOff
  | .deployError => c.powerOff
  | .deploy =>
    if column = 0 then (c.setDeployColumn column).setNextState .prepareReady
    else (c.setDeployColumn column).powerOn column
  | .autoHome => c.enterAutoHome
  | _ => c

def exit (c : Control) : Control :=
  match c.exitState with
  | .deploy => c.powerOff.setDeployId 0
  | .autoHome => c.powerOff
  | _ => c

def dueState (r : Readings) (state : State) (c : Control) : Control :=
  if r.due then c.setNextState state else c

def readHome (r : Readings) (c : Control) : Control :=
  c.emit (.readHome c.currentState c.deployColumn r.home)

def update (r : Readings) (c : Control) : Control :=
  match c.updateState with
  | .service => c
  | .prepareReady => c.dueState r .ready
  | .ready => c.dueState r .readyWait
  | .readyWait => c
  | .deploy =>
    if r.due then
      if r.home then (c.readHome r).setNextState .prepareReady
      else if r.late then (c.readHome r).setNextState .deployError
      else c.readHome r
    else c
  | .deployError => c.dueState r .deploy
  | .prepareAutoHome => if r.due then (c.setDeployColumn 1).setNextState .autoHome else c
  | .autoHome =>
    if 9 < c.deployColumn then c.setNextState .service
    else if r.home ∨ r.late then
      ((c.readHome r).powerOff.setDeployColumn ((c.deployColumn + 1) % 256)).enterAutoHome
    else c.readHome r
  | .info => c.dueState r .ready

@[simps] def become (c : Control) : Control :=
  { c with
    previousState := c.currentState
    currentState := c.nextState
    enterState := c.nextState
    updateState := c.nextState
    exitState := c.nextState
    events := c.events ++ [.switched c.currentState c.nextState] }

def switch (column : ℕ) (c : Control) : Control := c.exit.become.enter column

/-- A request that was handled: the state it was accepted for, if any. -/
@[simps] def handle (accepted : Option State) (dgr : Datagram) (c : Control) : Control :=
  { c with
    nextState := accepted.getD (if c.currentState = .readyWait then .ready else c.nextState)
    deployId := if accepted = some .deploy then dgr.id else c.deployId
    events := c.events ++ .handled c.currentState dgr ::
      (if accepted = some .deploy then [.fetchAccepted dgr.id] else []) }

theorem handle_some {state : State} (h : state ≠ .deploy) (dgr : Datagram) (c : Control) :
    c.handle (some state) dgr = (c.handle none dgr).setNextState state := by
  simp only [handle, Option.some.injEq, if_neg h]
  rfl

theorem handle_deploy (dgr : Datagram) (c : Control) :
    c.handle (some .deploy) dgr =
      (((c.handle none dgr).setDeployId dgr.id).emit (.fetchAccepted dgr.id)).setNextState
        .deploy := by
  simp [handle, emit, setNextState]

def receive (handled : Option (Option State × Datagram)) (c : Control) : Control :=
  match handled with
  | some (accepted, dgr) => c.handle accepted dgr
  | none => c

/-- One pass of the event loop; `handled` is the datagram that was handled and what it was
accepted for, `column` what `enterDeployState` would find. -/
def pass (handled : Option (Option State × Datagram)) (r : Readings) (column : ℕ) (c : Control) :
    Control :=
  let c := (c.receive handled).update r
  if c.currentState ≠ c.nextState then c.switch column else c

def force (column : ℕ) (c : Control) : Control :=
  if c.currentState ≠ .service then (c.setNextState .service).switch column else c

inductive Admits : State → State → Prop
  | service {current} (h : current ≠ .service) : Admits current .service
  | prepareReady {current} : Admits current .prepareReady
  | prepareAutoHome : Admits .service .prepareAutoHome
  | info : Admits .ready .info
  | deploy : Admits .ready .deploy

def Admissible (handled : Option (Option State × Datagram)) (c : Control) : Prop :=
  ∀ state dgr, handled = some (some state, dgr) → Admits c.currentState state

inductive Step : Control → Control → Prop
  | pass {c} (handled r column) (admits : c.Admissible handled) (le : column ≤ 9) :
      Step c (c.pass handled r column)
  | force {c} (column) (le : column ≤ 9) : Step c (c.force column)

def initial (column : ℕ) : Control where
  previousState := .service
  currentState := .service
  nextState := .service
  enterState := .service
  updateState := .service
  exitState := .service
  deployId := 0
  deployColumn := column
  poweredPins := []
  events := [.powerOff .service]

/-- The state that the update function of the current state asks for, if it asks for one. -/
def expiry (r : Readings) (c : Control) : Option State :=
  match c.currentState with
  | .service => none
  | .prepareReady => if r.due then some .ready else none
  | .ready => if r.due then some .readyWait else none
  | .readyWait => none
  | .deploy =>
    if r.due then
      if r.home then some .prepareReady
      else if r.late then some .deployError
      else none
    else none
  | .deployError => if r.due then some .deploy else none
  | .prepareAutoHome => if r.due then some .autoHome else none
  | .autoHome => if 9 < c.deployColumn then some .service else none
  | .info => if r.due then some .ready else none

def successors : State → List State
  | .service => [.prepareReady, .prepareAutoHome]
  | .prepareReady => [.ready, .service]
  | .ready => [.readyWait, .deploy, .info, .prepareReady, .service]
  | .readyWait => [.ready, .prepareReady, .service]
  | .deploy => [.prepareReady, .deployError, .service]
  | .deployError => [.deploy, .prepareReady, .service]
  | .prepareAutoHome => [.autoHome, .prepareReady, .service]
  | .autoHome => [.prepareReady, .service]
  | .info => [.ready, .prepareReady, .service]

theorem expiry_mem_successors {r : Readings} {c : Control} {state : State}
    (h : c.expiry r = some state) : state ∈ successors c.currentState := by
  unfold expiry at h
  cases hs : c.currentState <;> simp only [hs] at h <;> (try split_ifs at h) <;> cases h <;> decide

theorem service_mem_successors {current : State} (h : current ≠ .service) :
    .service ∈ successors current := by
  cases current <;> simp_all [successors]

theorem before_deploy {state : State} (h : .deploy ∈ successors state) :
    state = .ready ∨ state = .deployError := by
  cases state <;> revert h <;> decide

theorem Admits.mem_successors {current state : State} (h : Admits current state) :
    state = current ∨ state ∈ successors current := by
  cases h with
  | service h => exact Or.inr (service_mem_successors h)
  | prepareReady => cases current <;> simp [successors]
  | prepareAutoHome => simp [successors]
  | info => simp [successors]
  | deploy => simp [successors]

def motor (state : State) (column : ℕ) : List ℕ :=
  if (state = .deploy ∨ state = .autoHome) ∧ 1 ≤ column ∧ column ≤ 9 then [Narco.motorPin column]
  else []

/-- What holds at any moment of a pass but inside an exit or enter function. -/
structure Coherent (c : Control) : Prop where
  enterState_eq : c.enterState = c.currentState
  updateState_eq : c.updateState = c.currentState
  exitState_eq : c.exitState = c.currentState
  column_le : c.currentState = .deploy → c.deployColumn ≤ 9
  homing : c.currentState = .autoHome →
    c.previousState = .prepareAutoHome ∧ 1 ≤ c.deployColumn ∧ c.deployColumn ≤ 10
  powered : c.poweredPins = motor c.currentState c.deployColumn
  id_eq : c.currentState = .deployError → c.deployId = 0

/-- Between two calls no switch is pending, but for the DEPLOY that found no column. -/
structure Settled (c : Control) : Prop extends c.Coherent where
  next_eq : c.nextState =
    if c.currentState = .deploy ∧ c.deployColumn = 0 then .prepareReady else c.currentState

theorem Coherent.handle {c : Control} (h : c.Coherent) {accepted : Option State}
    (admits : ∀ state, accepted = some state → Admits c.currentState state) (dgr : Datagram) :
    (c.handle accepted dgr).Coherent where
  enterState_eq := h.enterState_eq
  updateState_eq := h.updateState_eq
  exitState_eq := h.exitState_eq
  column_le := h.column_le
  homing := h.homing
  powered := h.powered
  id_eq := by
    intro hcur
    have hdeploy : accepted ≠ some .deploy := by
      intro hacc
      cases hcur ▸ admits _ hacc
    rw [handle_deployId, if_neg hdeploy]
    exact h.id_eq hcur

theorem Coherent.setNextState {c : Control} (h : c.Coherent) (state : State) :
    (c.setNextState state).Coherent :=
  ⟨h.enterState_eq, h.updateState_eq, h.exitState_eq, h.column_le, h.homing, h.powered, h.id_eq⟩

theorem Coherent.emit {c : Control} (h : c.Coherent) (e : Event) : (c.emit e).Coherent :=
  ⟨h.enterState_eq, h.updateState_eq, h.exitState_eq, h.column_le, h.homing, h.powered, h.id_eq⟩

def updateEvents (r : Readings) (c : Control) : List Event :=
  match c.currentState with
  | .deploy => if r.due then [.readHome .deploy c.deployColumn r.home] else []
  | .autoHome =>
    if 9 < c.deployColumn then []
    else .readHome .autoHome c.deployColumn r.home ::
      if r.home ∨ r.late then
        [.powerOff .autoHome, .powerOn .autoHome ((c.deployColumn + 1) % 256)]
      else []
  | _ => []

structure Updated (r : Readings) (c c' : Control) : Prop where
  coherent : c'.Coherent
  currentState_eq : c'.currentState = c.currentState
  nextState_eq : c'.nextState = (c.expiry r).getD c.nextState
  deployId_eq : c'.deployId = c.deployId
  column_eq : c.currentState ≠ .prepareAutoHome → c.currentState ≠ .autoHome →
    c'.deployColumn = c.deployColumn
  start : c.currentState = .prepareAutoHome → c.expiry r = some .autoHome → c'.deployColumn = 1
  events_eq : c'.events = c.events ++ c.updateEvents r

theorem Coherent.updated_self {c : Control} (h : c.Coherent) {r : Readings}
    (hexp : c.expiry r = none) (hevents : c.updateEvents r = []) : Updated r c c where
  coherent := h
  currentState_eq := rfl
  nextState_eq := by rw [hexp]; rfl
  deployId_eq := rfl
  column_eq _ _ := rfl
  start _ hstart := by rw [hexp] at hstart; cases hstart
  events_eq := by rw [hevents, List.append_nil]

theorem Coherent.updated_setNextState {c : Control} (h : c.Coherent) {r : Readings} {state : State}
    (hne : c.currentState ≠ .prepareAutoHome) (hexp : c.expiry r = some state)
    (hevents : c.updateEvents r = []) : Updated r c (c.setNextState state) where
  coherent := h.setNextState state
  currentState_eq := rfl
  nextState_eq := by rw [hexp]; rfl
  deployId_eq := rfl
  column_eq _ _ := rfl
  start hstart := absurd hstart hne
  events_eq := by rw [hevents, List.append_nil]; rfl

theorem Coherent.updated_dueState {c : Control} (h : c.Coherent) {r : Readings} {state : State}
    (hne : c.currentState ≠ .prepareAutoHome)
    (hexp : c.expiry r = if r.due then some state else none) (hevents : c.updateEvents r = []) :
    Updated r c (c.dueState r state) := by
  unfold dueState
  split
  · rename_i hdue
    exact h.updated_setNextState hne (by rw [hexp, if_pos hdue]) hevents
  · rename_i hdue
    exact h.updated_self (by rw [hexp, if_neg hdue]) hevents

theorem Coherent.updated_deploy {c : Control} (h : c.Coherent) (r : Readings)
    (hcur : c.currentState = .deploy) : Updated r c (c.update r) := by
  have hup : c.updateState = .deploy := h.updateState_eq.trans hcur
  by_cases hdue : r.due = true
  · have hread : ∀ c', c'.Coherent → c'.currentState = c.currentState →
        c'.nextState = (c.expiry r).getD c.nextState → c'.deployId = c.deployId →
        c'.deployColumn = c.deployColumn → c'.events = (c.readHome r).events → Updated r c c' := by
      intro c' hc hcur' hnext hid hcol hev
      refine ⟨hc, hcur', hnext, hid, fun _ _ => hcol, by simp [hcur], ?_⟩
      rw [hev]
      simp only [updateEvents, hcur, if_pos hdue, readHome]
      rfl
    simp only [update, hup, if_pos hdue]
    have hcoh : (c.readHome r).Coherent := h.emit _
    split_ifs with hhome hlate
    · exact hread _ (hcoh.setNextState _) rfl (by simp [expiry, hcur, hdue, hhome]) rfl rfl rfl
    · exact hread _ (hcoh.setNextState _) rfl (by simp [expiry, hcur, hdue, hhome, hlate]) rfl rfl
        rfl
    · exact hread _ hcoh rfl (by simp [expiry, hcur, hdue, hhome, hlate, readHome]) rfl rfl rfl
  · simp only [update, hup, if_neg hdue]
    exact h.updated_self (by simp [expiry, hcur, hdue]) (by simp [updateEvents, hcur, hdue])

theorem Coherent.updated_homing {c c' : Control} (hc : c'.Coherent) {r : Readings}
    (hcur : c.currentState = .autoHome) (hexp : c.expiry r = none)
    (hcur' : c'.currentState = c.currentState) (hnext : c'.nextState = c.nextState)
    (hid : c'.deployId = c.deployId) (hevents : c'.events = c.events ++ c.updateEvents r) :
    Updated r c c' where
  coherent := hc
  currentState_eq := hcur'
  nextState_eq := by rw [hexp]; exact hnext
  deployId_eq := hid
  column_eq _ hne := absurd hcur hne
  start hstart := by rw [hcur] at hstart; cases hstart
  events_eq := hevents

theorem Coherent.homed {c : Control} (h : c.Coherent) (r : Readings)
    (hcur : c.currentState = .autoHome) (hmore : c.deployColumn ≤ 9) :
    (((c.readHome r).powerOff.setDeployColumn (c.deployColumn + 1)).powerOn
      (c.deployColumn + 1)).Coherent where
  enterState_eq := h.enterState_eq
  updateState_eq := h.updateState_eq
  exitState_eq := h.exitState_eq
  column_le hdep := by cases hcur.symm.trans hdep
  homing _ := ⟨(h.homing hcur).1, Nat.succ_pos _, Nat.succ_le_succ hmore⟩
  powered := by simp [motor, hcur, readHome]
  id_eq := h.id_eq

theorem Coherent.updated_autoHome {c : Control} (h : c.Coherent) (r : Readings)
    (hcur : c.currentState = .autoHome) : Updated r c (c.update r) := by
  have hup : c.updateState = .autoHome := h.updateState_eq.trans hcur
  obtain ⟨hprev, hpos, hle⟩ := h.homing hcur
  simp only [update, hup]
  by_cases hdone : 9 < c.deployColumn
  · rw [if_pos hdone]
    exact h.updated_setNextState (by simp [hcur]) (by simp [expiry, hcur, hdone])
      (by simp [updateEvents, hcur, hdone])
  · have hexp : c.expiry r = none := by simp [expiry, hcur, hdone]
    rw [if_neg hdone]
    split_ifs with hmove
    · have hmod : (c.deployColumn + 1) % 256 = c.deployColumn + 1 := Nat.mod_eq_of_lt (by omega)
      -- the homing of the next column is entered without a switch; the guard lets it through
      have henter : ((c.readHome r).powerOff.setDeployColumn
          ((c.deployColumn + 1) % 256)).enterAutoHome =
          ((c.readHome r).powerOff.setDeployColumn ((c.deployColumn + 1) % 256)).powerOn
            ((c.deployColumn + 1) % 256) := by
        rw [enterAutoHome, if_neg (fun hguard => hguard.1 hprev)]
        rfl
      rw [henter, hmod]
      apply Coherent.updated_homing (h.homed r hcur (Nat.not_lt.mp hdone)) hcur hexp rfl rfl rfl
      simp [updateEvents, hcur, hdone, hmove, readHome, hmod]
    · apply Coherent.updated_homing (h.emit _) hcur hexp rfl rfl rfl
      simp [updateEvents, hcur, hdone, hmove]

theorem Coherent.updated_prepareAutoHome {c : Control} (h : c.Coherent) (r : Readings)
    (hcur : c.currentState = .prepareAutoHome) : Updated r c (c.update r) := by
  have hup : c.updateState = .prepareAutoHome := h.updateState_eq.trans hcur
  have hevents : c.updateEvents r = [] := by simp [updateEvents, hcur]
  simp only [update, hup]
  split_ifs with hdue
  · have hexp : c.expiry r = some .autoHome := by simp [expiry, hcur, hdue]
    exact
      { coherent :=
          { enterState_eq := h.enterState_eq
            updateState_eq := h.updateState_eq
            exitState_eq := h.exitState_eq
            column_le := fun _ => by simp
            homing := by simp [hcur]
            powered := by simpa [motor, hcur] using h.powered
            id_eq := h.id_eq }
        currentState_eq := rfl
        nextState_eq := by rw [hexp]; rfl
        deployId_eq := rfl
        column_eq := fun hne => absurd hcur hne
        start := fun _ _ => rfl
        events_eq := by rw [hevents, List.append_nil]; rfl }
  · exact h.updated_self (by simp [expiry, hcur, hdue]) hevents

theorem Coherent.updated {c : Control} (h : c.Coherent) (r : Readings) :
    Updated r c (c.update r) := by
  have hup := h.updateState_eq
  cases hcur : c.currentState with
  -- only DEPLOY and the two homing states do more than wait for a timer
  | service =>
    simp only [update, hup, hcur]
    exact h.updated_self (by simp [expiry, hcur]) (by simp [updateEvents, hcur])
  | prepareReady =>
    simp only [update, hup, hcur]
    exact h.updated_dueState (by simp [hcur]) (by simp [expiry, hcur]) (by simp [updateEvents, hcur])
  | ready =>
    simp only [update, hup, hcur]
    exact h.updated_dueState (by simp [hcur]) (by simp [expiry, hcur]) (by simp [updateEvents, hcur])
  | readyWait =>
    simp only [update, hup, hcur]
    exact h.updated_self (by simp [expiry, hcur]) (by simp [updateEvents, hcur])
  | deploy => exact h.updated_deploy r hcur
  | deployError =>
    simp only [update, hup, hcur]
    exact h.updated_dueState (by simp [hcur]) (by simp [expiry, hcur]) (by simp [updateEvents, hcur])
  | prepareAutoHome => exact h.updated_prepareAutoHome r hcur
  | autoHome => exact h.updated_autoHome r hcur
  | info =>
    simp only [update, hup, hcur]
    exact h.updated_dueState (by simp [hcur]) (by simp [expiry, hcur]) (by simp [updateEvents, hcur])

def exitEvents : State → List Event
  | .deploy => [.powerOff .deploy]
  | .autoHome => [.powerOff .autoHome]
  | _ => []

def enterEvents (state : State) (column : ℕ) : List Event :=
  match state with
  | .service => [.powerOff .service]
  | .prepareReady => [.powerOff .prepareReady]
  | .deployError => [.powerOff .deployError]
  | .deploy => if column = 0 then [] else [.powerOn .deploy column]
  | .autoHome => [.powerOn .autoHome column]
  | _ => []

def columnAfter (column : ℕ) (c : Control) : ℕ :=
  if c.nextState = .deploy then column else c.deployColumn

structure Switched (column : ℕ) (c c' : Control) : Prop where
  settled : c'.Settled
  currentState_eq : c'.currentState = c.nextState
  deployColumn_eq : c'.deployColumn = c.columnAfter column
  deployId_eq : c'.deployId = if c.currentState = .deploy then 0 else c.deployId
  events_eq : c'.events = c.events ++ exitEvents c.currentState ++
    .switched c.currentState c.nextState :: enterEvents c.nextState (c.columnAfter column)

/-- Whatever the state, its exit function leaves all motors off. -/
@[simps] def exited (c : Control) : Control :=
  { c with
    deployId := if c.currentState = .deploy then 0 else c.deployId
    poweredPins := []
    events := c.events ++ exitEvents c.currentState }

theorem Coherent.exit_eq {c : Control} (h : c.Coherent) : c.exit = c.exited := by
  have hpins := h.powered
  have hexit := h.exitState_eq
  cases hcur : c.currentState <;> rw [hcur] at hexit hpins <;> simp only [exit, hexit] <;> ext1 <;>
    simp_all [exited, exitEvents, motor]

theorem enter_become_eq {c : Control} (hpins : c.poweredPins = [])
    (hhome : c.nextState = .autoHome → c.currentState = .prepareAutoHome) (column : ℕ) :
    c.become.enter column = { c.become with
      nextState :=
        if c.nextState = .deploy ∧ c.columnAfter column = 0 then .prepareReady else c.nextState
      deployColumn := c.columnAfter column
      poweredPins := motor c.nextState (c.columnAfter column)
      events := c.become.events ++ enterEvents c.nextState (c.columnAfter column) } := by
  cases hn : c.nextState with
  | deploy =>
    simp only [enter, become_enterState, hn, columnAfter, enterEvents, true_and, if_true]
    split_ifs with hzero
    · ext1 <;> simp [motor, hpins, hzero, hn]
    · ext1 <;> simp [motor, hn]
  | autoHome =>
    have hguard := hhome hn
    simp only [enter, become_enterState, hn, enterAutoHome, become_previousState, hguard,
      columnAfter, enterEvents]
    ext1 <;> simp [motor, hn, hguard]
  | _ =>
    simp only [enter, become_enterState, hn, columnAfter, enterEvents]
    ext1 <;> simp [motor, hn, hpins]

theorem Coherent.switched {c : Control} (h : c.Coherent)
    (hnext : c.nextState ∈ successors c.currentState)
    (hstart : c.nextState = .autoHome → c.deployColumn = 1) {column : ℕ} (hcol : column ≤ 9) :
    Switched column c (c.switch column) := by
  have hhome : c.nextState = .autoHome → c.currentState = .prepareAutoHome := by
    intro hhome
    cases hcur : c.currentState <;> simp_all [successors]
  have herror : c.nextState = .deployError → c.currentState = .deploy := by
    intro herror
    cases hcur : c.currentState <;> simp_all [successors]
  unfold switch
  rw [h.exit_eq, enter_become_eq c.exited_poweredPins hhome column]
  exact
    { settled :=
        { enterState_eq := rfl
          updateState_eq := rfl
          exitState_eq := rfl
          column_le := fun hdep => by simpa [columnAfter, show c.nextState = .deploy from hdep]
          homing := fun hah => by
            have hn : c.nextState = .autoHome := hah
            refine ⟨hhome hn, ?_⟩
            simp [columnAfter, hn, hstart hn]
          powered := rfl
          id_eq := fun he => by simp [herror he]
          next_eq := rfl }
      currentState_eq := rfl
      deployColumn_eq := rfl
      deployId_eq := rfl
      events_eq := by simp [columnAfter] }

def awaited (handled : Option (Option State × Datagram)) (c : Control) : State :=
  (c.receive handled).nextState

def resolve (handled : Option (Option State × Datagram)) (r : Readings) (c : Control) : State :=
  (c.expiry r).getD (c.awaited handled)

def handledEvents (handled : Option (Option State × Datagram)) (state : State) : List Event :=
  match handled with
  | some (accepted, dgr) =>
    .handled state dgr :: if accepted = some .deploy then [.fetchAccepted dgr.id] else []
  | none => []

section Receive

variable (handled : Option (Option State × Datagram)) (c : Control)

@[simp] theorem receive_currentState : (c.receive handled).currentState = c.currentState := by
  cases handled <;> rfl

@[simp] theorem receive_deployColumn : (c.receive handled).deployColumn = c.deployColumn := by
  cases handled <;> rfl

@[simp] theorem receive_expiry (r : Readings) : (c.receive handled).expiry r = c.expiry r := by
  cases handled <;> rfl

@[simp] theorem receive_updateEvents (r : Readings) :
    (c.receive handled).updateEvents r = c.updateEvents r := by
  cases handled <;> rfl

@[simp] theorem receive_events :
    (c.receive handled).events = c.events ++ handledEvents handled c.currentState := by
  cases handled with
  | none => exact (List.append_nil _).symm
  | some p => rfl

end Receive

variable {c : Control} {handled : Option (Option State × Datagram)} {r : Readings} {column : ℕ}

theorem Coherent.receive (h : c.Coherent) (admits : c.Admissible handled) :
    (c.receive handled).Coherent := by
  cases handled with
  | none => exact h
  | some p => exact h.handle (fun state hs => admits state p.2 (by rw [← hs])) p.2

theorem awaited_cases (admits : c.Admissible handled) :
    c.awaited handled = c.nextState ∨
      (c.currentState = .readyWait ∧ c.awaited handled = .ready) ∨
      Admits c.currentState (c.awaited handled) := by
  match handled, admits with
  | none, _ => exact Or.inl rfl
  | some (some state, dgr), admits => exact Or.inr (Or.inr (admits state dgr rfl))
  | some (none, dgr), _ =>
    by_cases hwait : c.currentState = .readyWait
    · exact Or.inr (Or.inl ⟨hwait, if_pos hwait⟩)
    · exact Or.inl (if_neg hwait)

theorem accepted_of_awaited (hnext : c.nextState = c.currentState)
    (hwait : c.currentState ≠ .readyWait) (hne : c.awaited handled ≠ c.currentState) :
    handled.bind Prod.fst = some (c.awaited handled) := by
  match handled with
  | none => exact absurd hnext hne
  | some (some state, dgr) => rfl
  | some (none, dgr) => exact absurd ((if_neg hwait).trans hnext) hne

theorem Settled.next_eq_current (h : c.Settled) (hcur : c.currentState ≠ .deploy) :
    c.nextState = c.currentState := by
  rw [h.next_eq, if_neg fun hdep => hcur hdep.1]

theorem Settled.accepted_of_resolve_deploy (h : c.Settled) (hcur : c.currentState = .ready)
    (hres : c.resolve handled r = .deploy) : handled.bind Prod.fst = some .deploy := by
  have hexp : c.expiry r = none ∨ c.expiry r = some .readyWait := by
    simp only [expiry, hcur]
    split_ifs
    · exact Or.inr rfl
    · exact Or.inl rfl
  unfold resolve at hres
  rcases hexp with hexp | hexp <;> rw [hexp] at hres
  · rw [← show c.awaited handled = .deploy from hres]
    apply accepted_of_awaited (h.next_eq_current (by simp [hcur])) (by simp [hcur])
    rw [show c.awaited handled = .deploy from hres, hcur]
    decide
  · cases hres

theorem Settled.awaited_mem (h : c.Settled) (admits : c.Admissible handled) :
    c.awaited handled = c.currentState ∨ c.awaited handled ∈ successors c.currentState := by
  rcases awaited_cases admits with hnext | ⟨hwait, hready⟩ | hadmits
  · rw [hnext, h.next_eq]
    split_ifs with hdep
    · exact Or.inr (by rw [hdep.1]; decide)
    · exact Or.inl rfl
  · exact Or.inr (by rw [hwait, hready]; decide)
  · exact hadmits.mem_successors

theorem Settled.resolve_mem (h : c.Settled) (admits : c.Admissible handled) :
    c.resolve handled r = c.currentState ∨ c.resolve handled r ∈ successors c.currentState := by
  unfold resolve
  cases hexp : c.expiry r with
  | none => exact h.awaited_mem admits
  | some state => exact Or.inr (expiry_mem_successors hexp)

theorem Settled.resolve_ne (h : c.Settled) (admits : c.Admissible handled)
    (hcur : c.currentState = .deploy) (hcol : c.deployColumn = 0) :
    c.resolve handled r ≠ .deploy := by
  unfold resolve
  intro hres
  cases hexp : c.expiry r with
  | some state =>
    rw [hexp, Option.getD_some] at hres
    have hmem := expiry_mem_successors hexp
    rw [hres, hcur] at hmem
    exact absurd hmem (by decide)
  | none =>
    rw [hexp, Option.getD_none] at hres
    -- PREPARE_READY was named on entry, and no request leads from DEPLOY to DEPLOY
    rcases awaited_cases admits with hnext | ⟨hwait, -⟩ | hadmits
    · rw [hres, h.next_eq, if_pos ⟨hcur, hcol⟩] at hnext
      cases hnext
    · rw [hcur] at hwait
      cases hwait
    · rw [hcur, hres] at hadmits
      cases hadmits

theorem Settled.expiry_of_resolve_autoHome (h : c.Settled) (admits : c.Admissible handled)
    (hcur : c.currentState ≠ .autoHome) (hres : c.resolve handled r = .autoHome) :
    c.currentState = .prepareAutoHome ∧ c.expiry r = some .autoHome := by
  unfold resolve at hres
  cases hexp : c.expiry r with
  | some state =>
    rw [hexp, Option.getD_some] at hres
    subst hres
    have hmem := expiry_mem_successors hexp
    refine ⟨?_, rfl⟩
    cases hc : c.currentState <;> simp_all [successors]
  | none =>
    rw [hexp, Option.getD_none] at hres
    -- the handler accepts nothing for AUTO_HOME
    rcases awaited_cases admits with hnext | ⟨-, hready⟩ | hadmits
    · rw [hres, h.next_eq] at hnext
      split_ifs at hnext
      exact absurd hnext.symm hcur
    · rw [hres] at hready
      cases hready
    · rw [hres] at hadmits
      generalize c.currentState = current at hadmits
      cases hadmits

theorem Settled.start_column (h : c.Settled) (admits : c.Admissible handled) {mid : Control}
    (hup : Updated r (c.receive handled) mid) (hcur : c.resolve handled r ≠ c.currentState)
    (hres : c.resolve handled r = .autoHome) : mid.deployColumn = 1 := by
  have hne : c.currentState ≠ .autoHome := by
    intro hc
    exact hcur (hres.trans hc.symm)
  obtain ⟨hprepare, hexp⟩ := h.expiry_of_resolve_autoHome admits hne hres
  apply hup.start
  · rw [receive_currentState, hprepare]
  · rw [receive_expiry, hexp]

/-- A pass handles, updates, and switches exactly if the state decided on is another one. -/
theorem Settled.pass_cases (h : c.Settled) (admits : c.Admissible handled) (hcol : column ≤ 9) :
    ∃ mid, Updated r (c.receive handled) mid ∧ mid.nextState = c.resolve handled r ∧
      ((c.resolve handled r = c.currentState ∧ c.pass handled r column = mid ∧ mid.Settled) ∨
        (c.resolve handled r ≠ c.currentState ∧
          c.resolve handled r ∈ successors c.currentState ∧
          Switched column mid (c.pass handled r column))) := by
  have hup := (h.toCoherent.receive admits).updated r
  set mid := (c.receive handled).update r with hmid
  have hcur : mid.currentState = c.currentState := hup.currentState_eq.trans (receive_currentState ..)
  have hnext : mid.nextState = c.resolve handled r := by
    rw [hup.nextState_eq, receive_expiry]
    rfl
  have hpass : c.pass handled r column =
      if mid.currentState ≠ mid.nextState then mid.switch column else mid := rfl
  refine ⟨mid, hup, hnext, ?_⟩
  rw [hpass, hcur, hnext]
  by_cases hstay : c.resolve handled r = c.currentState
  · refine Or.inl ⟨hstay, if_neg (not_not.mpr hstay.symm), { hup.coherent with next_eq := ?_ }⟩
    rw [hnext, hstay, hcur, if_neg]
    rintro ⟨hdep, hzero⟩
    rw [hup.column_eq (by simp [hdep]) (by simp [hdep]), receive_deployColumn] at hzero
    exact h.resolve_ne admits hdep hzero (hstay.trans hdep)
  · have hmem := (h.resolve_mem (r := r) admits).resolve_left hstay
    refine Or.inr ⟨hstay, hmem, ?_⟩
    rw [if_pos (Ne.symm hstay)]
    refine hup.coherent.switched (by rw [hnext, hcur]; exact hmem) (fun hhome => ?_) hcol
    rw [hnext] at hhome
    exact h.start_column admits hup hstay hhome

theorem Settled.force (h : c.Settled) (hcol : column ≤ 9) :
    (c.currentState = .service ∧ c.force column = c) ∨
      (c.currentState ≠ .service ∧
        Switched column (c.setNextState .service) (c.force column)) := by
  by_cases hcur : c.currentState = .service
  · exact Or.inl ⟨hcur, if_neg (not_not.mpr hcur)⟩
  · refine Or.inr ⟨hcur, ?_⟩
    rw [Control.force, if_pos hcur]
    refine (h.toCoherent.setNextState _).switched ?_ (by simp) hcol
    exact service_mem_successors hcur

def switchEvents (old new : State) (column : ℕ) : List Event :=
  exitEvents old ++ .switched old new :: enterEvents new (if new = .deploy then column else 1)

theorem Switched.events {mid c' : Control} (h : Switched column mid c')
    (hstart : mid.nextState = .autoHome → mid.deployColumn = 1) :
    c'.events = mid.events ++ switchEvents mid.currentState mid.nextState column := by
  rw [h.events_eq, switchEvents, List.append_assoc, columnAfter]
  cases hn : mid.nextState <;> simp [enterEvents, hstart, hn]

theorem Settled.pass_events (h : c.Settled) (admits : c.Admissible handled) (hcol : column ≤ 9) :
    (c.pass handled r column).events =
      c.events ++ (handledEvents handled c.currentState ++ (c.updateEvents r ++
        if c.resolve handled r = c.currentState then []
        else switchEvents c.currentState (c.resolve handled r) column)) := by
  obtain ⟨mid, hup, hnext, ⟨hstay, hpass, -⟩ | ⟨hmove, -, hswitched⟩⟩ :=
    h.pass_cases (r := r) admits hcol
  · rw [hpass, if_pos hstay, hup.events_eq]
    simp
  · rw [if_neg hmove, hswitched.events, hup.events_eq, hup.currentState_eq, hnext]
    · simp
    · intro hhome
      rw [hnext] at hhome
      exact h.start_column admits hup hmove hhome

theorem Settled.pass_currentState (h : c.Settled) (admits : c.Admissible handled)
    (hcol : column ≤ 9) : (c.pass handled r column).currentState = c.resolve handled r := by
  obtain ⟨mid, hup, hnext, ⟨hstay, hpass, -⟩ | ⟨-, -, hswitched⟩⟩ :=
    h.pass_cases (r := r) admits hcol
  · rw [hpass, hup.currentState_eq, receive_currentState, hstay]
  · rw [hswitched.currentState_eq, hnext]

theorem Settled.pass_deployId (h : c.Settled) (admits : c.Admissible handled) (hcol : column ≤ 9)
    (hcur : c.currentState ≠ .deploy) (hdep : (c.pass handled r column).currentState = .deploy) :
    (c.pass handled r column).deployId = (c.receive handled).deployId := by
  obtain ⟨mid, hup, hnext, ⟨hstay, hpass, -⟩ | ⟨-, -, hswitched⟩⟩ :=
    h.pass_cases (r := r) admits hcol
  · rw [h.pass_currentState admits hcol] at hdep
    exact absurd (hstay.symm.trans hdep) hcur
  · rw [hswitched.deployId_eq, hup.currentState_eq, receive_currentState, if_neg hcur,
      hup.deployId_eq]

theorem Settled.force_currentState (h : c.Settled) (hcol : column ≤ 9) :
    (c.force column).currentState = .service := by
  rcases h.force hcol with ⟨hcur, hforce⟩ | ⟨-, hswitched⟩
  · rw [hforce, hcur]
  · exact hswitched.currentState_eq

theorem Settled.force_events (h : c.Settled) (hcol : column ≤ 9) :
    (c.force column).events = c.events ++
      if c.currentState = .service then [] else switchEvents c.currentState .service column := by
  rcases h.force hcol with ⟨hcur, hforce⟩ | ⟨hcur, hswitched⟩
  · rw [hforce, if_pos hcur, List.append_nil]
  · rw [if_neg hcur, hswitched.events (by simp)]
    rfl

theorem settled_initial (column : ℕ) : (initial column).Settled where
  enterState_eq := rfl
  updateState_eq := rfl
  exitState_eq := rfl
  column_le := nofun
  homing := nofun
  powered := rfl
  id_eq := nofun
  next_eq := rfl

theorem Settled.step {c' : Control} (h : c.Settled) (hstep : Step c c') : c'.Settled := by
  cases hstep with
  | pass handled r column admits hcol =>
    obtain ⟨mid, -, -, ⟨-, hpass, hmid⟩ | ⟨-, -, hswitched⟩⟩ :=
      h.pass_cases (r := r) admits hcol
    · exact hpass ▸ hmid
    · exact hswitched.settled
  | force column hcol =>
    rcases h.force hcol with ⟨-, hforce⟩ | ⟨-, hswitched⟩
    · exact hforce.symm ▸ h
    · exact hswitched.settled

def system : Foundation.TransitionSystem Control Unit where
  init c := ∃ column, c = initial column
  step c _ c' := Step c c'

theorem Settled.of_reachable (h : system.Reachable c) : c.Settled :=
  h.invariant (fun _ ⟨column, hc⟩ => hc ▸ settled_initial column) fun _ _ _ _ hc => hc.step

end Control

end Alko.Arduino
