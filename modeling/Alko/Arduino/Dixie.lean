import Mathlib.Tactic.Simps.Basic
import Alko.Arduino.Lcd
import Alko.Arduino.Narco
import Alko.Arduino.Network
import Alko.Arduino.Timer

/-! The machine's state machine: one pass of its event loop, its nine states and the handler of
the daemon's datagrams. -/

namespace Alko.Arduino

namespace Config

def narcoTimer : UInt32 := 1000
def pingTimer : UInt32 := 30000
def motorStartTimer : UInt32 := 3000
def motorRunTimer : UInt32 := 13000
def prepareReadyTimer : UInt32 := 3000
def deployErrorTimer : UInt32 := 5000
def prepareAutoHomeTimer : UInt32 := 10000
def infoTimer : UInt32 := 4000

end Config

inductive TimerId
  | ping | narco | prepareReady | motorStart | motorRun | deployError | prepareAutoHome | info
  deriving DecidableEq, Repr

/-- The values the successive calls of `millis()` return. -/
structure Clock where
  millis : ℕ → UInt32
  reads : ℕ

namespace Clock

def now (c : Clock) : UInt32 := c.millis c.reads

@[simps] def tick (c : Clock) : Clock := { c with reads := c.reads + 1 }

end Clock

/-- What a run of the machine does, in order; no function of the machine reads it. A state in an
event is the current state at that moment. -/
inductive Event
  | tx (dgr : Datagram)
  | handled (state : State) (dgr : Datagram)
  | fetchAccepted (id : UInt16)
  | readHome (state : State) (column : ℕ) (home : Bool)
  | powerOn (state : State) (column : ℕ)
  | powerOff (state : State)
  | switched (old new : State)
  | autoHomeRefused
  deriving DecidableEq

structure Dixie where
  lcd : LCD
  narco : Narco
  network : Network
  timers : TimerId → Timer
  gotPong : Bool
  deployId : UInt16
  deployColumn : ℕ
  previousState : State
  currentState : State
  nextState : State
  -- The state whose functions the three function pointers hold.
  enterState : State
  updateState : State
  exitState : State
  clock : Clock
  trace : List Event

/-- The outside world during one call: clock readings, pin levels at the successive reads of each
expander, and the bytes that have arrived by its start and that arrive while it runs. -/
structure World where
  millis : ℕ → UInt32
  mcp0 : ℕ → ℕ → Bool
  mcp1 : ℕ → ℕ → Bool
  arrived : List UInt8
  late : List UInt8

namespace Dixie

def initialTimers : TimerId → Timer
  | .ping => .idle Config.pingTimer
  | .narco => .idle Config.narcoTimer
  | .prepareReady => .idle Config.prepareReadyTimer
  | .motorStart => .idle Config.motorStartTimer
  | .motorRun => .idle Config.motorRunTimer
  | .deployError => .idle Config.deployErrorTimer
  | .prepareAutoHome => .idle Config.prepareAutoHomeTimer
  | .info => .idle Config.infoTimer

/-- The constructor. Nothing is assumed of the output latch `olat`: the expander may have kept it
over a reset of the processor. -/
def new (olat : BitVec 16) : Dixie where
  lcd := LCD.new
  narco := Narco.new ⟨olat, fun _ _ => true, 0⟩ ⟨0, fun _ _ => true, 0⟩
  network := Network.new
  timers := initialTimers
  gotPong := true
  deployId := 0
  deployColumn := 0
  previousState := .service
  currentState := .service
  nextState := .service
  enterState := .service
  updateState := .service
  exitState := .service
  clock := ⟨fun _ => 0, 0⟩
  trace := []

@[simps] def inWorld (w : World) (d : Dixie) : Dixie :=
  { d with
    clock := ⟨w.millis, 0⟩
    narco := { d.narco with
      mcp0 := ⟨d.narco.mcp0.olat, w.mcp0, 0⟩
      mcp1 := ⟨d.narco.mcp1.olat, w.mcp1, 0⟩ }
    network := d.network.receive w.arrived }

@[simps] def emit (e : Event) (d : Dixie) : Dixie := { d with trace := d.trace ++ [e] }

@[simps] def onLcd (f : LCD → LCD) (d : Dixie) : Dixie := { d with lcd := f d.lcd }

@[simps] def setNextState (state : State) (d : Dixie) : Dixie := { d with nextState := state }

@[simps] def setDeployColumn (column : ℕ) (d : Dixie) : Dixie := { d with deployColumn := column }

@[simps] def setDeployId (id : UInt16) (d : Dixie) : Dixie := { d with deployId := id }

@[simps] def setGotPong (b : Bool) (d : Dixie) : Dixie := { d with gotPong := b }

@[simps!] def sendDatagram (dgr : Datagram) (d : Dixie) : Dixie := d.emit (.tx dgr.updateChecksum)

@[simps] def showInfoText (d : Dixie) : Dixie :=
  { d with
    narco := d.narco.getInfoText.2
    lcd := d.lcd.setText 0 (some d.narco.getInfoText.1) 20 }

@[simps] def scanColumns (d : Dixie) : Dixie := { d with narco := d.narco.getDeployColumn.2 }

@[simps] def updateWithJam (d : Dixie) : Dixie := { d with narco := d.narco.updateWithJam }

@[simps] def setJammed (column : ℕ) (b : Bool) (d : Dixie) : Dixie :=
  { d with narco := d.narco.setJammed column b }

@[simps!] def powerOff (d : Dixie) : Dixie :=
  { d with narco := d.narco.powerOff }.emit (.powerOff d.currentState)

@[simps!] def powerOn (column : ℕ) (d : Dixie) : Dixie :=
  { d with narco := d.narco.powerOn column }.emit (.powerOn d.currentState column)

def isHome (column : ℕ) (d : Dixie) : Bool × Dixie :=
  let home := d.narco.isHome column
  (home.1, { d with narco := home.2 }.emit (.readHome d.currentState column home.1))

def timedOut (t : TimerId) (d : Dixie) : Bool × Dixie :=
  ((d.timers t).timedOut d.clock.now,
    if (d.timers t).isActive then { d with clock := d.clock.tick } else d)

@[simps] def startTimer (t : TimerId) (d : Dixie) : Dixie :=
  { d with
    timers := Function.update d.timers t ((d.timers t).start d.clock.now)
    clock := d.clock.tick }

@[simps] def startTimerFor (t : TimerId) (interval : UInt32) (d : Dixie) : Dixie :=
  { d with
    timers := Function.update d.timers t (Timer.startFor interval d.clock.now)
    clock := d.clock.tick }

@[simps] def stopTimer (t : TimerId) (d : Dixie) : Dixie :=
  { d with timers := Function.update d.timers t (d.timers t).stop }

def enterServiceState (d : Dixie) : Dixie :=
  let d := d.powerOff
  let d := d.onLcd fun l => l.reset.clear
  let d := d.showInfoText
  let d := d.onLcd fun l =>
    (((((l.setLine 1 "Pilsomat v3999").setLine 2 "").setLine 3 "Status: deaktivert").setColor
      150 150 0).update)
  d.startTimerFor .narco Config.narcoTimer

def updateServiceState (d : Dixie) : Dixie :=
  let r := d.timedOut .narco
  if r.1 then (r.2.showInfoText.onLcd LCD.update).startTimer .narco else r.2

def exitServiceState (d : Dixie) : Dixie := d.stopTimer .narco

def enterPrepareReadyState (d : Dixie) : Dixie :=
  let d := d.powerOff
  let d := d.startTimerFor .prepareReady Config.prepareReadyTimer
  d.onLcd fun l =>
    ((((l.clear.setLine 2 "Et lite \x03ryeblikk").setLine 3 "Status: straks klar").setColor
      255 255 0).update)

def updatePrepareReadyState (d : Dixie) : Dixie :=
  let r := d.timedOut .prepareReady
  if r.1 then r.2.setNextState .ready else r.2

def exitPrepareReadyState (d : Dixie) : Dixie := d.stopTimer .prepareReady

def enterReadyState (d : Dixie) : Dixie :=
  let d := d.startTimerFor .ping Config.pingTimer
  let d := d.onLcd LCD.clear
  let d := d.showInfoText
  let d := d.onLcd fun l =>
    (((((l.setLine 1 "Pilsomat v3999").setLine 2 "Dra kort; stripe opp").setLine 3
      "Status: klar").setColor 0 50 255).update)
  d.updateWithJam.startTimer .narco

def doPingPong (d : Dixie) : Dixie :=
  if !d.gotPong then d.setNextState .readyWait
  else
    let d := (d.setGotPong false).emit (.tx (Network.sendCommand .ping 0))
    d.startTimer .ping

def updateReadyState (d : Dixie) : Dixie :=
  let r := d.timedOut .ping
  let d := if r.1 then r.2.doPingPong else r.2
  let r := d.timedOut .narco
  if r.1 then r.2.showInfoText.startTimer .narco else r.2

def exitReadyState (d : Dixie) : Dixie := d

def enterReadyWaitState (d : Dixie) : Dixie :=
  let d := d.onLcd LCD.clear
  let d := d.showInfoText
  d.onLcd fun l =>
    (((((l.setLine 1 "Pilsomat v3999").setLine 2 "Kommunikasjonsbrudd").setLine 3
      "Status: frakoblet").setColor 255 255 0).update)

def updateReadyWaitState (d : Dixie) : Dixie :=
  let r := d.timedOut .narco
  if r.1 then r.2.showInfoText.startTimer .narco else r.2

def exitReadyWaitState (d : Dixie) : Dixie := d

def enterDeployState (d : Dixie) : Dixie :=
  let d := d.onLcd fun l => (l.setColor 0 255 0).update
  let column := d.narco.getDeployColumn.1
  let d := d.scanColumns.setDeployColumn column
  if column = 0 then d.setNextState .prepareReady
  else
    let response := ((Datagram.new 1).setId d.deployId).setCommand .fetch
    let d := d.sendDatagram (response.setData [UInt8.ofNat column] 1)
    let d := (d.startTimer .motorStart).startTimer .motorRun
    d.powerOn column

def updateDeployState (d : Dixie) : Dixie :=
  let start := d.timedOut .motorStart
  if start.1 then
    let home := start.2.isHome d.deployColumn
    if home.1 then home.2.setNextState .prepareReady
    else
      let run := home.2.timedOut .motorRun
      if run.1 then run.2.setNextState .deployError else run.2
  else start.2

def exitDeployState (d : Dixie) : Dixie :=
  let d := d.powerOff
  (d.onLcd LCD.reset).setDeployId 0

def enterDeployErrorState (d : Dixie) : Dixie :=
  let d := d.powerOff
  let d := d.setJammed d.deployColumn true
  let d := d.onLcd fun l =>
    ((((l.clear.setLine 0 "ADVARSEL: En feil").setLine 1 "oppstod! Pr\x03ver en").setLine 2
      "gang til.").setLine 3 "  Vennligst vent.").reset.setRedCycle.update
  d.startTimer .deployError

def updateDeployErrorState (d : Dixie) : Dixie :=
  let r := d.timedOut .deployError
  if r.1 then r.2.setNextState .deploy else r.2

def exitDeployErrorState (d : Dixie) : Dixie := d

def enterPrepareAutoHomeState (d : Dixie) : Dixie :=
  let d := d.onLcd fun l =>
    ((((l.clear.setLine 0 "ADVARSEL: Starter").setLine 1 "nullstilling av").setLine 2
      "maskinen! Du kan").setLine 3 "fortsatt avbryte.").reset.setRedCycle.update
  d.startTimer .prepareAutoHome

def updatePrepareAutoHomeState (d : Dixie) : Dixie :=
  let r := d.timedOut .prepareAutoHome
  if r.1 then
    let d := r.2.sendDatagram (((Datagram.new 0).setId r.2.deployId).setCommand .homeBegin)
    (d.setDeployColumn 1).setNextState .autoHome
  else r.2

def exitPrepareAutoHomeState (d : Dixie) : Dixie := d

def autoHomeText (column : ℕ) : List UInt8 :=
  [0x6B, 0x61, 0x6D, 0x6D, 0x65, 0x72, 0x20, UInt8.ofNat (column + 0x30), 0x2F, 0x39, 0]

def enterAutoHomeState (d : Dixie) : Dixie :=
  if d.previousState ≠ .prepareAutoHome ∧ d.previousState ≠ .autoHome then
    (d.emit .autoHomeRefused).setNextState .service
  else
    let response := ((Datagram.new 1).setId d.deployId).setCommand .homing
    let d := d.sendDatagram (response.setData [UInt8.ofNat d.deployColumn] 1)
    let d := d.onLcd fun l =>
      ((((((l.clear.setLine 0 "Nullstiller maskinen").setLine 1 "Vennligst vent!").setLine 2
        "Status: nullstiller").setText 3 (some (autoHomeText d.deployColumn)) 20).reset).setColor
        255 0 0).update
    (d.startTimer .motorRun).powerOn d.deployColumn

def updateAutoHomeState (d : Dixie) : Dixie :=
  if 9 < d.deployColumn then d.setNextState .service
  else
    let home := d.isHome d.deployColumn
    if home.1 then
      let d := home.2.powerOff
      (d.setDeployColumn ((d.deployColumn + 1) % 256)).enterAutoHomeState
    else
      let run := home.2.timedOut .motorRun
      if run.1 then
        let d := run.2.powerOff.setJammed d.deployColumn true
        (d.setDeployColumn ((d.deployColumn + 1) % 256)).enterAutoHomeState
      else run.2

def exitAutoHomeState (d : Dixie) : Dixie := d.powerOff

def enterInfoState (d : Dixie) : Dixie := (d.onLcd LCD.update).startTimer .info

def updateInfoState (d : Dixie) : Dixie :=
  let r := d.timedOut .info
  if r.1 then r.2.setNextState .ready else r.2

def exitInfoState (d : Dixie) : Dixie := d

/-! Calls through the function pointers. -/

def callEnterState (d : Dixie) : Dixie :=
  match d.enterState with
  | .service => d.enterServiceState
  | .prepareReady => d.enterPrepareReadyState
  | .ready => d.enterReadyState
  | .readyWait => d.enterReadyWaitState
  | .deploy => d.enterDeployState
  | .deployError => d.enterDeployErrorState
  | .prepareAutoHome => d.enterPrepareAutoHomeState
  | .autoHome => d.enterAutoHomeState
  | .info => d.enterInfoState

def callUpdateState (d : Dixie) : Dixie :=
  match d.updateState with
  | .service => d.updateServiceState
  | .prepareReady => d.updatePrepareReadyState
  | .ready => d.updateReadyState
  | .readyWait => d.updateReadyWaitState
  | .deploy => d.updateDeployState
  | .deployError => d.updateDeployErrorState
  | .prepareAutoHome => d.updatePrepareAutoHomeState
  | .autoHome => d.updateAutoHomeState
  | .info => d.updateInfoState

def callExitState (d : Dixie) : Dixie :=
  match d.exitState with
  | .service => d.exitServiceState
  | .prepareReady => d.exitPrepareReadyState
  | .ready => d.exitReadyState
  | .readyWait => d.exitReadyWaitState
  | .deploy => d.exitDeployState
  | .deployError => d.exitDeployErrorState
  | .prepareAutoHome => d.exitPrepareAutoHomeState
  | .autoHome => d.exitAutoHomeState
  | .info => d.exitInfoState

def switchState (d : Dixie) : Dixie :=
  let d := d.callExitState
  let d := d.emit (.switched d.currentState d.nextState)
  { d with
    previousState := d.currentState
    currentState := d.nextState
    enterState := d.nextState
    updateState := d.nextState
    exitState := d.nextState }.callEnterState

/-! Requests of the daemon. -/

def emitCurrentState (datagramId : UInt16) (d : Dixie) : Dixie :=
  let response := ((Datagram.new 1).setCommand .getState).setId datagramId
  d.sendDatagram (response.setData [d.currentState.toByte] 1)

def response (id : UInt16) (command : Cmd) : Datagram :=
  ((Datagram.new 0).setId id).setCommand command

def configBytes (config : BitVec 32) : List UInt8 :=
  [⟨(config >>> 24).setWidth 8⟩, ⟨(config >>> 16).setWidth 8⟩, ⟨(config >>> 8).setWidth 8⟩,
    ⟨config.setWidth 8⟩]

/-- The state a SET_STATE request may ask for; READY goes through PREPARE_READY. -/
def requestedState (newState : UInt8) : Option State :=
  match State.ofByte? newState with
  | some .ready => some .prepareReady
  | some .prepareReady => some .prepareReady
  | some .service => some .service
  | _ => none

def handleSetState (dgr : Datagram) (d : Dixie) : Dixie :=
  match dgr.data with
  | [newState] =>
    if newState = d.currentState.toByte then d.emitCurrentState dgr.id
    else
      match requestedState newState with
      | some state =>
        let response := ((Datagram.new 1).setId dgr.id).setCommand .setState
        (d.sendDatagram (response.setData dgr.data 1)).setNextState state
      | none => d.emitCurrentState dgr.id
  | _ => d.emitCurrentState dgr.id

def handleFetch (dgr : Datagram) (d : Dixie) : Dixie :=
  -- the BUSY response is built and dropped: what goes out is the request itself
  if d.currentState ≠ .ready then d.sendDatagram dgr
  else if d.narco.getDeployColumn.1 ≠ 0 then
    ((d.scanColumns.setDeployId dgr.id).emit (.fetchAccepted dgr.id)).setNextState .deploy
  else d.scanColumns.sendDatagram (response dgr.id .empty)

def setText (line : ℕ) (dgr : Datagram) (d : Dixie) : Dixie :=
  d.onLcd (LCD.setText line dgr.getData dgr.getDataSize)

/-- The handler before it looks at the command: any datagram ends READY_WAIT. -/
def received (dgr : Datagram) (d : Dixie) : Dixie :=
  let d := d.emit (.handled d.currentState dgr)
  if d.currentState = .readyWait then d.setNextState .ready else d

def datagramHandler (dgr : Datagram) (d : Dixie) : Dixie :=
  let d := d.received dgr
  match Cmd.ofByte? dgr.command with
  | some .ping =>
    d.sendDatagram (response dgr.id
      (if d.currentState = .ready then .ready
      else if d.currentState = .service then .service else .busy))
  | some .pong => d.setGotPong true
  | some .getConfig =>
    let response := ((Datagram.new 4).setId dgr.id).setCommand .getConfig
    d.sendDatagram (response.setData (configBytes d.narco.getRawData) 4)
  | some .setConfig => d
  | some .getState => d.emitCurrentState dgr.id
  | some .setState => d.handleSetState dgr
  | some .homeAbort =>
    if d.currentState = .prepareAutoHome ∨ d.currentState = .autoHome then
      (d.sendDatagram (response dgr.id .homeAbort)).setNextState .service
    else d.emitCurrentState dgr.id
  | some .homeBegin =>
    if d.currentState ≠ .service then d.emitCurrentState dgr.id
    else (d.sendDatagram (response dgr.id .homeBegin)).setNextState .prepareAutoHome
  | some .checkAvail =>
    d.scanColumns.sendDatagram
      (response dgr.id (if d.narco.getDeployColumn.1 ≠ 0 then .drinkAvail else .empty))
  | some .fetch => d.handleFetch dgr
  | some .setText0 => d.setText 0 dgr
  | some .setText1 => d.setText 1 dgr
  | some .setText2 => d.setText 2 dgr
  | some .setText3 => d.setText 3 dgr
  | some .clrText => d.onLcd LCD.clear
  | some .showInfo =>
    if d.currentState = .ready then (d.setNextState .info).sendDatagram dgr
    else d.sendDatagram (dgr.setCommand .busy)
  | some .lcdRgb =>
    match dgr.data with
    | [r, g, b] => d.onLcd (LCD.setColor r g b)
    | _ => d
  | some .lcdUpdate => d.onLcd LCD.update
  | some .lcdRedCycle => d.onLcd LCD.setRedCycle
  | _ => d.sendDatagram (response dgr.id .unknownCmd)

def begin (d : Dixie) : Dixie :=
  let d := { d with narco := d.narco.begin }
  let d := d.onLcd LCD.reset
  (d.scanColumns.setDeployColumn d.narco.getDeployColumn.1).callEnterState

/-- `update()` from the point on where the network has said what is pending. -/
def updateWith (pending : Option Datagram) (d : Dixie) : Dixie :=
  let d :=
    match pending with
    | some dgr => d.datagramHandler dgr
    | none => d
  let d := d.callUpdateState
  if d.currentState ≠ d.nextState then d.switchState else d

def poll (late : List UInt8) (d : Dixie) : Dixie :=
  let p := d.network.datagramIsPending late
  { d with network := p.network, trace := d.trace ++ p.sent.map .tx }

def pendingDatagram (late : List UInt8) (d : Dixie) : Option Datagram :=
  let p := d.network.datagramIsPending late
  if p.pending then some p.network.getPendingDatagram else none

def update (late : List UInt8) (d : Dixie) : Dixie :=
  (d.poll late).updateWith (d.pendingDatagram late)

def forceServiceState (d : Dixie) : Dixie :=
  if d.currentState ≠ .service then
    let response := ((Datagram.new 2).setId 0).setCommand .setState
    let d := d.sendDatagram (response.setData [State.service.toByte, 0xCE] 2)
    let d := (d.setNextState .service).switchState
    d.onLcd fun l => (l.setLine 2 "Tvungen deaktivering").update
  else d

end Dixie

end Alko.Arduino
