import Mathlib.Tactic.Simps.Basic
import Alko.Common.Commands
import Alko.Qt.Lines
import Alko.Qt.QString

/-! A customer: from the card swipe over the machine's answers and the customer server's line to
the FETCH, one slot for replies and socket data, and a timer. -/

namespace Alko.Alkod

open Qt

inductive Customer.State
  | newCustomer | stateCheckDone | supplyCheckDone | paymentCheckDone | allDone | expired
  deriving DecidableEq, Repr

structure Reply where
  request : List UInt8
  data : List UInt8
  -- Its `readyRead` is connected to `handleCustomer`.
  connected : Bool
  -- How often `deleteLater` has been called on it.
  releases : ℕ
  deriving DecidableEq, Repr

def Reply.released (r : Reply) : Bool := 0 < r.releases

/-- What a customer does and is told, in order; no function of the customer reads it. -/
inductive CustomerEvent
  | get (request : List UInt8)
  | replied (request datagram : List UInt8)
  | connectToHost (request : QString)
  | line (bytes : List UInt8)
  | expired
  | done
  | outOfRange
  deriving DecidableEq, Repr

structure Customer where
  customerID : QString
  state : Customer.State
  replies : List Reply
  -- `m_reply`, by its place in `replies`; none before it is assigned.
  reply : Option ℕ
  -- What can be read from `m_socket`; none before it is created.
  socket : Option (List UInt8)
  timer : Option ℕ
  -- The single shot of the constructor is still to come.
  starting : Bool
  faulted : Bool
  trace : List CustomerEvent
  deriving DecidableEq, Repr

namespace Customer

def new (customerID : QString) : Customer :=
  ⟨customerID, .newCustomer, [], none, none, none, true, false, []⟩

@[simps] def emit (e : CustomerEvent) (c : Customer) : Customer :=
  { c with trace := c.trace ++ [e] }

@[simps] def setState (state : State) (c : Customer) : Customer := { c with state := state }

@[simps] def startTimer (interval : ℕ) (c : Customer) : Customer :=
  { c with timer := some interval }

@[simps] def stopTimer (c : Customer) : Customer := { c with timer := none }

/-- `m_manager->get(request)`, the reply left alone. -/
@[simps] def get (request : List UInt8) (c : Customer) : Customer :=
  { c with
    replies := c.replies ++ [⟨request, [], false, 0⟩]
    trace := c.trace ++ [.get request] }

@[simps] def ask (request : List UInt8) (c : Customer) : Customer :=
  { c with
    replies := c.replies ++ [⟨request, [], true, 0⟩]
    reply := some c.replies.length
    trace := c.trace ++ [.get request] }

@[simps] def releaseReply (c : Customer) : Customer :=
  { c with
    replies :=
      match c.reply with
      | some i => c.replies.modify i fun r => { r with releases := r.releases + 1 }
      | none => c.replies }

/-- `m_reply->data()[7]`; a datagram has at least eight bytes. -/
def replyCommand (c : Customer) : UInt8 :=
  match c.reply.bind fun i => c.replies[i]? with
  | some r => r.data.getD 7 0
  | none => 0

def debugID : QString := QString.literal "010101"

/-- The reader yields no `%`, so the second `arg` finds its own marker only. -/
def serverRequest (customerID : QString) : QString :=
  QString.literal "GET /customer?checkonly=" ++
    QString.literal (if customerID = debugID then "yes" else "no") ++ QString.literal "&id=" ++
    customerID ++ QString.literal "\r\n"

@[simps] def connectToHost (c : Customer) : Customer :=
  { c with
    socket := some []
    trace := c.trace ++ [.connectToHost (serverRequest c.customerID)] }

def lineLength (buffer : List UInt8) : ℕ := min (buffer.findIdx (· = 0x0A) + 1) buffer.length

theorem lineLength_cons_newline (bytes : List UInt8) : lineLength (0x0A :: bytes) = 1 := by
  simp [lineLength, List.findIdx_cons]

theorem lineLength_cons {b : UInt8} (h : b ≠ 0x0A) (bytes : List UInt8) :
    lineLength (b :: bytes) = lineLength bytes + 1 := by
  simp only [lineLength, List.findIdx_cons, decide_eq_false h, List.length_cons]
  simp only [cond_false]
  omega

theorem take_lineLength (bytes : List UInt8) : bytes.take (lineLength bytes) = firstLine bytes := by
  induction bytes with
  | nil => rfl
  | cons b bytes ih =>
    by_cases hb : b = 0x0A
    · rw [hb, lineLength_cons_newline, firstLine, if_pos rfl]
      rfl
    · rw [lineLength_cons hb, List.take_succ_cons, ih, firstLine, if_neg hb]

theorem drop_lineLength (bytes : List UInt8) : bytes.drop (lineLength bytes) = behindLine bytes := by
  induction bytes with
  | nil => rfl
  | cons b bytes ih =>
    by_cases hb : b = 0x0A
    · rw [hb, lineLength_cons_newline, behindLine, if_pos rfl]
      rfl
    · rw [lineLength_cons hb, List.drop_succ_cons, ih, behindLine, if_neg hb]

def readLine (c : Customer) : List UInt8 × Customer :=
  let buffer := c.socket.getD []
  let line := buffer.take (lineLength buffer)
  (line, { c with socket := some (buffer.drop (lineLength buffer)) }.emit (.line line))

theorem readLine_eq (c : Customer) :
    c.readLine = (firstLine (c.socket.getD []),
      { c with socket := some (behindLine (c.socket.getD [])) }.emit
        (.line (firstLine (c.socket.getD [])))) := by
  simp only [readLine, take_lineLength, drop_lineLength]

def command (command : Cmd) : List UInt8 := [command.toByte]

def text (line : Cmd) (bytes : List UInt8) : List UInt8 := line.toByte :: bytes

def literal (s : String) : List UInt8 := (QString.literal s).toLatin1

/-- `tokens.last().rightJustified(19, ' ', true)`. -/
def lastToken (tokens : List QString) : List UInt8 :=
  (QString.rightJustified 19 (tokens.getLastD [])).toLatin1

/-- `tokens[1]`; past the end of the list nothing more is known of the daemon. -/
def withToken (tokens : List QString) (f : List UInt8 → Customer → Customer) (c : Customer) :
    Customer :=
  match tokens[1]? with
  | some token => f token.toLatin1 c
  | none => { c.emit .outOfRange with faulted := true }

def handlePaid (tokens : List QString) (c : Customer) : Customer :=
  ((c.get (command .clrText)).get (text .setText3 (lastToken tokens))).withToken tokens
    fun token c => (c.get (text .setText2 (literal "Ny saldo: " ++ token))).get (command .fetch)

def handleTooLow (tokens : List QString) (c : Customer) : Customer :=
  ((c.get (command .clrText)).get (text .setText3 (lastToken tokens))).withToken tokens
    fun token c =>
      (((c.get (text .setText1 (literal "Saldo: " ++ token))).get
        (text .setText2 (literal "For lav saldo."))).get (command .showInfo)).get
        (command .lcdRedCycle)

def handleUnknownCard (c : Customer) : Customer :=
  (((c.get (command .clrText)).get (text .setText2 (literal "Ukjent kort!"))).get
    (command .showInfo)).get (command .lcdRedCycle)

def handleDebug (tokens : List QString) (c : Customer) : Customer :=
  ((c.get (command .clrText)).get (text .setText3 (lastToken tokens))).withToken tokens
    fun token c =>
      ((c.get (text .setText2 (literal "Ny saldo: " ++ token))).get
        (text .setText1 (literal "DEBUG - TESTKJØP"))).get (command .fetch)

def handleResult (result : ℕ) (tokens : List QString) (c : Customer) : Customer :=
  match result with
  | 1 => c.handlePaid tokens
  | 2 => c.handleTooLow tokens
  | 3 => c.handleUnknownCard
  | 6 => c.handleDebug tokens
  | _ => c

theorem handleResult_keeps {P : Customer → Prop} (hget : ∀ request c, P c → P (c.get request))
    (hfault : ∀ c, P c → P { c.emit .outOfRange with faulted := true }) {c : Customer} (h : P c)
    (result : ℕ) (tokens : List QString) : P (c.handleResult result tokens) := by
  have hclear := hget (text .setText3 (lastToken tokens)) _ (hget (command .clrText) c h)
  have hwith {f : List UInt8 → Customer → Customer} (hf : ∀ token c, P c → P (f token c)) :
      P (((c.get (command .clrText)).get (text .setText3 (lastToken tokens))).withToken
        tokens f) := by
    unfold withToken
    cases tokens[1]? with
    | none => exact hfault _ hclear
    | some token => exact hf token.toLatin1 _ hclear
  unfold handleResult
  split
  · exact hwith fun token c h => hget _ _ (hget _ _ h)
  · exact hwith fun token c h => hget _ _ (hget _ _ (hget _ _ (hget _ _ h)))
  · exact hget _ _ (hget _ _ (hget _ _ (hget _ _ h)))
  · exact hwith fun token c h => hget _ _ (hget _ _ (hget _ _ h))
  · exact h

def handleNewCustomer (c : Customer) : Customer :=
  ((c.ask (command .ping)).setState .stateCheckDone).startTimer 250

def handleStateCheckDone (c : Customer) : Customer :=
  let c := c.stopTimer
  if c.replyCommand ≠ Cmd.ready.toByte then
    if c.replyCommand = Cmd.service.toByte then c.emit .done
    else
      (((c.releaseReply.get (text .setText3 (literal "  Vent litt..."))).get
        (command .lcdUpdate)).setState .allDone).emit .done
  else ((c.releaseReply.ask (command .checkAvail)).startTimer 250).setState .supplyCheckDone

def handleSupplyCheckDone (c : Customer) : Customer :=
  let c := c.stopTimer
  if c.replyCommand ≠ Cmd.drinkAvail.toByte then (c.releaseReply.setState .allDone).emit .done
  else (c.releaseReply.connectToHost.startTimer 500).setState .paymentCheckDone

def handlePaymentCheckDone (c : Customer) : Customer :=
  let (line, c) := (c.startTimer 250).readLine
  let reply := QString.ofByteArray line
  match reply.leftToInt with
  | none => c
  | some result =>
    let c := c.handleResult result reply.trimmed.split
    if c.faulted then c else (c.stopTimer.setState .allDone).emit .done

theorem handlePaymentCheckDone_keeps {P : Customer → Prop}
    (hget : ∀ request c, P c → P (c.get request))
    (hfault : ∀ c, P c → P { c.emit .outOfRange with faulted := true })
    (hdone : ∀ c, P c → P ((c.stopTimer.setState .allDone).emit .done)) {c : Customer}
    (h : P (c.startTimer 250).readLine.2) : P c.handlePaymentCheckDone := by
  unfold handlePaymentCheckDone
  generalize (c.startTimer 250).readLine = p at h ⊢
  obtain ⟨line, d⟩ := p
  simp only
  cases (QString.ofByteArray line).leftToInt with
  | none => exact h
  | some result =>
    have hresult := handleResult_keeps hget hfault h result (QString.ofByteArray line).trimmed.split
    simp only
    split
    · exact hresult
    · exact hdone _ hresult

def handleCustomer (c : Customer) : Customer :=
  match c.state with
  | .newCustomer => c.handleNewCustomer
  | .stateCheckDone => c.handleStateCheckDone
  | .supplyCheckDone => c.handleSupplyCheckDone
  | .paymentCheckDone => c.handlePaymentCheckDone
  | .allDone => c
  | .expired => c

def timeout (c : Customer) : Customer :=
  (((c.emit .expired).setState .expired).stopTimer).emit .done

inductive Signal
  | start
  -- `setData` on the reply object in this place.
  | replyReadyRead (reply : ℕ) (datagram : List UInt8)
  | socketReadyRead (bytes : List UInt8)
  | timeout
  deriving DecidableEq, Repr

def setData (reply : ℕ) (datagram : List UInt8) (c : Customer) : Customer :=
  { c with replies := c.replies.modify reply fun r => { r with data := datagram } }

/-- A reply that was released delivers nothing more, and neither does one that is not connected. -/
def handleReply (reply : ℕ) (datagram : List UInt8) (c : Customer) : Customer :=
  match c.replies[reply]? with
  | some r =>
    if r.released then c
    else if r.connected then
      ((c.setData reply datagram).emit (.replied r.request datagram)).handleCustomer
    else c.setData reply datagram
  | none => c

def handleSocket (bytes : List UInt8) (c : Customer) : Customer :=
  match c.socket with
  | some buffer => { c with socket := some (buffer ++ bytes) }.handleCustomer
  | none => c

/-- Signals may come in any order, and also after `done`. -/
def step (c : Customer) (signal : Signal) : Customer :=
  if c.faulted then c
  else
    match signal with
    | .start => if c.starting then { c with starting := false }.handleCustomer else c
    | .replyReadyRead reply datagram => c.handleReply reply datagram
    | .socketReadyRead bytes => c.handleSocket bytes
    | .timeout => c.timeout

def run (signals : List Signal) (c : Customer) : Customer := signals.foldl step c

/-- A signal does nothing, calls the handler for one of three reasons, only leaves its datagram in
the reply, or is the timeout. -/
theorem step_keeps {P : Customer → Prop} {c : Customer} (signal : Signal) (hsame : P c)
    (hstart : c.faulted = false → c.starting = true →
      P ({ c with starting := false } : Customer).handleCustomer)
    (hreplied : ∀ i datagram r, c.faulted = false → signal = .replyReadyRead i datagram →
      c.replies[i]? = some r → r.released = false → r.connected = true →
        P ((c.setData i datagram).emit (.replied r.request datagram)).handleCustomer)
    (hdata : ∀ i datagram, P (c.setData i datagram))
    (hsocket : ∀ bytes buffer, c.faulted = false → signal = .socketReadyRead bytes →
      c.socket = some buffer →
        P ({ c with socket := some (buffer ++ bytes) } : Customer).handleCustomer)
    (htimeout : P c.timeout) : P (c.step signal) := by
  unfold step
  by_cases hfaulted : c.faulted = true
  · rwa [if_pos hfaulted]
  · have hfault : c.faulted = false := Bool.eq_false_of_not_eq_true hfaulted
    rw [if_neg hfaulted]
    cases signal with
    | start =>
      simp only
      split_ifs with hstarting
      · exact hstart hfault hstarting
      · exact hsame
    | replyReadyRead i datagram =>
      simp only [handleReply]
      cases hr : c.replies[i]? with
      | none => exact hsame
      | some r =>
        simp only
        split_ifs with hreleased hconnected
        · exact hsame
        · exact hreplied i datagram r hfault rfl hr (Bool.eq_false_of_not_eq_true hreleased)
            hconnected
        · exact hdata i datagram
    | socketReadyRead bytes =>
      simp only [handleSocket]
      cases hbuffer : c.socket with
      | none => exact hsame
      | some buffer => exact hsocket bytes buffer hfault rfl hbuffer
    | timeout => exact htimeout

end Customer

end Alko.Alkod
