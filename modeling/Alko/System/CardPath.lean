import Alko.Alkod.CustomerRequests
import Alko.Arduino.FetchAnswer
import Alko.System.Delivery
import Alko.System.Framing

/-! The card path: customers, the daemon's manager, the frames in flight to and from the machine,
the customer server and the machine, one step at a time and in any order. -/

namespace Alko.System

open Foundation Qt Alkod Arduino

structure Frame where
  -- The customer whose request it carries, by the order of the swipes.
  sender : Option ℕ
  request : List UInt8
  bytes : List UInt8
  deriving DecidableEq

def Frame.datagram (f : Frame) : Datagram := Network.parse (f.bytes.drop 3)

inductive Answer
  | pending
  | underway (line : List UInt8)
  | delivered (line : List UInt8)
  deriving DecidableEq

structure Handling where
  frame : Frame
  world : World
  before : Dixie
  after : Dixie

structure CardPath where
  customers : List Customer
  manager : AlkoManager
  -- The customer behind a reply object of the manager, and the place of the reply there.
  owner : ℕ → Option (ℕ × ℕ)
  toMachine : List Frame
  toDaemon : List (List UInt8)
  dixie : Dixie
  answers : ℕ → Answer
  -- Every frame the machine has handled; no step reads it.
  handled : List Handling

/-- One step; frames are delivered in order, everything else in any order. -/
inductive Move
  | swipe (data : QString)
  | start (customer : ℕ)
  | expire (customer : ℕ)
  | pass (w : World)
  | toMachine (w : World)
  | toDaemon
  | answer (customer : ℕ) (line : List UInt8)
  | toCustomer (customer : ℕ)

/-- `CustomerHandler::newCustomer`: the id on an RFID card is shorter than its data. -/
def newCustomer (data : QString) : Customer :=
  .new (if data.length = 16 then data.rtake 10
    else if data.length = 12 then data.rtake 6 else data)

namespace CardPath

def idle (manager : AlkoManager) (dixie : Dixie) : CardPath :=
  ⟨[], manager, fun _ => none, [], [], dixie, fun _ => .pending, []⟩

def sendAll (k : ℕ) : List Reply → ℕ → CardPath → CardPath
  | [], _, s => s
  | r :: replies, place, s =>
    let sent := s.manager.get r.request
    sendAll k replies (place + 1)
      { s with
        manager := sent.2
        owner := Function.update s.owner s.manager.replies (some (k, place))
        toMachine := s.toMachine ++ [⟨some k, r.request, sent.1⟩] }

def act (k : ℕ) (signal : Customer.Signal) (s : CardPath) : CardPath :=
  match s.customers[k]? with
  | none => s
  | some c =>
    sendAll k ((c.step signal).replies.drop c.replies.length) c.replies.length
      { s with customers := s.customers.set k (c.step signal) }

def react (s : CardPath) : ManagerEvent → CardPath
  | .recv _ => s
  | .send bytes =>
    { s with toMachine := s.toMachine ++ [⟨none, Customer.command .pong, bytes⟩] }
  | .setData reply datagram =>
    match s.owner reply with
    | some (k, place) => s.act k (.replyReadyRead place datagram)
    | none => s

def receive (frame : List UInt8) (s : CardPath) : CardPath :=
  (s.manager.dispatch frame).1.foldl react { s with manager := (s.manager.dispatch frame).2 }

/-- A pass of the machine; the frames come whole, so its receiver has no part in it. -/
def pass (w : World) (frame : Option Frame) (s : CardPath) : CardPath :=
  let d := (s.dixie.inWorld w).updateWith (frame.map Frame.datagram)
  { s with
    dixie := d
    toDaemon := s.toDaemon ++ (d.sent.drop s.dixie.sent.length).map Datagram.toBytes
    handled := s.handled ++ (frame.map fun f => ⟨f, w, s.dixie, d⟩).toList }

def asked (k : ℕ) (s : CardPath) : Bool := (s.customers[k]?.bind Customer.socket).isSome

def step (s : CardPath) : Move → CardPath
  | .swipe data => { s with customers := s.customers ++ [newCustomer data] }
  | .start k => s.act k .start
  | .expire k =>
    -- a timer that does not run does not expire
    if (s.customers[k]?.bind Customer.timer).isSome then s.act k .timeout else s
  | .pass w => s.pass w none
  | .toMachine w =>
    match s.toMachine with
    | f :: frames => { s with toMachine := frames }.pass w (some f)
    | [] => s
  | .toDaemon =>
    match s.toDaemon with
    | frame :: frames => { s with toDaemon := frames }.receive frame
    | [] => s
  | .answer k line =>
    if s.answers k = .pending ∧ s.asked k then
      { s with answers := Function.update s.answers k (.underway line) }
    else s
  | .toCustomer k =>
    match s.answers k with
    | .underway line =>
      { s with answers := Function.update s.answers k (.delivered line) }.act k
        (.socketReadyRead line)
    | _ => s

def run (moves : List Move) (s : CardPath) : CardPath := moves.foldl step s

/-- The machine is what any run of its own has made it; there are no frames in flight. No step asks
for SET_STATE, homing or the forced SERVICE. -/
def system : TransitionSystem CardPath Move where
  init s := ∃ m d, Dixie.machine.Reachable d ∧ s = idle m d
  step s m t := t = s.step m

end CardPath

end Alko.System
