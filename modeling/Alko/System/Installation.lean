import Alko.Alkod.Clients
import Alko.System.CardPath
import Alko.System.FrameSizes
import Alko.System.InOrder

/-! The whole installation: card customers, administration pages, the daemon's manager, the serial
line with its bytes cut up and delayed at will, and the machine, one step at a time and in any
order. -/

namespace Alko.System

open Foundation Qt Alkod Arduino

namespace Link

def get (request : List UInt8) (l : Link) : Link :=
  { l with
    daemon :=
      ⟨(l.daemon.manager.get request).2, l.daemon.written ++ [(l.daemon.manager.get request).1],
        l.daemon.dispatched⟩
    toMachine := l.toMachine ++ (l.daemon.manager.get request).1 }

def getAll (requests : List (List UInt8)) (l : Link) : Link :=
  requests.foldl (fun l request => l.get request) l

end Link

structure Installation where
  link : Link
  customers : List Customer
  pages : List HttpHandler
  -- The customer behind a reply object of the manager, and the place of the reply there.
  owner : ℕ → Option (ℕ × ℕ)

namespace Installation

/-- One step; `n` bytes arrive at the end that moves, and `m` more during a call of `update()`. -/
inductive Move
  | swipe (data : QString)
  | start (customer : ℕ)
  | expire (customer : ℕ)
  | serverLine (customer : ℕ) (bytes : List UInt8)
  | connect
  | deliver (e : HttpEnvironment) (page : ℕ) (chunk : List UInt8)
  | autoStart
  | arrive (n : ℕ)
  | readyRead (n : ℕ)
  | update (w : World) (n m : ℕ)
  | forceServiceState (w : World) (n : ℕ)

def sendAll (k : ℕ) : List Reply → ℕ → Installation → Installation
  | [], _, s => s
  | r :: replies, place, s =>
    sendAll k replies (place + 1)
      { s with
        link := s.link.get r.request
        owner := Function.update s.owner s.link.daemon.manager.replies (some (k, place)) }

def act (k : ℕ) (signal : Customer.Signal) (s : Installation) : Installation :=
  match s.customers[k]? with
  | none => s
  | some c =>
    sendAll k ((c.step signal).replies.drop c.replies.length) c.replies.length
      { s with customers := s.customers.set k (c.step signal) }

/-- Nobody looks at the replies of a page. -/
def browse (e : HttpEnvironment) (page : ℕ) (chunk : List UInt8) (s : Installation) :
    Installation :=
  match s.pages[page]? with
  | none => s
  | some h =>
    { s with
      link := s.link.getAll ((h.deliver e chunk).gets.drop h.gets.length)
      pages := s.pages.set page (h.deliver e chunk) }

def react (s : Installation) : ManagerEvent → Installation
  | .setData reply datagram =>
    match s.owner reply with
    | some (k, place) => s.act k (.replyReadyRead place datagram)
    | none => s
  | _ => s

def step (s : Installation) : Move → Installation
  | .swipe data => { s with customers := s.customers ++ [newCustomer data] }
  | .start k => s.act k .start
  | .expire k =>
    -- a timer that does not run does not expire
    if (s.customers[k]?.bind Customer.timer).isSome then s.act k .timeout else s
  | .serverLine k bytes => s.act k (.socketReadyRead bytes)
  | .connect => { s with pages := s.pages ++ [.new []] }
  | .deliver e page chunk => s.browse e page chunk
  | .autoStart => { s with link := s.link.get [Cmd.ping.toByte] }
  | .arrive n => { s with link := s.link.step (.arrive n) }
  | .readyRead n =>
    (s.link.daemon.manager.readChunk (s.link.toDaemon.take n)).1.foldl react
      { s with link := s.link.step (.readyRead n) }
  | .update w n m => { s with link := s.link.step (.update w n m) }
  | .forceServiceState w n => { s with link := s.link.step (.forceServiceState w n) }

def run (moves : List Move) (s : Installation) : Installation := moves.foldl step s

def boot (olat : BitVec 16) (w : World) : Installation := ⟨.boot olat w, [], [], fun _ => none⟩

/-- The customer server shows no balance that is too long for its text; the machine could not
take the frame. -/
def Fits (s : Installation) : Move → Prop
  | .serverLine k bytes =>
    ∀ c, s.customers[k]? = some c → c.StepFits (.socketReadyRead bytes)
  | _ => True

def system : TransitionSystem Installation Move where
  init s := ∃ olat w, s = boot olat w
  step s k t := s.Fits k ∧ t = s.step k

theorem reachable_run {s : Installation} (h : system.Reachable s) {moves : List Move}
    (hfits : AllSteps step Fits moves s) : system.Reachable (run moves s) :=
  hfits.foldl (fun _ _ hs hmove => hs.step ⟨hmove, rfl⟩) h

end Installation

/-! A request that fits goes over the link as one of a client's. -/

theorem requestBytes_take (id : UInt16) (request : List UInt8) :
    requestBytes id (request.take (request.length % 256)) = requestBytes id request := by
  have hlength : (request.take (request.length % 256)).length = request.length % 256 := by
    rw [List.length_take]
    exact Nat.min_eq_left (Nat.mod_le _ _)
  unfold requestBytes
  simp only [hlength, Nat.mod_mod, List.take_take, Nat.min_self]

theorem head?_take_size {request : List UInt8} (hfits : Alkod.Fits request) :
    (request.take (request.length % 256)).head? = request.head? := by
  obtain ⟨n, hn⟩ := Nat.exists_eq_add_of_le' hfits.1
  rw [hn]
  cases request with
  | nil => rfl
  | cons b request => rfl

theorem Link.exists_question {request : List UInt8} (hfits : Alkod.Fits request)
    (hpong : request.head? ≠ some Cmd.pong.toByte) :
    ∃ question : Question, ∀ l : Link, l.get request = l.step (.ask question) := by
  have hlength : (request.take (request.length % 256)).length = request.length % 256 := by
    rw [List.length_take]
    exact Nat.min_eq_left (Nat.mod_le _ _)
  have hpos : 1 ≤ (request.take (request.length % 256)).length := by
    rw [hlength]
    exact hfits.1
  have hle : (request.take (request.length % 256)).length ≤ 25 := by
    rw [hlength]
    exact hfits.2
  refine ⟨⟨⟨request.take (request.length % 256), hpos, hle⟩,
    (head?_take_size hfits).symm ▸ hpong⟩, fun l => ?_⟩
  simp only [Link.get, Link.step, daemonWrites, ManagerEnd.ask, AlkoManager.get_fst,
    requestBytes_take, List.flatten_cons, List.flatten_nil, List.append_nil]
  rfl

theorem Link.reachable_get {l : Link} (h : Link.system.Reachable l) {request : List UInt8}
    (hfits : Alkod.Fits request) (hpong : request.head? ≠ some Cmd.pong.toByte) :
    Link.system.Reachable (l.get request) := by
  obtain ⟨question, hask⟩ := Link.exists_question hfits hpong
  rw [hask]
  exact h.step rfl

end Alko.System
