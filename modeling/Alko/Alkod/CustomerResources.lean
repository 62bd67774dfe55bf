import Alko.Alkod.CustomerSafety
import Alko.Foundation.Run

/-! What a customer creates and what it releases, by its states and by its destructor. -/

namespace Alko.Alkod

open Foundation Qt

namespace Customer

/-- The replies and sockets by the order of their creation; an object that the customer did not
create is a stray. -/
inductive Resource
  | reply (place : ℕ)
  | socket (place : ℕ)
  | stray
  deriving DecidableEq, Repr

/-- The constructor sets neither `m_socket` nor `m_reply`: whether what lies in their place reads
as a pointer. -/
structure Memory where
  socket : Bool
  reply : Bool
  deriving DecidableEq, Repr

def connects : CustomerEvent → Bool
  | .connectToHost _ => true
  | _ => false

def sockets (c : Customer) : ℕ := c.trace.countP connects

def created (c : Customer) : List Resource :=
  (List.range c.replies.length).map .reply ++ (List.range c.sockets).map .socket

/-- `if (m_socket) delete m_socket;` and `if (m_reply) m_reply->deleteLater();`. -/
def destroyed (memory : Memory) (c : Customer) : List Resource :=
  (match c.socket with
    | some _ => [.socket (c.sockets - 1)]
    | none => if memory.socket then [.stray] else []) ++
  match c.reply with
  | some place => [.reply place]
  | none => if memory.reply then [.stray] else []

def released (memory : Memory) (c : Customer) : List Resource :=
  (c.replies.zipIdx.flatMap fun r => List.replicate r.1.releases (.reply r.2)) ++
    c.destroyed memory

/-- The customer releases what it created, each thing once, and nothing through a pointer that was
never assigned. -/
@[mk_iff]
structure Balanced (memory : Memory) (c : Customer) : Prop where
  own : ∀ resource ∈ c.released memory, resource ∈ c.created
  once : ∀ resource ∈ c.created, (c.released memory).count resource = 1
  assigned : .stray ∉ c.released memory

structure Unconnected (c : Customer) : Prop where
  faulted : c.faulted = false
  socket : c.socket = none
  sockets : c.sockets = 0

structure Unasked (c : Customer) : Prop extends Unconnected c where
  replies : c.replies = []
  reply : c.reply = none

structure Fresh (c : Customer) : Prop extends Unasked c where
  state : c.state = .newCustomer
  starting : c.starting = true

structure Lapsed (c : Customer) : Prop extends Unasked c where
  state : c.state = .expired

structure Pinged (c : Customer) : Prop extends Unconnected c where
  reply : c.reply = some 0
  replies : ∃ r, c.replies = [r] ∧ r.connected = true ∧ r.releases = 0
  state : c.state = .stateCheckDone ∨ c.state = .expired
  starting : c.starting = false

structure Checked (c : Customer) : Prop extends Unconnected c where
  reply : c.reply = some 1
  replies : ∃ ping r, c.replies = [ping, r] ∧ ping.releases = 1 ∧
    r.connected = true ∧ r.releases = 0
  state : c.state = .supplyCheckDone ∨ c.state = .expired
  starting : c.starting = false

/-- `m_reply` still points to a reply that a state has released. -/
structure Doubled (c : Customer) : Prop where
  reply : ∃ place r, c.reply = some place ∧ c.replies[place]? = some r ∧ 0 < r.releases
  state : c.state = .paymentCheckDone ∨ c.state = .allDone ∨ c.state = .expired

def Asked (c : Customer) : Prop := Pinged c ∨ Checked c

def Sound (c : Customer) : Prop := Fresh c ∨ Lapsed c ∨ Asked c

/-- An answer that reaches the customer: it is not taken for a busy machine, and it does not
answer CHECK_AVAIL. -/
def Spares (c : Customer) : Signal → Prop
  | .replyReadyRead place datagram =>
    (∃ r, c.replies[place]? = some r ∧ r.connected = true ∧ r.releases = 0) →
      (c.state = .stateCheckDone →
        datagram.getD 7 0 = Cmd.ready.toByte ∨ datagram.getD 7 0 = Cmd.service.toByte) ∧
      c.state ≠ .supplyCheckDone
  | _ => True

def Starts : List Signal → Prop
  | [] => False
  | .start :: _ => True
  | .timeout :: _ => False
  | .replyReadyRead _ _ :: signals => Starts signals
  | .socketReadyRead _ :: signals => Starts signals

variable {c : Customer} {memory : Memory}

theorem Unconnected.destroyed (h : Unconnected c) :
    c.destroyed memory = (if memory.socket then [.stray] else []) ++
      match c.reply with
      | some place => [.reply place]
      | none => if memory.reply then [.stray] else [] := by
  rw [Customer.destroyed, h.socket]

theorem Unconnected.created (h : Unconnected c) :
    c.created = (List.range c.replies.length).map .reply := by
  rw [Customer.created, h.sockets]
  exact List.append_nil _

theorem Unasked.balanced_iff (h : Unasked c) :
    Balanced memory c ↔ memory.socket = false ∧ memory.reply = false := by
  have hreleased : c.released memory =
      (if memory.socket then [.stray] else []) ++ if memory.reply then [.stray] else [] := by
    rw [released, h.destroyed, h.replies, h.reply]
    rfl
  have hcreated : c.created = [] := by
    rw [h.created, h.replies]
    rfl
  rw [Customer.balanced_iff, hreleased, hcreated]
  obtain ⟨socket, reply⟩ := memory
  cases socket <;> cases reply <;> decide

theorem Pinged.balanced_iff (h : Pinged c) : Balanced memory c ↔ memory.socket = false := by
  obtain ⟨r, hreplies, -, hr⟩ := h.replies
  have hreleased : c.released memory =
      (if memory.socket then [.stray] else []) ++ [.reply 0] := by
    rw [released, h.destroyed, hreplies, h.reply]
    simp [hr]
  have hcreated : c.created = [.reply 0] := by
    rw [h.created, hreplies]
    rfl
  rw [Customer.balanced_iff, hreleased, hcreated]
  cases memory.socket <;> decide

theorem Checked.balanced_iff (h : Checked c) : Balanced memory c ↔ memory.socket = false := by
  obtain ⟨ping, r, hreplies, hping, -, hr⟩ := h.replies
  have hreleased : c.released memory =
      [.reply 0] ++ ((if memory.socket then [.stray] else []) ++ [.reply 1]) := by
    rw [released, h.destroyed, hreplies, h.reply]
    simp [hping, hr]
  have hcreated : c.created = [.reply 0, .reply 1] := by
    rw [h.created, hreplies]
    rfl
  rw [Customer.balanced_iff, hreleased, hcreated]
  cases memory.socket <;> decide

theorem Sound.balanced_iff (h : Sound c) :
    Balanced memory c ↔ memory.socket = false ∧ (memory.reply = false ∨ c.reply.isSome) := by
  rcases h with h | h | h | h
  · simp [h.toUnasked.balanced_iff, h.reply]
  · simp [h.toUnasked.balanced_iff, h.reply]
  · simp [h.balanced_iff, h.reply]
  · simp [h.balanced_iff, h.reply]

theorem Doubled.not_balanced (h : Doubled c) : ¬Balanced memory c := by
  obtain ⟨place, r, hreply, hr, hreleases⟩ := h.reply
  intro hbalanced
  have hplace : place < c.replies.length := (List.getElem?_eq_some_iff.mp hr).1
  have hmem : Resource.reply place ∈ c.created := by
    apply List.mem_append_left
    exact List.mem_map.mpr ⟨place, List.mem_range.mpr hplace, rfl⟩
  have hstates : Resource.reply place ∈
      c.replies.zipIdx.flatMap fun r => List.replicate r.1.releases (.reply r.2) := by
    apply List.mem_flatMap.mpr
    refine ⟨(r, place), List.mk_mem_zipIdx_iff_getElem?.mpr hr, ?_⟩
    exact List.mem_replicate.mpr ⟨hreleases.ne', rfl⟩
  have hdestructor : Resource.reply place ∈ c.destroyed memory := by
    rw [destroyed, hreply]
    exact List.mem_append_right _ (List.mem_singleton_self _)
  have honce := hbalanced.once _ hmem
  rw [released, List.count_append] at honce
  have := List.count_pos_iff.mpr hstates
  have := List.count_pos_iff.mpr hdestructor
  omega

theorem Sound.not_doubled (h : Sound c) : ¬Doubled c := by
  intro hdoubled
  have hbalanced : Balanced ⟨false, false⟩ c := h.balanced_iff.mpr ⟨rfl, .inl rfl⟩
  exact hdoubled.not_balanced hbalanced

theorem step_of_faulted_eq_false (h : c.faulted = false) (signal : Signal) :
    c.step signal =
      match signal with
      | .start => if c.starting then { c with starting := false }.handleCustomer else c
      | .replyReadyRead place datagram => c.handleReply place datagram
      | .socketReadyRead bytes => c.handleSocket bytes
      | .timeout => c.timeout := by
  cases signal <;> simp only [step, h, Bool.false_eq_true, if_false]

theorem Unconnected.grown {d : Customer} (h : Unconnected c) (events : List CustomerEvent)
    (hd : d.faulted = c.faulted ∧ d.socket = c.socket ∧ d.trace = c.trace ++ events)
    (hevents : events.countP connects = 0) : Unconnected d where
  faulted := hd.1.trans h.faulted
  socket := hd.2.1.trans h.socket
  sockets := by
    have hsockets := h.sockets
    rw [Customer.sockets] at hsockets ⊢
    rw [hd.2.2, List.countP_append, hsockets, hevents]

theorem Unconnected.timeout (h : Unconnected c) : Unconnected c.timeout := by
  refine h.grown [.expired, .done] ⟨rfl, rfl, ?_⟩ rfl
  exact List.append_assoc ..

theorem Unconnected.socketReadyRead (h : Unconnected c) (bytes : List UInt8) :
    c.step (.socketReadyRead bytes) = c := by
  simp only [step_of_faulted_eq_false h.faulted, handleSocket, h.socket]

theorem step_ignores {place : ℕ} (hfaulted : c.faulted = false)
    (hreplies : ∀ r, c.replies[place]? = some r → 0 < r.releases) (datagram : List UInt8) :
    c.step (.replyReadyRead place datagram) = c := by
  simp only [step_of_faulted_eq_false hfaulted, handleReply]
  cases hr : c.replies[place]? with
  | none => rfl
  | some r => simp only [Reply.released, hreplies r hr, decide_true, if_true]

theorem not_delivers {place : ℕ} (hreplies : ∀ r, c.replies[place]? = some r → 0 < r.releases)
    (datagram : List UInt8) : Spares c (.replyReadyRead place datagram) := by
  rintro ⟨r, hr, -, hreleases⟩
  exact absurd hreleases (hreplies r hr).ne'

theorem Unasked.replyReadyRead (h : Unasked c) (place : ℕ) (datagram : List UInt8) :
    c.step (.replyReadyRead place datagram) = c := by
  apply step_ignores h.faulted
  simp [h.replies]

theorem Unasked.spares (h : Unasked c) (signal : Signal) : Spares c signal := by
  cases signal with
  | replyReadyRead place datagram =>
    apply not_delivers
    simp [h.replies]
  | start => trivial
  | socketReadyRead bytes => trivial
  | timeout => trivial

theorem Unasked.timeout (h : Unasked c) : Lapsed c.timeout where
  toUnconnected := h.toUnconnected.timeout
  replies := h.replies
  reply := h.reply
  state := rfl

theorem Fresh.start (h : Fresh c) : Pinged (c.step .start) := by
  have hstep : c.step .start = { c with starting := false }.handleNewCustomer := by
    rw [step_of_faulted_eq_false h.faulted]
    simp only [h.starting, if_true, handleCustomer, h.state]
  rw [hstep]
  have hunconnected := h.toUnconnected.grown (d := { c with starting := false }.handleNewCustomer)
    [.get (command .ping)] ⟨rfl, rfl, rfl⟩ rfl
  refine ⟨hunconnected, ?_, ?_, .inl rfl, rfl⟩
  · simp [handleNewCustomer, h.replies]
  · simp [handleNewCustomer, h.replies]

theorem Lapsed.step (h : Lapsed c) (signal : Signal) : Lapsed (c.step signal) := by
  cases signal with
  | start =>
    rw [step_of_faulted_eq_false h.faulted]
    simp only
    split_ifs
    · have hidle : ({ c with starting := false } : Customer).handleCustomer =
          { c with starting := false } := by
        simp only [handleCustomer, h.state]
      rw [hidle]
      exact ⟨⟨⟨h.faulted, h.socket, h.sockets⟩, h.replies, h.reply⟩, h.state⟩
    · exact h
  | replyReadyRead place datagram => rwa [h.replyReadyRead]
  | socketReadyRead bytes => rwa [h.socketReadyRead]
  | timeout =>
    rw [step_of_faulted_eq_false h.faulted]
    exact h.toUnasked.timeout

theorem step_delivers {place : ℕ} {r : Reply} (hfaulted : c.faulted = false)
    (hr : c.replies[place]? = some r) (hconnected : r.connected = true) (hreleases : r.releases = 0)
    (datagram : List UInt8) :
    c.step (.replyReadyRead place datagram) =
      ((c.setData place datagram).emit (.replied r.request datagram)).handleCustomer := by
  simp [step_of_faulted_eq_false hfaulted, handleReply, hr, hconnected, Reply.released, hreleases]

theorem Pinged.told (h : Pinged c) (request datagram : List UInt8) :
    Pinged ((c.setData 0 datagram).emit (.replied request datagram)) := by
  obtain ⟨r, hreplies, hconnected, hreleases⟩ := h.replies
  refine ⟨h.grown [_] ⟨rfl, rfl, rfl⟩ rfl, h.reply, ?_, h.state, h.starting⟩
  refine ⟨{ r with data := datagram }, ?_, hconnected, hreleases⟩
  simp [setData, hreplies]

theorem Checked.told (h : Checked c) (request datagram : List UInt8) :
    Checked ((c.setData 1 datagram).emit (.replied request datagram)) := by
  obtain ⟨ping, r, hreplies, hping, hconnected, hreleases⟩ := h.replies
  refine ⟨h.grown [_] ⟨rfl, rfl, rfl⟩ rfl, h.reply, ?_, h.state, h.starting⟩
  refine ⟨ping, { r with data := datagram }, ?_, hping, hconnected, hreleases⟩
  simp [setData, hreplies]

theorem Pinged.ready (h : Pinged c) (hready : c.replyCommand = Cmd.ready.toByte) :
    Checked c.handleStateCheckDone := by
  obtain ⟨r, hreplies, -, hreleases⟩ := h.replies
  have hstep : c.handleStateCheckDone =
      ((c.stopTimer.releaseReply.ask (command .checkAvail)).startTimer 250).setState
        .supplyCheckDone := by
    unfold handleStateCheckDone
    exact if_neg (not_not.mpr hready)
  rw [hstep]
  refine ⟨h.grown [.get (command .checkAvail)] ⟨rfl, rfl, rfl⟩ rfl, ?_, ?_, .inl rfl, h.starting⟩
  · simp [h.reply, hreplies]
  · simp [h.reply, hreplies, hreleases]

theorem Pinged.service (h : Pinged c) (hservice : c.replyCommand = Cmd.service.toByte) :
    Pinged c.handleStateCheckDone := by
  have hstep : c.handleStateCheckDone = c.stopTimer.emit .done := by
    unfold handleStateCheckDone
    have hcommand : c.stopTimer.replyCommand = Cmd.service.toByte := hservice
    simp only [hcommand, if_true]
    exact if_pos (by decide)
  rw [hstep]
  exact ⟨h.grown [.done] ⟨rfl, rfl, rfl⟩ rfl, h.reply, h.replies, h.state, h.starting⟩

theorem Doubled.get (h : Doubled c) (request : List UInt8) : Doubled (c.get request) := by
  obtain ⟨place, r, hreply, hr, hreleases⟩ := h.reply
  refine ⟨⟨place, r, hreply, ?_, hreleases⟩, h.state⟩
  rw [get_replies, List.getElem?_append_left (List.getElem?_eq_some_iff.mp hr).1]
  exact hr

theorem Doubled.handlePaymentCheckDone (h : Doubled c) : Doubled c.handlePaymentCheckDone :=
  handlePaymentCheckDone_keeps (P := Doubled) (fun request _ h => h.get request)
    (fun _ h => ⟨h.reply, h.state⟩) (fun _ h => ⟨h.reply, .inr (.inl rfl)⟩) ⟨h.reply, h.state⟩

theorem Doubled.handleCustomer (h : Doubled c) : Doubled c.handleCustomer := by
  rcases h.state with hstate | hstate | hstate
  · simpa only [Customer.handleCustomer, hstate] using h.handlePaymentCheckDone
  · simpa only [Customer.handleCustomer, hstate] using h
  · simpa only [Customer.handleCustomer, hstate] using h

theorem Doubled.setData (h : Doubled c) (place : ℕ) (datagram : List UInt8) :
    Doubled (c.setData place datagram) := by
  obtain ⟨i, r, hreply, hr, hreleases⟩ := h.reply
  refine ⟨⟨i, if place = i then { r with data := datagram } else r, hreply, ?_, ?_⟩, h.state⟩
  · rw [Customer.setData, List.getElem?_modify, hr]
    rfl
  · split_ifs
    · exact hreleases
    · exact hreleases

theorem Doubled.step (h : Doubled c) (signal : Signal) : Doubled (c.step signal) := by
  apply step_keeps signal h
  · intro _ _
    exact Doubled.handleCustomer ⟨h.reply, h.state⟩
  · intro i datagram r _ _ _ _ _
    exact Doubled.handleCustomer ⟨(h.setData i datagram).reply, h.state⟩
  · intro i datagram
    exact h.setData i datagram
  · intro bytes buffer _ _ _
    exact Doubled.handleCustomer ⟨h.reply, h.state⟩
  · exact ⟨h.reply, .inr (.inr rfl)⟩

theorem Pinged.busy (h : Pinged c) (hready : c.replyCommand ≠ Cmd.ready.toByte)
    (hservice : c.replyCommand ≠ Cmd.service.toByte) : Doubled c.handleStateCheckDone := by
  obtain ⟨r, hreplies, -, hreleases⟩ := h.replies
  have hstep : c.handleStateCheckDone =
      (((c.stopTimer.releaseReply.get (text .setText3 (literal "  Vent litt..."))).get
        (command .lcdUpdate)).setState .allDone).emit .done := by
    have hcommand : c.stopTimer.replyCommand = c.replyCommand := rfl
    simp only [handleStateCheckDone, hcommand, ne_eq, hready, hservice, not_false_eq_true, if_true,
      if_false]
  have hreply : Doubled (c.stopTimer.releaseReply.setState .allDone) := by
    refine ⟨⟨0, { r with releases := r.releases + 1 }, h.reply, ?_, Nat.succ_pos _⟩, ?_⟩
    · simp [h.reply, hreplies]
    · exact .inr (.inl rfl)
  rw [hstep]
  have hgot := (hreply.get (text .setText3 (literal "  Vent litt..."))).get (command .lcdUpdate)
  exact ⟨hgot.reply, .inr (.inl rfl)⟩

theorem Checked.answered (h : Checked c) : Doubled c.handleSupplyCheckDone := by
  obtain ⟨ping, r, hreplies, -, -, hreleases⟩ := h.replies
  have hreleased : ∃ place r, c.releaseReply.reply = some place ∧
      c.releaseReply.replies[place]? = some r ∧ 0 < r.releases := by
    refine ⟨1, { r with releases := r.releases + 1 }, h.reply, ?_, Nat.succ_pos _⟩
    simp [h.reply, hreplies]
  unfold handleSupplyCheckDone
  simp only
  split_ifs
  · exact ⟨hreleased, .inr (.inl rfl)⟩
  · exact ⟨hreleased, .inl rfl⟩

def Steps (c : Customer) (signal : Signal) : Prop :=
  (Spares c signal ∧ Asked (c.step signal)) ∨ (¬Spares c signal ∧ Doubled (c.step signal))

theorem Pinged.replied (h : Pinged c) (place : ℕ) (datagram : List UInt8) :
    Steps c (.replyReadyRead place datagram) := by
  obtain ⟨r, hreplies, hconnected, hreleases⟩ := h.replies
  cases place with
  | succ place =>
    have hnone : ∀ r, c.replies[place + 1]? = some r → 0 < r.releases := by simp [hreplies]
    refine .inl ⟨not_delivers hnone datagram, .inl ?_⟩
    rwa [step_ignores h.faulted hnone]
  | zero =>
    have hr : c.replies[0]? = some r := by simp [hreplies]
    have htold := h.told r.request datagram
    have hcommand :
        ((c.setData 0 datagram).emit (.replied r.request datagram)).replyCommand =
          datagram.getD 7 0 :=
      replyCommand_setData h.reply (by simp [hreplies]) datagram
    rw [Steps, step_delivers h.faulted hr hconnected hreleases]
    rcases h.state with hstate | hstate
    · rw [handleCustomer, show ((c.setData 0 datagram).emit _).state = .stateCheckDone from hstate]
      have hspares : Spares c (.replyReadyRead 0 datagram) ↔
          datagram.getD 7 0 = Cmd.ready.toByte ∨ datagram.getD 7 0 = Cmd.service.toByte := by
        simp [Spares, hr, hconnected, hreleases, hstate]
      rw [hspares]
      by_cases hready : datagram.getD 7 0 = Cmd.ready.toByte
      · exact .inl ⟨.inl hready, .inr (htold.ready (hcommand.trans hready))⟩
      by_cases hservice : datagram.getD 7 0 = Cmd.service.toByte
      · exact .inl ⟨.inr hservice, .inl (htold.service (hcommand.trans hservice))⟩
      · exact .inr ⟨not_or.mpr ⟨hready, hservice⟩,
          htold.busy (hcommand.trans_ne hready) (hcommand.trans_ne hservice)⟩
    · rw [handleCustomer, show ((c.setData 0 datagram).emit _).state = .expired from hstate]
      exact .inl ⟨fun _ => by simp [hstate], .inl htold⟩

theorem Checked.replied (h : Checked c) (place : ℕ) (datagram : List UInt8) :
    Steps c (.replyReadyRead place datagram) := by
  obtain ⟨ping, r, hreplies, hping, hconnected, hreleases⟩ := h.replies
  match place with
  | 0 =>
    have hreleased : ∀ r, c.replies[0]? = some r → 0 < r.releases := by simp [hreplies, hping]
    refine .inl ⟨not_delivers hreleased datagram, .inr ?_⟩
    rwa [step_ignores h.faulted hreleased]
  | place + 2 =>
    have hnone : ∀ r, c.replies[place + 2]? = some r → 0 < r.releases := by simp [hreplies]
    refine .inl ⟨not_delivers hnone datagram, .inr ?_⟩
    rwa [step_ignores h.faulted hnone]
  | 1 =>
    have hr : c.replies[1]? = some r := by simp [hreplies]
    have htold := h.told r.request datagram
    rw [Steps, step_delivers h.faulted hr hconnected hreleases]
    rcases h.state with hstate | hstate
    · rw [handleCustomer, show ((c.setData 1 datagram).emit _).state = .supplyCheckDone from hstate]
      exact .inr ⟨fun hspares => (hspares ⟨r, hr, hconnected, hreleases⟩).2 hstate, htold.answered⟩
    · rw [handleCustomer, show ((c.setData 1 datagram).emit _).state = .expired from hstate]
      exact .inl ⟨fun _ => by simp [hstate], .inr htold⟩

theorem Asked.step (h : Asked c) (signal : Signal) : Steps c signal := by
  have hunconnected : Unconnected c := h.elim (·.toUnconnected) (·.toUnconnected)
  have hstarting : c.starting = false := h.elim (·.starting) (·.starting)
  cases signal with
  | start =>
    refine .inl ⟨trivial, ?_⟩
    rw [step_of_faulted_eq_false hunconnected.faulted]
    simpa only [hstarting, Bool.false_eq_true, if_false] using h
  | replyReadyRead place datagram =>
    rcases h with h | h
    · exact h.replied place datagram
    · exact h.replied place datagram
  | socketReadyRead bytes =>
    refine .inl ⟨trivial, ?_⟩
    rwa [hunconnected.socketReadyRead]
  | timeout =>
    refine .inl ⟨trivial, ?_⟩
    rw [step_of_faulted_eq_false hunconnected.faulted]
    rcases h with h | h
    · exact .inl ⟨h.timeout, h.reply, h.replies, .inr rfl, h.starting⟩
    · exact .inr ⟨h.timeout, h.reply, h.replies, .inr rfl, h.starting⟩

theorem Fresh.step (h : Fresh c) (signal : Signal) : Sound (c.step signal) := by
  cases signal with
  | start => exact .inr (.inr (.inl h.start))
  | replyReadyRead place datagram => exact .inl (by rwa [h.replyReadyRead])
  | socketReadyRead bytes => exact .inl (by rwa [h.socketReadyRead])
  | timeout =>
    rw [step_of_faulted_eq_false h.faulted]
    exact .inr (.inl h.toUnasked.timeout)

/-- A customer stays sound exactly as long as the signals spare it. -/
theorem Sound.step_iff (h : Sound c) (signal : Signal) :
    Sound (c.step signal) ↔ Spares c signal := by
  rcases h with h | h | h
  · exact iff_of_true (h.step signal) (h.toUnasked.spares signal)
  · exact iff_of_true (.inr (.inl (h.step signal))) (h.toUnasked.spares signal)
  · rcases h.step signal with ⟨hspares, hasked⟩ | ⟨hspares, hdoubled⟩
    · exact iff_of_true (.inr (.inr hasked)) hspares
    · exact iff_of_false (fun hsound => hsound.not_doubled hdoubled) hspares

theorem Sound.step (h : Sound c) (signal : Signal) :
    Sound (c.step signal) ∨ Doubled (c.step signal) := by
  rcases h with h | h | h
  · exact .inl (h.step signal)
  · exact .inl (.inr (.inl (h.step signal)))
  · exact (h.step signal).imp (fun h => .inr (.inr h.2)) (·.2)

theorem run_sound_or_doubled (h : Sound c) (signals : List Signal) :
    Sound (c.run signals) ∨ Doubled (c.run signals) := by
  apply List.foldlRecOn (motive := fun c => Sound c ∨ Doubled c)
  · exact .inl h
  · intro c hc signal _
    exact hc.elim (·.step signal) fun hdoubled => .inr (hdoubled.step signal)

theorem sound_run_iff (h : Sound c) (signals : List Signal) :
    Sound (c.run signals) ↔ AllSteps step Spares signals c := by
  have hrun := foldl_iff_allSteps (I := fun c => Sound c ∨ Doubled c) (G := Sound) (P := Spares)
    (fun c signal hc => hc.elim (·.step signal) fun hc => .inr (hc.step signal))
    (fun c signal hc => ?_) (.inl h) signals
  · exact hrun.trans (and_iff_right h)
  · rcases hc with hc | hc
    · exact (hc.step_iff signal).trans (and_iff_right hc).symm
    · exact iff_of_false (fun hsound => hsound.not_doubled (hc.step signal))
        fun hsound => hsound.1.not_doubled hc

theorem Lapsed.run (h : Lapsed c) (signals : List Signal) : Lapsed (c.run signals) :=
  List.foldlRecOn signals Customer.step h fun _ h signal _ => h.step signal

theorem Asked.reply_run (h : Asked c) {signals : List Signal} (hsound : Sound (c.run signals)) :
    (c.run signals).reply.isSome := by
  induction signals generalizing c with
  | nil =>
    have hreply : c.reply.isSome := by
      rcases h with h | h
      · simp [h.reply]
      · simp [h.reply]
    exact hreply
  | cons signal signals ih =>
    rcases h.step signal with ⟨-, hasked⟩ | ⟨hspares, -⟩
    · exact ih hasked hsound
    · have hall := (sound_run_iff (.inr (.inr h)) (signal :: signals)).mp hsound
      exact absurd hall.1 hspares

theorem Fresh.reply_run (h : Fresh c) {signals : List Signal} (hsound : Sound (c.run signals)) :
    (c.run signals).reply.isSome ↔ Starts signals := by
  induction signals generalizing c with
  | nil => simp [run, h.reply, Starts]
  | cons signal signals ih =>
    cases signal with
    | start => exact iff_of_true (Asked.reply_run (.inl h.start) hsound) trivial
    | replyReadyRead place datagram =>
      rw [run, List.foldl_cons, h.replyReadyRead] at hsound ⊢
      exact ih h hsound
    | socketReadyRead bytes =>
      rw [run, List.foldl_cons, h.socketReadyRead] at hsound ⊢
      exact ih h hsound
    | timeout =>
      have hlapsed : Lapsed (c.step .timeout) := by
        rw [step_of_faulted_eq_false h.faulted]
        exact h.toUnasked.timeout
      have hnone : (c.run (.timeout :: signals)).reply = none := (hlapsed.run signals).reply
      rw [hnone]
      exact iff_of_false Bool.false_ne_true not_false

/-- Wherever the customer is destroyed: what it created is released exactly once, by its states and
its destructor together, if the unset members read as null (`m_reply` may hold anything once the
customer starts), no answer is taken for a busy machine and CHECK_AVAIL is not answered in time. -/
theorem balanced_iff_spared (memory : Memory) (customerID : QString) (signals : List Signal) :
    Balanced memory (run signals (new customerID)) ↔
      memory.socket = false ∧ (memory.reply = false ∨ Starts signals) ∧
        AllSteps step Spares signals (new customerID) := by
  have hfresh : Fresh (new customerID) := ⟨⟨⟨rfl, rfl, rfl⟩, rfl, rfl⟩, rfl, rfl⟩
  rw [← sound_run_iff (.inl hfresh)]
  by_cases hsound : Sound (run signals (new customerID))
  · rw [hsound.balanced_iff, hfresh.reply_run hsound, and_iff_left hsound]
  · have hdoubled := (run_sound_or_doubled (.inl hfresh) signals).resolve_left hsound
    exact iff_of_false hdoubled.not_balanced fun h => hsound h.2.2

theorem busy_reply_released_twice :
    ¬Balanced ⟨false, false⟩
      (run [.start, .replyReadyRead 0 [0x42, 0x53, 8, 0, 2, 0, 0, Cmd.busy.toByte]]
        (new (QString.literal "42"))) := by
  intro h
  have honce := h.once (.reply 0) (by decide)
  exact absurd honce (by decide)

end Customer

end Alko.Alkod
