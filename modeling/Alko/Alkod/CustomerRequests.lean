import Alko.Alkod.CustomerSafety

/-! What a customer asks the machine for, signal by signal: nothing is fetched before the customer
server's line, and a line that says paid fetches at once. -/

namespace Alko.Alkod

open Qt

def CustomerEvent.request? : CustomerEvent → Option (List UInt8)
  | .get request => some request
  | _ => none

namespace Customer

def requests (c : Customer) : List (List UInt8) := c.replies.map Reply.request

def gets (trace : List CustomerEvent) : List (List UInt8) :=
  trace.filterMap CustomerEvent.request?

/-- On the way from `c` to `d` the same requests are added to the replies and to the history. -/
def Grows (c d : Customer) : Prop :=
  ∃ new, d.requests = c.requests ++ new ∧ gets d.trace = gets c.trace ++ new

theorem Grows.trans {c d e : Customer} (h : Grows c d) (h' : Grows d e) : Grows c e := by
  obtain ⟨new, hrequests, hgets⟩ := h
  obtain ⟨new', hrequests', hgets'⟩ := h'
  refine ⟨new ++ new', ?_, ?_⟩
  · rw [hrequests', hrequests, List.append_assoc]
  · rw [hgets', hgets, List.append_assoc]

theorem Grows.same {c d : Customer} (hrequests : d.requests = c.requests)
    (hgets : gets d.trace = gets c.trace) : Grows c d :=
  ⟨[], by rw [hrequests, List.append_nil], by rw [hgets, List.append_nil]⟩

theorem Grows.refl (c : Customer) : Grows c c := .same rfl rfl

variable {c d : Customer}

theorem Grows.get (h : Grows c d) (request : List UInt8) : Grows c (d.get request) :=
  h.trans ⟨[request], by simp [requests], by simp [gets, CustomerEvent.request?]⟩

theorem Grows.ask (h : Grows c d) (request : List UInt8) : Grows c (d.ask request) :=
  h.trans ⟨[request], by simp [requests], by simp [gets, CustomerEvent.request?]⟩

theorem Grows.emit (h : Grows c d) {e : CustomerEvent} (he : e.request? = none) :
    Grows c (d.emit e) :=
  h.trans (.same rfl (by simp [gets, he]))

theorem requests_modify {f : Reply → Reply} (hf : ∀ r, (f r).request = r.request)
    (replies : List Reply) (i : ℕ) :
    (replies.modify i f).map Reply.request = replies.map Reply.request := by
  induction replies generalizing i with
  | nil => simp
  | cons r replies ih =>
    cases i with
    | zero => simp [hf]
    | succ i => simp [ih]

theorem Grows.releaseReply (h : Grows c d) : Grows c d.releaseReply := by
  refine h.trans (.same ?_ rfl)
  rw [requests, releaseReply_replies]
  cases d.reply with
  | none => rfl
  | some i =>
    exact requests_modify (f := fun r => { r with releases := r.releases + 1 }) (fun _ => rfl) _ i

theorem Grows.setData (h : Grows c d) (i : ℕ) (datagram : List UInt8) :
    Grows c (d.setData i datagram) :=
  h.trans (.same
    (requests_modify (f := fun r => { r with data := datagram }) (fun _ => rfl) d.replies i) rfl)

theorem Grows.handleStateCheckDone (h : Grows c d) : Grows c d.handleStateCheckDone := by
  unfold Customer.handleStateCheckDone
  simp only
  have hstop : Grows c d.stopTimer := h
  split_ifs
  · exact hstop.emit rfl
  · exact ((hstop.releaseReply.get _).get _).emit rfl
  · exact hstop.releaseReply.ask _

theorem Grows.handleSupplyCheckDone (h : Grows c d) : Grows c d.handleSupplyCheckDone := by
  unfold Customer.handleSupplyCheckDone
  simp only
  have hstop : Grows c d.stopTimer := h
  split_ifs
  · exact hstop.releaseReply.emit rfl
  · exact hstop.releaseReply.emit rfl

theorem Grows.handlePaymentCheckDone (h : Grows c d) : Grows c d.handlePaymentCheckDone := by
  apply handlePaymentCheckDone_keeps (P := Grows c)
  · exact fun request d h => h.get request
  · exact fun d h => h.emit (e := .outOfRange) rfl
  · intro d h
    have hstop : Grows c (d.stopTimer.setState .allDone) := h
    exact hstop.emit rfl
  · exact h.emit rfl

theorem Grows.handleCustomer (h : Grows c d) : Grows c d.handleCustomer := by
  unfold Customer.handleCustomer
  split
  · exact h.ask _
  · exact h.handleStateCheckDone
  · exact h.handleSupplyCheckDone
  · exact h.handlePaymentCheckDone
  · exact h
  · exact h

theorem grows_step (c : Customer) (signal : Signal) : Grows c (c.step signal) := by
  apply step_keeps signal (.refl c)
  · intro _ _
    exact (Grows.same rfl rfl).handleCustomer
  · intro i datagram r _ _ _ _ _
    exact (((Grows.refl c).setData i datagram).emit rfl).handleCustomer
  · intro i datagram
    exact (Grows.refl c).setData i datagram
  · intro bytes buffer _ _ _
    exact (Grows.same rfl rfl).handleCustomer
  · have hexpired : Grows c (c.emit .expired) := (Grows.refl c).emit rfl
    exact hexpired.emit rfl

/-- The replies are what the history says was asked for. -/
def Recorded (c : Customer) : Prop := gets c.trace = c.requests

theorem recorded_new (customerID : QString) : Recorded (new customerID) := rfl

theorem Recorded.step (h : Recorded c) (signal : Signal) : Recorded (c.step signal) := by
  obtain ⟨new, hrequests, hgets⟩ := grows_step c signal
  rw [Recorded, hrequests, hgets, h]

theorem Recorded.count_fetch (h : Recorded c) :
    c.requests.count (command .fetch) = c.trace.count fetch := by
  rw [← h, gets]
  induction c.trace with
  | nil => rfl
  | cons e trace ih =>
    cases e with
    | get request =>
      have hhead : (CustomerEvent.get request == fetch) = (request == command .fetch) := by
        simp [fetch, beq_eq_decide]
      rw [List.count_cons, hhead, ← ih]
      exact List.count_cons
    | _ => simpa [List.filterMap_cons, CustomerEvent.request?, fetch] using ih

/-- No byte has come from the customer server; `asked`: it has been sent the request. -/
structure Unserved (asked : Prop) (c : Customer) : Prop where
  notFetched : fetch ∉ c.trace
  notFaulted : c.faulted = false
  socket : c.socket = none ∨ c.socket = some []
  state : c.socket ≠ none → c.state = .paymentCheckDone ∨ c.state = .expired
  connected : asked → c.socket ≠ none

variable {asked : Prop}

theorem unserved_new (customerID : QString) : Unserved False (new customerID) where
  notFetched := by simp [new]
  notFaulted := rfl
  socket := Or.inl rfl
  state h := absurd rfl h
  connected := False.elim

theorem Unserved.idle (h : Unserved asked c) (hstate : c.state = .allDone ∨ c.state = .expired) :
    Unserved asked c.handleCustomer := by
  unfold handleCustomer
  rcases hstate with hstate | hstate <;> rw [hstate] <;> exact h

theorem Unserved.not_asked (h : Unserved asked c) (hsocket : c.socket = none) : ¬asked :=
  fun hasked => h.connected hasked hsocket

theorem Unserved.of_not_asked (hasked : ¬asked) (hnot : fetch ∉ c.trace)
    (hfaulted : c.faulted = false) (hsocket : c.socket = none) : Unserved asked c where
  notFetched := hnot
  notFaulted := hfaulted
  socket := Or.inl hsocket
  state hs := absurd hsocket hs
  connected h := absurd h hasked

theorem Unserved.handleNewCustomer (h : Unserved asked c) (hsocket : c.socket = none) :
    Unserved asked c.handleNewCustomer := by
  apply Unserved.of_not_asked (h.not_asked hsocket)
  · simpa [Customer.handleNewCustomer, fetch, command, Cmd.toByte] using h.notFetched
  · exact h.notFaulted
  · exact hsocket

theorem Unserved.handleStateCheckDone (h : Unserved asked c) (hsocket : c.socket = none) :
    Unserved asked c.handleStateCheckDone := by
  have hnot := h.notFetched
  have hasked := h.not_asked hsocket
  unfold Customer.handleStateCheckDone
  simp only
  split_ifs
  · apply Unserved.of_not_asked hasked
    · simpa [fetch] using hnot
    · exact h.notFaulted
    · exact hsocket
  · apply Unserved.of_not_asked hasked
    · simpa [fetch, command, text, Cmd.toByte] using hnot
    · exact h.notFaulted
    · exact hsocket
  · apply Unserved.of_not_asked hasked
    · simpa [fetch, command, Cmd.toByte] using hnot
    · exact h.notFaulted
    · exact hsocket

theorem Unserved.handleSupplyCheckDone (h : Unserved asked c) (hsocket : c.socket = none) :
    Unserved asked c.handleSupplyCheckDone := by
  have hnot := h.notFetched
  unfold Customer.handleSupplyCheckDone
  simp only
  split_ifs
  · apply Unserved.of_not_asked (h.not_asked hsocket)
    · simpa [fetch] using hnot
    · exact h.notFaulted
    · exact hsocket
  · -- the socket is there, and nothing has come through it
    exact ⟨by simpa [fetch] using hnot, h.notFaulted, Or.inr rfl, fun _ => Or.inl rfl,
      fun _ => Option.some_ne_none _⟩

theorem Unserved.replied (h : Unserved asked c) (hinv : Inv c) {i : ℕ} {r : Reply}
    (hr : c.replies[i]? = some r) (hconnected : r.connected = true) (hreleased : r.released = false)
    (datagram : List UInt8) :
    Unserved asked ((c.setData i datagram).emit (.replied r.request datagram)).handleCustomer := by
  have hsame : Unserved asked ((c.setData i datagram).emit (.replied r.request datagram)) :=
    { h with notFetched := by simpa [Customer.setData, fetch] using h.notFetched }
  have hphase := hinv.phase h.notFaulted
  unfold Phase at hphase
  cases hstate : c.state with
  | newCustomer =>
    rw [hstate] at hphase
    rw [hphase.2.1] at hr
    simp at hr
  | stateCheckDone =>
    rw [hstate] at hphase
    rw [Customer.handleCustomer,
      show ((c.setData i datagram).emit _).state = .stateCheckDone from hstate]
    exact hsame.handleStateCheckDone hphase.2.2
  | supplyCheckDone =>
    rw [hstate] at hphase
    rw [Customer.handleCustomer,
      show ((c.setData i datagram).emit _).state = .supplyCheckDone from hstate]
    exact hsame.handleSupplyCheckDone hphase.2.2.1
  | paymentCheckDone =>
    rw [hstate] at hphase
    have hfreed := hphase.2.1 r (List.mem_of_getElem? hr) hconnected
    rw [hreleased] at hfreed
    cases hfreed
  | allDone => exact hsame.idle (Or.inl hstate)
  | expired => exact hsame.idle (Or.inr hstate)

theorem Unserved.start (h : Unserved asked c) (hinv : Inv c) (hstart : c.starting = true) :
    Unserved asked { c with starting := false }.handleCustomer := by
  have hsame : Unserved asked { c with starting := false } := { h with }
  have hphase := hinv.phase h.notFaulted
  rcases hinv.starting hstart with hstate | hstate
  · unfold Phase at hphase
    rw [hstate] at hphase
    rw [Customer.handleCustomer, show ({ c with starting := false } : Customer).state = _ from hstate]
    exact hsame.handleNewCustomer hphase.2.2
  · exact hsame.idle (Or.inr hstate)

theorem Unserved.step (h : Unserved asked c) (hinv : Inv c) {signal : Signal}
    (hsignal : ∀ bytes, signal ≠ .socketReadyRead bytes) : Unserved asked (c.step signal) := by
  apply step_keeps signal h
  · intro _ hstart
    exact h.start hinv hstart
  · intro i datagram r _ _ hr hreleased hconnected
    exact h.replied hinv hr hconnected hreleased datagram
  · intro i datagram
    exact { h with }
  · intro bytes buffer _ hsent _
    exact absurd hsent (hsignal bytes)
  · exact
      { h with
        notFetched := by simpa [Customer.timeout, fetch] using h.notFetched
        state := fun _ => Or.inr rfl }

def words (answer : List UInt8) : List QString :=
  (QString.ofByteArray (answer.take (lineLength answer))).trimmed.split

theorem handlePaid_fetches {tokens : List QString} (h : 2 ≤ tokens.length) (c : Customer) :
    fetch ∈ (c.handlePaid tokens).trace ∧ (c.handlePaid tokens).faulted = c.faulted := by
  unfold handlePaid withToken
  rw [List.getElem?_eq_getElem (show 1 < tokens.length from h)]
  simp only [get_trace, get_faulted, fetch, List.mem_append, List.mem_singleton, or_true, and_self]

theorem take_lineLength_head? (answer : List UInt8) :
    (answer.take (lineLength answer)).head? = answer.head? := by
  cases answer with
  | nil => rfl
  | cons b rest =>
    rw [lineLength, List.length_cons, Nat.succ_min_succ]
    rfl

/-- An answer that begins with a 1, to a customer that still waits for it, fetches. -/
theorem Unserved.served (h : Unserved asked c) (hstate : c.state = .paymentCheckDone)
    (hsocket : c.socket = some []) {answer : List UInt8} (hpaid : answer.head? = some 0x31)
    (hwords : 2 ≤ (words answer).length) :
    fetch ∈ (c.step (.socketReadyRead answer)).trace := by
  have hresult : (QString.ofByteArray (answer.take (lineLength answer))).leftToInt = some 1 := by
    apply QString.leftToInt_ofByteArray (by decide)
    rw [take_lineLength_head?, hpaid]
    rfl
  have hstep : c.step (.socketReadyRead answer) =
      { c with socket := some answer }.handlePaymentCheckDone := by
    unfold Customer.step
    rw [if_neg (by simp [h.notFaulted])]
    simp only [handleSocket, hsocket, List.nil_append, handleCustomer, hstate]
  have hread : (({ c with socket := some answer } : Customer).startTimer 250).readLine.1 =
      answer.take (lineLength answer) := rfl
  have hfaulted : (({ c with socket := some answer } : Customer).startTimer 250).readLine.2.faulted =
      false := h.notFaulted
  rw [hstep, handlePaymentCheckDone]
  generalize (({ c with socket := some answer } : Customer).startTimer 250).readLine = p
    at hread hfaulted ⊢
  obtain ⟨line, d⟩ := p
  obtain rfl : line = answer.take (lineLength answer) := hread
  obtain ⟨hfetch, hkept⟩ := handlePaid_fetches hwords d
  have hnot : d.faulted = false := hfaulted
  have hwords : (QString.ofByteArray (answer.take (lineLength answer))).trimmed.split =
      words answer := rfl
  simp only [hresult, handleResult, hwords, hkept, hnot, Bool.false_eq_true, if_false,
    emit_trace, setState_trace, stopTimer_trace]
  exact List.mem_append_left _ hfetch

theorem step_expired (h : c.state = .expired) (signal : Signal) :
    (c.step signal).state = .expired ∧ gets (c.step signal).trace = gets c.trace := by
  have hidle : ∀ d : Customer, d.state = .expired → gets d.trace = gets c.trace →
      d.handleCustomer.state = .expired ∧ gets d.handleCustomer.trace = gets c.trace := by
    intro d hstate htrace
    unfold handleCustomer
    rw [hstate]
    exact ⟨hstate, htrace⟩
  apply step_keeps (P := fun d => d.state = .expired ∧ gets d.trace = gets c.trace) signal ⟨h, rfl⟩
  · intro _ _
    exact hidle _ h rfl
  · intro i datagram r _ _ _ _ _
    exact hidle _ h (by simp [gets, CustomerEvent.request?, setData])
  · intro i datagram
    exact ⟨h, rfl⟩
  · intro bytes buffer _ _ _
    exact hidle _ h rfl
  · exact ⟨rfl, by simp [gets, CustomerEvent.request?, timeout]⟩

theorem run_expired (h : c.state = .expired) (signals : List Signal) :
    (run signals c).state = .expired ∧ gets (run signals c).trace = gets c.trace := by
  induction signals generalizing c with
  | nil => exact ⟨h, rfl⟩
  | cons signal signals ih =>
    obtain ⟨hstate, hgets⟩ := step_expired h signal
    obtain ⟨hstate', hgets'⟩ := ih hstate
    exact ⟨hstate', hgets'.trans hgets⟩

theorem fetch_mem_iff (trace : List CustomerEvent) :
    fetch ∈ trace ↔ command .fetch ∈ gets trace := by
  unfold gets fetch
  rw [List.mem_filterMap]
  constructor
  · exact fun h => ⟨_, h, rfl⟩
  · rintro ⟨e, he, hrequest⟩
    cases e with
    | get request => exact Option.some.inj hrequest ▸ he
    | _ => cases hrequest

theorem step_fetched (h : fetch ∈ c.trace) (signal : Signal) : fetch ∈ (c.step signal).trace := by
  obtain ⟨new, -, hgets⟩ := grows_step c signal
  rw [fetch_mem_iff] at h ⊢
  rw [hgets]
  exact List.mem_append_left _ h

end Customer

end Alko.Alkod
