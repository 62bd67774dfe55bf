import Alko.Alkod.Customer
import Alko.Foundation.History

/-! What a customer may ask the machine for: the FETCH comes once and last, behind the machine's
answers and the customer server's line. -/

namespace Alko.Alkod

open Foundation Qt

namespace Customer

def fetch : CustomerEvent := .get (command .fetch)

def Told (request answer : Cmd) (e : CustomerEvent) : Prop :=
  ∃ datagram : List UInt8,
    e = .replied (Customer.command request) datagram ∧ datagram.getD 7 0 = answer.toByte

def Paid (e : CustomerEvent) : Prop :=
  ∃ bytes, e = .line bytes ∧ ((QString.ofByteArray bytes).head? = some 0x31 ∨
    (QString.ofByteArray bytes).head? = some 0x36)

def Cleared (trace : List CustomerEvent) : Prop :=
  ∃ ready avail line, List.Sublist [ready, avail, line] trace ∧
    Told .ping .ready ready ∧ Told .checkAvail .drinkAvail avail ∧ Paid line

def NoRequest (e : CustomerEvent) : Prop := ∀ request, e ≠ .get request

structure Lawful (trace : List CustomerEvent) : Prop where
  once : trace.count fetch ≤ 1
  cleared : Preceded fetch Cleared trace
  expiry : Followed .expired NoRequest trace

structure Open (trace : List CustomerEvent) : Prop where
  notFetched : fetch ∉ trace
  notExpired : .expired ∉ trace

section Trace

variable {trace : List CustomerEvent} {e : CustomerEvent}

theorem Open.lawful (h : Open trace) : Lawful trace where
  once := by
    rw [List.count_eq_zero_of_not_mem h.notFetched]
    exact Nat.zero_le 1
  cleared := .of_not_mem h.notFetched
  expiry := .of_not_mem h.notExpired

theorem Open.concat (h : Open trace) (hfetch : fetch ≠ e) (hexpired : .expired ≠ e) :
    Open (trace ++ [e]) := by
  refine ⟨?_, ?_⟩
  · simpa [hfetch] using h.notFetched
  · simpa [hexpired] using h.notExpired

theorem Open.fetched (h : Open trace) (hcleared : Cleared trace) : Lawful (trace ++ [fetch]) where
  once := by
    rw [List.count_append, List.count_eq_zero_of_not_mem h.notFetched]
    simp
  cleared := (Preceded.of_not_mem h.notFetched).concat fun _ => hcleared
  expiry := (Followed.of_not_mem h.notExpired).concat fun hmem => absurd hmem h.notExpired

theorem Lawful.concat (h : Lawful trace) (he : NoRequest e) : Lawful (trace ++ [e]) where
  once := by
    rw [List.count_append, List.count_singleton, if_neg (by simpa [fetch] using he (command .fetch))]
    exact h.once
  cleared := h.cleared.concat fun hfetch => absurd hfetch (he (command .fetch))
  expiry := h.expiry.concat fun _ => he

end Trace

def Deaf (replies : List Reply) : Prop := ∀ r ∈ replies, r.connected = true → r.released = true

def Awaits (request : Cmd) (c : Customer) : Prop :=
  ∃ old r, c.replies = old ++ [r] ∧ Deaf old ∧ c.reply = some old.length ∧
    r.request = command request

def Phase (c : Customer) : Prop :=
  match c.state with
  | .newCustomer => c.trace = [] ∧ c.replies = [] ∧ c.socket = none
  | .stateCheckDone => Open c.trace ∧ Awaits .ping c ∧ c.socket = none
  | .supplyCheckDone =>
    Open c.trace ∧ Awaits .checkAvail c ∧ c.socket = none ∧
      ∃ ready ∈ c.trace, Told .ping .ready ready
  | .paymentCheckDone =>
    Open c.trace ∧ Deaf c.replies ∧
      ∃ ready avail, List.Sublist [ready, avail] c.trace ∧ Told .ping .ready ready ∧
        Told .checkAvail .drinkAvail avail
  | .allDone => True
  | .expired => True

structure Inv (c : Customer) : Prop where
  lawful : Lawful c.trace
  starting : c.starting = true → c.state = .newCustomer ∨ c.state = .expired
  phase : c.faulted = false → c.Phase

variable {c : Customer} {request : Cmd}

theorem deaf_modify {replies : List Reply} {f : Reply → Reply} (h : Deaf replies)
    (hf : ∀ r, (f r).connected = r.connected ∧ (f r).released = r.released) (i : ℕ) :
    Deaf (replies.modify i f) := by
  intro r hr
  obtain ⟨j, hj⟩ := List.mem_iff_getElem?.mp hr
  rw [List.getElem?_modify] at hj
  obtain ⟨r', hr', hfr⟩ := Option.map_eq_some_iff.mp hj
  have hold := h r' (List.mem_of_getElem? hr')
  split_ifs at hfr
  · rw [← hfr, (hf r').1, (hf r').2]
    exact hold
  · rw [← hfr]
    exact hold

theorem modify_last (old : List Reply) (r : Reply) (f : Reply → Reply) :
    (old ++ [r]).modify old.length f = old ++ [f r] := by
  induction old with
  | nil => rfl
  | cons a old ih =>
    simp only [List.cons_append, List.length_cons, List.modify_succ_cons, ih]

theorem modify_old {old : List Reply} {i : ℕ} (h : i < old.length) (r : Reply)
    (f : Reply → Reply) : (old ++ [r]).modify i f = old.modify i f ++ [r] := by
  induction old generalizing i with
  | nil => simp at h
  | cons a old ih =>
    cases i with
    | zero => rfl
    | succ i =>
      simp only [List.cons_append, List.modify_succ_cons,
        ih (by simpa only [List.length_cons, Nat.succ_lt_succ_iff] using h)]

theorem Awaits.releaseReply (h : Awaits request c) : Deaf c.releaseReply.replies := by
  obtain ⟨old, r, hreplies, hdeaf, hreply, -⟩ := h
  simp only [releaseReply_replies, hreply, hreplies, modify_last]
  intro r' hr'
  rcases List.mem_append.mp hr' with hold | hnew
  · exact hdeaf r' hold
  · rw [List.mem_singleton.mp hnew]
    exact fun _ => rfl

theorem awaits_ask (h : Deaf c.replies) (request : Cmd) : Awaits request (c.ask (command request)) :=
  ⟨c.replies, _, rfl, h, rfl, rfl⟩

theorem Awaits.setData (h : Awaits request c) (i : ℕ) (datagram : List UInt8) :
    Awaits request (c.setData i datagram) := by
  obtain ⟨old, r, hreplies, hdeaf, hreply, hrequest⟩ := h
  simp only [Awaits, Customer.setData, hreplies, hreply]
  rcases Nat.lt_trichotomy i old.length with hlt | rfl | hgt
  · have hold : Deaf (old.modify i fun r => { r with data := datagram }) :=
      deaf_modify (f := fun r => { r with data := datagram }) hdeaf (fun _ => ⟨rfl, rfl⟩) i
    refine ⟨_, r, modify_old hlt r _, hold, ?_, hrequest⟩
    rw [List.length_modify]
  · exact ⟨old, { r with data := datagram }, modify_last old r _, hdeaf, rfl, hrequest⟩
  · refine ⟨old, r, List.modify_eq_self ?_, hdeaf, rfl, hrequest⟩
    rw [List.length_append, List.length_singleton]
    exact hgt

theorem Awaits.delivers (h : Awaits request c) {i : ℕ} {r : Reply} (hr : c.replies[i]? = some r)
    (hconnected : r.connected = true) (hreleased : r.released = false) :
    r.request = command request ∧ c.reply = some i := by
  obtain ⟨old, last, hreplies, hdeaf, hreply, hrequest⟩ := h
  rw [hreplies] at hr
  rcases Nat.lt_or_ge i old.length with hlt | hge
  · rw [List.getElem?_append_left hlt] at hr
    have hfreed := hdeaf r (List.mem_of_getElem? hr) hconnected
    rw [hreleased] at hfreed
    cases hfreed
  · rw [List.getElem?_append_right hge] at hr
    obtain ⟨hi, hlast⟩ := List.getElem?_eq_some_iff.mp hr
    simp only [List.length_singleton] at hi
    simp only [List.getElem_singleton] at hlast
    rw [← hlast, hreply, show i = old.length by omega]
    exact ⟨hrequest, rfl⟩

theorem replyCommand_setData {i : ℕ} (hreply : c.reply = some i) (hi : i < c.replies.length)
    (datagram : List UInt8) : (c.setData i datagram).replyCommand = datagram.getD 7 0 := by
  have hget : (c.replies.modify i fun r => { r with data := datagram })[i]? =
      some { c.replies[i] with data := datagram } := by
    rw [List.getElem?_modify_eq, List.getElem?_eq_getElem hi]
    rfl
  simp only [replyCommand, setData, hreply, Option.bind_some, hget]

theorem fetch_ne_command {cmd : Cmd} (h : cmd ≠ .fetch) : fetch ≠ .get (command cmd) := by
  intro heq
  simp only [fetch, command, CustomerEvent.get.injEq, List.cons.injEq, and_true] at heq
  exact h (Cmd.toByte_injective heq).symm

theorem fetch_ne_text {line : Cmd} (h : line ≠ .fetch) (bytes : List UInt8) :
    fetch ≠ .get (text line bytes) := by
  intro heq
  simp only [fetch, command, text, CustomerEvent.get.injEq, List.cons.injEq] at heq
  exact h (Cmd.toByte_injective heq.1).symm

theorem Open.get_command (h : Open c.trace) {cmd : Cmd} (hne : cmd ≠ .fetch) :
    Open (c.get (command cmd)).trace := h.concat (fetch_ne_command hne) (by simp)

theorem Open.get_text (h : Open c.trace) {line : Cmd} (hne : line ≠ .fetch) (bytes : List UInt8) :
    Open (c.get (text line bytes)).trace := h.concat (fetch_ne_text hne bytes) (by simp)

theorem Open.ask (h : Open c.trace) {cmd : Cmd} (hne : cmd ≠ .fetch) :
    Open (c.ask (command cmd)).trace := h.concat (fetch_ne_command hne) (by simp)

theorem Open.emit_done (h : Open c.trace) : Open (c.emit .done).trace :=
  h.concat (by simp [fetch]) (by simp)

theorem started {p : Prop} (h : c.starting = false) : c.starting = true → p := by
  intro hstarting
  rw [h] at hstarting
  cases hstarting

theorem Inv.of_finished (hlawful : Lawful c.trace) (hstarting : c.starting = false)
    (hstate : c.state = .allDone) : Inv c where
  lawful := hlawful
  starting := started hstarting
  phase _ := by unfold Phase; rw [hstate]; trivial

theorem Inv.handleNewCustomer (htrace : c.trace = []) (hreplies : c.replies = [])
    (hsocket : c.socket = none) (hstarting : c.starting = false) : Inv c.handleNewCustomer := by
  have hopen : Open c.handleNewCustomer.trace := by
    refine Open.ask (c := c) ?_ (by decide)
    rw [htrace]
    exact ⟨by simp, by simp⟩
  refine ⟨hopen.lawful, ?_, fun _ => ⟨hopen, ?_, hsocket⟩⟩
  · exact started hstarting
  · refine awaits_ask (c := c) ?_ .ping
    rw [hreplies]
    simp [Deaf]

theorem Inv.handleStateCheckDone (hopen : Open c.trace) (hawaits : Awaits .ping c)
    (hsocket : c.socket = none) (hstarting : c.starting = false) (hstate : c.state = .stateCheckDone)
    (htold : c.replyCommand = Cmd.ready.toByte → ∃ ready ∈ c.trace, Told .ping .ready ready) :
    Inv c.handleStateCheckDone := by
  have hcommand : c.stopTimer.replyCommand = c.replyCommand := rfl
  unfold Customer.handleStateCheckDone
  simp only [hcommand]
  split_ifs with hbusy hservice
  · -- the customer is done, and still listens
    have hdone : Open (c.stopTimer.emit .done).trace := hopen.emit_done
    refine ⟨hdone.lawful, started hstarting, fun _ => ?_⟩
    unfold Phase
    rw [emit_state, stopTimer_state, hstate]
    exact ⟨hdone, hawaits, hsocket⟩
  · have htext : Open ((c.stopTimer.releaseReply.get (text .setText3 (literal "  Vent litt..."))).get
        (command .lcdUpdate)).trace :=
      (Open.get_text (c := c.stopTimer.releaseReply) hopen (by decide) _).get_command (by decide)
    exact .of_finished htext.emit_done.lawful hstarting rfl
  · have hready : c.replyCommand = Cmd.ready.toByte := not_not.mp hbusy
    have hask : Open (c.stopTimer.releaseReply.ask (command .checkAvail)).trace :=
      Open.ask (c := c.stopTimer.releaseReply) hopen (by decide)
    obtain ⟨ready, hmem, hready⟩ := htold hready
    refine ⟨hask.lawful, started hstarting, fun _ => ?_⟩
    exact ⟨hask, awaits_ask (Awaits.releaseReply (c := c.stopTimer) hawaits) .checkAvail, hsocket,
      ready, List.mem_append_left _ hmem, hready⟩

theorem Inv.handleSupplyCheckDone (hopen : Open c.trace) (hawaits : Awaits .checkAvail c)
    (hstarting : c.starting = false)
    (htold : c.replyCommand = Cmd.drinkAvail.toByte →
      ∃ ready avail, List.Sublist [ready, avail] c.trace ∧ Told .ping .ready ready ∧
        Told .checkAvail .drinkAvail avail) :
    Inv c.handleSupplyCheckDone := by
  have hcommand : c.stopTimer.replyCommand = c.replyCommand := rfl
  unfold Customer.handleSupplyCheckDone
  simp only [hcommand]
  split_ifs with hempty
  · have hdone : Open (c.stopTimer.releaseReply.emit .done).trace :=
      Open.emit_done (c := c.stopTimer.releaseReply) hopen
    exact .of_finished hdone.lawful hstarting rfl
  · obtain ⟨ready, avail, hsub, hready, havail⟩ := htold (not_not.mp hempty)
    have hconnect : Open (c.stopTimer.releaseReply.connectToHost).trace :=
      hopen.concat (by simp [fetch]) (by simp)
    refine ⟨hconnect.lawful, started hstarting, fun _ => ?_⟩
    exact ⟨hconnect, Awaits.releaseReply (c := c.stopTimer) hawaits, ready, avail,
      hsub.trans (List.sublist_append_left _ _), hready, havail⟩

theorem Open.withToken (h : Open c.trace) (tokens : List QString)
    {f : List UInt8 → Customer → Customer} (hf : ∀ token, Lawful (f token c).trace) :
    Lawful (c.withToken tokens f).trace := by
  unfold Customer.withToken
  cases tokens[1]? with
  | none => exact (h.concat (by simp [fetch]) (by simp)).lawful
  | some token => exact hf token.toLatin1

theorem Open.clearText (h : Open c.trace) (tokens : List QString) :
    Open ((c.get (command .clrText)).get (text .setText3 (lastToken tokens))).trace :=
  (h.get_command (by decide)).get_text (by decide) _

theorem Cleared.append {trace : List CustomerEvent} (h : Cleared trace)
    (new : List CustomerEvent) : Cleared (trace ++ new) := by
  obtain ⟨ready, avail, line, hsub, htold⟩ := h
  exact ⟨ready, avail, line, hsub.trans (List.sublist_append_left _ _), htold⟩

/-- Only the results 1 and 6 fetch, and last. -/
theorem Open.handleResult (h : Open c.trace) (result : ℕ) (tokens : List QString)
    (hcleared : result = 1 ∨ result = 6 → Cleared c.trace) :
    Lawful (c.handleResult result tokens).trace := by
  unfold Customer.handleResult
  split
  · apply (h.clearText tokens).withToken tokens
    intro token
    exact ((h.clearText tokens).get_text (by decide) _).fetched
      ((((hcleared (by simp)).append _).append _).append _)
  · apply (h.clearText tokens).withToken tokens
    intro token
    exact (((((h.clearText tokens).get_text (by decide) _).get_text (by decide) _).get_command
      (by decide)).get_command (by decide)).lawful
  · exact ((((h.get_command (by decide)).get_text (by decide) _).get_command (by decide)).get_command
      (by decide)).lawful
  · apply (h.clearText tokens).withToken tokens
    intro token
    exact (((h.clearText tokens).get_text (by decide) _).get_text (by decide) _).fetched
      (((((hcleared (by simp)).append _).append _).append _).append _)
  · exact h.lawful

theorem handleResult_starting (result : ℕ) (tokens : List QString) (c : Customer) :
    (c.handleResult result tokens).starting = c.starting := by
  apply handleResult_keeps (P := fun d => d.starting = c.starting)
  · exact fun request d h => h
  · exact fun d h => h
  · rfl

theorem Inv.handlePaymentCheckDone (hopen : Open c.trace) (hdeaf : Deaf c.replies)
    (hstarting : c.starting = false) (hstate : c.state = .paymentCheckDone)
    {ready avail : CustomerEvent} (hsub : List.Sublist [ready, avail] c.trace)
    (hready : Told .ping .ready ready) (havail : Told .checkAvail .drinkAvail avail) :
    Inv c.handlePaymentCheckDone := by
  have hlineOpen : Open (c.startTimer 250).readLine.2.trace :=
    hopen.concat (by simp [fetch]) (by simp)
  have hline : List.Sublist [ready, avail, .line (c.startTimer 250).readLine.1]
      (c.startTimer 250).readLine.2.trace := hsub.append (.refl _)
  have hstart : (c.startTimer 250).readLine.2.starting = false := hstarting
  have hreplies : (c.startTimer 250).readLine.2.replies = c.replies := rfl
  have hphase : (c.startTimer 250).readLine.2.state = .paymentCheckDone := hstate
  unfold Customer.handlePaymentCheckDone
  generalize (c.startTimer 250).readLine = p at hlineOpen hline hstart hreplies hphase ⊢
  obtain ⟨line, c'⟩ := p
  simp only
  cases hresult : (QString.ofByteArray line).leftToInt with
  | none =>
    -- not a result: the customer waits for another line
    refine ⟨hlineOpen.lawful, started hstart, fun _ => ?_⟩
    unfold Phase
    rw [hphase]
    exact ⟨hlineOpen, hreplies ▸ hdeaf, ready, avail,
      (List.sublist_append_left [ready, avail] [_]).trans hline, hready, havail⟩
  | some result =>
    have hcleared : result = 1 ∨ result = 6 → Cleared c'.trace := by
      intro hpaid
      refine ⟨ready, avail, _, hline, hready, havail, line, rfl, ?_⟩
      have hhead := QString.leftToInt_eq_some hresult
      rcases hpaid with rfl | rfl
      · exact Or.inl hhead
      · exact Or.inr hhead
    have hlawful := hlineOpen.handleResult result (QString.ofByteArray line).trimmed.split hcleared
    have hkept := (handleResult_starting result (QString.ofByteArray line).trimmed.split c').trans
      hstart
    simp only
    split_ifs with hfault
    · refine ⟨hlawful, started hkept, fun h => ?_⟩
      rw [hfault] at h
      cases h
    · exact .of_finished (hlawful.concat (by simp [NoRequest])) hkept rfl

theorem inv_new (customerID : QString) : Inv (new customerID) where
  lawful := Open.lawful ⟨by simp [new], by simp [new]⟩
  starting _ := Or.inl rfl
  phase _ := ⟨rfl, rfl, rfl⟩

theorem Inv.timeout (h : Inv c) : Inv c.timeout where
  lawful := (h.lawful.concat (by simp [NoRequest])).concat (by simp [NoRequest])
  starting _ := Or.inr rfl
  phase _ := trivial

theorem Inv.idle (hlawful : Lawful c.trace)
    (hstarting : c.starting = true → c.state = .newCustomer ∨ c.state = .expired)
    (hstate : c.state = .allDone ∨ c.state = .expired) : Inv c.handleCustomer := by
  have hidle : c.handleCustomer = c := by
    unfold Customer.handleCustomer
    rcases hstate with hstate | hstate <;> rw [hstate]
  rw [hidle]
  refine ⟨hlawful, hstarting, fun _ => ?_⟩
  unfold Phase
  rcases hstate with hstate | hstate <;> rw [hstate] <;> trivial

theorem Inv.start (h : Inv c) (hfault : c.faulted = false) (hstart : c.starting = true) :
    Inv { c with starting := false }.handleCustomer := by
  have hphase := h.phase hfault
  have hfalse : ({ c with starting := false } : Customer).starting = false := rfl
  rcases h.starting hstart with hstate | hstate
  · unfold Phase at hphase
    rw [hstate] at hphase
    obtain ⟨htrace, hreplies, hsocket⟩ := hphase
    rw [Customer.handleCustomer, show ({ c with starting := false } : Customer).state = _ from hstate]
    exact Inv.handleNewCustomer htrace hreplies hsocket rfl
  · refine Inv.idle (c := { c with starting := false }) h.lawful ?_ (Or.inr hstate)
    exact started hfalse

theorem Inv.starting_eq_false (h : Inv c) (hnew : c.state ≠ .newCustomer)
    (hexpired : c.state ≠ .expired) : c.starting = false := by
  by_contra hstarting
  rcases h.starting (Bool.eq_true_of_not_eq_false hstarting) with hstate | hstate
  · exact hnew hstate
  · exact hexpired hstate

theorem Inv.setData (h : Inv c) (i : ℕ) (datagram : List UInt8) : Inv (c.setData i datagram) where
  lawful := h.lawful
  starting := h.starting
  phase hfault := by
    have hphase := h.phase hfault
    unfold Phase at hphase ⊢
    rw [show (c.setData i datagram).state = c.state from rfl]
    split <;> rename_i hstate <;> rw [hstate] at hphase
    · obtain ⟨htrace, hreplies, hsocket⟩ := hphase
      refine ⟨htrace, ?_, hsocket⟩
      rw [Customer.setData, hreplies]
      exact List.modify_nil ..
    · exact ⟨hphase.1, hphase.2.1.setData i datagram, hphase.2.2⟩
    · exact ⟨hphase.1, hphase.2.1.setData i datagram, hphase.2.2⟩
    · have hdeaf : Deaf (c.setData i datagram).replies :=
        deaf_modify (f := fun r => { r with data := datagram }) hphase.2.1 (fun _ => ⟨rfl, rfl⟩) i
      exact ⟨hphase.1, hdeaf, hphase.2.2⟩
    · trivial
    · trivial

theorem Inv.replied (h : Inv c) (hfault : c.faulted = false) {i : ℕ} {r : Reply}
    (hr : c.replies[i]? = some r) (hconnected : r.connected = true) (hreleased : r.released = false)
    (datagram : List UInt8) :
    Inv ((c.setData i datagram).emit (.replied r.request datagram)).handleCustomer := by
  have hphase := h.phase hfault
  have hi : i < c.replies.length := (List.getElem?_eq_some_iff.mp hr).1
  have hnot : NoRequest (.replied r.request datagram) := by simp [NoRequest]
  unfold Phase at hphase
  cases hstate : c.state with
  | newCustomer =>
    rw [hstate] at hphase
    rw [hphase.2.1] at hr
    simp at hr
  | stateCheckDone =>
    rw [hstate] at hphase
    obtain ⟨hopen, hawaits, hsocket⟩ := hphase
    -- the reply that delivers is the one whose data the state looks at
    obtain ⟨hrequest, hreply⟩ := hawaits.delivers hr hconnected hreleased
    rw [Customer.handleCustomer,
      show ((c.setData i datagram).emit _).state = .stateCheckDone from hstate]
    refine Inv.handleStateCheckDone (hopen.concat (by simp [fetch]) (by simp))
      (hawaits.setData i datagram) hsocket
      (h.starting_eq_false (by simp [hstate]) (by simp [hstate])) hstate fun hready => ?_
    have hdata : datagram.getD 7 0 = Cmd.ready.toByte :=
      (replyCommand_setData hreply hi datagram).symm.trans hready
    rw [hrequest]
    exact ⟨_, List.mem_append_right _ (List.mem_singleton_self _), datagram, rfl, hdata⟩
  | supplyCheckDone =>
    rw [hstate] at hphase
    obtain ⟨hopen, hawaits, hsocket, ready, hmem, htold⟩ := hphase
    obtain ⟨hrequest, hreply⟩ := hawaits.delivers hr hconnected hreleased
    rw [Customer.handleCustomer,
      show ((c.setData i datagram).emit _).state = .supplyCheckDone from hstate]
    refine Inv.handleSupplyCheckDone (hopen.concat (by simp [fetch]) (by simp))
      (hawaits.setData i datagram)
      (h.starting_eq_false (by simp [hstate]) (by simp [hstate])) fun havail => ?_
    have hdata : datagram.getD 7 0 = Cmd.drinkAvail.toByte :=
      (replyCommand_setData hreply hi datagram).symm.trans havail
    have hsub : List.Sublist ([ready] ++ [.replied r.request datagram])
        (c.trace ++ [.replied r.request datagram]) :=
      (List.singleton_sublist.mpr hmem).append (.refl _)
    refine ⟨ready, _, hsub, htold, ?_⟩
    rw [hrequest]
    exact ⟨datagram, rfl, hdata⟩
  | paymentCheckDone =>
    -- whatever is still connected has been released by now
    rw [hstate] at hphase
    have hfreed := hphase.2.1 r (List.mem_of_getElem? hr) hconnected
    rw [hreleased] at hfreed
    cases hfreed
  | allDone => exact Inv.idle (h.lawful.concat hnot) h.starting (Or.inl hstate)
  | expired => exact Inv.idle (h.lawful.concat hnot) h.starting (Or.inr hstate)

theorem Inv.socketRead (h : Inv c) (hfault : c.faulted = false) (hsocket : c.socket ≠ none)
    {d : Customer} (hd : d = { c with socket := d.socket }) : Inv d.handleCustomer := by
  have hphase := h.phase hfault
  have htrace : d.trace = c.trace := by rw [hd]
  have hreplies : d.replies = c.replies := by rw [hd]
  have hstarting : d.starting = c.starting := by rw [hd]
  have hsame : d.state = c.state := by rw [hd]
  have hlawful : Lawful d.trace := htrace ▸ h.lawful
  have hstart : d.starting = true → d.state = .newCustomer ∨ d.state = .expired := by
    rw [hstarting, hsame]
    exact h.starting
  unfold Phase at hphase
  cases hstate : c.state with
  | newCustomer =>
    rw [hstate] at hphase
    exact absurd hphase.2.2 hsocket
  | stateCheckDone =>
    rw [hstate] at hphase
    exact absurd hphase.2.2 hsocket
  | supplyCheckDone =>
    rw [hstate] at hphase
    exact absurd hphase.2.2.1 hsocket
  | paymentCheckDone =>
    rw [hstate] at hphase
    obtain ⟨hopen, hdeaf, ready, avail, hsub, hready, havail⟩ := hphase
    have hstart := h.starting_eq_false (by simp [hstate]) (by simp [hstate])
    rw [Customer.handleCustomer, hsame, hstate]
    exact Inv.handlePaymentCheckDone (htrace ▸ hopen) (hreplies ▸ hdeaf) (hstarting.trans hstart)
      (hsame.trans hstate) (htrace ▸ hsub) hready havail
  | allDone => exact Inv.idle hlawful hstart (Or.inl (hsame.trans hstate))
  | expired => exact Inv.idle hlawful hstart (Or.inr (hsame.trans hstate))

theorem Inv.step (h : Inv c) (signal : Signal) : Inv (c.step signal) := by
  apply step_keeps signal h
  · intro hfault hstart
    exact h.start hfault hstart
  · intro i datagram r hfault _ hr hreleased hconnected
    exact h.replied hfault hr hconnected hreleased datagram
  · intro i datagram
    exact h.setData i datagram
  · intro bytes buffer hfault _ hsocket
    exact h.socketRead hfault (by rw [hsocket]; exact Option.some_ne_none _) rfl
  · exact h.timeout

theorem inv_run (customerID : QString) (signals : List Signal) :
    Inv (run signals (new customerID)) :=
  List.foldlRecOn signals Customer.step (inv_new customerID) fun _ h signal _ => h.step signal

/-- On the card path nothing is fetched before it is paid, nor twice, nor after the customer has
given up, whatever is delivered and in whatever order. -/
theorem no_vend_without_payment (customerID : QString) (signals : List Signal) :
    Lawful (run signals (new customerID)).trace :=
  (inv_run customerID signals).lawful

example : fetch ∈ (run [.start, .replyReadyRead 0 [0x42, 0x53, 8, 0, 2, 0, 0, 0x03],
    .replyReadyRead 1 [0x42, 0x53, 8, 0, 3, 0, 0, 0x0D],
    .socketReadyRead [0x31, 0x20, 0x32, 0x30, 0x0A]] (new [0x31])).trace := by decide +kernel

end Customer

end Alko.Alkod
