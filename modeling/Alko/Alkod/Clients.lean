import Alko.Alkod.CustomerRequests
import Alko.Alkod.HttpSegmentation

/-! What the daemon's clients may ask the machine for: a card customer for nothing that changes the
machine's state but a vend and a text, a page for one action or for what the machine is doing. -/

namespace Alko.Alkod

open Qt

namespace Customer

variable {c : Customer} {request : List UInt8}

def commands : List Cmd :=
  [.ping, .checkAvail, .clrText, .lcdUpdate, .showInfo, .lcdRedCycle, .fetch]

def textCommands : List Cmd := [.setText1, .setText2, .setText3]

inductive IsAsked : List UInt8 → Prop
  | command {cmd : Cmd} (h : cmd ∈ commands) : IsAsked (command cmd)
  | text {line : Cmd} (h : line ∈ textCommands) (bytes : List UInt8) : IsAsked (text line bytes)

theorem IsAsked.head? (h : IsAsked request) :
    ∃ cmd ∈ commands ++ textCommands, request.head? = some cmd.toByte := by
  cases h with
  | command h => exact ⟨_, List.mem_append_left _ h, rfl⟩
  | text h bytes => exact ⟨_, List.mem_append_right _ h, rfl⟩

theorem IsAsked.not_pong (h : IsAsked request) : request.head? ≠ some Cmd.pong.toByte := by
  obtain ⟨cmd, hcmd, hhead⟩ := h.head?
  rw [hhead]
  exact (by decide : ∀ cmd ∈ commands ++ textCommands, some cmd.toByte ≠ some Cmd.pong.toByte)
    cmd hcmd

theorem IsAsked.fetch_iff (h : IsAsked request) :
    request.head? = some Cmd.fetch.toByte ↔ request = Customer.command .fetch := by
  refine ⟨fun hhead => ?_, fun heq => heq ▸ rfl⟩
  cases h with
  | command h =>
    obtain rfl := Cmd.toByte_injective (Option.some.inj hhead)
    rfl
  | text h bytes =>
    obtain rfl := Cmd.toByte_injective (Option.some.inj hhead)
    exact absurd h (by decide)

def AllAsked (c : Customer) : Prop := ∀ request ∈ c.requests, IsAsked request

namespace AllAsked

theorem get (h : AllAsked c) (hrequest : IsAsked request) : AllAsked (c.get request) := by
  intro request' hmem
  rw [requests, get_replies, List.map_append, List.mem_append] at hmem
  rcases hmem with hold | hnew
  · exact h request' hold
  · exact List.mem_singleton.mp hnew ▸ hrequest

theorem ask (h : AllAsked c) (hrequest : IsAsked request) : AllAsked (c.ask request) := by
  intro request' hmem
  rw [requests, ask_replies, List.map_append, List.mem_append] at hmem
  rcases hmem with hold | hnew
  · exact h request' hold
  · exact List.mem_singleton.mp hnew ▸ hrequest

theorem command (h : AllAsked c) {cmd : Cmd} (hcmd : cmd ∈ commands) :
    AllAsked (c.get (command cmd)) := h.get (.command hcmd)

theorem text (h : AllAsked c) {line : Cmd} (hline : line ∈ textCommands) (bytes : List UInt8) :
    AllAsked (c.get (text line bytes)) := h.get (.text hline bytes)

theorem congr {d : Customer} (h : AllAsked c) (hrequests : d.requests = c.requests) :
    AllAsked d := by
  rw [AllAsked, hrequests]
  exact h

theorem releaseReply (h : AllAsked c) : AllAsked c.releaseReply := by
  refine h.congr ?_
  rw [requests, releaseReply_replies]
  cases c.reply with
  | none => rfl
  | some i =>
    exact requests_modify (f := fun r => { r with releases := r.releases + 1 }) (fun _ => rfl) _ i

theorem setData (h : AllAsked c) (i : ℕ) (datagram : List UInt8) :
    AllAsked (c.setData i datagram) :=
  h.congr (requests_modify (f := fun r => { r with data := datagram }) (fun _ => rfl) c.replies i)

theorem withToken (h : AllAsked c) {f : List UInt8 → Customer → Customer}
    (hf : ∀ token, AllAsked (f token c)) (tokens : List QString) :
    AllAsked (c.withToken tokens f) := by
  unfold Customer.withToken
  cases tokens[1]? with
  | none => exact h
  | some token => exact hf token.toLatin1

theorem handleResult (h : AllAsked c) (result : ℕ) (tokens : List QString) :
    AllAsked (c.handleResult result tokens) := by
  have hclear : AllAsked ((c.get (Customer.command .clrText)).get
      (Customer.text .setText3 (lastToken tokens))) :=
    (h.command (by decide)).text (by decide) _
  unfold Customer.handleResult
  split
  · exact hclear.withToken (fun token => (hclear.text (by decide) _).command (by decide)) tokens
  · refine hclear.withToken (fun token => ?_) tokens
    exact (((hclear.text (by decide) _).text (by decide) _).command (by decide)).command (by decide)
  · exact (((h.command (by decide)).text (by decide) _).command (by decide)).command (by decide)
  · refine hclear.withToken (fun token => ?_) tokens
    exact ((hclear.text (by decide) _).text (by decide) _).command (by decide)
  · exact h

theorem handleStateCheckDone (h : AllAsked c) : AllAsked c.handleStateCheckDone := by
  have hstop : AllAsked c.stopTimer := h
  unfold Customer.handleStateCheckDone
  simp only
  split_ifs
  · exact hstop
  · exact (hstop.releaseReply.text (by decide) _).command (by decide)
  · exact hstop.releaseReply.ask (IsAsked.command (by decide))

theorem handleSupplyCheckDone (h : AllAsked c) : AllAsked c.handleSupplyCheckDone := by
  have hstop : AllAsked c.stopTimer := h
  unfold Customer.handleSupplyCheckDone
  simp only
  split_ifs
  · exact hstop.releaseReply
  · exact hstop.releaseReply

theorem handlePaymentCheckDone (h : AllAsked c) : AllAsked c.handlePaymentCheckDone := by
  have hread : AllAsked (c.startTimer 250).readLine.2 := h
  unfold Customer.handlePaymentCheckDone
  generalize (c.startTimer 250).readLine = p at hread
  obtain ⟨line, d⟩ := p
  simp only
  cases (QString.ofByteArray line).leftToInt with
  | none => exact hread
  | some result =>
    have hresult := handleResult hread result (QString.ofByteArray line).trimmed.split
    simp only
    split_ifs
    · exact hresult
    · exact hresult

theorem handleCustomer (h : AllAsked c) : AllAsked c.handleCustomer := by
  unfold Customer.handleCustomer
  split
  · exact h.ask (IsAsked.command (by decide))
  · exact h.handleStateCheckDone
  · exact h.handleSupplyCheckDone
  · exact h.handlePaymentCheckDone
  · exact h
  · exact h

theorem step (h : AllAsked c) (signal : Signal) : AllAsked (c.step signal) := by
  apply step_keeps signal h
  · intro _ _
    exact handleCustomer (c := { c with starting := false }) h
  · intro i datagram r _ _ _ _ _
    exact handleCustomer (c := (c.setData i datagram).emit _) (h.setData i datagram)
  · exact h.setData
  · intro bytes buffer _ _ _
    exact handleCustomer (c := { c with socket := some (buffer ++ bytes) }) h
  · exact h

end AllAsked

end Customer

namespace HttpHandler

variable {e : HttpEnvironment} {h : HttpHandler}

def pageRequests : List (List UInt8) :=
  [[Cmd.getConfig.toByte], [Cmd.getState.toByte],
    [Cmd.setState.toByte, State.prepareReady.toByte], [Cmd.setState.toByte, State.service.toByte],
    [Cmd.checkAvail.toByte], [Cmd.fetch.toByte], [Cmd.homeBegin.toByte], [Cmd.homeAbort.toByte]]

theorem asked_subset (rx : List UInt8) (resource : QString) (method : Method) :
    asked rx resource method ⊆ pageRequests := by
  cases method with
  | get =>
    simp only [asked]
    split_ifs <;> decide
  | post =>
    simp only [asked, actionRequest]
    split_ifs <;> decide

def Adds (h h' : HttpHandler) : Prop := ∃ new ⊆ pageRequests, h'.gets = h.gets ++ new

theorem adds_same {h' : HttpHandler} (hgets : h'.gets = h.gets) : h.Adds h' :=
  ⟨[], List.nil_subset _, by rw [hgets, List.append_nil]⟩

theorem adds_handleResource (method : Method) (resource host : QString) :
    h.Adds (h.handleResource e method resource host) := by
  rw [Adds, gets_handleResource]
  split
  · exact ⟨_, asked_subset _ _ _, rfl⟩
  · exact ⟨[], List.nil_subset _, rfl⟩

theorem adds_deliver (chunk : List UInt8) : h.Adds (h.deliver e chunk) := by
  unfold deliver readyRead
  split_ifs
  · exact adds_same rfl
  · simp only
    split
    · exact adds_same (gets_close _)
    · split
      · exact adds_same ((gets_close _).trans (gets_write _ _))
      · split
        · exact adds_handleResource _ _ _
        · obtain ⟨new, hnew, hgets⟩ := adds_handleResource (e := e)
            (h := HttpHandler.close e (HttpHandler.write unauthorized _)) _ _ _
          exact ⟨new, hnew, hgets.trans (by rw [gets_close, gets_write])⟩
  · exact adds_same rfl

end HttpHandler

def Customer.fetches (c : Customer) : ℕ := c.requests.count (Customer.command .fetch)

def HttpHandler.fetches (h : HttpHandler) : ℕ := h.gets.count [Cmd.fetch.toByte]

def CustomerEvent.answers (digit : UInt16) : CustomerEvent → Bool
  | .line bytes => (QString.ofByteArray bytes).head? = some digit
  | _ => false

def Customer.hasPaid (c : Customer) : Bool := c.trace.any (CustomerEvent.answers 0x31)

/-- The answer to a check-only request: the test purchase, which brings a column home unpaid. -/
def Customer.hasTested (c : Customer) : Bool := c.trace.any (CustomerEvent.answers 0x36)

/-- A customer asks for one column at most, and has paid for it or made a test purchase. -/
theorem Customer.fetches_le {c : Customer} (hinv : c.Inv) (hrecorded : c.Recorded) :
    c.fetches ≤ c.hasPaid.toNat + c.hasTested.toNat := by
  rw [Customer.fetches, hrecorded.count_fetch]
  by_cases hfetch : Customer.fetch ∈ c.trace
  · obtain ⟨before, after, hsplit⟩ := List.append_of_mem hfetch
    obtain ⟨ready, avail, line, hsublist, -, -, hpaid⟩ := hinv.lawful.cleared before after hsplit
    have hline : line ∈ before := hsublist.subset (by simp)
    have hmem : line ∈ c.trace := hsplit ▸ List.mem_append_left _ hline
    have honce : c.trace.count Customer.fetch ≤ 1 := hinv.lawful.once
    obtain ⟨bytes, rfl, hfirst⟩ := hpaid
    rcases hfirst with hfirst | hfirst
    · have hhas : c.hasPaid = true := List.any_eq_true.mpr ⟨_, hmem, decide_eq_true hfirst⟩
      rw [hhas]
      exact Nat.le_add_right_of_le honce
    · have hhas : c.hasTested = true := List.any_eq_true.mpr ⟨_, hmem, decide_eq_true hfirst⟩
      rw [hhas]
      exact Nat.le_add_left_of_le honce
  · rw [List.count_eq_zero_of_not_mem hfetch]
    exact Nat.zero_le _

end Alko.Alkod
