import Alko.Alkod.AlkoManager
import Alko.Alkod.CustomerRequests
import Alko.Alkod.HttpHandler
import Alko.Arduino.Network

/-! The sizes of the frames the daemon sends, against the bounds of the machine's receiver. -/

namespace Alko.Alkod

open Qt

/-- The size byte is the frame's length, and within the machine's bounds. -/
structure Acceptable (frame : List UInt8) : Prop where
  size : (frame.getD 2 0).toNat = frame.length
  minSize : Arduino.Network.format.minSize ≤ frame.length
  maxSize : frame.length ≤ Arduino.Network.format.maxSize

/-- The request's `size()`, a `uint8_t`, is that of a payload between 1 and 25 bytes. -/
def Fits (request : List UInt8) : Prop :=
  1 ≤ request.length % 256 ∧ request.length % 256 ≤ 25

instance (request : List UInt8) : Decidable (Fits request) := by
  unfold Fits
  infer_instance

theorem length_requestBytes (id : UInt16) (request : List UInt8) :
    (requestBytes id request).length = 7 + request.length % 256 := by
  have hle : request.length % 256 ≤ request.length := Nat.mod_le _ _
  simp only [requestBytes, List.length_append, List.length_cons, List.length_nil, List.length_take]
  omega

theorem sizeByte_requestBytes (id : UInt16) (request : List UInt8) :
    ((requestBytes id request).getD 2 0).toNat = (7 + request.length % 256) % 256 := by
  have hle : request.length % 256 ≤ request.length := Nat.mod_le _ _
  simp only [requestBytes, List.cons_append, List.getD_cons_succ, List.getD_cons_zero,
    UInt8.toNat_ofNat', List.length_take, Nat.min_eq_left hle]

theorem acceptable_iff (m : AlkoManager) (request : List UInt8) :
    Acceptable (m.get request).1 ↔ Fits request := by
  have hlen := length_requestBytes m.getID request
  have hsize := sizeByte_requestBytes m.getID request
  rw [AlkoManager.get_fst]
  constructor
  · intro h
    have hmin : 8 ≤ (requestBytes m.getID request).length := h.minSize
    have hmax : (requestBytes m.getID request).length ≤ 32 := h.maxSize
    exact ⟨by omega, by omega⟩
  · rintro ⟨hone, hle⟩
    refine ⟨by omega, ?_, ?_⟩
    · rw [hlen]
      exact Nat.add_le_add_left hone 7
    · rw [hlen]
      exact Nat.add_le_add_left hle 7

namespace Customer

variable {c : Customer} {request : List UInt8}

def AllFit (c : Customer) : Prop := ∀ request ∈ c.requests, Fits request

theorem allFit_of_requests {d : Customer} (h : d.requests = c.requests) : AllFit d ↔ AllFit c := by
  rw [AllFit, AllFit, h]

@[simp] theorem allFit_get : AllFit (c.get request) ↔ AllFit c ∧ Fits request := by
  simp [AllFit, requests, or_imp, forall_and]

@[simp] theorem allFit_ask : AllFit (c.ask request) ↔ AllFit c ∧ Fits request := by
  simp [AllFit, requests, or_imp, forall_and]

@[simp] theorem allFit_emit (e : CustomerEvent) : AllFit (c.emit e) ↔ AllFit c := Iff.rfl

@[simp] theorem allFit_setState (state : State) : AllFit (c.setState state) ↔ AllFit c := Iff.rfl

@[simp] theorem allFit_startTimer (interval : ℕ) : AllFit (c.startTimer interval) ↔ AllFit c :=
  Iff.rfl

@[simp] theorem allFit_stopTimer : AllFit c.stopTimer ↔ AllFit c := Iff.rfl

@[simp] theorem allFit_connectToHost : AllFit c.connectToHost ↔ AllFit c := Iff.rfl

@[simp] theorem allFit_releaseReply : AllFit c.releaseReply ↔ AllFit c := by
  refine allFit_of_requests ?_
  rw [requests, releaseReply_replies]
  cases c.reply with
  | none => rfl
  | some i =>
    exact requests_modify (f := fun r => { r with releases := r.releases + 1 }) (fun _ => rfl) _ i

@[simp] theorem allFit_setData (i : ℕ) (datagram : List UInt8) :
    AllFit (c.setData i datagram) ↔ AllFit c :=
  allFit_of_requests
    (requests_modify (f := fun r => { r with data := datagram }) (fun _ => rfl) c.replies i)

@[simp] theorem fits_command (cmd : Cmd) : Fits (command cmd) := by
  exact ⟨show 1 ≤ 1 by decide, show 1 ≤ 25 by decide⟩

theorem fits_text_iff (line : Cmd) (bytes : List UInt8) :
    Fits (text line bytes) ↔
      1 ≤ (1 + bytes.length) % 256 ∧ (1 + bytes.length) % 256 ≤ 25 := by
  rw [Fits, text, List.length_cons, Nat.add_comm]

theorem fits_lastToken (line : Cmd) (tokens : List QString) :
    Fits (text line (lastToken tokens)) := by
  have hlen : (lastToken tokens).length = 19 := by
    rw [lastToken, QString.toLatin1, List.length_map, QString.rightJustified]
    split_ifs with hshort
    · rw [List.length_append, List.length_replicate]
      omega
    · rw [List.length_take]
      omega
  rw [fits_text_iff, hlen]
  decide

theorem fits_label (line : Cmd) (label : String) (balance : QString) :
    Fits (text line (literal label ++ balance.toLatin1)) ↔
      1 ≤ (1 + (literal label).length + balance.length) % 256 ∧
        (1 + (literal label).length + balance.length) % 256 ≤ 25 := by
  rw [fits_text_iff, List.length_append, QString.toLatin1, List.length_map, Nat.add_assoc]

def BalanceFits (result : ℕ) (balance : QString) : Prop :=
  match result with
  | 1 | 6 => 1 ≤ (11 + balance.length) % 256 ∧ (11 + balance.length) % 256 ≤ 25
  | 2 => 1 ≤ (8 + balance.length) % 256 ∧ (8 + balance.length) % 256 ≤ 25
  | _ => True

theorem allFit_withToken (result : ℕ) (tokens : List QString)
    {f : List UInt8 → Customer → Customer}
    (hf : ∀ balance : QString,
      AllFit (f balance.toLatin1 c) ↔ AllFit c ∧ BalanceFits result balance) :
    AllFit (c.withToken tokens f) ↔
      AllFit c ∧ ∀ balance, tokens[1]? = some balance → BalanceFits result balance := by
  unfold withToken
  cases tokens[1]? with
  | none => exact ⟨fun h => ⟨h, by simp⟩, fun h => h.1⟩
  | some balance => simp [hf]

theorem allFit_clearText (tokens : List QString) :
    AllFit ((c.get (command .clrText)).get (text .setText3 (lastToken tokens))) ↔ AllFit c := by
  simp [fits_lastToken]

theorem fits_newBalance (balance : QString) :
    Fits (text .setText2 (literal "Ny saldo: " ++ balance.toLatin1)) ↔ BalanceFits 1 balance :=
  fits_label .setText2 "Ny saldo: " balance

theorem fits_balance (balance : QString) :
    Fits (text .setText1 (literal "Saldo: " ++ balance.toLatin1)) ↔ BalanceFits 2 balance :=
  fits_label .setText1 "Saldo: " balance

theorem fits_literal (line : Cmd) {s : String} (h : (literal s).length ≤ 24) :
    Fits (text line (literal s)) := by
  rw [fits_text_iff]
  omega

theorem allFit_handleResult (result : ℕ) (tokens : List QString) :
    AllFit (c.handleResult result tokens) ↔
      AllFit c ∧ ∀ balance, tokens[1]? = some balance → BalanceFits result balance := by
  unfold handleResult
  split
  · rw [handlePaid, allFit_withToken 1, allFit_clearText]
    intro balance
    rw [allFit_get, allFit_get, fits_newBalance, and_iff_left (fits_command _)]
  · rw [handleTooLow, allFit_withToken 2, allFit_clearText]
    intro balance
    rw [allFit_get, allFit_get, allFit_get, allFit_get, fits_balance,
      and_iff_left (fits_command _), and_iff_left (fits_command _),
      and_iff_left (fits_literal .setText2 (by decide))]
  · have hunknown : AllFit c.handleUnknownCard ↔ AllFit c := by
      rw [handleUnknownCard, allFit_get, allFit_get, allFit_get, allFit_get,
        and_iff_left (fits_command _), and_iff_left (fits_command _),
        and_iff_left (fits_literal .setText2 (by decide)), and_iff_left (fits_command _)]
    rw [hunknown]
    simp [BalanceFits]
  · rw [handleDebug, allFit_withToken 6, allFit_clearText]
    intro balance
    rw [allFit_get, allFit_get, allFit_get, fits_newBalance, and_iff_left (fits_command _),
      and_iff_left (fits_literal .setText1 (by decide))]
    rfl
  · have hother : ∀ balance, BalanceFits result balance := by
      intro balance
      unfold BalanceFits
      split
      · contradiction
      · contradiction
      · contradiction
      · trivial
    exact ⟨fun h => ⟨h, fun balance _ => hother balance⟩, fun h => h.1⟩

theorem allFit_handleNewCustomer : AllFit c.handleNewCustomer ↔ AllFit c := by
  simp [handleNewCustomer]

theorem allFit_handleStateCheckDone : AllFit c.handleStateCheckDone ↔ AllFit c := by
  unfold handleStateCheckDone
  simp only
  have hwait : Fits (text .setText3 (literal "  Vent litt...")) := fits_literal _ (by decide)
  split_ifs
  · simp
  · simp [hwait]
  · simp

theorem allFit_handleSupplyCheckDone : AllFit c.handleSupplyCheckDone ↔ AllFit c := by
  unfold handleSupplyCheckDone
  simp only
  split_ifs <;> simp

/-- A reply line whose balance, where its result shows one, leaves the text within the bounds. -/
def LineFits (line : List UInt8) : Prop :=
  ∀ result balance, (QString.ofByteArray line).leftToInt = some result →
    (QString.ofByteArray line).trimmed.split[1]? = some balance → BalanceFits result balance

theorem allFit_handlePaymentCheckDone :
    AllFit c.handlePaymentCheckDone ↔ AllFit c ∧ LineFits (firstLine (c.socket.getD [])) := by
  have hline : (c.startTimer 250).readLine.1 = firstLine (c.socket.getD []) := by
    rw [readLine_eq]
    rfl
  have hread : AllFit (c.startTimer 250).readLine.2 ↔ AllFit c := Iff.rfl
  unfold handlePaymentCheckDone
  generalize (c.startTimer 250).readLine = p at hline hread ⊢
  obtain ⟨line, d⟩ := p
  simp only at hline hread ⊢
  subst hline
  cases hresult : (QString.ofByteArray (firstLine (c.socket.getD []))).leftToInt with
  | none =>
    have hfits : LineFits (firstLine (c.socket.getD [])) := by
      intro result balance hother
      rw [hresult] at hother
      cases hother
    exact ⟨fun h => ⟨hread.mp h, hfits⟩, fun h => hread.mpr h.1⟩
  | some result =>
    have hfits : LineFits (firstLine (c.socket.getD [])) ↔ ∀ balance,
        (QString.ofByteArray (firstLine (c.socket.getD []))).trimmed.split[1]? = some balance →
          BalanceFits result balance := by
      constructor
      · exact fun h balance => h result balance hresult
      · intro h result' balance hresult'
        rw [hresult] at hresult'
        exact Option.some.inj hresult' ▸ h balance
    have hsent := allFit_handleResult (c := d) result
      (QString.ofByteArray (firstLine (c.socket.getD []))).trimmed.split
    rw [hread, ← hfits] at hsent
    simp only
    split_ifs
    · exact hsent
    · exact hsent

/-- What a step may send: only a line from the customer server can make a frame too long. -/
def StepFits (c : Customer) : Signal → Prop
  | .socketReadyRead bytes =>
    c.faulted = false → c.state = .paymentCheckDone →
      ∀ buffer, c.socket = some buffer → LineFits (firstLine (buffer ++ bytes))
  | _ => True

theorem allFit_handleCustomer (hstate : c.state ≠ .paymentCheckDone) :
    AllFit c.handleCustomer ↔ AllFit c := by
  unfold handleCustomer
  split
  · exact allFit_handleNewCustomer
  · exact allFit_handleStateCheckDone
  · exact allFit_handleSupplyCheckDone
  · exact absurd ‹_› hstate
  · exact Iff.rfl
  · exact Iff.rfl

theorem allFit_handleReply (h : Inv c) (hfault : c.faulted = false) (place : ℕ)
    (datagram : List UInt8) : AllFit (c.handleReply place datagram) ↔ AllFit c := by
  have hphase := h.phase hfault
  unfold Phase at hphase
  unfold handleReply
  cases hr : c.replies[place]? with
  | none => exact Iff.rfl
  | some r =>
    simp only
    split_ifs with hreleased hconnected
    · exact Iff.rfl
    · -- no reply delivers any more while the customer waits for the customer server
      have hstate : ((c.setData place datagram).emit (.replied r.request datagram)).state ≠
          .paymentCheckDone := by
        intro hstate
        rw [show c.state = .paymentCheckDone from hstate] at hphase
        exact hreleased (hphase.2.1 r (List.mem_of_getElem? hr) hconnected)
      rw [allFit_handleCustomer hstate, allFit_emit, allFit_setData]
    · exact allFit_setData place datagram

theorem handleCustomer_payment (hstate : c.state = .paymentCheckDone) :
    c.handleCustomer = c.handlePaymentCheckDone := by
  simp only [handleCustomer, hstate]

theorem allFit_handleSocket (bytes : List UInt8) (hfault : c.faulted = false) :
    AllFit (c.handleSocket bytes) ↔ AllFit c ∧ StepFits c (.socketReadyRead bytes) := by
  unfold handleSocket
  cases hsocket : c.socket with
  | none =>
    have hfits : StepFits c (.socketReadyRead bytes) := by
      intro _ _ buffer hbuffer
      rw [hsocket] at hbuffer
      cases hbuffer
    exact (and_iff_left hfits).symm
  | some buffer =>
    simp only
    by_cases hstate : c.state = .paymentCheckDone
    · have hread := allFit_handlePaymentCheckDone (c := { c with socket := some (buffer ++ bytes) })
      have hfits :
          StepFits c (.socketReadyRead bytes) ↔ LineFits (firstLine (buffer ++ bytes)) := by
        constructor
        · exact fun h => h hfault hstate buffer hsocket
        · intro h _ _ buffer' hbuffer'
          rw [hsocket] at hbuffer'
          exact Option.some.inj hbuffer' ▸ h
      rw [handleCustomer_payment (c := { c with socket := some (buffer ++ bytes) }) hstate, hfits]
      exact hread
    · have hfits : StepFits c (.socketReadyRead bytes) := fun _ hpayment =>
        absurd hpayment hstate
      rw [allFit_handleCustomer (c := { c with socket := some (buffer ++ bytes) }) hstate]
      exact (and_iff_left hfits).symm

theorem allFit_step (h : Inv c) (signal : Signal) :
    AllFit (c.step signal) ↔ AllFit c ∧ StepFits c signal := by
  unfold step
  by_cases hfaulted : c.faulted = true
  · have hfits : StepFits c signal := by
      cases signal with
      | socketReadyRead bytes =>
        intro hfault
        rw [hfaulted] at hfault
        cases hfault
      | start => trivial
      | replyReadyRead place datagram => trivial
      | timeout => trivial
    rw [if_pos hfaulted]
    exact (and_iff_left hfits).symm
  · have hfault : c.faulted = false := Bool.eq_false_of_not_eq_true hfaulted
    rw [if_neg hfaulted]
    cases signal with
    | start =>
      simp only [StepFits, and_true]
      split_ifs with hstarting
      · have hstate : c.state ≠ .paymentCheckDone := by
          rcases h.starting hstarting with hstate | hstate <;> simp [hstate]
        exact allFit_handleCustomer (c := { c with starting := false }) hstate
      · exact Iff.rfl
    | replyReadyRead place datagram =>
      exact (allFit_handleReply h hfault place datagram).trans (and_iff_left trivial).symm
    | socketReadyRead bytes => exact allFit_handleSocket bytes hfault
    | timeout => exact (and_iff_left trivial).symm

theorem allFit_run (customerID : QString) (signals : List Signal) :
    AllFit (run signals (new customerID)) ↔ ∀ before signal after,
      signals = before ++ signal :: after → StepFits (run before (new customerID)) signal := by
  induction signals using List.reverseRecOn with
  | nil => simp [run, new, AllFit, requests]
  | append_singleton signals last ih =>
    rw [run, List.foldl_concat, ← run, allFit_step (inv_run customerID signals), ih]
    constructor
    · rintro ⟨hbefore, hlast⟩ before signal after hsplit
      rcases List.eq_nil_or_concat after with rfl | ⟨after, e, rfl⟩
      · obtain ⟨rfl, hsignal⟩ := List.append_inj' hsplit rfl
        rwa [← List.cons.inj hsignal |>.1]
      · rw [List.concat_eq_append, ← List.cons_append, ← List.append_assoc] at hsplit
        exact hbefore before signal after (List.append_inj' hsplit rfl).1
    · intro h
      refine ⟨fun before signal after hsplit => h before signal (after ++ [last]) ?_,
        h signals last [] rfl⟩
      rw [hsplit, List.append_assoc, List.cons_append]

end Customer

namespace HttpHandler

variable {h : HttpHandler} {e : HttpEnvironment}

def AllFit (h : HttpHandler) : Prop := ∀ request ∈ h.gets, Fits request

theorem AllFit.get (hfit : AllFit h) {request : List UInt8} (hrequest : Fits request) :
    AllFit (h.get request) := by
  intro request' hmem
  rcases List.mem_append.mp hmem with hold | hnew
  · exact hfit request' hold
  · exact List.mem_singleton.mp hnew ▸ hrequest

theorem AllFit.write (hfit : AllFit h) (output : List Output) : AllFit (h.write output) := by
  unfold HttpHandler.write
  split <;> exact hfit

theorem AllFit.close (hfit : AllFit h) : AllFit (h.close e) := by
  unfold HttpHandler.close
  split <;> exact hfit

theorem fits_actionRequest {action : QString} {request : List UInt8}
    (haction : actionRequest action = some request) : Fits request := by
  unfold actionRequest at haction
  split_ifs at haction <;> cases haction <;> decide

theorem AllFit.handlePost (hfit : AllFit h) (resource : QString)
    (context : List (QString × QString)) : AllFit (h.handlePost resource context).2.2 := by
  unfold HttpHandler.handlePost
  simp only
  split_ifs
  · exact hfit
  · cases haction : actionRequest (postedAction h.rx) with
    | none => exact hfit
    | some request => exact AllFit.get (h := { h with rx := [] }) hfit (fits_actionRequest haction)

theorem AllFit.handleGet (hfit : AllFit h) (resource : QString)
    (context : List (QString × QString)) : AllFit (h.handleGet resource context).2.2 := by
  unfold HttpHandler.handleGet
  split_ifs
  · exact hfit
  · exact (hfit.get (by decide)).get (by decide)
  · exact hfit

theorem AllFit.handleResource (hfit : AllFit h) (method : Method) (resource host : QString) :
    AllFit (h.handleResource e method resource host) := by
  unfold HttpHandler.handleResource
  split_ifs
  · exact (hfit.write _).close
  · exact (hfit.write _).close
  · cases method with
    | post => exact (((hfit.write _).handlePost resource _).write _).close
    | get => exact (((hfit.write _).handleGet resource _).write _).close

theorem allFit_readyRead (e : HttpEnvironment) (rx : List UInt8) :
    AllFit ((new rx).readyRead e) := by
  have hnone : ∀ rx, AllFit ⟨rx, true, [], []⟩ := fun rx request hmem => by simp at hmem
  unfold readyRead
  split_ifs
  · exact hnone rx
  · simp only
    cases requestLine (QString.ofByteArray (firstLine (new rx).rx)) with
    | none => exact (hnone _).close
    | some request =>
      obtain ⟨method, resource⟩ := request
      simp only
      cases readHeaders _ _ with
      | none => exact ((hnone _).write _).close
      | some host =>
        simp only
        generalize (if resource = [] then QString.literal "index.html" else resource) = resource
        split
        · exact (hnone _).handleResource method _ host
        · exact ((hnone _).write _).close.handleResource method _ host

end HttpHandler

/-- The machine can take every frame a customer has caused exactly when no line the customer has
read, in the state it was in, shows a balance too long for its text; the administration pages send
no frame that the machine cannot take. -/
theorem frames_acceptable_iff (customerID : QString) (signals : List Customer.Signal) :
    ((∀ request ∈ (Customer.run signals (.new customerID)).requests,
        ∀ m : AlkoManager, Acceptable (m.get request).1) ↔
      ∀ before signal after, signals = before ++ signal :: after →
        Customer.StepFits (Customer.run before (.new customerID)) signal) ∧
    ∀ (e : HttpEnvironment) (rx : List UInt8),
      ∀ request ∈ ((HttpHandler.new rx).readyRead e).gets,
        ∀ m : AlkoManager, Acceptable (m.get request).1 := by
  constructor
  · rw [← Customer.allFit_run]
    constructor
    · exact fun h request hmem => (acceptable_iff AlkoManager.new request).mp (h request hmem _)
    · exact fun h request hmem m => (acceptable_iff m request).mpr (h request hmem)
  · exact fun e rx request hmem m =>
      (acceptable_iff m request).mpr (HttpHandler.allFit_readyRead e rx request hmem)

def rich : List Customer.Signal :=
  [.start, .replyReadyRead 0 (Arduino.Network.sendCommand .ready 2).toBytes,
    .replyReadyRead 1 (Arduino.Network.sendCommand .drinkAvail 3).toBytes,
    .socketReadyRead (Customer.literal "1 100000000000000 Ola\n")]

theorem frames_too_long :
    ¬∀ customerID signals, ∀ request ∈ (Customer.run signals (.new customerID)).requests,
      ∀ m : AlkoManager, Acceptable (m.get request).1 := by
  intro h
  have hsent : Customer.text .setText2 (Customer.literal "Ny saldo: 100000000000000") ∈
      (Customer.run rich (.new (QString.literal "0102030405"))).requests := by decide +kernel
  have hfits := (acceptable_iff AlkoManager.new _).mp (h _ rich _ hsent AlkoManager.new)
  exact absurd hfits (by decide +kernel)

end Alko.Alkod
