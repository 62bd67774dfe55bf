import Alko.Alkod.CustomerRequests
import Alko.Qt.LineReads

/-! The customer server's answer, as the socket's reads cut it up. -/

namespace Alko.Alkod

open Qt

def CustomerEvent.line? : CustomerEvent → Option (List UInt8)
  | .line bytes => some bytes
  | _ => none

namespace Customer

def lines (c : Customer) : List (List UInt8) := c.trace.filterMap CustomerEvent.line?

def resultOf (line : List UInt8) : Option ℕ := (QString.ofByteArray line).leftToInt

def tokens (line : List UInt8) : List QString := (QString.ofByteArray line).trimmed.split

def decides (line : List UInt8) : Bool := (resultOf line).isSome

def ShowsBalance (result : ℕ) : Prop := result = 1 ∨ result = 2 ∨ result = 6

def Short (line : List UInt8) : Prop :=
  ∃ result, resultOf line = some result ∧ ShowsBalance result ∧ (tokens line).length < 2

def Tells (line : List UInt8) : Prop :=
  ∃ result, resultOf line = some result ∧ (ShowsBalance result ∨ result = 3)

def answerTo (line : List UInt8) : List (List UInt8) :=
  match resultOf line with
  | some result => ((new []).handleResult result (tokens line)).requests
  | none => []

variable {c : Customer} {line buffer : List UInt8} {chunks : List (List UInt8)}

theorem Short.decides (h : Short line) : decides line = true := by
  obtain ⟨result, hresult, -⟩ := h
  rw [Customer.decides, hresult, Option.isSome_some]

theorem Tells.decides (h : Tells line) : Customer.decides line = true := by
  obtain ⟨result, hresult, -⟩ := h
  rw [Customer.decides, hresult, Option.isSome_some]

@[simp] theorem requests_get (request : List UInt8) :
    (c.get request).requests = c.requests ++ [request] := by
  rw [requests, get_replies, List.map_append]
  rfl

theorem lines_get (request : List UInt8) : (c.get request).lines = c.lines := by
  rw [lines, get_trace, List.filterMap_append]
  exact List.append_nil _

theorem requests_handleResult (result : ℕ) (tokens : List QString) (c : Customer) :
    (c.handleResult result tokens).requests =
      c.requests ++ ((new []).handleResult result tokens).requests := by
  unfold handleResult
  split
  · unfold handlePaid withToken
    cases tokens[1]? <;> simp [requests, new]
  · unfold handleTooLow withToken
    cases tokens[1]? <;> simp [requests, new]
  · simp [handleUnknownCard, requests, new]
  · unfold handleDebug withToken
    cases tokens[1]? <;> simp [requests, new]
  · simp [requests, new]

theorem lines_handleResult (result : ℕ) (tokens : List QString) (c : Customer) :
    (c.handleResult result tokens).lines = c.lines := by
  apply handleResult_keeps (P := fun d => d.lines = c.lines)
  · exact fun request d h => (lines_get request).trans h
  · intro d h
    rw [← h, lines, emit_trace, List.filterMap_append]
    exact List.append_nil _
  · rfl

theorem faulted_withToken (tokens : List QString) {f : List UInt8 → Customer → Customer}
    (h : c.faulted = false) (hf : ∀ token, (f token c).faulted = c.faulted) :
    (c.withToken tokens f).faulted = true ↔ tokens.length < 2 := by
  unfold withToken
  cases htoken : tokens[1]? with
  | none => exact iff_of_true rfl (Nat.lt_succ_of_le (List.getElem?_eq_none_iff.mp htoken))
  | some token =>
    have hlength : 1 < tokens.length := (List.getElem?_eq_some_iff.mp htoken).1
    simp only [hf, h, Bool.false_eq_true, false_iff, Nat.not_lt]
    exact hlength

theorem faulted_handleResult (result : ℕ) (tokens : List QString) (h : c.faulted = false) :
    (c.handleResult result tokens).faulted = true ↔ ShowsBalance result ∧ tokens.length < 2 := by
  have hclear : ((c.get (command .clrText)).get (text .setText3 (lastToken tokens))).faulted =
      false := h
  unfold handleResult
  split
  · rw [handlePaid, faulted_withToken tokens hclear fun _ => rfl]
    exact (and_iff_right (Or.inl rfl)).symm
  · rw [handleTooLow, faulted_withToken tokens hclear fun _ => rfl]
    exact (and_iff_right (Or.inr (Or.inl rfl))).symm
  · rw [handleUnknownCard, get_faulted, get_faulted, get_faulted, get_faulted, h]
    simp [ShowsBalance]
  · rw [handleDebug, faulted_withToken tokens hclear fun _ => rfl]
    exact (and_iff_right (Or.inr (Or.inr rfl))).symm
  · next hpaid hlow _ hdebug =>
    refine iff_of_false (by rw [h]; exact Bool.false_ne_true) ?_
    rintro ⟨hone | htwo | hsix, -⟩
    · exact hpaid hone
    · exact hlow htwo
    · exact hdebug hsix

theorem answerTo_eq_nil : answerTo line = [] ↔ ¬Tells line := by
  unfold answerTo Tells
  cases resultOf line with
  | none => simp
  | some result =>
    simp only [Option.some.injEq, exists_eq_left']
    constructor
    · rintro hnil ((rfl | rfl | rfl) | rfl)
      · simp only [handleResult, handlePaid, withToken] at hnil
        split at hnil <;> simp [requests] at hnil
      · simp only [handleResult, handleTooLow, withToken] at hnil
        split at hnil <;> simp [requests] at hnil
      · simp only [handleResult, handleDebug, withToken] at hnil
        split at hnil <;> simp [requests] at hnil
      · simp [handleResult, handleUnknownCard] at hnil
    · intro hnot
      unfold handleResult
      split
      · exact absurd (Or.inl (Or.inl rfl)) hnot
      · exact absurd (Or.inl (Or.inr (Or.inl rfl))) hnot
      · exact absurd (Or.inr rfl) hnot
      · exact absurd (Or.inl (Or.inr (Or.inr rfl))) hnot
      · rfl

theorem answerTo_of_not_decides (h : decides line = false) : answerTo line = [] :=
  answerTo_eq_nil.mpr fun htells => Bool.false_ne_true (h.symm.trans htells.decides)

structure Waiting (buffer : List UInt8) (c : Customer) : Prop where
  state : c.state = .paymentCheckDone
  faulted : c.faulted = false
  socket : c.socket = some buffer

structure Heard (heard : List (List UInt8)) (c d : Customer) : Prop where
  requests : d.requests = c.requests ++ heard.flatMap answerTo
  lines : d.lines = c.lines ++ heard
  faulted : d.faulted = true ↔ ∃ line ∈ heard, Short line

theorem heard_nil (h : c.faulted = false) : Heard [] c c where
  requests := (List.append_nil _).symm
  lines := (List.append_nil _).symm
  faulted := by simp [h]

def read (chunks : List (List UInt8)) (c : Customer) : Customer :=
  run (chunks.map .socketReadyRead) c

theorem read_cons (chunk : List UInt8) (chunks : List (List UInt8)) (c : Customer) :
    c.read (chunk :: chunks) = (c.step (.socketReadyRead chunk)).read chunks := rfl

theorem exists_short_singleton : (∃ l ∈ [line], Short l) ↔ Short line := by
  simp only [List.mem_singleton, exists_eq_left]

def Settled (c : Customer) : Prop := c.faulted = true ∨ c.state = .allDone

theorem Settled.step (h : Settled c) (chunk : List UInt8) :
    ∃ socket, c.step (.socketReadyRead chunk) = { c with socket := socket } := by
  unfold Customer.step
  split
  · exact ⟨c.socket, rfl⟩
  · next hfault =>
    have hdone : c.state = .allDone := h.resolve_left hfault
    simp only [handleSocket]
    cases hsocket : c.socket with
    | none => exact ⟨c.socket, rfl⟩
    | some buffer =>
      refine ⟨some (buffer ++ chunk), ?_⟩
      simp only [handleCustomer, hdone]

theorem Settled.read (h : Settled c) (chunks : List (List UInt8)) :
    ∃ socket, c.read chunks = { c with socket := socket } := by
  induction chunks generalizing c with
  | nil => exact ⟨c.socket, rfl⟩
  | cons chunk chunks ih =>
    obtain ⟨socket, hstep⟩ := h.step chunk
    have hsettled : Settled { c with socket := socket } := h
    obtain ⟨socket', hread⟩ := ih hsettled
    refine ⟨socket', ?_⟩
    rw [read_cons, hstep, hread]

theorem Waiting.handlePaymentCheckDone (h : Waiting buffer c) :
    Heard [firstLine buffer] c c.handlePaymentCheckDone ∧
      if decides (firstLine buffer) then Settled c.handlePaymentCheckDone
      else Waiting (behindLine buffer) c.handlePaymentCheckDone := by
  obtain ⟨d, hread, hrequests, hlines, hwaiting⟩ :
      ∃ d, (c.startTimer 250).readLine = (firstLine buffer, d) ∧ d.requests = c.requests ∧
        d.lines = c.lines ++ [firstLine buffer] ∧ Waiting (behindLine buffer) d := by
    rw [readLine_eq, startTimer_socket, h.socket, Option.getD_some]
    refine ⟨_, rfl, rfl, ?_, h.state, h.faulted, rfl⟩
    rw [lines, emit_trace, List.filterMap_append]
    rfl
  unfold Customer.handlePaymentCheckDone
  rw [hread]
  simp only
  cases hresult : (QString.ofByteArray (firstLine buffer)).leftToInt with
  | none =>
    have hdecides : decides (firstLine buffer) = false := by
      rw [decides, resultOf, hresult, Option.isSome_none]
    rw [if_neg (by rw [hdecides]; exact Bool.false_ne_true)]
    refine ⟨⟨?_, hlines, ?_⟩, hwaiting⟩
    · rw [hrequests, List.flatMap_singleton, answerTo_of_not_decides hdecides, List.append_nil]
    · rw [hwaiting.faulted, exists_short_singleton]
      exact iff_of_false Bool.false_ne_true fun hshort =>
        Bool.false_ne_true (hdecides.symm.trans hshort.decides)
  | some result =>
    have hdecides : decides (firstLine buffer) = true := by
      rw [decides, resultOf, hresult, Option.isSome_some]
    have hanswer : answerTo (firstLine buffer) =
        ((new []).handleResult result (tokens (firstLine buffer))).requests := by
      rw [answerTo, resultOf, hresult]
    have hshort : Short (firstLine buffer) ↔
        (d.handleResult result (tokens (firstLine buffer))).faulted = true := by
      rw [faulted_handleResult result _ hwaiting.faulted, Short, resultOf, hresult]
      simp only [Option.some.injEq, exists_eq_left']
    have hsent : (d.handleResult result (tokens (firstLine buffer))).requests =
        c.requests ++ [firstLine buffer].flatMap answerTo := by
      rw [requests_handleResult, hrequests, List.flatMap_singleton, hanswer]
    rw [if_pos hdecides]
    have hfaulted := exists_short_singleton.trans hshort
    have hheard := (lines_handleResult result (tokens (firstLine buffer)) d).trans hlines
    rw [tokens] at hsent hfaulted hheard
    simp only
    split
    · next hfault => exact ⟨⟨hsent, hheard, hfaulted.symm⟩, Or.inl hfault⟩
    · refine ⟨⟨hsent, ?_, hfaulted.symm⟩, Or.inr rfl⟩
      rw [lines, emit_trace, List.filterMap_append]
      exact (List.append_nil _).trans hheard

theorem Waiting.step (h : Waiting buffer c) (chunk : List UInt8) :
    Heard [firstLine (buffer ++ chunk)] c (c.step (.socketReadyRead chunk)) ∧
      if decides (firstLine (buffer ++ chunk)) then Settled (c.step (.socketReadyRead chunk))
      else Waiting (behindLine (buffer ++ chunk)) (c.step (.socketReadyRead chunk)) := by
  have hstep : c.step (.socketReadyRead chunk) =
      { c with socket := some (buffer ++ chunk) }.handlePaymentCheckDone := by
    simp only [Customer.step, h.faulted, Bool.false_eq_true, if_false, handleSocket, h.socket,
      handleCustomer, h.state]
  have hwaiting : Waiting (buffer ++ chunk) { c with socket := some (buffer ++ chunk) } :=
    ⟨h.state, h.faulted, rfl⟩
  obtain ⟨hheard, hafter⟩ := hwaiting.handlePaymentCheckDone
  rw [hstep]
  exact ⟨⟨hheard.requests, hheard.lines, hheard.faulted⟩, hafter⟩

theorem Waiting.read (h : Waiting buffer c) (chunks : List (List UInt8)) :
    Heard (reads decides buffer chunks) c (c.read chunks) := by
  induction chunks generalizing c buffer with
  | nil => exact heard_nil h.faulted
  | cons chunk chunks ih =>
    obtain ⟨hstep, hafter⟩ := h.step chunk
    rw [reads, read_cons]
    split at hafter
    · next hdecides =>
      obtain ⟨socket, hread⟩ := Settled.read hafter chunks
      rw [if_pos hdecides, hread]
      exact ⟨hstep.requests, hstep.lines, hstep.faulted⟩
    · next hdecides =>
      have hread := ih hafter
      rw [if_neg hdecides]
      refine ⟨?_, ?_, ?_⟩
      · rw [hread.requests, hstep.requests, List.append_assoc, ← List.flatMap_append]
        rfl
      · rw [hread.lines, hstep.lines, List.append_assoc]
        rfl
      · rw [hread.faulted, List.exists_mem_cons_iff]
        exact (or_iff_right fun hshort => hdecides hshort.decides).symm

def linesRead (c : Customer) (chunks : List (List UInt8)) : List (List UInt8) :=
  (c.read chunks).lines.drop c.lines.length

/-- The chunks do not show in what the customer does. -/
structure Unsplit (c : Customer) (chunks : List (List UInt8)) : Prop where
  requests : (c.read chunks).requests = (c.read [chunks.flatten]).requests
  complete : ∀ line ∈ c.linesRead chunks, decides line = true → 0x0A ∈ line
  examined : due decides (completeLines chunks.flatten).1 <+: c.linesRead chunks
  inRange : (c.read chunks).faulted = false

/-- The chunks bring each line that is due in time, the line that decides has its words and is the
first where it tells the machine something, and no part of a line decides. -/
structure LineByLine (chunks : List (List UInt8)) : Prop where
  timely : Timely decides [] chunks
  decided : ∀ line, (completeLines chunks.flatten).1.find? decides = some line →
    ¬Short line ∧ (Tells line → (completeLines chunks.flatten).1.head? = some line)
  undecided : (completeLines chunks.flatten).1.find? decides = none →
    ∀ piece ∈ tailReads [] chunks, decides piece = false
  unbroken : 0x0A ∉ chunks.flatten → ¬Tells chunks.flatten

theorem Waiting.linesRead (h : Waiting [] c) (chunks : List (List UInt8)) :
    c.linesRead chunks = reads decides [] chunks := by
  rw [Customer.linesRead, (h.read chunks).lines, List.drop_left]

structure Agrees (chunks : List (List UInt8)) : Prop where
  requests : (reads decides [] chunks).flatMap answerTo = answerTo (firstLine chunks.flatten)
  complete : ∀ line ∈ reads decides [] chunks, decides line = true → 0x0A ∈ line
  inRange : ∀ line ∈ reads decides [] chunks, ¬Short line

theorem Waiting.unsplit_iff (h : Waiting [] c) (chunks : List (List UInt8)) :
    Unsplit c chunks ↔ Timely decides [] chunks ∧ Agrees chunks := by
  have hlines := h.linesRead chunks
  have hchunks := h.read chunks
  have hwhole := (h.read [chunks.flatten]).requests
  have honce : (reads decides [] [chunks.flatten]).flatMap answerTo =
      answerTo (firstLine chunks.flatten) := by
    rw [reads, reads, ite_self, List.flatMap_singleton, List.nil_append]
  have htimely : due decides (completeLines chunks.flatten).1 <+: reads decides [] chunks ↔
      Timely decides [] chunks := by
    rw [← due_prefix_reads_iff, List.nil_append]
  have hfaulted : (c.read chunks).faulted = false ↔
      ∀ line ∈ reads decides [] chunks, ¬Short line := by
    rw [← Bool.not_eq_true, hchunks.faulted]
    simp only [not_exists, not_and]
  rw [honce] at hwhole
  have hrequests : (c.read chunks).requests = (c.read [chunks.flatten]).requests ↔
      (reads decides [] chunks).flatMap answerTo = answerTo (firstLine chunks.flatten) := by
    rw [hchunks.requests, hwhole, List.append_cancel_left_eq]
  rw [← htimely]
  constructor
  · intro hunsplit
    refine ⟨hlines ▸ hunsplit.examined, ?_, ?_, ?_⟩
    · exact hrequests.mp hunsplit.requests
    · exact hlines ▸ hunsplit.complete
    · exact hfaulted.mp hunsplit.inRange
  · rintro ⟨hexamined, hagrees⟩
    refine ⟨?_, ?_, ?_, ?_⟩
    · exact hrequests.mpr hagrees.requests
    · exact hlines ▸ hagrees.complete
    · exact hlines ▸ hexamined
    · exact hfaulted.mpr hagrees.inRange

theorem completeLines_cons {bytes : List UInt8} (h : 0x0A ∈ bytes) :
    (completeLines bytes).1 = firstLine bytes :: (completeLines (behindLine bytes)).1 := by
  have hlines := (readLine_append h []).2
  rwa [List.append_nil, List.append_nil] at hlines

theorem answerTo_firstLine_iff {bytes : List UInt8} (h : 0x0A ∈ bytes)
    (hfind : (completeLines bytes).1.find? decides = some line) :
    answerTo line = answerTo (firstLine bytes) ↔
      (Tells line → (completeLines bytes).1.head? = some line) := by
  have hfirst : decides (firstLine bytes) = true → firstLine bytes = line := by
    intro hdecides
    rw [completeLines_cons h, List.find?_cons_of_pos hdecides] at hfind
    exact Option.some.inj hfind
  rw [completeLines_cons h, List.head?_cons, Option.some_inj]
  constructor
  · intro hanswer htells
    have htells : Tells (firstLine bytes) := by
      by_contra hnot
      rw [answerTo_eq_nil.mpr hnot, answerTo_eq_nil] at hanswer
      exact hanswer htells
    exact hfirst htells.decides
  · intro hline
    by_cases htells : Tells line
    · rw [hline htells]
    · rw [answerTo_eq_nil.mpr htells]
      by_cases hdecides : decides (firstLine bytes) = true
      · rw [hfirst hdecides, answerTo_eq_nil.mpr htells]
      · rw [answerTo_of_not_decides (Bool.eq_false_of_not_eq_true hdecides)]

theorem agrees_of_decided (htimely : Timely decides [] chunks)
    (hfind : (completeLines chunks.flatten).1.find? decides = some line) :
    Agrees chunks ↔
      ¬Short line ∧ (Tells line → (completeLines chunks.flatten).1.head? = some line) := by
  have hmem := List.mem_of_find?_eq_some hfind
  have hdecides := List.find?_some hfind
  obtain ⟨before, hdue, hbefore⟩ := due_eq_concat hfind
  have hstart := due_prefix_reads_iff.mpr htimely
  rw [List.nil_append] at hstart
  have hreads := reads_eq_of_prefix hstart
    ⟨line, by rw [hdue]; exact List.mem_append_right _ List.mem_cons_self, hdecides⟩
  have hsilent : before.flatMap answerTo = [] :=
    List.flatMap_eq_nil_iff.mpr fun l hl => answerTo_of_not_decides (hbefore l hl)
  have hanswer : (reads decides [] chunks).flatMap answerTo = answerTo line := by
    rw [hreads, hdue, List.flatMap_append, hsilent, List.flatMap_singleton, List.nil_append]
  have hnewline : 0x0A ∈ chunks.flatten := by
    by_contra hnot
    rw [completeLines_eq_nil.mpr hnot] at hmem
    cases hmem
  have hshort : (∀ l ∈ reads decides [] chunks, ¬Short l) ↔ ¬Short line := by
    rw [hreads, hdue, List.forall_mem_append, List.forall_mem_singleton]
    exact and_iff_right fun l hl hshort =>
      Bool.false_ne_true ((hbefore l hl).symm.trans hshort.decides)
  rw [← answerTo_firstLine_iff hnewline hfind, ← hshort]
  constructor
  · exact fun hagrees => ⟨hagrees.inRange, hanswer.symm.trans hagrees.requests⟩
  · rintro ⟨hrange, hrequests⟩
    refine ⟨hanswer.trans hrequests, ?_, hrange⟩
    intro l hl _
    rw [hreads] at hl
    exact newline_mem_of_completeLines ((due_isPrefix _).subset hl)

theorem agrees_of_undecided (htimely : Timely decides [] chunks)
    (hfind : (completeLines chunks.flatten).1.find? decides = none) :
    Agrees chunks ↔ (∀ piece ∈ tailReads [] chunks, decides piece = false) ∧
      (0x0A ∉ chunks.flatten → ¬Tells chunks.flatten) := by
  have hnone : ∀ line ∈ (completeLines chunks.flatten).1, decides line = false := by
    intro line hline
    exact Bool.eq_false_of_not_eq_true (List.find?_eq_none.mp hfind line hline)
  have htail :
      (∀ line ∈ reads decides [] chunks, decides line = true → 0x0A ∈ line) ↔
        ∀ piece ∈ tailReads [] chunks, decides piece = false := stops_reads_iff hnone htimely
  have hread : (∀ line ∈ reads decides [] chunks, decides line = true → 0x0A ∈ line) →
      ∀ line ∈ reads decides [] chunks, decides line = false := by
    intro hcomplete line hline
    by_contra hdecides
    have hdecides := Bool.eq_true_of_not_eq_false hdecides
    have hmem := mem_completeLines_of_reads htimely line hline (hcomplete line hline hdecides)
    exact Bool.false_ne_true ((hnone line hmem).symm.trans hdecides)
  have hsilent (hreads : ∀ line ∈ reads decides [] chunks, decides line = false) :
      (reads decides [] chunks).flatMap answerTo = [] :=
    List.flatMap_eq_nil_iff.mpr fun line hline => answerTo_of_not_decides (hreads line hline)
  have hfirst : answerTo (firstLine chunks.flatten) = [] ↔
      (0x0A ∉ chunks.flatten → ¬Tells chunks.flatten) := by
    by_cases hnewline : 0x0A ∈ chunks.flatten
    · have hmem : firstLine chunks.flatten ∈ (completeLines chunks.flatten).1 := by
        rw [completeLines_cons hnewline]
        exact List.mem_cons_self
      exact iff_of_true (answerTo_of_not_decides (hnone _ hmem)) fun hnot => absurd hnewline hnot
    · rw [(readLine_of_unbroken hnewline).1, answerTo_eq_nil]
      exact ⟨fun hnot _ => hnot, fun hnot => hnot hnewline⟩
  rw [← htail, ← hfirst]
  constructor
  · intro hagrees
    refine ⟨hagrees.complete, ?_⟩
    rw [← hagrees.requests, hsilent (hread hagrees.complete)]
  · rintro ⟨hcomplete, hanswer⟩
    refine ⟨?_, hcomplete, ?_⟩
    · rw [hanswer, hsilent (hread hcomplete)]
    · intro line hline hshort
      exact Bool.false_ne_true ((hread hcomplete line hline).symm.trans hshort.decides)

/-- The chunks of the answer do not show exactly where it comes line by line. -/
theorem segmentation_iff (h : Waiting [] c) (chunks : List (List UInt8)) :
    Unsplit c chunks ↔ LineByLine chunks := by
  rw [h.unsplit_iff]
  constructor
  · rintro ⟨htimely, hagrees⟩
    refine ⟨htimely, ?_, ?_, ?_⟩
    · exact fun line hfind => (agrees_of_decided htimely hfind).mp hagrees
    · exact fun hfind => ((agrees_of_undecided htimely hfind).mp hagrees).1
    · intro hnewline
      have hfind : (completeLines chunks.flatten).1.find? decides = none := by
        rw [completeLines_eq_nil.mpr hnewline, List.find?_nil]
      exact ((agrees_of_undecided htimely hfind).mp hagrees).2 hnewline
  · intro hlines
    refine ⟨hlines.timely, ?_⟩
    cases hfind : (completeLines chunks.flatten).1.find? decides with
    | some line => exact (agrees_of_decided hlines.timely hfind).mpr (hlines.decided line hfind)
    | none =>
      exact (agrees_of_undecided hlines.timely hfind).mpr
        ⟨hlines.undecided hfind, hlines.unbroken⟩

def asked : List Signal :=
  [.start, .replyReadyRead 0 [0x42, 0x53, 8, 0, 2, 0, 0, Cmd.ready.toByte],
    .replyReadyRead 1 [0x42, 0x53, 8, 0, 3, 0, 0, Cmd.drinkAvail.toByte]]

theorem waiting_asked : Waiting [] (run asked (new debugID)) :=
  ⟨by decide +kernel, by decide +kernel, by decide +kernel⟩

theorem segmentation_iff_paid :
    Unsplit (run asked (new debugID)) [literal "1 200 Ola\n", literal "OK\n"] := by
  refine (segmentation_iff waiting_asked _).mpr ⟨?_, ?_, ?_, ?_⟩
  · unfold Timely
    decide +kernel
  · intro line hfind
    have hpaid : (completeLines [literal "1 200 Ola\n", literal "OK\n"].flatten).1.find? decides =
        some (literal "1 200 Ola\n") := by decide +kernel
    obtain rfl := Option.some.inj (hfind.symm.trans hpaid)
    refine ⟨?_, fun _ => by decide +kernel⟩
    rintro ⟨result, -, -, hlength⟩
    exact absurd hlength (by decide +kernel)
  · exact fun hfind => absurd hfind (by decide +kernel)
  · exact fun hnewline => absurd (by decide +kernel) hnewline

theorem segmentation_vends :
    ¬∀ customerID signals, Waiting [] (run signals (new customerID)) →
      ∀ chunks, Unsplit (run signals (new customerID)) chunks := by
  intro h
  have hsplit := (h _ asked waiting_asked [literal "HTTP/", literal "1.1 200 OK\r\n"]).requests
  have hfetch : command .fetch ∈
      ((run asked (new debugID)).read [literal "HTTP/", literal "1.1 200 OK\r\n"]).requests := by
    decide +kernel
  rw [hsplit] at hfetch
  exact absurd hfetch (by decide +kernel)

end Customer

end Alko.Alkod
