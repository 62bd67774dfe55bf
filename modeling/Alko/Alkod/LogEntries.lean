import Alko.Arduino.Datagram
import Alko.Qt.Text

/-! The lines of the log, and what the log page makes of one of them. -/

namespace Alko.Alkod

open Qt
open Arduino.Datagram (ofBytes toNat_ofBytes)

def digits : ℕ → ℕ → QString
  | 0, _ => []
  | width + 1, n => digits width (n / 10) ++ [UInt16.ofNat (0x30 + n % 10)]

structure LogTime where
  year : ℕ
  month : ℕ
  day : ℕ
  hour : ℕ
  minute : ℕ
  second : ℕ
  msec : ℕ
  deriving DecidableEq, Repr

def LogTime.toQString (t : LogTime) : QString :=
  digits 4 t.year ++ [0x2D] ++ digits 2 t.month ++ [0x2D] ++ digits 2 t.day ++ [0x20] ++
    digits 2 t.hour ++ [0x2E] ++ digits 2 t.minute ++ [0x2E] ++ digits 2 t.second ++ [0x2C] ++
    digits 3 t.msec

/-- Every caller leaves the id and the application at their defaults, the empty string. -/
def logMark : QString := QString.literal " *** [] [] "

def log (t : LogTime) (text : QString) : QString := t.toQString ++ logMark ++ text

def cutNumber (data : QString) : QString :=
  let d := if data.length = 16 then data.right 10 else data
  if data.length = 12 then data.right 6 else d

inductive LogRecord
  | send (frame : List UInt8) (h : 8 ≤ frame.length)
  | recv (frame : List UInt8) (h : 8 ≤ frame.length)
  | newCustomer (data : QString)
  | fromServer (reply : QString)

namespace LogRecord

def text : LogRecord → QString
  | send frame _ => QString.literal "SEND [" ++ QString.toHex frame ++ [0x5D]
  | recv frame _ => QString.literal "RECV [" ++ QString.toHex frame ++ [0x5D]
  | newCustomer data => QString.literal "New customer: " ++ cutNumber data
  | fromServer reply => QString.literal "From customer server: " ++ reply.trimmed

def line (t : LogTime) (r : LogRecord) : QString := log t r.text

end LogRecord

/-! What the page shows. -/

inductive LogEntry
  | customer (date name : QString)
  | command (date : QString) (sent : Bool) (label : QString) (id : ℤ) (data : QString)
  deriving DecidableEq, Repr

def commandName : Cmd → Option String
  | .ping => some "PING"
  | .pong => none
  | .busy => some "BUSY"
  | .ready => some "READY"
  | .service => some "SERVICE"
  | .getConfig => some "GET_CONFIG"
  | .setConfig => some "SET_CONFIG"
  | .getState => some "GET_STATE"
  | .setState => some "SET_STATE"
  | .homing => some "HOMING"
  | .homeAbort => some "HOME_ABORT"
  | .homeBegin => some "HOME_BEGIN"
  | .checkAvail => some "CHECK_AVAIL"
  | .drinkAvail => some "DRINK_AVAIL"
  | .empty => some "EMPTY"
  | .fetch => some "FETCH"
  | .setText0 => some "SET_TEXT_0"
  | .setText1 => some "SET_TEXT_1"
  | .setText2 => some "SET_TEXT_2"
  | .setText3 => some "SET_TEXT_3"
  | .unknownCmd => some "UNKNOWN_CMD"
  | .chksumInvalid => some "CHKSUM_INVALID"
  | .clrText | .showInfo | .lcdRgb | .lcdReset | .lcdRedCycle | .lcdUpdate => none

def stateName : State → Option String
  | .service => some "State: SERVICE"
  | .prepareReady => some "State: PREPARE_READY"
  | .ready => some "State: READY"
  | .readyWait => none
  | .deploy => some "State: DEPLOY"
  | .deployError => some "State: DEPLOY_ERROR"
  | .prepareAutoHome => some "State: PREPARE_AUTO_HOME"
  | .autoHome => some "State: AUTO_HOME"
  | .info => some "State: INFO"

/-- The case of the switch that a number meets, `char` being unsigned; where it is signed the cases
of the last two commands are negative, and no number meets them. -/
def commandOf (code : ℤ) : Option Cmd := Cmd.all.find? fun c => (c.toByte.toNat : ℤ) = code

def stateOf (code : ℤ) : Option State := State.all.find? fun s => (s.toByte.toNat : ℤ) = code

def commandLabel (case : Option Cmd) (command : QString) : QString :=
  match case.bind commandName with
  | some name => QString.literal name
  | none => QString.literal "Other command: " ++ command

/-- A number that is not one is 0 for SET_STATE, and no data for GET_STATE. -/
def commandData (case : Option Cmd) (data : QString) : QString :=
  match case with
  | some .getState =>
    match data.toIntBase16 with
    | none => []
    | some state => (((stateOf state).bind stateName).map QString.literal).getD data
  | some .setState =>
    match stateOf (data.toIntBase16.getD 0) with
    | some .service => QString.literal "State: SERVICE"
    | some .ready => QString.literal "State: PREPARE_READY"
    | some .prepareReady => QString.literal "State: PREPARE_READY"
    | _ => data
  | _ => []

def fromBracket (offset length : ℕ) (logLine : QString) : QString :=
  logLine.mid (logLine.lastIndexOf 0x5B + offset).toNat length

def commandCase (logLine : QString) : Option Cmd :=
  commandOf ((fromBracket 15 2 logLine).toIntBase16.getD 0)

def isRecv (logLine : QString) : Bool := QString.occursIn (QString.literal "RECV") logLine

def isCustomer (logLine : QString) : Bool :=
  QString.occursIn (QString.literal "customer-service:") logLine

/-- What `generatePrettyHtmlLogObject` shows of a line, none where it returns early. -/
def logEntry (logLine : QString) : Option LogEntry :=
  if commandCase logLine = some .pong ∨ (commandCase logLine = some .ping ∧ isRecv logLine) then none
  else if isCustomer logLine then some (.customer (logLine.left 23) (logLine.mid 58 (-1)))
  else
    some (.command (logLine.left 23) (QString.occursIn (QString.literal "SEND") logLine)
      (commandLabel (commandCase logLine) (fromBracket 15 2 logLine))
      ((fromBracket 7 4 logLine).toIntBase16.getD 0)
      (commandData (commandCase logLine) (fromBracket 17 2 logLine)))

def LogEntry.html : LogEntry → QString
  | .customer date name =>
    QString.literal "<p>" ++ date ++ QString.literal "<br />" ++
      QString.literal "<button type=\"button\" class=\"btn btn-xs btn-info\">" ++
      QString.literal "<span class=\"glyphicon glyphicon-user\"><span/> " ++ name ++
      QString.literal "</button><br /></p>\n"
  | .command date sent label id data =>
    QString.literal "<p>" ++ date ++ QString.literal "<br />" ++
      QString.literal "<button type=\"button\" class=\"btn btn-xs btn-" ++
      QString.literal (if sent then "primary" else "success") ++
      QString.literal "\"><span class=\"glyphicon glyphicon-transfer\"><span/> " ++ label ++
      QString.literal ", id(" ++ QString.literal (toString id) ++ QString.literal ")" ++
      (if data = [] then [] else QString.literal " data(" ++ data ++ QString.literal ")") ++
      QString.literal "</button><br /></p>\n"

def generatePrettyHtmlLogObject (logLine : QString) : QString :=
  ((logEntry logLine).map LogEntry.html).getD []

theorem mem_digits {width n : ℕ} {c : UInt16} (h : c ∈ digits width n) : c ≤ 0x39 := by
  induction width generalizing n with
  | zero => simp [digits] at h
  | succ width ih =>
    rcases List.mem_append.mp h with hold | hnew
    · exact ih hold
    · rw [List.mem_singleton.mp hnew, UInt16.le_iff_toNat_le, UInt16.toNat_ofNat']
      change (0x30 + n % 10) % 2 ^ 16 ≤ 0x39
      omega

theorem mem_time {t : LogTime} {c : UInt16} (h : c ∈ t.toQString) : c ≤ 0x39 := by
  simp only [LogTime.toQString, List.mem_append, List.mem_singleton] at h
  rcases h with (((((((((((h | h) | h) | h) | h) | h) | h) | h) | h) | h) | h) | h) | h <;>
    first | exact mem_digits h | (rw [h]; decide)

def frameLine (t : LogTime) (word : QString) (frame : List UInt8) : QString :=
  (t.toQString ++ logMark ++ word) ++ 0x5B :: (QString.toHex frame ++ [0x5D])

theorem line_send (t : LogTime) (frame : List UInt8) (h : 8 ≤ frame.length) :
    (LogRecord.send frame h).line t = frameLine t (QString.literal "SEND ") frame := by
  have hword : QString.literal "SEND [" = QString.literal "SEND " ++ [0x5B] := rfl
  simp only [LogRecord.line, LogRecord.text, log, frameLine, hword, List.append_assoc,
    List.cons_append, List.nil_append]

theorem line_recv (t : LogTime) (frame : List UInt8) (h : 8 ≤ frame.length) :
    (LogRecord.recv frame h).line t = frameLine t (QString.literal "RECV ") frame := by
  have hword : QString.literal "RECV [" = QString.literal "RECV " ++ [0x5B] := rfl
  simp only [LogRecord.line, LogRecord.text, log, frameLine, hword, List.append_assoc,
    List.cons_append, List.nil_append]

theorem bracket_notMem (frame : List UInt8) : 0x5B ∉ QString.toHex frame ++ [0x5D] := by
  intro h
  rcases List.mem_append.mp h with hhex | hlast
  · exact absurd (QString.range_of_mem_toHex hhex) (by decide)
  · exact absurd hlast (by decide)

theorem fromBracket_frameLine (t : LogTime) (word : QString) (before part behind : List UInt8) :
    fromBracket (1 + 2 * before.length) (2 * part.length)
      (frameLine t word (before ++ (part ++ behind))) = QString.toHex part := by
  have hclosed := bracket_notMem (before ++ (part ++ behind))
  have hpart := QString.length_toHex part
  have hbefore := QString.length_toHex before
  have hplace : ((t.toQString ++ logMark ++ word).length : ℤ) + (1 + 2 * before.length : ℕ) =
      ((t.toQString ++ logMark ++ word).length + (1 + 2 * before.length) : ℕ) := by
    push_cast
    ring
  rw [fromBracket, frameLine, QString.lastIndexOf_append hclosed, hplace, Int.toNat_natCast,
    QString.mid, if_neg, List.drop_append, List.drop_of_length_le (Nat.le_add_right _ _),
    Nat.add_sub_cancel_left, List.nil_append, Nat.add_comm 1, List.drop_succ_cons,
    QString.toHex_append, List.append_assoc, List.drop_left' hbefore, QString.toHex_append,
    List.append_assoc, QString.left, if_neg, Int.toNat_natCast, List.take_left' hpart]
  · omega
  · simp only [List.length_append, List.length_cons, QString.length_toHex]
    omega

theorem exists_fields {frame : List UInt8} (h : 8 ≤ frame.length) :
    ∃ before hi lo middle command data, frame = before ++ ([hi, lo] ++ (middle ++ command :: data)) ∧
      before.length = 3 ∧ middle.length = 2 := by
  refine ⟨frame.take 3, frame[3], frame[4], (frame.drop 5).take 2, frame[7], frame.drop 8, ?_, ?_, ?_⟩
  · have hdata : frame[7] :: frame.drop 8 = (frame.drop 5).drop 2 := by
      rw [List.getElem_cons_drop, List.drop_drop]
    rw [hdata, List.take_append_drop, List.cons_append, List.singleton_append,
      List.getElem_cons_drop, List.getElem_cons_drop, List.take_append_drop]
  · rw [List.length_take_of_le (by omega)]
  · rw [List.length_take_of_le (by rw [List.length_drop]; omega)]

def frameCommand (frame : List UInt8) : QString :=
  commandLabel (Cmd.ofByte? (frame.getD 7 0)) (QString.toHex [frame.getD 7 0])

def frameId (frame : List UInt8) : UInt16 := ofBytes (frame.getD 3 0) (frame.getD 4 0)

theorem commandOf_toNat (b : UInt8) : commandOf (Int.ofNat b.toNat) = Cmd.ofByte? b := by
  have hpred (c : Cmd) :
      decide ((c.toByte.toNat : ℤ) = Int.ofNat b.toNat) = decide (c.toByte = b) := by
    refine decide_eq_decide.mpr ?_
    rw [← UInt8.toNat_inj]
    exact Int.natCast_inj
  simp only [commandOf, Cmd.ofByte?, hpred]

variable (t : LogTime) (word : QString) {frame : List UInt8}

theorem fromBracket_command (h : 8 ≤ frame.length) :
    fromBracket 15 2 (frameLine t word frame) = QString.toHex [frame.getD 7 0] := by
  obtain ⟨before, hi, lo, middle, command, data, rfl, hbefore, hmiddle⟩ := exists_fields h
  have hseven : (before ++ [hi, lo] ++ middle).length = 7 := by
    rw [List.length_append, List.length_append, hbefore, hmiddle]
    rfl
  have hsplit : before ++ ([hi, lo] ++ (middle ++ command :: data)) =
      (before ++ [hi, lo] ++ middle) ++ ([command] ++ data) := by simp
  have hshown := fromBracket_frameLine t word (before ++ [hi, lo] ++ middle) [command] data
  have hget : (before ++ [hi, lo] ++ middle ++ ([command] ++ data)).getD 7 0 = command := by
    rw [List.getD_eq_getElem?_getD, List.getElem?_append_right hseven.le, hseven]
    rfl
  rw [hsplit, hget]
  rw [hseven] at hshown
  exact hshown

theorem fromBracket_id (h : 8 ≤ frame.length) :
    fromBracket 7 4 (frameLine t word frame) =
      QString.toHex [frame.getD 3 0, frame.getD 4 0] := by
  obtain ⟨before, hi, lo, middle, command, data, rfl, hbefore, hmiddle⟩ := exists_fields h
  have hshown := fromBracket_frameLine t word before [hi, lo] (middle ++ command :: data)
  have hget (i : ℕ) : (before ++ ([hi, lo] ++ (middle ++ command :: data))).getD (3 + i) 0 =
      ([hi, lo] ++ (middle ++ command :: data)).getD i 0 := by
    rw [List.getD_eq_getElem?_getD, List.getElem?_append_right (by omega), hbefore,
      Nat.add_sub_cancel_left, List.getD_eq_getElem?_getD]
  rw [hget 0, hget 1]
  rw [hbefore] at hshown
  exact hshown

theorem commandCase_frameLine (h : 8 ≤ frame.length) :
    commandCase (frameLine t word frame) = Cmd.ofByte? (frame.getD 7 0) := by
  rw [commandCase, fromBracket_command t word h,
    QString.toIntBase16_toHex (List.cons_ne_nil _ _) (by simp), Option.getD_some]
  simp only [List.foldl_cons, List.foldl_nil, Nat.mul_zero, Nat.zero_add]
  exact commandOf_toNat _

theorem id_frameLine (h : 8 ≤ frame.length) :
    (fromBracket 7 4 (frameLine t word frame)).toIntBase16.getD 0 = (frameId frame).toNat := by
  rw [fromBracket_id t word h, QString.toIntBase16_toHex (List.cons_ne_nil _ _) (by simp),
    Option.getD_some, frameId, toNat_ofBytes]
  simp only [List.foldl_cons, List.foldl_nil, Nat.mul_zero, Nat.zero_add]
  rfl

/-- A serial command that is shown of a frame's line is the frame's. -/
theorem logEntry_frameLine (h : 8 ≤ frame.length) {date label data : QString} {sent : Bool} {id : ℤ}
    (hshown : logEntry (frameLine t word frame) = some (.command date sent label id data)) :
    id = (frameId frame).toNat ∧ label = frameCommand frame := by
  unfold logEntry at hshown
  split_ifs at hshown
  · cases hshown
  · obtain ⟨-, -, rfl, rfl, -⟩ := LogEntry.command.inj (Option.some.inj hshown)
    rw [commandCase_frameLine t word h, fromBracket_command t word h]
    exact ⟨id_frameLine t word h, rfl⟩

/-- A serial command is shown only of a frame's line, with the frame's id and command. -/
def Genuine (t : LogTime) (r : LogRecord) : Prop :=
  ∀ date sent label id data, logEntry (r.line t) = some (.command date sent label id data) →
    ∃ frame h, (r = .send frame h ∨ r = .recv frame h) ∧ id = (frameId frame).toNat ∧
      label = frameCommand frame

/-- What stands in a line with this text where a frame has its command: without a bracket in the
text the last one of the line is that of the empty application. -/
def commandPlace (text : QString) : QString :=
  if 0x5B ∈ text then fromBracket 15 2 text else text.mid 12 2

/-- The page shows no serial command of a line with this text: where a frame's command would be it
has the number of PONG, or that of PING or none and a RECV somewhere, or it is taken for a
customer's. -/
def Hidden (text : QString) : Prop :=
  commandOf ((commandPlace text).toIntBase16.getD 0) = some .pong ∨
    (commandOf ((commandPlace text).toIntBase16.getD 0) = some .ping ∧ isRecv text = true) ∨
    isCustomer text = true

theorem mid_append (position : ℕ) (n : ℤ) (a s : QString) :
    (a ++ s).mid (a.length + position) n = s.mid position n := by
  rw [QString.mid, QString.mid, List.length_append, List.drop_length_add_append]
  simp only [Nat.add_lt_add_iff_left]

theorem fromBracket_append {b : QString} (hb : 0x5B ∉ b) (a : QString) (offset length : ℕ) :
    fromBracket offset length (a ++ 0x5B :: b) = QString.mid offset length (0x5B :: b) := by
  rw [fromBracket, QString.lastIndexOf_append hb, ← Nat.cast_add, Int.toNat_natCast, mid_append]

theorem fromBracket_log (t : LogTime) (text : QString) :
    fromBracket 15 2 (log t text) = commandPlace text := by
  by_cases hbracket : 0x5B ∈ text
  · obtain ⟨b, a, hsplit, hb⟩ := List.eq_append_cons_of_mem (List.mem_reverse.mpr hbracket)
    have hb : 0x5B ∉ b.reverse := fun h => hb (List.mem_reverse.mp h)
    obtain rfl : text = a.reverse ++ 0x5B :: b.reverse := by
      rw [← List.reverse_reverse text, hsplit]
      simp
    rw [commandPlace, if_pos hbracket, fromBracket_append hb, log, ← List.append_assoc,
      fromBracket_append hb]
  · -- the bracket of the empty application, and three units more
    have hmark : logMark = QString.literal " *** [] " ++ ([0x5B] ++ [0x5D, 0x20]) := rfl
    have hline : log t text =
        (t.toQString ++ QString.literal " *** [] ") ++ 0x5B :: ([0x5D, 0x20] ++ text) := by
      simp only [log, hmark, List.append_assoc, List.cons_append, List.nil_append]
    have hclosed : (0x5B : UInt16) ∉ [0x5D, 0x20] ++ text := by simpa using hbracket
    rw [commandPlace, if_neg hbracket, hline, fromBracket_append hclosed]
    exact mid_append 12 2 [0x5B, 0x5D, 0x20] text

theorem occursIn_append {a : QString} {c : UInt16} (hc : c ∉ a) (part s : QString) :
    QString.occursIn (c :: part) (a ++ s) = QString.occursIn (c :: part) s := by
  induction a with
  | nil => rfl
  | cons d a ih =>
    rw [← ih fun h => hc (List.mem_cons_of_mem d h)]
    refine decide_eq_decide.mpr ?_
    rw [List.cons_append, List.infix_cons_iff, or_iff_right]
    rintro ⟨rest, hrest⟩
    obtain rfl : c = d := (List.cons.inj hrest).1
    exact hc List.mem_cons_self

theorem notMem_front {c : UInt16} (htime : ¬ c ≤ 0x39) (hmark : c ∉ logMark) (t : LogTime) :
    c ∉ t.toQString ++ logMark := fun h =>
  (List.mem_append.mp h).elim (fun h => htime (mem_time h)) hmark

theorem isRecv_log (t : LogTime) (text : QString) : isRecv (log t text) = isRecv text :=
  occursIn_append (notMem_front (by decide) (by decide) t) _ text

theorem isCustomer_log (t : LogTime) (text : QString) : isCustomer (log t text) = isCustomer text :=
  occursIn_append (notMem_front (by decide) (by decide) t) _ text

theorem hidden_iff (t : LogTime) (text : QString) :
    Hidden text ↔
      ∀ date sent label id data, logEntry (log t text) ≠ some (.command date sent label id data) := by
  rw [Hidden, ← fromBracket_log t, ← commandCase, ← isRecv_log t, ← isCustomer_log t, logEntry]
  constructor
  · intro h date sent label id data
    split_ifs with hquiet hcustomer
    · simp
    · simp
    · rcases h with hpong | hping | hshown
      · exact absurd (Or.inl hpong) hquiet
      · exact absurd (Or.inr hping) hquiet
      · exact absurd hshown hcustomer
  · intro h
    by_contra hnot
    push Not at hnot
    obtain ⟨hpong, hping, hcustomer⟩ := hnot
    have hquiet : ¬ (commandCase (log t text) = some .pong ∨
        (commandCase (log t text) = some .ping ∧ isRecv (log t text) = true)) := by
      rintro (hcase | ⟨hcase, hrecv⟩)
      · exact hpong hcase
      · exact hping hcase hrecv
    exact h _ _ _ _ _ ((if_neg hquiet).trans (if_neg hcustomer))

def LogRecord.IsFrame : LogRecord → Prop
  | .send _ _ => True
  | .recv _ _ => True
  | .newCustomer _ => False
  | .fromServer _ => False

/-- The page tells the truth of a line exactly if it is a frame's or not shown as one. -/
theorem genuine_iff (t : LogTime) (r : LogRecord) :
    Genuine t r ↔ (¬ r.IsFrame → Hidden r.text) := by
  constructor
  · intro h hframe
    refine (hidden_iff t _).mpr fun date sent label id data hshown => ?_
    obtain ⟨frame, hlen, rfl | rfl, -⟩ := h _ _ _ _ _ hshown
    · exact hframe trivial
    · exact hframe trivial
  · intro h date sent label id data hshown
    cases r with
    | send frame hlen =>
      rw [line_send] at hshown
      exact ⟨frame, hlen, Or.inl rfl, logEntry_frameLine t _ hlen hshown⟩
    | recv frame hlen =>
      rw [line_recv] at hshown
      exact ⟨frame, hlen, Or.inr rfl, logEntry_frameLine t _ hlen hshown⟩
    | newCustomer d => exact absurd hshown ((hidden_iff t _).mp (h not_false) _ _ _ _ _)
    | fromServer reply => exact absurd hshown ((hidden_iff t _).mp (h not_false) _ _ _ _ _)

theorem not_genuine : ¬ ∀ t r, Genuine t r := by
  intro h
  have hshown : logEntry ((LogRecord.newCustomer (QString.literal "0123456789")).line
      ⟨2024, 11, 19, 21, 33, 0, 0⟩) =
      some (.command (QString.literal "2024-11-19 21.33.00,000") false (QString.literal "PING") 0
        []) := by decide +kernel
  obtain ⟨frame, hlen, hsent | hreceived, -⟩ := h _ _ _ _ _ _ _ hshown
  · cases hsent
  · cases hreceived

end Alko.Alkod
