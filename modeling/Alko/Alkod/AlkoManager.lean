import Mathlib.Tactic.Simps.Basic
import Alko.Arduino.Datagram
import Alko.Foundation.FrameStream

/-! The daemon's end of the serial line: requests get an id and a reply object, and the frames that
come back are handed to the object behind their id. `char` is unsigned, as on the Raspberry Pi. -/

namespace Alko.Alkod

open Foundation
open Arduino (Datagram)
open Arduino.Datagram (hiByte loByte ofBytes)

def makeChecksum (buffer : List UInt8) : UInt16 := Foundation.checksum buffer

/-- The bytes `get` writes for the id it drew. The request's `size()` is a `uint8_t`. -/
def requestBytes (id : UInt16) (request : List UInt8) : List UInt8 :=
  let payload := request.take (request.length % 256)
  let size := UInt8.ofNat (7 + payload.length)
  let checksum := makeChecksum ([0x42, 0x53, size, hiByte id, loByte id, 0, 0] ++ payload)
  [0x42, 0x53, size, hiByte id, loByte id, hiByte checksum, loByte checksum] ++ payload

/-- The manager; reply objects are numbered in the order `get` makes them. -/
structure AlkoManager where
  id : UInt16
  requests : UInt16 → Option ℕ
  replies : ℕ
  sizePending : ℕ
  rx : List UInt8

inductive ManagerEvent
  | send (bytes : List UInt8)
  | recv (datagram : List UInt8)
  | setData (reply : ℕ) (datagram : List UInt8)
  deriving DecidableEq, Repr

namespace AlkoManager

def new : AlkoManager := ⟨0, fun _ => none, 0, 0, []⟩

/-- `++m_id`, where 0 and 1 are reserved. -/
def getID (m : AlkoManager) : UInt16 := if m.id + 1 < 2 then 2 else m.id + 1

@[simps] def get (request : List UInt8) (m : AlkoManager) : List UInt8 × AlkoManager :=
  (requestBytes m.getID request,
    { m with
      id := m.getID
      requests := Function.update m.requests m.getID (some m.replies)
      replies := m.replies + 1 })

@[simps] def receive (bytes : List UInt8) (m : AlkoManager) : AlkoManager :=
  { m with rx := m.rx ++ bytes }

/-- From the checksum test on; a bad checksum is only logged. -/
def dispatch (datagram : List UInt8) (m : AlkoManager) : List ManagerEvent × AlkoManager :=
  let ping : List ManagerEvent × AlkoManager :=
    if datagram.getD 7 0 = Cmd.ping.toByte then
      let sent := m.get [Cmd.pong.toByte]
      ([.send sent.1], sent.2)
    else ([], m)
  let id := ofBytes (datagram.getD 3 0) (datagram.getD 4 0)
  match ping.2.requests id with
  | some reply => (.recv datagram :: ping.1 ++ [.setData reply datagram], ping.2)
  | none => (.recv datagram :: ping.1, ping.2)

/-- From `bytesAvailable() < sizePending` on. -/
def readBody (m : AlkoManager) : List ManagerEvent × AlkoManager :=
  if m.rx.length < m.sizePending then ([], m)
  else
    let datagram := 0x42 :: 0x53 :: UInt8.ofNat (m.sizePending + 3) :: m.rx.take m.sizePending
    { m with rx := m.rx.drop m.sizePending, sizePending := 0 }.dispatch datagram

/-- One call handles one datagram at most, and one that gives up keeps what it has not read. -/
def slotReadyRead (m : AlkoManager) : List ManagerEvent × AlkoManager :=
  if m.sizePending = 0 then
    if m.rx.length < 3 then ([], m)
    else
      match m.rx with
      | sig0 :: sig1 :: size :: rest =>
        if sig0 ≠ 0x42 then ([], { m with rx := sig1 :: size :: rest })
        else if sig1 ≠ 0x53 then ([], { m with rx := size :: rest })
        else if 64 < size.toNat ∨ size.toNat < 8 then ([], { m with rx := rest, sizePending := 0 })
        else readBody { m with rx := rest, sizePending := size.toNat - 3 }
      | _ => ([], m)
  else readBody m

def charValue (signed : Bool) (b : UInt8) : ℤ :=
  if signed ∧ 128 ≤ b.toNat then b.toNat - 256 else b.toNat

/-- `id = (datagram[3] << 8) + datagram[4];` -/
def decodeId (signed : Bool) (hi lo : UInt8) : UInt16 :=
  UInt16.ofInt (charValue signed hi * 2 ^ 8 + charValue signed lo)

def dispatchAs (signed : Bool) (datagram : List UInt8) (m : AlkoManager) :
    List ManagerEvent × AlkoManager :=
  let ping : List ManagerEvent × AlkoManager :=
    if datagram.getD 7 0 = Cmd.ping.toByte then
      let sent := m.get [Cmd.pong.toByte]
      ([.send sent.1], sent.2)
    else ([], m)
  let id := decodeId signed (datagram.getD 3 0) (datagram.getD 4 0)
  match ping.2.requests id with
  | some reply => (.recv datagram :: ping.1 ++ [.setData reply datagram], ping.2)
  | none => (.recv datagram :: ping.1, ping.2)

def readBodyAs (signed : Bool) (m : AlkoManager) : List ManagerEvent × AlkoManager :=
  if m.rx.length < m.sizePending then ([], m)
  else
    let datagram := 0x42 :: 0x53 :: UInt8.ofNat (m.sizePending + 3) :: m.rx.take m.sizePending
    { m with rx := m.rx.drop m.sizePending, sizePending := 0 }.dispatchAs signed datagram

/-- The signature and the size are cast to `uint8_t`, the id is not. -/
def slotReadyReadAs (signed : Bool) (m : AlkoManager) : List ManagerEvent × AlkoManager :=
  if m.sizePending = 0 then
    if m.rx.length < 3 then ([], m)
    else
      match m.rx with
      | sig0 :: sig1 :: size :: rest =>
        if sig0 ≠ 0x42 then ([], { m with rx := sig1 :: size :: rest })
        else if sig1 ≠ 0x53 then ([], { m with rx := size :: rest })
        else if 64 < size.toNat ∨ size.toNat < 8 then ([], { m with rx := rest, sizePending := 0 })
        else readBodyAs signed { m with rx := rest, sizePending := size.toNat - 3 }
      | _ => ([], m)
  else readBodyAs signed m

theorem toNat_decodeId (signed : Bool) (hi lo : UInt8) :
    (decodeId signed hi lo).toNat =
      (256 * hi.toNat + lo.toNat + if signed ∧ 128 ≤ lo.toNat then 65280 else 0) % 65536 := by
  have hhi := hi.toNat_lt
  have hlo := lo.toNat_lt
  rw [decodeId, UInt16.ofInt, UInt16.toNat_ofNat']
  unfold charValue
  split_ifs <;> omega

theorem decodeId_eq_iff (signed : Bool) (hi lo : UInt8) :
    decodeId signed hi lo = ofBytes hi lo ↔ signed = false ∨ lo.toNat < 128 := by
  have hhi := hi.toNat_lt
  have hlo := lo.toNat_lt
  have hcond : (signed = false ∨ lo.toNat < 128) ↔ ¬(signed = true ∧ 128 ≤ lo.toNat) := by
    rw [not_and_or, Bool.not_eq_true, Nat.not_le]
  rw [← UInt16.toNat_inj, toNat_decodeId, Datagram.toNat_ofBytes, hcond]
  split_ifs with hnegative
  · exact iff_of_false (by omega) (not_not.mpr hnegative)
  · exact iff_of_true (by omega) hnegative

theorem dispatchAs_false : dispatchAs false = dispatch := by
  funext datagram m
  simp only [dispatchAs, dispatch, (decodeId_eq_iff false _ _).mpr (Or.inl rfl)]

theorem readBodyAs_false : readBodyAs false = readBody := by
  funext m
  rw [readBodyAs, readBody, dispatchAs_false]

theorem slotReadyReadAs_false : slotReadyReadAs false = slotReadyRead := by
  funext m
  rw [slotReadyReadAs, slotReadyRead, readBodyAs_false]

/-! The receiver is a frame reader: 3 bytes before a header is looked at, frames of 8 to 64
bytes. -/

def format : FrameFormat UInt8 where
  sig0 := 0x42
  sig1 := 0x53
  size := UInt8.toNat
  need := 3
  minSize := 8
  maxSize := 64
  three_le_need := le_rfl
  need_le := by decide
  lt_minSize := by decide

def reader (m : AlkoManager) : Reader UInt8 := ⟨m.sizePending, m.rx⟩

@[simps] def withReader (r : Reader UInt8) (m : AlkoManager) : AlkoManager :=
  { m with sizePending := r.pending, rx := r.buffer }

def accept (m : AlkoManager) (r : Reader UInt8) :
    Option (List UInt8) → List ManagerEvent × AlkoManager
  | none => ([], m.withReader r)
  | some body =>
    (m.withReader r).dispatch (0x42 :: 0x53 :: UInt8.ofNat (body.length + 3) :: body)

def acceptAs (signed : Bool) (m : AlkoManager) (r : Reader UInt8) :
    Option (List UInt8) → List ManagerEvent × AlkoManager
  | none => ([], m.withReader r)
  | some body =>
    (m.withReader r).dispatchAs signed (0x42 :: 0x53 :: UInt8.ofNat (body.length + 3) :: body)

theorem acceptAs_false : acceptAs false = accept := by
  funext m r body
  cases body with
  | none => rfl
  | some body => rw [acceptAs, accept, dispatchAs_false]

theorem readBodyAs_eq (signed : Bool) (m : AlkoManager) :
    m.readBodyAs signed = m.acceptAs signed (FrameFormat.body m.sizePending m.rx).2
      (FrameFormat.body m.sizePending m.rx).1 := by
  unfold readBodyAs FrameFormat.body
  by_cases hlen : m.rx.length < m.sizePending
  · simp only [if_pos hlen, acceptAs, withReader]
  · have htake : (m.rx.take m.sizePending).length = m.sizePending := by
      rw [List.length_take]
      omega
    simp only [if_neg hlen, acceptAs, withReader, htake]

theorem slotReadyReadAs_eq (signed : Bool) (m : AlkoManager) :
    m.slotReadyReadAs signed =
      m.acceptAs signed (format.poll [] m.reader).2 (format.poll [] m.reader).1 := by
  unfold slotReadyReadAs FrameFormat.poll
  by_cases hidle : m.sizePending = 0
  · simp only [hidle, reader, if_true, List.append_nil]
    by_cases hlen : m.rx.length < 3
    · simp only [if_pos hlen, show format.need = 3 from rfl, acceptAs, withReader]
      rw [← hidle]
    · simp only [if_neg hlen, show format.need = 3 from rfl]
      match hrx : m.rx with
      | sig0 :: sig1 :: size :: rest =>
        simp only [FrameFormat.header, show format.sig0 = 0x42 from rfl,
          show format.sig1 = 0x53 from rfl, show format.size = UInt8.toNat from rfl,
          show format.maxSize = 64 from rfl, show format.minSize = 8 from rfl]
        split_ifs with h0 h1 h2
        · simp only [acceptAs, withReader]
        · simp only [acceptAs, withReader]
        · simp only [acceptAs, withReader]
        · rw [readBodyAs_eq]
          rfl
      | [] => simp [hrx] at hlen
      | [_] => simp [hrx] at hlen
      | [_, _] => simp [hrx] at hlen
  · rw [if_neg hidle, if_neg (show ¬m.reader.pending = 0 from hidle), readBodyAs_eq,
      List.append_nil]
    rfl

theorem slotReadyRead_eq (m : AlkoManager) :
    m.slotReadyRead = m.accept (format.poll [] m.reader).2 (format.poll [] m.reader).1 := by
  rw [← slotReadyReadAs_false, slotReadyReadAs_eq, acceptAs_false]

end AlkoManager

end Alko.Alkod
