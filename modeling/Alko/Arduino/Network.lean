import Alko.Arduino.Datagram
import Alko.Foundation.FrameStream

/-! The machine's end of the serial line: the resumable receiver and the frames it writes. -/

namespace Alko.Arduino

open Alko.Foundation

structure Network where
  -- Bytes of the datagram still to be read; 0 while looking for a header.
  sizePending : ℕ
  datagram : Option Datagram
  rx : List UInt8
  deriving DecidableEq, Repr

namespace Network

def new : Network := ⟨0, none, []⟩

@[simps] def receive (bytes : List UInt8) (n : Network) : Network := { n with rx := n.rx ++ bytes }

def sendCommand (command : Cmd) (id : UInt16) : Datagram :=
  (((Datagram.new 0).setId id).setCommand command).updateChecksum

/-- What one call of `datagramIsPending` returns, what it writes, and what it leaves. -/
structure Poll where
  pending : Bool
  sent : List Datagram
  network : Network
  deriving DecidableEq

def handleDatagram (dgr : Datagram) (n : Network) : Poll :=
  ⟨true, [], { n with datagram := some dgr }⟩

def parse : List UInt8 → Datagram
  | idHi :: idLo :: sumHi :: sumLo :: command :: data =>
    ⟨Datagram.ofBytes idHi idLo, Datagram.ofBytes sumHi sumLo, command, data⟩
  | _ => Datagram.new 0

/-- From `Serial.available() < sizePending` on. -/
def readBody (n : Network) : Poll :=
  if n.rx.length < n.sizePending then ⟨false, [], n⟩
  else
    let dgr := parse (n.rx.take n.sizePending)
    let n := { n with rx := n.rx.drop n.sizePending, sizePending := 0 }
    if !dgr.checksumIsValid then ⟨false, [sendCommand .chksumInvalid dgr.id], n⟩
    else n.handleDatagram dgr

/-- `late` is what the serial interrupt adds between the two looks at the receive buffer. -/
def datagramIsPending (late : List UInt8) (n : Network) : Poll :=
  if n.sizePending = 0 then
    if n.rx.length < 8 then ⟨false, [], n.receive late⟩
    else
      match n.rx with
      | sig0 :: sig1 :: size :: rest =>
        if sig0 ≠ 0x42 then ⟨false, [], { n with rx := sig1 :: size :: rest ++ late }⟩
        else if sig1 ≠ 0x53 then ⟨false, [], { n with rx := size :: rest ++ late }⟩
        else if 32 < size.toNat ∨ size.toNat < 8 then ⟨false, [], { n with rx := rest ++ late }⟩
        else readBody { n with rx := rest ++ late, sizePending := size.toNat - 3 }
      | _ => ⟨false, [], n.receive late⟩
  else readBody (n.receive late)

def getPendingDatagram (n : Network) : Datagram := n.datagram.getD (Datagram.new 0)

/-! The receiver is a frame reader: 8 bytes before a header is looked at, frames of 8 to 32
bytes. -/

theorem header_le : 3 ≤ 8 := by decide

theorem header_lt : 3 < 8 := by decide

theorem header_waited : 8 ≤ 8 := le_rfl

def format : FrameFormat UInt8 where
  sig0 := 0x42
  sig1 := 0x53
  size := UInt8.toNat
  need := 8
  minSize := 8
  maxSize := 32
  three_le_need := header_le
  need_le := header_waited
  lt_minSize := header_lt

def reader (n : Network) : Reader UInt8 := ⟨n.sizePending, n.rx⟩

def accept (n : Network) (r : Reader UInt8) : Option (List UInt8) → Poll
  | none => ⟨false, [], ⟨r.pending, n.datagram, r.buffer⟩⟩
  | some body =>
    if (parse body).checksumIsValid then ⟨true, [], ⟨r.pending, some (parse body), r.buffer⟩⟩
    else ⟨false, [sendCommand .chksumInvalid (parse body).id], ⟨r.pending, n.datagram, r.buffer⟩⟩

theorem readBody_eq (n : Network) :
    n.readBody = n.accept (FrameFormat.body n.sizePending n.rx).2
      (FrameFormat.body n.sizePending n.rx).1 := by
  unfold readBody FrameFormat.body
  by_cases hlen : n.rx.length < n.sizePending
  · simp only [if_pos hlen, accept]
  · simp only [if_neg hlen, accept, handleDatagram, Bool.not_eq_true']
    cases (parse (n.rx.take n.sizePending)).checksumIsValid <;> rfl

/-- One call of `datagramIsPending` is one poll of the frame reader. -/
theorem datagramIsPending_eq (late : List UInt8) (n : Network) :
    n.datagramIsPending late =
      n.accept (format.poll late n.reader).2 (format.poll late n.reader).1 := by
  unfold datagramIsPending FrameFormat.poll
  by_cases hidle : n.sizePending = 0
  · simp only [hidle, reader, if_true]
    by_cases hlen : n.rx.length < 8
    · simp only [if_pos hlen, show format.need = 8 from rfl, accept, receive, hidle]
    · simp only [if_neg hlen, show format.need = 8 from rfl]
      match hrx : n.rx with
      | sig0 :: sig1 :: size :: rest =>
        simp only [FrameFormat.header, show format.sig0 = 0x42 from rfl,
          show format.sig1 = 0x53 from rfl, show format.size = UInt8.toNat from rfl,
          show format.maxSize = 32 from rfl, show format.minSize = 8 from rfl]
        split_ifs with h0 h1 h2
        · simp only [accept]
        · simp only [accept]
        · simp only [accept]
        · rw [readBody_eq]
          rfl
      | [] => simp [hrx] at hlen
      | [_] => simp [hrx] at hlen
      | [_, _] => simp [hrx] at hlen
  · rw [if_neg hidle, if_neg (show ¬n.reader.pending = 0 from hidle), readBody_eq]
    rfl

end Network

end Alko.Arduino
