import Alko.Foundation.FrameParse
import Alko.System.Delivery

/-! The way of an answer: the machine writes the id of a request into the frame, and the daemon
looks the reply up by the id it reads there. -/

namespace Alko.Alkod.AlkoManager

open Foundation
open Arduino (Datagram)
open Arduino.Datagram (hiByte loByte ofBytes)

def handed (events : List ManagerEvent) : List (ℕ × List UInt8) :=
  events.filterMap fun
    | .setData reply datagram => some (reply, datagram)
    | _ => none

def idAs (signed : Bool) (datagram : List UInt8) : UInt16 :=
  decodeId signed (datagram.getD 3 0) (datagram.getD 4 0)

theorem handed_dispatchAs (signed : Bool) (datagram : List UInt8) (m : AlkoManager) :
    handed (m.dispatchAs signed datagram).1 =
      (((m.ponged datagram).requests (idAs signed datagram)).map fun reply =>
        (reply, datagram)).toList := by
  rw [dispatchAs_fst, idAs]
  cases isPing datagram <;>
    cases (m.ponged datagram).requests
      (decodeId signed (datagram.getD 3 0) (datagram.getD 4 0)) <;> rfl

def sentFrame (dgr : Datagram) (h : dgr.data.length ≤ 56) : format.Frame where
  sizeLetter := UInt8.ofNat (8 + dgr.data.length)
  body := [hiByte dgr.id, loByte dgr.id, hiByte dgr.checksum, loByte dgr.checksum, dgr.command] ++
    dgr.data
  size_eq := by
    simp only [show format.size = UInt8.toNat from rfl, UInt8.toNat_ofNat', List.length_append,
      List.length_cons, List.length_nil]
    omega
  minSize_le := by
    simp only [show format.minSize = 8 from rfl, List.length_append, List.length_cons,
      List.length_nil]
    omega
  le_maxSize := by
    simp only [show format.maxSize = 64 from rfl, List.length_append, List.length_cons,
      List.length_nil]
    omega

theorem letters_sentFrame (dgr : Datagram) (h : dgr.data.length ≤ 56) :
    (sentFrame dgr h).letters = dgr.toBytes := rfl

theorem slotReadyReadAs_sent (signed : Bool) {dgr : Datagram} (h : dgr.data.length ≤ 56)
    {m : AlkoManager} {rest : List UInt8} (hholds : format.Holds m.reader (dgr.toBytes ++ rest)) :
    handed (m.slotReadyReadAs signed).1 =
      (((m.ponged dgr.toBytes).requests (idAs signed dgr.toBytes)).map fun reply =>
        (reply, dgr.toBytes)).toList := by
  have hlooks : m.reader.pending = 0 → format.need ≤ m.reader.buffer.length := by
    intro hidle
    have hlen := hholds.length_eq
    rw [FrameFormat.arrived, if_pos hidle, List.length_append] at hlen
    rw [← hlen, ← letters_sentFrame dgr h, FrameFormat.Frame.length_letters]
    exact (Nat.le_add_left 3 _).trans (Nat.le_add_right _ _)
  have hpoll := FrameFormat.poll_frame (sentFrame dgr h) hholds hlooks (List.append_nil _)
  have hletters : 0x42 :: 0x53 :: UInt8.ofNat ((sentFrame dgr h).body.length + 3) ::
      (sentFrame dgr h).body = dgr.toBytes := by
    rw [sizeLetter_eq]
    rfl
  rw [slotReadyReadAs_eq, hpoll, acceptAs]
  simp only
  rw [hletters, handed_dispatchAs, ponged_withReader]
  rfl

def Routes (signed : Bool) (id : UInt16) (dgr : Datagram) : Prop :=
  idAs signed (dgr.setId id).updateChecksum.toBytes = id ∧
    (dgr.data.length ≤ 56 → ∀ (m : AlkoManager) (rest : List UInt8),
      format.Holds m.reader ((dgr.setId id).updateChecksum.toBytes ++ rest) →
      handed (m.slotReadyReadAs signed).1 =
        (((m.ponged (dgr.setId id).updateChecksum.toBytes).requests id).map fun reply =>
          (reply, (dgr.setId id).updateChecksum.toBytes)).toList)

/-- Answers find their replies exactly if `char` is unsigned or the low byte of the id is below
128. -/
theorem reply_routing_iff (signed : Bool) (id : UInt16) (dgr : Datagram) :
    Routes signed id dgr ↔ signed = false ∨ id.toNat % 256 < 128 := by
  have hdecode : idAs signed (dgr.setId id).updateChecksum.toBytes = id ↔
      signed = false ∨ id.toNat % 256 < 128 := by
    have hiff := decodeId_eq_iff signed (hiByte id) (loByte id)
    rwa [Datagram.ofBytes_hiByte_loByte, Datagram.toNat_loByte] at hiff
  rw [← hdecode]
  refine ⟨fun h => h.1, fun h => ⟨h, fun hsize m rest hholds => ?_⟩⟩
  have hfits : (dgr.setId id).updateChecksum.data.length ≤ 56 := hsize
  rw [slotReadyReadAs_sent signed hfits hholds, h]

theorem answer_misrouted :
    2 ≤ (130 : UInt16).toNat ∧ ¬Routes true 130 ((Datagram.new 0).setCommand .ready) :=
  ⟨by decide, fun h => absurd h.1 (by decide)⟩

end Alko.Alkod.AlkoManager
