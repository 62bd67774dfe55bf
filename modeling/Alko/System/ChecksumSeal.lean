import Alko.Alkod.AlkoManager

/-! The checksum of a whole frame at the level of its bytes: what either end computes, and that
storing it seals the frame. -/

namespace Alko

open Foundation
open Arduino.Datagram (hiByte loByte)

namespace Arduino.Datagram

/-- `m_dptr[3] - 8`; the buffer is taken from `m_dptr[1]` on. -/
def bufferDataSize (buffer : List UInt8) : UInt8 := buffer.getD 2 0 - 8

/-- `generateChecksum`, over as many bytes as the size byte asks for. -/
def bufferChecksum (buffer : List UInt8) : UInt16 :=
  let length := 8 + (bufferDataSize buffer).toNat
  (~~~ foldCarry (sumBuffer length buffer 0)).toUInt16

def storeChecksum (sum : UInt16) (buffer : List UInt8) : List UInt8 :=
  (buffer.set 5 (hiByte sum)).set 6 (loByte sum)

def updateBuffer (buffer : List UInt8) : List UInt8 :=
  let zeroed := storeChecksum 0 buffer
  storeChecksum (bufferChecksum zeroed) zeroed

end Arduino.Datagram

namespace Alkod

def makeChecksumOf (buffer : List UInt8) (count : ℕ) : UInt16 :=
  (~~~ foldCarry (sumBuffer count buffer 0)).toUInt16

theorem makeChecksumOf_length (buffer : List UInt8) :
    makeChecksumOf buffer buffer.length = makeChecksum buffer := by
  rw [makeChecksumOf, sumBuffer_eq, List.take_length]
  rfl

end Alkod

namespace System

open Arduino.Datagram Alkod

/-- A whole frame, its size byte the length as far as a byte can tell. -/
structure FrameBytes where
  bytes : List UInt8
  eight_le : 8 ≤ bytes.length
  le_max : bytes.length ≤ 263
  signature : bytes.take 2 = [0x42, 0x53]
  size : bytes[2]? = some (UInt8.ofNat bytes.length)

namespace FrameBytes

theorem bufferLength (f : FrameBytes) : 8 + (bufferDataSize f.bytes).toNat = f.bytes.length := by
  have hmin := f.eight_le
  have hmax := f.le_max
  have height : (8 : UInt8).toNat = 8 := rfl
  rw [bufferDataSize, List.getD_eq_getElem?_getD, f.size, Option.getD_some, UInt8.toNat_sub,
    UInt8.toNat_ofNat', height]
  omega

theorem bufferChecksum_eq (f : FrameBytes) : bufferChecksum f.bytes = makeChecksum f.bytes := by
  rw [← makeChecksumOf_length, bufferChecksum, f.bufferLength, makeChecksumOf]

def store (sum : UInt16) (f : FrameBytes) : FrameBytes where
  bytes := storeChecksum sum f.bytes
  eight_le := by simpa [storeChecksum] using f.eight_le
  le_max := by simpa [storeChecksum] using f.le_max
  signature := by simpa [storeChecksum, List.take_set_of_le] using f.signature
  size := by simpa [storeChecksum] using f.size

theorem exists_field (f : FrameBytes) :
    ∃ before a b behind, f.bytes = before ++ a :: b :: behind ∧ before.length = 5 := by
  have hmin := f.eight_le
  refine ⟨f.bytes.take 5, f.bytes[5], f.bytes[6], f.bytes.drop 7, ?_, ?_⟩
  · rw [List.getElem_cons_drop, List.getElem_cons_drop, List.take_append_drop]
  · rw [List.length_take_of_le (by omega)]

theorem storeChecksum_split {before : List UInt8} (h : before.length = 5) (a b : UInt8)
    (behind : List UInt8) (sum : UInt16) :
    storeChecksum sum (before ++ a :: b :: behind) =
      before ++ hiByte sum :: loByte sum :: behind := by
  rw [storeChecksum, List.set_append_right _ _ h.le, h, List.set_append_right _ _ (by omega), h]
  rfl

theorem toNat_field (sum : UInt16) : 256 * (hiByte sum).toNat + (loByte sum).toNat = sum.toNat := by
  rw [toNat_hiByte, toNat_loByte]
  omega

theorem makeChecksum_stored (f : FrameBytes) :
    makeChecksum (storeChecksum (makeChecksum (storeChecksum 0 f.bytes)) f.bytes) = 0 := by
  obtain ⟨before, a, b, behind, hbytes, hbefore⟩ := f.exists_field
  have hmax := f.le_max
  have hodd : before.length % 2 = 1 := by rw [hbefore]
  have hzeroed : storeChecksum 0 f.bytes = before ++ 0 :: 0 :: behind := by
    rw [hbytes, storeChecksum_split hbefore]
    rfl
  have hlen : (before ++ (0 : UInt8) :: 0 :: behind).length ≤ 65536 := by
    rw [hbytes] at hmax
    simp only [List.length_append, List.length_cons] at hmax ⊢
    omega
  rw [hzeroed, hbytes, storeChecksum_split hbefore]
  exact checksum_sealed hodd hlen (toNat_field _)

theorem storeChecksum_storeChecksum (sum first : UInt16) (buffer : List UInt8) :
    storeChecksum sum (storeChecksum first buffer) = storeChecksum sum buffer := by
  simp only [storeChecksum]
  rw [List.set_comm (loByte first) (hiByte sum) (by decide), List.set_set, List.set_set]

/-- Both ends compute the same checksum of every frame, in a bounded number of rounds and without a
wrap, and storing it makes the frame's own checksum zero. -/
theorem seal_checksum (f : FrameBytes) :
    let zeroed := storeChecksum 0 f.bytes
    let whole := storeChecksum (makeChecksum zeroed) zeroed
    makeChecksum whole = 0 ∧ updateBuffer f.bytes = whole ∧
      bufferChecksum f.bytes = makeChecksum f.bytes ∧
      (∀ count, (sumBuffer count f.bytes 0).toNat = wordSum (f.bytes.take count)) ∧
      ∃ rounds ≤ 2,
        foldStep^[rounds] (sumBuffer f.bytes.length f.bytes 0) >>> (16 : UInt32) = 0 ∧
          foldCarry (sumBuffer f.bytes.length f.bytes 0) =
            foldStep^[rounds] (sumBuffer f.bytes.length f.bytes 0) := by
  have hmax := f.le_max
  refine ⟨?_, ?_, f.bufferChecksum_eq, fun count => toNat_sumBuffer (by omega), foldCarry_rounds _⟩
  · rw [storeChecksum_storeChecksum]
    exact f.makeChecksum_stored
  · have hzeroed : bufferChecksum (storeChecksum 0 f.bytes) = makeChecksum (storeChecksum 0 f.bytes) :=
      (f.store 0).bufferChecksum_eq
    rw [updateBuffer, hzeroed]

theorem length_toBytes (d : Arduino.Datagram) : d.toBytes.length = 8 + d.getDataSize := by
  rw [toBytes, List.length_append]
  rfl

def ofDatagram (d : Arduino.Datagram) (h : d.getDataSize ≤ 255) : FrameBytes where
  bytes := d.toBytes
  eight_le := (length_toBytes d).ge.trans' (Nat.le_add_right 8 _)
  le_max := (length_toBytes d).trans_le (Nat.add_le_add_left h 8)
  signature := rfl
  size := by
    rw [length_toBytes]
    rfl

theorem bufferChecksum_toBytes (d : Arduino.Datagram) (h : d.getDataSize ≤ 255) :
    bufferChecksum d.toBytes = d.generateChecksum := (ofDatagram d h).bufferChecksum_eq

/-- So the frames of the model seal themselves as the buffer does. -/
theorem updateBuffer_toBytes (d : Arduino.Datagram) (h : d.getDataSize ≤ 255) :
    updateBuffer d.toBytes = d.updateChecksum.toBytes := by
  have hzeroed : storeChecksum 0 d.toBytes = (d.setChecksum 0).toBytes := rfl
  have hsum := bufferChecksum_toBytes (d.setChecksum 0) h
  rw [updateBuffer, hzeroed, hsum]
  rfl

end FrameBytes

end System

end Alko
