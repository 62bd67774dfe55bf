import Alko.Common.Commands
import Alko.Foundation.OnesComplement

/-! Datagrams: the header fields and data bytes of one serial frame, and its wire form. -/

namespace Alko.Arduino

open Alko.Foundation

structure Datagram where
  id : UInt16
  checksum : UInt16
  command : UInt8
  data : List UInt8
  deriving DecidableEq, Repr

namespace Datagram

def new (dataSize : ℕ) : Datagram := ⟨0, 0, 0, List.replicate dataSize 0⟩

@[simps] def setId (id : UInt16) (d : Datagram) : Datagram := { d with id := id }

@[simps] def setChecksum (sum : UInt16) (d : Datagram) : Datagram := { d with checksum := sum }

@[simps] def setCommand (command : Cmd) (d : Datagram) : Datagram :=
  { d with command := command.toByte }

def getDataSize (d : Datagram) : ℕ := d.data.length

/-- A null pointer when there is no data. -/
def getData (d : Datagram) : Option (List UInt8) := if 0 < d.getDataSize then some d.data else none

/-- Copies at most `dataSize` bytes, and no more than there is room for. -/
@[simps] def setData (data : List UInt8) (dataSize : ℕ) (d : Datagram) : Datagram :=
  let dataSize := if dataSize = 0 then d.getDataSize else dataSize
  let dataSize := min dataSize d.getDataSize
  { d with data := data.take dataSize ++ d.data.drop dataSize }

def hiByte (x : UInt16) : UInt8 := (x >>> (8 : UInt16)).toUInt8

def loByte (x : UInt16) : UInt8 := (x &&& (0x00FF : UInt16)).toUInt8

theorem toNat_hiByte (x : UInt16) : (hiByte x).toNat = x.toNat / 256 := by
  have hx := x.toNat_lt
  simp [hiByte, Nat.shiftRight_eq_div_pow]
  omega

theorem toNat_loByte (x : UInt16) : (loByte x).toNat = x.toNat % 256 := by
  have hand : (x &&& (0x00FF : UInt16)).toNat = x.toNat % 256 := by
    rw [UInt16.toNat_and]
    exact Nat.and_two_pow_sub_one_eq_mod x.toNat 8
  rw [loByte, UInt16.toNat_toUInt8, hand]
  exact Nat.mod_mod _ _

def ofBytes (hi lo : UInt8) : UInt16 := (hi.toUInt16 <<< (8 : UInt16)) + lo.toUInt16

theorem toNat_ofBytes (hi lo : UInt8) : (ofBytes hi lo).toNat = 256 * hi.toNat + lo.toNat := by
  have hhi := hi.toNat_lt
  have hlo := lo.toNat_lt
  simp [ofBytes, Nat.shiftLeft_eq]
  omega

theorem ofBytes_hiByte_loByte (x : UInt16) : ofBytes (hiByte x) (loByte x) = x := by
  rw [← UInt16.toNat_inj, toNat_ofBytes, toNat_hiByte, toNat_loByte]
  omega

/-- The buffer behind `getDatagramPtr`, the reference counter left out. -/
def toBytes (d : Datagram) : List UInt8 :=
  [0x42, 0x53, UInt8.ofNat (8 + d.getDataSize), hiByte d.id, loByte d.id, hiByte d.checksum,
    loByte d.checksum, d.command] ++ d.data

def generateChecksum (d : Datagram) : UInt16 := Foundation.checksum d.toBytes

def checksumIsValid (d : Datagram) : Bool := d.generateChecksum = 0

@[simps] def updateChecksum (d : Datagram) : Datagram :=
  { d with checksum := (d.setChecksum 0).generateChecksum }

end Datagram

end Alko.Arduino
