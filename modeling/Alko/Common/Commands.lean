import Mathlib.Tactic

/-! The serial commands and machine states shared by the daemon and the machine.
The command bytes that nothing sends and nothing handles (`VND_COL_n`, `CLR_TEXT_n`) are left
out: they name no command and fall to the handler's default. -/

namespace Alko

inductive Cmd
  | ping | pong | busy | ready | service | getConfig | setConfig | getState | setState
  | homing | homeAbort | homeBegin | checkAvail | drinkAvail | empty | fetch
  | setText0 | setText1 | setText2 | setText3 | clrText | showInfo
  | lcdRgb | lcdReset | lcdRedCycle | lcdUpdate | unknownCmd | chksumInvalid
  deriving DecidableEq, Repr

namespace Cmd

def toByte : Cmd → UInt8
  | ping => 0x00 | pong => 0x01 | busy => 0x02 | ready => 0x03 | service => 0x04
  | getConfig => 0x05 | setConfig => 0x06 | getState => 0x07 | setState => 0x08
  | homing => 0x09 | homeAbort => 0x0A | homeBegin => 0x0B | checkAvail => 0x0C
  | drinkAvail => 0x0D | empty => 0x0E | fetch => 0x0F
  | setText0 => 0x40 | setText1 => 0x41 | setText2 => 0x42 | setText3 => 0x43
  | clrText => 0x48 | showInfo => 0x49 | lcdRgb => 0x4C | lcdReset => 0x4D
  | lcdRedCycle => 0x4E | lcdUpdate => 0x4F | unknownCmd => 0xFE | chksumInvalid => 0xFF

def all : List Cmd :=
  [ping, pong, busy, ready, service, getConfig, setConfig, getState, setState, homing,
    homeAbort, homeBegin, checkAvail, drinkAvail, empty, fetch, setText0, setText1, setText2,
    setText3, clrText, showInfo, lcdRgb, lcdReset, lcdRedCycle, lcdUpdate, unknownCmd,
    chksumInvalid]

def ofByte? (b : UInt8) : Option Cmd := all.find? fun c => c.toByte = b

@[simp] theorem ofByte?_toByte (c : Cmd) : ofByte? c.toByte = some c := by
  cases c <;> decide

theorem toByte_of_ofByte? {b : UInt8} {c : Cmd} (h : ofByte? b = some c) : c.toByte = b := by
  simpa using List.find?_some h

theorem ofByte?_eq_some {b : UInt8} {c : Cmd} : ofByte? b = some c ↔ b = c.toByte :=
  ⟨fun h => (toByte_of_ofByte? h).symm, fun h => h ▸ ofByte?_toByte c⟩

theorem toByte_injective : Function.Injective toByte := by
  intro a b h
  have hb := ofByte?_toByte b
  rw [← h, ofByte?_toByte] at hb
  exact Option.some.inj hb

@[simp] theorem toByte_inj {a b : Cmd} : a.toByte = b.toByte ↔ a = b := toByte_injective.eq_iff

end Cmd

inductive State
  | service | prepareReady | ready | readyWait | deploy | deployError
  | prepareAutoHome | autoHome | info
  deriving DecidableEq, Repr

namespace State

def toByte : State → UInt8
  | service => 0x01 | prepareReady => 0x02 | ready => 0x03 | readyWait => 0x04 | deploy => 0x05
  | deployError => 0x06 | prepareAutoHome => 0x07 | autoHome => 0x08 | info => 0x09

def all : List State :=
  [service, prepareReady, ready, readyWait, deploy, deployError, prepareAutoHome, autoHome, info]

def ofByte? (b : UInt8) : Option State := all.find? fun s => s.toByte = b

@[simp] theorem ofByte?_toByte (s : State) : ofByte? s.toByte = some s := by
  cases s <;> decide

theorem ofByte?_eq_some {b : UInt8} {s : State} : ofByte? b = some s ↔ b = s.toByte :=
  ⟨fun h => (by simpa using List.find?_some h : s.toByte = b).symm, fun h => h ▸ ofByte?_toByte s⟩

end State

end Alko
