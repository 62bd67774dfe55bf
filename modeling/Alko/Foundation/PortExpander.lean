import Alko.Foundation.Bits

/-! Port expanders on a byte bus, after the chips' data sheet: registers behind an address that each
byte moves on, and pins that are driven from a latch or read. The addresses are those of IOCON.BANK
clear, and what is proved of the chips' users asks for IOCON.BANK and IOCON.SEQOP to be clear. -/

namespace Alko.Foundation

inductive PortRegister
  | iodir | ipol | gpinten | defval | intcon | iocon | gppu | intf | intcap | gpio | olat
  deriving DecidableEq, Repr

def PortRegister.numbered : ℕ → PortRegister
  | 0 => iodir | 1 => ipol | 2 => gpinten | 3 => defval | 4 => intcon | 5 => iocon | 6 => gppu
  | 7 => intf | 8 => intcap | 9 => gpio | _ => olat

/-- What the registers hold, one of each kind for each port of eight pins. -/
abbrev PortRegisters := PortRegister → ℕ → BitVec 8

namespace PortRegisters

def set (r : PortRegister) (port : ℕ) (v : BitVec 8) (regs : PortRegisters) : PortRegisters :=
  fun r' port' => if r' = r ∧ port' = port then v else regs r' port'

@[simp] theorem set_self (r : PortRegister) (port : ℕ) (v : BitVec 8) (regs : PortRegisters) :
    regs.set r port v r port = v := if_pos ⟨rfl, rfl⟩

theorem set_of_ne {r r' : PortRegister} {port port' : ℕ} (h : r' ≠ r ∨ port' ≠ port)
    (v : BitVec 8) (regs : PortRegisters) : regs.set r port v r' port' = regs r' port' :=
  if_neg fun hsame => h.elim (· hsame.1) (· hsame.2)

/-- A byte for the pins goes to their latch; the interrupt flags are not for writing. -/
def store (r : PortRegister) (port : ℕ) (v : BitVec 8) (regs : PortRegisters) : PortRegisters :=
  match r with
  | .gpio => regs.set .olat port v
  | .intf => regs
  | .intcap => regs
  | r => regs.set r port v

theorem store_of_ne {r r' : PortRegister} (h : r ≠ .gpio) (h' : r' ≠ r) (port : ℕ) (v : BitVec 8)
    (regs : PortRegisters) : regs.store r port v r' = regs r' := by
  funext port'
  cases r with
  | gpio => exact absurd rfl h
  | intf => rfl
  | intcap => rfl
  | _ => exact set_of_ne (.inl h') v regs

/-- A latch changes with its pins, and any other register when it is written. -/
theorem store_of_ne_olat {r r' : PortRegister} (h : r' ≠ r) (h' : r' ≠ .olat) (port : ℕ)
    (v : BitVec 8) (regs : PortRegisters) : regs.store r port v r' = regs r' := by
  funext port'
  cases r with
  | gpio => exact set_of_ne (.inl h') v regs
  | intf => rfl
  | intcap => rfl
  | _ => exact set_of_ne (.inl h) v regs

/-- IOCON.SEQOP and IOCON.BANK are clear: a byte moves the address on, and the addresses go through
the ports of one kind of register before they come to the next. -/
def Sequential (regs : PortRegisters) : Prop :=
  ∀ port, (regs .iocon port).getLsbD 5 = false ∧ (regs .iocon port).getLsbD 7 = false

theorem Sequential.of_iocon {regs regs' : PortRegisters} (h : regs.Sequential)
    (heq : regs' .iocon = regs .iocon) : regs'.Sequential := by
  intro port
  rw [heq]
  exact h port

theorem Sequential.store {regs : PortRegisters} (h : regs.Sequential) {r : PortRegister}
    {v : BitVec 8} (hv : r = .iocon → v.getLsbD 5 = false ∧ v.getLsbD 7 = false) (port : ℕ) :
    (regs.store r port v).Sequential := by
  intro port'
  cases r with
  | iocon =>
    rw [show regs.store .iocon port v = regs.set .iocon port v from rfl, set]
    split
    · exact hv rfl
    · exact h port'
  | _ => exact h port'

/-- What is on the pins of a port: the latch on those that are outputs, and on the others what comes
from outside. -/
def pins (port : ℕ) (outside : BitVec 8) (regs : PortRegisters) : BitVec 8 :=
  (regs .olat port &&& ~~~regs .iodir port) ||| (outside &&& regs .iodir port)

theorem getLsbD_pins (port : ℕ) (outside : BitVec 8) (regs : PortRegisters) {p : ℕ} (hp : p < 8) :
    (regs.pins port outside).getLsbD p =
      if (regs .iodir port).getLsbD p then outside.getLsbD p
      else (regs .olat port).getLsbD p := by
  simp only [pins, BitVec.getLsbD_or, BitVec.getLsbD_and, BitVec.getLsbD_not, hp, decide_true,
    Bool.true_and]
  cases (regs .iodir port).getLsbD p with
  | false => simp only [Bool.not_false, Bool.and_true, Bool.and_false, Bool.or_false,
      Bool.false_eq_true, if_false]
  | true => simp only [Bool.not_true, Bool.and_false, Bool.and_true, Bool.false_or, if_true]

def bit (r : PortRegister) (p : ℕ) (regs : PortRegisters) : Bool :=
  (regs r (p / 8)).getLsbD (p % 8)

theorem bit_set_self (r : PortRegister) (p p' : ℕ) (b : Bool) (regs : PortRegisters) :
    (regs.set r (p / 8) (writeBit (p % 8) b (regs r (p / 8)))).bit r p' =
      if p' = p then b else regs.bit r p' := by
  by_cases hport : p' / 8 = p / 8
  · rw [bit, hport, set_self, getLsbD_writeBit _ _ _ _ (Nat.mod_lt _ (by decide)), bit, hport]
    exact if_congr (by omega) rfl rfl
  · rw [bit, set_of_ne (.inr hport), if_neg (fun hp => hport (by rw [hp])), bit]

theorem bit_set_of_ne {r r' : PortRegister} (h : r' ≠ r) (port p : ℕ) (v : BitVec 8)
    (regs : PortRegisters) : (regs.set r port v).bit r' p = regs.bit r' p := by
  rw [bit, set_of_ne (.inl h), bit]

theorem bit_pins (outside : ℕ → BitVec 8) (p : ℕ) (regs : PortRegisters) :
    (regs.pins (p / 8) (outside (p / 8)) ^^^ regs .ipol (p / 8)).getLsbD (p % 8) =
      ((if regs.bit .iodir p then (outside (p / 8)).getLsbD (p % 8) else regs.bit .olat p) ^^
        regs.bit .ipol p) := by
  rw [BitVec.getLsbD_xor, getLsbD_pins _ _ _ (Nat.mod_lt _ (by decide))]
  rfl

end PortRegisters

structure PortExpander (ports : ℕ) where
  regs : PortRegisters
  pointer : ℕ
  -- The level from outside on the pins of a port, at each reading of them.
  outside : ℕ → ℕ → BitVec 8
  reads : ℕ
  -- The registers after each byte written; no step reads it.
  history : List PortRegisters

namespace PortExpander

variable {ports : ℕ}

/-- Where IOCON.BANK is clear; with it set, which nobody does here, each port has addresses of its
own. -/
def pointsTo (x : PortExpander ports) : PortRegister := .numbered (x.pointer / ports)

def port (x : PortExpander ports) : ℕ := x.pointer % ports

/-- With IOCON.SEQOP set the address stays with one kind of register. -/
def next (x : PortExpander ports) : ℕ :=
  if (x.regs .iocon 0).getLsbD 5 then x.pointer / ports * ports + (x.pointer + 1) % ports
  else (x.pointer + 1) % (11 * ports)

theorem next_of_sequential {x : PortExpander ports} (h : x.regs.Sequential) :
    x.next = (x.pointer + 1) % (11 * ports) := by
  rw [next, (h 0).1, if_neg Bool.false_ne_true]

def writeByte (x : PortExpander ports) (v : BitVec 8) : PortExpander ports :=
  let regs := x.regs.store x.pointsTo x.port v
  { x with regs := regs, pointer := x.next, history := x.history ++ [regs] }

def readByte (x : PortExpander ports) : BitVec 8 × PortExpander ports :=
  match x.pointsTo with
  | .gpio =>
    (x.regs.pins x.port (x.outside x.reads x.port) ^^^ x.regs .ipol x.port,
      { x with pointer := x.next, reads := x.reads + 1 })
  | r => (x.regs r x.port, { x with pointer := x.next })

/-- One transfer to the expander: the first byte is the address of the first register. -/
def write (bytes : List (BitVec 8)) (x : PortExpander ports) : PortExpander ports :=
  match bytes with
  | [] => x
  | address :: bytes => bytes.foldl writeByte { x with pointer := address.toNat }

def request : ℕ → PortExpander ports → List (BitVec 8) × PortExpander ports
  | 0, x => ([], x)
  | n + 1, x =>
    let first := x.readByte
    let rest := request n first.2
    (first.1 :: rest.1, rest.2)

def readAt (address : BitVec 8) (x : PortExpander ports) : BitVec 8 × PortExpander ports :=
  (x.write [address]).readByte

def writeAt (address v : BitVec 8) (x : PortExpander ports) : PortExpander ports :=
  x.write [address, v]

def setPin (source target : BitVec 8) (p : ℕ) (b : Bool) (x : PortExpander ports) :
    PortExpander ports :=
  let r := x.readAt source
  r.2.writeAt target (writeBit p b r.1)

structure IsAt (ports : ℕ) (address : BitVec 8) (r : PortRegister) (port : ℕ) : Prop where
  register : .numbered (address.toNat / ports) = r
  port : address.toNat % ports = port

section

variable {address : BitVec 8} {r : PortRegister} {q : ℕ} (v : BitVec 8) (x : PortExpander ports)

theorem readAt_gpio (h : IsAt ports address .gpio q) :
    (x.readAt address).1 = x.regs.pins q (x.outside x.reads q) ^^^ x.regs .ipol q ∧
      (x.readAt address).2.reads = x.reads + 1 := by
  have hpoints : (x.write [address]).pointsTo = .gpio := h.register
  have hport : (x.write [address]).port = q := h.port
  rw [readAt, readByte, hpoints, hport]
  exact ⟨rfl, rfl⟩

theorem readAt_of_ne (h : IsAt ports address r q) (hne : r ≠ .gpio) :
    (x.readAt address).1 = x.regs r q ∧ (x.readAt address).2.reads = x.reads := by
  have hpoints : (x.write [address]).pointsTo = r := h.register
  have hport : (x.write [address]).port = q := h.port
  rw [readAt, readByte, hpoints, hport]
  cases r with
  | gpio => exact absurd rfl hne
  | _ => exact ⟨rfl, rfl⟩

theorem readAt_frame (address : BitVec 8) :
    (x.readAt address).2.regs = x.regs ∧ (x.readAt address).2.outside = x.outside ∧
      (x.readAt address).2.history = x.history := by
  rw [readAt, readByte]
  split <;> exact ⟨rfl, rfl, rfl⟩

theorem regs_writeAt (h : IsAt ports address r q) :
    (x.writeAt address v).regs = x.regs.store r q v := by
  obtain ⟨rfl, rfl⟩ := h
  rfl

theorem writeAt_frame (address : BitVec 8) :
    (x.writeAt address v).outside = x.outside ∧ (x.writeAt address v).reads = x.reads ∧
      (x.writeAt address v).history = x.history ++ [(x.writeAt address v).regs] :=
  ⟨rfl, rfl, rfl⟩

structure Wrote (x y : PortExpander ports) (after : PortRegisters) (n : ℕ) : Prop where
  regs : y.regs = after
  outside : y.outside = x.outside
  reads : y.reads = x.reads + n
  history : y.history = x.history ++ [after]

theorem wrote_writeAt (h : IsAt ports address r q) :
    Wrote x (x.writeAt address v) (x.regs.store r q v) 0 :=
  ⟨regs_writeAt v x h, rfl, rfl, by rw [(writeAt_frame v x address).2.2, regs_writeAt v x h]⟩

end

section

variable {source target : BitVec 8} {r : PortRegister} {q : ℕ} (p : ℕ) (b : Bool)
  (x : PortExpander ports)

theorem wrote_setPin_gpio (hsource : IsAt ports source .gpio q)
    (htarget : IsAt ports target r q) :
    Wrote x (x.setPin source target p b)
      (x.regs.store r q
        (writeBit p b (x.regs.pins q (x.outside x.reads q) ^^^ x.regs .ipol q))) 1 := by
  obtain ⟨hvalue, hreads⟩ := readAt_gpio x hsource
  obtain ⟨hregs, houtside, hhistory⟩ := readAt_frame x source
  have hwrote := wrote_writeAt (writeBit p b (x.readAt source).1) (x.readAt source).2 htarget
  rw [hregs, hvalue] at hwrote
  refine ⟨?_, hwrote.outside.trans houtside, hwrote.reads.trans hreads, ?_⟩
  · rw [setPin, hvalue]
    exact hwrote.regs
  · rw [setPin, hvalue, ← hhistory]
    exact hwrote.history

theorem wrote_setPin {r' : PortRegister} (hsource : IsAt ports source r' q) (hne : r' ≠ .gpio)
    (htarget : IsAt ports target r q) :
    Wrote x (x.setPin source target p b) (x.regs.store r q (writeBit p b (x.regs r' q))) 0 := by
  obtain ⟨hvalue, hreads⟩ := readAt_of_ne x hsource hne
  obtain ⟨hregs, houtside, hhistory⟩ := readAt_frame x source
  have hwrote := wrote_writeAt (writeBit p b (x.readAt source).1) (x.readAt source).2 htarget
  rw [hregs, hvalue] at hwrote
  refine ⟨?_, hwrote.outside.trans houtside, hwrote.reads.trans hreads, ?_⟩
  · rw [setPin, hvalue]
    exact hwrote.regs
  · rw [setPin, hvalue, ← hhistory]
    exact hwrote.history

end

end PortExpander

end Alko.Foundation
