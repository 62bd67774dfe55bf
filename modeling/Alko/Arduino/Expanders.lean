import Alko.Arduino.Narco
import Alko.Foundation.PortExpander

/-! The driver of the sixteen-pin expanders, from its calls down to the registers: each call sets or
reads the one pin it names. -/

namespace Alko.Arduino

open Foundation

/-! `Adafruit_MCP23017`. -/

abbrev AdafruitMcp23017 := PortExpander 2

namespace AdafruitMcp23017

def iodira : BitVec 8 := 0x00
def iodirb : BitVec 8 := 0x01
def gpintena : BitVec 8 := 0x04
def gpintenb : BitVec 8 := 0x05
def iocona : BitVec 8 := 0x0A
def gppua : BitVec 8 := 0x0C
def gppub : BitVec 8 := 0x0D
def gpioa : BitVec 8 := 0x12
def gpiob : BitVec 8 := 0x13
def olata : BitVec 8 := 0x14
def olatb : BitVec 8 := 0x15

def begin (m : AdafruitMcp23017) : AdafruitMcp23017 :=
  (m.writeAt iodira 0xFF).writeAt iodirb 0xFF

/-- The addresses that one kind of register has for either port: where the bit of a pin is read
from, and where it is written to. -/
structure Ports where
  sourcea : BitVec 8
  sourceb : BitVec 8
  targeta : BitVec 8
  targetb : BitVec 8

def setPort (ports : Ports) (p : ℕ) (b : Bool) (m : AdafruitMcp23017) : AdafruitMcp23017 :=
  if 15 < p then m
  else if p < 8 then m.setPin ports.sourcea ports.targeta p b
  else m.setPin ports.sourceb ports.targetb (p - 8) b

def directions : Ports := ⟨iodira, iodirb, iodira, iodirb⟩
def latches : Ports := ⟨olata, olatb, gpioa, gpiob⟩
def pullUps : Ports := ⟨gppua, gppub, gppua, gppub⟩

def pinMode (p : ℕ) (input : Bool) (m : AdafruitMcp23017) : AdafruitMcp23017 :=
  m.setPort directions p input

def digitalWrite (p : ℕ) (high : Bool) (m : AdafruitMcp23017) : AdafruitMcp23017 :=
  m.setPort latches p high

def pullUp (p : ℕ) (high : Bool) (m : AdafruitMcp23017) : AdafruitMcp23017 :=
  m.setPort pullUps p high

def digitalRead (p : ℕ) (m : AdafruitMcp23017) : Bool × AdafruitMcp23017 :=
  if 15 < p then (false, m)
  else
    let r := m.readAt (if p < 8 then gpioa else gpiob)
    ((r.1 >>> (if p < 8 then p else p - 8)).getLsbD 0, r.2)

/-- The pins behind the registers; a level from outside comes through the polarity register. -/
def view (m : AdafruitMcp23017) : Mcp23017 where
  olat := m.regs .olat 1 ++ m.regs .olat 0
  level k p := (m.outside k (p / 8)).getLsbD (p % 8) ^^ m.regs.bit .ipol p
  reads := m.reads

theorem getLsbD_view_olat (m : AdafruitMcp23017) {p : ℕ} (hp : p ≤ 15) :
    m.view.olat.getLsbD p = m.regs.bit .olat p := by
  rw [view, PortRegisters.bit, BitVec.getLsbD_append]
  split
  · next h => rw [show p / 8 = 0 by omega, show p % 8 = p by omega]
  · next h => rw [show p / 8 = 1 by omega, show p % 8 = p - 8 by omega]

variable {m : AdafruitMcp23017} {p : ℕ}

structure SetsPin (r : PortRegister) (p : ℕ) (b : Bool) (m m' : AdafruitMcp23017) : Prop where
  regs : m'.regs = m.regs.set r (p / 8) (writeBit (p % 8) b (m.regs r (p / 8)))
  outside : m'.outside = m.outside
  reads : m'.reads = m.reads
  history : m'.history = m.history ++ [m'.regs]

theorem SetsPin.other {r k : PortRegister} {b : Bool} {m' : AdafruitMcp23017}
    (h : SetsPin r p b m m') (hk : r ≠ k) : m'.regs k = m.regs k := by
  funext port
  rw [h.regs, PortRegisters.set_of_ne (.inl (Ne.symm hk))]

structure Ports.Set (ports : Ports) (r r' : PortRegister) : Prop where
  sourcea : PortExpander.IsAt 2 ports.sourcea r 0
  sourceb : PortExpander.IsAt 2 ports.sourceb r 1
  targeta : PortExpander.IsAt 2 ports.targeta r' 0
  targetb : PortExpander.IsAt 2 ports.targetb r' 1
  readable : r ≠ .gpio
  store : ∀ port v (regs : PortRegisters), regs.store r' port v = regs.set r port v

theorem setsPin_setPort {ports : Ports} {r r' : PortRegister} (h : ports.Set r r') (hp : p ≤ 15)
    (b : Bool) (m : AdafruitMcp23017) : SetsPin r p b m (m.setPort ports p b) := by
  rw [setPort, if_neg (by omega)]
  split
  · next hlow =>
    have hwrote := PortExpander.wrote_setPin p b m h.sourcea h.readable h.targeta
    rw [h.store] at hwrote
    refine ⟨?_, hwrote.outside, hwrote.reads, by rw [hwrote.history, hwrote.regs]⟩
    rw [hwrote.regs, show p / 8 = 0 by omega, show p % 8 = p by omega]
  · next hhigh =>
    have hwrote := PortExpander.wrote_setPin (p - 8) b m h.sourceb h.readable h.targetb
    rw [h.store] at hwrote
    refine ⟨?_, hwrote.outside, hwrote.reads, by rw [hwrote.history, hwrote.regs]⟩
    rw [hwrote.regs, show p / 8 = 1 by omega, show p % 8 = p - 8 by omega]

theorem set_directions : directions.Set .iodir .iodir :=
  ⟨⟨rfl, rfl⟩, ⟨rfl, rfl⟩, ⟨rfl, rfl⟩, ⟨rfl, rfl⟩, by decide, fun _ _ _ => rfl⟩

theorem set_pullUps : pullUps.Set .gppu .gppu :=
  ⟨⟨rfl, rfl⟩, ⟨rfl, rfl⟩, ⟨rfl, rfl⟩, ⟨rfl, rfl⟩, by decide, fun _ _ _ => rfl⟩

theorem set_latches : latches.Set .olat .gpio :=
  ⟨⟨rfl, rfl⟩, ⟨rfl, rfl⟩, ⟨rfl, rfl⟩, ⟨rfl, rfl⟩, by decide, fun _ _ _ => rfl⟩

theorem view_digitalWrite (p : ℕ) (high : Bool) (m : AdafruitMcp23017) :
    (m.digitalWrite p high).view = m.view.digitalWrite p high := by
  by_cases hp : p ≤ 15
  · have h : SetsPin .olat p high m (m.digitalWrite p high) := setsPin_setPort set_latches hp high m
    have hlevel (q : ℕ) : (m.digitalWrite p high).regs.bit .ipol q = m.regs.bit .ipol q := by
      rw [h.regs, PortRegisters.bit_set_of_ne (by decide)]
    have hlatch : (m.digitalWrite p high).view.olat = writeBit p high m.view.olat := by
      refine BitVec.eq_of_getLsbD_eq fun q hq => ?_
      rw [getLsbD_view_olat _ (by omega), h.regs, PortRegisters.bit_set_self,
        getLsbD_writeBit _ _ _ _ (by omega), getLsbD_view_olat _ (by omega)]
    rw [Mcp23017.digitalWrite, if_neg (by omega), ← hlatch]
    simp only [view, h.outside, h.reads, hlevel]
  · rw [Mcp23017.digitalWrite, if_pos (by omega), digitalWrite, setPort, if_pos (by omega)]

theorem view_digitalRead {p : ℕ} {m : AdafruitMcp23017} (h : p ≤ 15 → m.regs.bit .iodir p = true) :
    (m.digitalRead p).1 = (m.view.digitalRead p).1 ∧
      (m.digitalRead p).2.view = (m.view.digitalRead p).2 ∧
      (m.digitalRead p).2.regs = m.regs ∧ (m.digitalRead p).2.history = m.history := by
  rw [digitalRead, Mcp23017.digitalRead]
  split
  · exact ⟨rfl, rfl, rfl, rfl⟩
  · next hp =>
    have hat : PortExpander.IsAt 2 (if p < 8 then gpioa else gpiob) .gpio (p / 8) := by
      split
      · next hlow => exact ⟨rfl, by rw [show p / 8 = 0 by omega]; rfl⟩
      · next hhigh => exact ⟨rfl, by rw [show p / 8 = 1 by omega]; rfl⟩
    obtain ⟨hvalue, hreads⟩ := PortExpander.readAt_gpio m hat
    obtain ⟨hregs, houtside, hhistory⟩ :=
      PortExpander.readAt_frame m (if p < 8 then gpioa else gpiob)
    have hplace : (if p < 8 then p else p - 8) = p % 8 := by
      split
      · omega
      · omega
    refine ⟨?_, ?_, hregs, hhistory⟩
    · simp only [hvalue, hplace, BitVec.getLsbD_ushiftRight, Nat.add_zero]
      rw [PortRegisters.bit_pins (m.outside m.reads), h (by omega), if_pos rfl]
      rfl
    · simp only [view, hregs, houtside, hreads]

/-- What a byte for directions, pull-ups and the like leaves of the registers. -/
structure Spares (regs regs' : PortRegisters) : Prop where
  latch : regs' .olat = regs .olat
  sequential : regs.Sequential → regs'.Sequential

theorem Spares.trans {regs regs' regs'' : PortRegisters} (h : Spares regs regs')
    (h' : Spares regs' regs'') : Spares regs regs'' :=
  ⟨h'.latch.trans h.latch, fun hseq => h'.sequential (h.sequential hseq)⟩

structure Sets (m m' : AdafruitMcp23017) : Prop where
  spares : Spares m.regs m'.regs
  polarity : m'.regs .ipol = m.regs .ipol
  outside : m'.outside = m.outside
  reads : m'.reads = m.reads
  history : ∃ more, m'.history = m.history ++ more ∧ ∀ regs ∈ more, Spares m.regs regs

theorem Sets.refl (m : AdafruitMcp23017) : Sets m m :=
  ⟨⟨rfl, fun hseq => hseq⟩, rfl, rfl, rfl, [], (List.append_nil _).symm,
    fun _ hregs => absurd hregs List.not_mem_nil⟩

theorem Sets.of_byte {m m' : AdafruitMcp23017} (hspares : Spares m.regs m'.regs)
    (hpolarity : m'.regs .ipol = m.regs .ipol) (houtside : m'.outside = m.outside)
    (hreads : m'.reads = m.reads) (hhistory : m'.history = m.history ++ [m'.regs]) : Sets m m' := by
  refine ⟨hspares, hpolarity, houtside, hreads, [m'.regs], hhistory, fun regs hregs => ?_⟩
  rw [List.mem_singleton.mp hregs]
  exact hspares

theorem Sets.trans {m' m'' : AdafruitMcp23017} (h : Sets m m') (h' : Sets m' m'') : Sets m m'' := by
  obtain ⟨more, hmore, hspares⟩ := h.history
  obtain ⟨more', hmore', hspares'⟩ := h'.history
  refine ⟨h.spares.trans h'.spares, h'.polarity.trans h.polarity, h'.outside.trans h.outside,
    h'.reads.trans h.reads, more ++ more', by rw [hmore', hmore, List.append_assoc], ?_⟩
  intro regs hregs
  rcases List.mem_append.mp hregs with hregs | hregs
  · exact hspares regs hregs
  · exact h.spares.trans (hspares' regs hregs)

theorem Sets.foldl {α : Type*} {f : AdafruitMcp23017 → α → AdafruitMcp23017}
    (hf : ∀ m x, Sets m (f m x)) (xs : List α) (m : AdafruitMcp23017) : Sets m (xs.foldl f m) := by
  induction xs generalizing m with
  | nil => exact .refl m
  | cons x xs ih => exact (hf m x).trans (ih (f m x))

theorem Sets.view {m' : AdafruitMcp23017} (h : Sets m m') : m'.view = m.view := by
  simp only [AdafruitMcp23017.view, PortRegisters.bit, h.spares.latch, h.polarity, h.outside,
    h.reads]

theorem sets_writeAt {address : BitVec 8} {r : PortRegister} {port : ℕ}
    (h : PortExpander.IsAt 2 address r port) (hpins : r ≠ .gpio) (hlatch : r ≠ .olat)
    (hpolarity : r ≠ .ipol) {v : BitVec 8}
    (hv : r = .iocon → v.getLsbD 5 = false ∧ v.getLsbD 7 = false) (m : AdafruitMcp23017) :
    Sets m (m.writeAt address v) := by
  have hwrote := PortExpander.wrote_writeAt v m h
  refine .of_byte ⟨?_, fun hseq => ?_⟩ ?_ hwrote.outside hwrote.reads ?_
  · rw [hwrote.regs, PortRegisters.store_of_ne hpins (Ne.symm hlatch)]
  · rw [hwrote.regs]
    exact hseq.store hv port
  · rw [hwrote.regs, PortRegisters.store_of_ne hpins (Ne.symm hpolarity)]
  · rw [hwrote.history, hwrote.regs]

theorem sets_setPort {ports : Ports} {r r' : PortRegister} (h : ports.Set r r') (hlatch : r ≠ .olat)
    (hpolarity : r ≠ .ipol) (hiocon : r ≠ .iocon) (p : ℕ) (b : Bool) (m : AdafruitMcp23017) :
    Sets m (m.setPort ports p b) := by
  by_cases hp : p ≤ 15
  · have hset := setsPin_setPort h hp b m
    exact .of_byte ⟨hset.other hlatch, fun hseq => hseq.of_iocon (hset.other hiocon)⟩
      (hset.other hpolarity) hset.outside hset.reads hset.history
  · rw [setPort, if_pos (by omega)]
    exact .refl m

end AdafruitMcp23017

end Alko.Arduino
