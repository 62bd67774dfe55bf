import Alko.Foundation.CharacterDisplay
import Alko.Foundation.PortExpander

/-! The display's driver, from its calls down to the bytes on the bus: an expander of eight pins in
front of a controller that takes bytes in halves. -/

namespace Alko.Arduino

open Foundation

/-! `Adafruit_MCP23008`. -/

abbrev Mcp23008 := PortExpander 1

namespace Mcp23008

def iodir : BitVec 8 := 0x00
def gpio : BitVec 8 := 0x09

def read8 (addr : BitVec 8) (m : Mcp23008) : BitVec 8 × Mcp23008 := m.readAt addr

def write8 (addr data : BitVec 8) (m : Mcp23008) : Mcp23008 := m.writeAt addr data

def begin (m : Mcp23008) : Mcp23008 := m.write (iodir :: 0xFF :: List.replicate 9 0x00)

def pinMode (p : ℕ) (input : Bool) (m : Mcp23008) : Mcp23008 :=
  if 7 < p then m
  else
    let r := read8 iodir m
    write8 iodir (writeBit p input r.1) r.2

def readGpio (m : Mcp23008) : BitVec 8 × Mcp23008 := read8 gpio m

def writeGpio (data : BitVec 8) (m : Mcp23008) : Mcp23008 := write8 gpio data m

def digitalWrite (p : ℕ) (high : Bool) (m : Mcp23008) : Mcp23008 :=
  if 7 < p then m
  else
    let r := readGpio m
    writeGpio (writeBit p high r.1) r.2

end Mcp23008

/-! `LiquidCrystal` on the expander, in its four-bit mode. -/

structure LiquidCrystal where
  i2c : Mcp23008
  displayfunction : BitVec 8
  displaycontrol : BitVec 8
  displaymode : BitVec 8
  numlines : ℕ

namespace LiquidCrystal

def rsPin : ℕ := 1
def enablePin : ℕ := 2
def dataPins : List ℕ := [3, 4, 5, 6]

/-- `out &= ~_BV(_data_pins[i]); out |= ((value >> i) & 0x1) << _data_pins[i];` in turn. -/
def setData (value out : BitVec 8) : BitVec 8 :=
  dataPins.zipIdx.foldl (fun out pin => writeBit pin.1 (value.getLsbD pin.2) out) out

def write4bits (value : BitVec 8) (d : LiquidCrystal) : LiquidCrystal :=
  let r := d.i2c.readGpio
  let low := writeBit enablePin false (setData value r.1)
  let high := writeBit enablePin true low
  { d with i2c := ((r.2.writeGpio low).writeGpio high).writeGpio (writeBit enablePin false high) }

def send (value : BitVec 8) (mode : Bool) (d : LiquidCrystal) : LiquidCrystal :=
  let d := { d with i2c := d.i2c.digitalWrite rsPin mode }
  (d.write4bits (value >>> 4)).write4bits value

def command (value : BitVec 8) (d : LiquidCrystal) : LiquidCrystal := d.send value false

def write (value : BitVec 8) (d : LiquidCrystal) : LiquidCrystal := d.send value true

def clear (d : LiquidCrystal) : LiquidCrystal := d.command 0x01

def display (d : LiquidCrystal) : LiquidCrystal :=
  let displaycontrol := d.displaycontrol ||| 0x04
  { d with displaycontrol := displaycontrol }.command (0x08 ||| displaycontrol)

def rowOffsets : List ℕ := [0x00, 0x40, 0x14, 0x54]

def setCursor (col row : ℕ) (d : LiquidCrystal) : LiquidCrystal :=
  let row := if d.numlines < row then d.numlines - 1 else row
  d.command (0x80 ||| BitVec.ofNat 8 (col + rowOffsets.getD row 0))

def createChar (location : BitVec 8) (charmap : List (BitVec 8)) (d : LiquidCrystal) :
    LiquidCrystal :=
  charmap.foldl (fun d row => d.write row) (d.command (0x40 ||| (location &&& 0x7) <<< 3))

def print (text : List (BitVec 8)) (d : LiquidCrystal) : LiquidCrystal :=
  text.foldl (fun d c => d.write c) d

def beginPins (d : LiquidCrystal) : LiquidCrystal :=
  let i2c := (d.i2c.begin.pinMode 7 false).digitalWrite 7 false
  let i2c := dataPins.foldl (fun m p => m.pinMode p false) i2c
  { d with i2c := (i2c.pinMode rsPin false).pinMode enablePin false }

def beginLines (lines : ℕ) (dotsize : BitVec 8) (d : LiquidCrystal) : LiquidCrystal :=
  let d := if 1 < lines then { d with displayfunction := d.displayfunction ||| 0x08 } else d
  let d := { d with numlines := lines }
  let d :=
    if dotsize ≠ 0 ∧ lines = 1 then { d with displayfunction := d.displayfunction ||| 0x04 } else d
  { d with i2c := (d.i2c.digitalWrite rsPin false).digitalWrite enablePin false }

def begin (lines : ℕ) (dotsize : BitVec 8) (d : LiquidCrystal) : LiquidCrystal :=
  let d := d.beginPins.beginLines lines dotsize
  let d := (((d.write4bits 0x03).write4bits 0x03).write4bits 0x03).write4bits 0x02
  let d := d.command (0x20 ||| d.displayfunction)
  let d := { d with displaycontrol := 0x04 }.display.clear
  let d := { d with displaymode := 0x02 }
  d.command (0x04 ||| d.displaymode)

end LiquidCrystal

/-- The controller, the level on its enable line, none while that or another line is not driven,
and how many bytes have been written so far. -/
@[ext] structure Panel where
  controller : CharacterDisplay
  enable : Option Bool
  clock : ℕ

/-- What the controller makes of lines that float, and what is on those that are not connected. -/
structure Surroundings where
  noise : ℕ → CharacterDisplay → CharacterDisplay
  low : ℕ → BitVec 4

def Driven (regs : PortRegisters) : Prop := regs .iodir 0 &&& 0x7E#8 = 0#8

instance : DecidablePred Driven := fun _ => inferInstanceAs (Decidable (_ = _))

def Panel.hears (env : Surroundings) (p : Panel) (regs : PortRegisters) : Panel where
  controller :=
    match p.enable with
    | none => env.noise p.clock p.controller
    | some before =>
      if Driven regs then
        if before && !(regs .olat 0).getLsbD LiquidCrystal.enablePin then
          p.controller.latch ((regs .olat 0).getLsbD LiquidCrystal.rsPin)
            ((regs .olat 0 >>> 3).setWidth 4) (env.low p.clock)
        else p.controller
      else env.noise p.clock p.controller
  enable :=
    if Driven regs then some ((regs .olat 0).getLsbD LiquidCrystal.enablePin) else none
  clock := p.clock + 1

structure Linked (env : Surroundings) (p₀ : Panel) (m : Mcp23008) (data high : Bool)
    (c : CharacterDisplay) : Prop where
  sequential : m.regs.Sequential
  driven : Driven m.regs
  polarity : m.regs .ipol 0 = 0#8
  rs : (m.regs .olat 0).getLsbD LiquidCrystal.rsPin = data
  enable : (m.regs .olat 0).getLsbD LiquidCrystal.enablePin = high
  panel : ∃ clock, m.history.foldl (Panel.hears env) p₀ = ⟨c, some high, clock⟩

theorem Driven.output {regs : PortRegisters} (h : Driven regs) {p : ℕ} (hp : 1 ≤ p) (hp' : p ≤ 6) :
    (regs .iodir 0).getLsbD p = false := by
  have hmask : ∀ p < 7, 1 ≤ p → (0x7E#8).getLsbD p = true := by decide
  have hbit := congrArg (BitVec.getLsbD · p) h
  simp only [BitVec.getLsbD_and] at hbit
  rw [hmask p (by omega) hp, Bool.and_true] at hbit
  exact hbit.trans BitVec.getLsbD_zero

theorem hears_driven {regs : PortRegisters} (h : Driven regs) (env : Surroundings)
    (c : CharacterDisplay) (enable : Bool) (clock : ℕ) :
    Panel.hears env ⟨c, some enable, clock⟩ regs =
      ⟨if enable && !(regs .olat 0).getLsbD LiquidCrystal.enablePin then
          c.latch ((regs .olat 0).getLsbD LiquidCrystal.rsPin)
            ((regs .olat 0 >>> 3).setWidth 4) (env.low clock)
        else c,
        some ((regs .olat 0).getLsbD LiquidCrystal.enablePin), clock + 1⟩ := by
  simp only [Panel.hears, if_pos h]

namespace Mcp23008

variable {env : Surroundings} {p₀ : Panel} {m : Mcp23008} {rs enable : Bool}
  {c : CharacterDisplay}

theorem isAt_gpio : PortExpander.IsAt 1 gpio .gpio 0 := ⟨rfl, rfl⟩

theorem isAt_iodir : PortExpander.IsAt 1 iodir .iodir 0 := ⟨rfl, rfl⟩

theorem linked_readGpio (h : Linked env p₀ m rs enable c) :
    Linked env p₀ m.readGpio.2 rs enable c ∧
      m.readGpio.1.getLsbD LiquidCrystal.rsPin = rs ∧
      m.readGpio.1.getLsbD LiquidCrystal.enablePin = enable := by
  obtain ⟨hregs, -, hhistory⟩ := PortExpander.readAt_frame m gpio
  obtain ⟨hvalue, -⟩ := PortExpander.readAt_gpio m isAt_gpio
  have hpin {p : ℕ} (hp : 1 ≤ p) (hp' : p ≤ 6) :
      m.readGpio.1.getLsbD p = (m.regs .olat 0).getLsbD p := by
    rw [show m.readGpio.1 = _ from hvalue, h.polarity, BitVec.xor_zero,
      PortRegisters.getLsbD_pins 0 _ _ (by omega), h.driven.output hp hp',
      if_neg Bool.false_ne_true]
  refine ⟨⟨?_, ?_, ?_, ?_, ?_, ?_⟩, (hpin le_rfl (by decide)).trans h.rs,
    (hpin (by decide) (by decide)).trans h.enable⟩
  · exact (show m.readGpio.2.regs = m.regs from hregs) ▸ h.sequential
  · exact (show m.readGpio.2.regs = m.regs from hregs) ▸ h.driven
  · exact (show m.readGpio.2.regs = m.regs from hregs) ▸ h.polarity
  · exact (show m.readGpio.2.regs = m.regs from hregs) ▸ h.rs
  · exact (show m.readGpio.2.regs = m.regs from hregs) ▸ h.enable
  · exact (show m.readGpio.2.history = m.history from hhistory) ▸ h.panel

/-- A byte goes to the pins; the controller takes the lines over if enable falls. -/
theorem linked_writeGpio (h : Linked env p₀ m rs enable c) (out : BitVec 8) :
    ∃ low, Linked env p₀ (m.writeGpio out) (out.getLsbD LiquidCrystal.rsPin)
      (out.getLsbD LiquidCrystal.enablePin)
      (if enable && !out.getLsbD LiquidCrystal.enablePin then
        c.latch (out.getLsbD LiquidCrystal.rsPin) ((out >>> 3).setWidth 4) low
      else c) := by
  have hwrote := PortExpander.wrote_writeAt out m isAt_gpio
  obtain ⟨clock, hpanel⟩ := h.panel
  have hregs : (m.writeGpio out).regs = m.regs.set .olat 0 out := hwrote.regs
  have hdriven : Driven (m.regs.set .olat 0 out) := h.driven
  have holat : m.regs.set .olat 0 out .olat 0 = out := PortRegisters.set_self _ _ _ _
  refine ⟨env.low clock, ?_, ?_, ?_, ?_, ?_, clock + 1, ?_⟩
  · rw [hregs]
    exact h.sequential
  · rw [hregs]
    exact hdriven
  · rw [hregs]
    exact h.polarity
  · rw [hregs, holat]
  · rw [hregs, holat]
  · rw [show (m.writeGpio out).history = m.history ++ [m.regs.set .olat 0 out] from hwrote.history,
      List.foldl_append, hpanel, List.foldl_cons, List.foldl_nil, hears_driven hdriven, holat]

theorem linked_digitalWrite (h : Linked env p₀ m rs enable c) {p : ℕ} (hp : p ≤ 7)
    (high : Bool) :
    ∃ half low, Linked env p₀ (m.digitalWrite p high)
      (if LiquidCrystal.rsPin = p then high else rs)
      (if LiquidCrystal.enablePin = p then high else enable)
      (if enable && !(if LiquidCrystal.enablePin = p then high else enable) then
        c.latch (if LiquidCrystal.rsPin = p then high else rs) half low
      else c) := by
  obtain ⟨hread, hrs, henable⟩ := linked_readGpio h
  obtain ⟨low, hwritten⟩ := linked_writeGpio hread (writeBit p high m.readGpio.1)
  rw [getLsbD_writeBit _ _ _ _ (by omega), getLsbD_writeBit _ _ _ _ (by omega), hrs, henable]
    at hwritten
  refine ⟨(writeBit p high m.readGpio.1 >>> 3).setWidth 4, low, ?_⟩
  rw [digitalWrite, if_neg (by omega)]
  exact hwritten

theorem linked_digitalWrite_rs (h : Linked env p₀ m rs false c) (high : Bool) :
    Linked env p₀ (m.digitalWrite LiquidCrystal.rsPin high) high false c := by
  have hpin : LiquidCrystal.rsPin ≤ 7 := by decide
  obtain ⟨_, _, hwritten⟩ := linked_digitalWrite h hpin high
  exact hwritten

theorem zeros_regs {m : Mcp23008} (hseq : m.regs.Sequential) (hpointer : m.pointer = 1) {n : ℕ}
    (hn : n ≤ 9) :
    ((List.replicate n 0#8).foldl PortExpander.writeByte m).pointer = 1 + n ∧
      ((List.replicate n 0#8).foldl PortExpander.writeByte m).regs.Sequential ∧
      ((List.replicate n 0#8).foldl PortExpander.writeByte m).regs .iodir 0 = m.regs .iodir 0 ∧
      (0 < n → ((List.replicate n 0#8).foldl PortExpander.writeByte m).regs .ipol 0 = 0#8) := by
  induction n with
  | zero => exact ⟨hpointer, hseq, rfl, fun h => absurd h (Nat.lt_irrefl 0)⟩
  | succ n ih =>
    obtain ⟨hlast, hseq', hiodir, hipol⟩ := ih (by omega)
    rw [List.replicate_succ', List.foldl_append, List.foldl_cons, List.foldl_nil]
    set x := (List.replicate n 0#8).foldl PortExpander.writeByte m
    have hregs : (x.writeByte 0#8).regs = x.regs.store (.numbered (1 + n)) 0 0#8 := by
      rw [PortExpander.writeByte, PortExpander.pointsTo, PortExpander.port, Nat.div_one,
        Nat.mod_one, hlast]
    have hpointer : (x.writeByte 0#8).pointer = x.next := rfl
    have hnumbered : ∀ k < 9, PortRegister.iodir ≠ .numbered (1 + k) ∧
        (0 < k → PortRegister.ipol ≠ .numbered (1 + k)) := by decide
    have hother := hnumbered n hn
    refine ⟨?_, hregs ▸ hseq'.store (fun _ => ⟨rfl, rfl⟩) 0, ?_, fun _ => ?_⟩
    · rw [hpointer, PortExpander.next_of_sequential hseq', hlast]
      omega
    · rw [hregs, PortRegisters.store_of_ne_olat hother.1 (by decide), hiodir]
    · rw [hregs]
      rcases Nat.eq_zero_or_pos n with rfl | hpos
      · exact PortRegisters.set_self _ _ _ _
      · rw [PortRegisters.store_of_ne_olat (hother.2 hpos) (by decide), hipol hpos]

theorem begin_regs {m : Mcp23008} (hseq : m.regs.Sequential) :
    m.begin.regs .iodir 0 = 0xFF#8 ∧ m.begin.regs .ipol 0 = 0#8 ∧ m.begin.regs.Sequential := by
  let first : Mcp23008 := { m with pointer := iodir.toNat }
  have hnext : (first.writeByte 0xFF).pointer = 1 :=
    PortExpander.next_of_sequential (x := first) hseq
  have hregs : (first.writeByte 0xFF).regs = m.regs.store .iodir 0 0xFF :=
    PortExpander.regs_writeAt 0xFF m isAt_iodir
  have hnot : PortRegister.iodir ≠ .iocon := by decide
  have hdirected : (first.writeByte 0xFF).regs.Sequential := by
    rw [hregs]
    exact hseq.store (fun h => absurd h hnot) 0
  have hinput : (first.writeByte 0xFF).regs .iodir 0 = 0xFF#8 := by
    rw [hregs]
    exact PortRegisters.set_self _ _ _ _
  have hbegin : m.begin =
      (List.replicate 9 0#8).foldl PortExpander.writeByte (first.writeByte 0xFF) := rfl
  obtain ⟨-, hlast, hiodir, hipol⟩ := zeros_regs hdirected hnext (le_refl 9)
  rw [hbegin]
  exact ⟨hiodir.trans hinput, hipol (by decide), hlast⟩

theorem pinMode_regs {p : ℕ} (hp : p ≤ 7) (input : Bool) (m : Mcp23008) :
    (m.pinMode p input).regs .iodir 0 = writeBit p input (m.regs .iodir 0) ∧
      (m.pinMode p input).regs .ipol 0 = m.regs .ipol 0 ∧
      (m.pinMode p input).regs .iocon = m.regs .iocon ∧
      (m.pinMode p input).history = m.history ++ [(m.pinMode p input).regs] := by
  have hwrote := PortExpander.wrote_setPin p input m isAt_iodir (by decide) isAt_iodir
  have hset : m.pinMode p input = m.setPin iodir iodir p input := by
    rw [pinMode, if_neg (by omega)]
    rfl
  rw [hset, hwrote.history, hwrote.regs]
  exact ⟨PortRegisters.set_self _ _ _ _, rfl, rfl, rfl⟩

theorem pinModes_regs {ps : List ℕ} (hps : ∀ p ∈ ps, p ≤ 7) (input : Bool) (m : Mcp23008) :
    (ps.foldl (fun m p => m.pinMode p input) m).regs .iodir 0 =
        ps.foldl (fun v p => writeBit p input v) (m.regs .iodir 0) ∧
      (ps.foldl (fun m p => m.pinMode p input) m).regs .ipol 0 = m.regs .ipol 0 ∧
      (ps.foldl (fun m p => m.pinMode p input) m).regs .iocon = m.regs .iocon := by
  induction ps generalizing m with
  | nil => exact ⟨rfl, rfl, rfl⟩
  | cons p ps ih =>
    obtain ⟨hiodir, hipol, hiocon, -⟩ := pinMode_regs (hps p List.mem_cons_self) input m
    obtain ⟨hiodir', hipol', hiocon'⟩ := ih (fun q hq => hps q (List.mem_cons_of_mem p hq))
      (m.pinMode p input)
    rw [hiodir] at hiodir'
    exact ⟨hiodir', hipol'.trans hipol, hiocon'.trans hiocon⟩

theorem digitalWrite_regs {p : ℕ} (hp : p ≤ 7) (high : Bool) (m : Mcp23008) :
    (m.digitalWrite p high).regs .iodir 0 = m.regs .iodir 0 ∧
      (m.digitalWrite p high).regs .ipol 0 = m.regs .ipol 0 ∧
      (m.digitalWrite p high).regs .iocon = m.regs .iocon := by
  have hwrote := PortExpander.wrote_setPin_gpio p high m isAt_gpio isAt_gpio
  have hset : m.digitalWrite p high = m.setPin gpio gpio p high := by
    rw [digitalWrite, if_neg (by omega)]
    rfl
  rw [hset, hwrote.regs]
  exact ⟨rfl, rfl, rfl⟩

theorem exists_linked (hseq : m.regs.Sequential) (hdriven : Driven m.regs)
    (hpolarity : m.regs .ipol 0 = 0#8)
    {before : List PortRegisters} (hhistory : m.history = before ++ [m.regs]) (env : Surroundings)
    (p₀ : Panel) : ∃ rs enable c, Linked env p₀ m rs enable c := by
  refine ⟨_, _, (m.history.foldl (Panel.hears env) p₀).controller, hseq, hdriven, hpolarity, rfl,
    rfl, (m.history.foldl (Panel.hears env) p₀).clock, Panel.ext rfl ?_ rfl⟩
  rw [hhistory, List.foldl_append, List.foldl_cons, List.foldl_nil]
  exact if_pos hdriven

end Mcp23008

namespace LiquidCrystal

variable {env : Surroundings} {p₀ : Panel} {d : LiquidCrystal} {rs enable : Bool}
  {c : CharacterDisplay}

theorem getLsbD_setData (value out : BitVec 8) (p : ℕ) :
    (setData value out).getLsbD p =
      if 3 ≤ p ∧ p ≤ 6 then value.getLsbD (p - 3) else out.getLsbD p := by
  simp only [setData, dataPins, List.zipIdx, List.foldl]
  rw [getLsbD_writeBit _ _ _ _ (by decide), getLsbD_writeBit _ _ _ _ (by decide),
    getLsbD_writeBit _ _ _ _ (by decide), getLsbD_writeBit _ _ _ _ (by decide)]
  by_cases hp : 3 ≤ p ∧ p ≤ 6
  · obtain ⟨hp, hp'⟩ := hp
    interval_cases p <;> rfl
  · rw [if_neg hp, if_neg (by omega), if_neg (by omega), if_neg (by omega), if_neg (by omega)]

theorem linked_write4bits (h : Linked env p₀ d.i2c rs false c) (value : BitVec 8) :
    ∃ low, Linked env p₀ (d.write4bits value).i2c rs false
      (c.latch rs (value.setWidth 4) low) := by
  obtain ⟨hread, hrs, -⟩ := Mcp23008.linked_readGpio h
  set out := writeBit enablePin false (setData value d.i2c.readGpio.1) with hout
  have hlow : out.getLsbD enablePin = false := by
    rw [hout, getLsbD_writeBit _ _ _ _ (by decide), if_pos rfl]
  have hselect : out.getLsbD rsPin = rs := by
    rw [hout, getLsbD_writeBit _ _ _ _ (by decide), if_neg (by decide), getLsbD_setData,
      if_neg (by decide), hrs]
  have hdata : (out >>> 3).setWidth 4 = value.setWidth 4 := by
    refine BitVec.eq_of_getLsbD_eq fun i hi => ?_
    rw [BitVec.getLsbD_setWidth, BitVec.getLsbD_setWidth, BitVec.getLsbD_ushiftRight, hout,
      getLsbD_writeBit _ _ _ _ (by decide), if_neg (by rw [enablePin]; omega), getLsbD_setData,
      if_pos (by omega), Nat.add_sub_cancel_left]
  have hhigh (p : ℕ) : (writeBit enablePin true out).getLsbD p =
      if p = enablePin then true else out.getLsbD p := getLsbD_writeBit _ _ _ _ (by decide)
  have hagain : writeBit enablePin false (writeBit enablePin true out) = out := by
    refine BitVec.eq_of_getLsbD_eq fun i hi => ?_
    rw [getLsbD_writeBit _ _ _ _ (by decide), hhigh]
    split
    · next hi => rw [hi, hlow]
    · rfl
  obtain ⟨_, hfirst⟩ := Mcp23008.linked_writeGpio hread out
  rw [Bool.false_and, if_neg Bool.false_ne_true, hlow, hselect] at hfirst
  obtain ⟨_, hsecond⟩ := Mcp23008.linked_writeGpio hfirst (writeBit enablePin true out)
  rw [Bool.false_and, if_neg Bool.false_ne_true, hhigh, hhigh, if_pos rfl,
    if_neg (by decide), hselect] at hsecond
  obtain ⟨low, hthird⟩ := Mcp23008.linked_writeGpio hsecond out
  rw [hlow, hselect, hdata, Bool.not_false, Bool.and_true, if_pos rfl] at hthird
  refine ⟨low, ?_⟩
  simp only [write4bits, ← hout, hagain]
  exact hthird

theorem linked_send (h : Linked env p₀ d.i2c rs false c) (hc : c.interface = .halves none)
    (value : BitVec 8) (mode : Bool) :
    Linked env p₀ (d.send value mode).i2c mode false (c.take mode value) := by
  obtain ⟨low, hfirst⟩ := linked_write4bits
    (d := { d with i2c := d.i2c.digitalWrite rsPin mode })
    (Mcp23008.linked_digitalWrite_rs h mode) (value >>> 4)
  obtain ⟨low', hsecond⟩ := linked_write4bits hfirst value
  rw [CharacterDisplay.latch_latch hc] at hsecond
  exact hsecond

theorem linked_beginPins (hseq : d.i2c.regs.Sequential) (env : Surroundings) (p₀ : Panel) :
    ∃ rs enable c, Linked env p₀ d.beginPins.i2c rs enable c := by
  obtain ⟨hfirst, hfirst', hplain⟩ := Mcp23008.begin_regs hseq
  obtain ⟨hlight, hlight', hlightIocon, -⟩ :=
    Mcp23008.pinMode_regs (by decide : 7 ≤ 7) false d.i2c.begin
  obtain ⟨hdark, hdark', hdarkIocon⟩ := Mcp23008.digitalWrite_regs (by decide : 7 ≤ 7) false
    (d.i2c.begin.pinMode 7 false)
  have hpins : ∀ p ∈ dataPins ++ [rsPin], p ≤ 7 := by decide
  obtain ⟨hlines, hlines', hlinesIocon⟩ := Mcp23008.pinModes_regs hpins false
    ((d.i2c.begin.pinMode 7 false).digitalWrite 7 false)
  obtain ⟨hlast, hlast', hlastIocon, hhistory⟩ :=
    Mcp23008.pinMode_regs (by decide : enablePin ≤ 7) false
      ((dataPins ++ [rsPin]).foldl (fun m p => m.pinMode p false)
        ((d.i2c.begin.pinMode 7 false).digitalWrite 7 false))
  refine Mcp23008.exists_linked ?_ ?_ ?_ hhistory env p₀
  · exact hplain.of_iocon
      (hlastIocon.trans (hlinesIocon.trans (hdarkIocon.trans hlightIocon)))
  · refine (congrArg (· &&& 0x7E#8) hlast).trans ?_
    rw [hlines, hdark, hlight, hfirst]
    decide
  · rw [hlast', hlines', hdark', hlight', hfirst']

theorem linked_command (h : Linked env p₀ d.i2c rs false c) (hc : c.interface = .halves none)
    (value : BitVec 8) : Linked env p₀ (d.command value).i2c false false (c.execute value) :=
  linked_send h hc value false

theorem linked_beginLines (h : Linked env p₀ d.i2c rs enable c) {lines : ℕ} (hlines : 1 < lines) :
    ∃ c, Linked env p₀ (d.beginLines lines 0).i2c false false c := by
  obtain ⟨_, _, hselect⟩ := Mcp23008.linked_digitalWrite h (by decide : rsPin ≤ 7) false
  obtain ⟨_, _, henable⟩ := Mcp23008.linked_digitalWrite hselect (by decide : enablePin ≤ 7) false
  rw [if_neg (by decide : rsPin ≠ enablePin), if_pos rfl, if_pos rfl] at henable
  rw [beginLines, if_pos hlines]
  exact Exists.intro _ henable

theorem displayfunction_beginLines {lines : ℕ} (hlines : 1 < lines) (d : LiquidCrystal) :
    (d.beginLines lines 0).displayfunction = d.displayfunction ||| 0x08 := by
  rw [beginLines, if_pos hlines]
  rfl

theorem linked_resync (h : Linked env p₀ d.i2c false false c) :
    ∃ c, c.interface = .halves none ∧ Linked env p₀
      ((((d.write4bits 0x03).write4bits 0x03).write4bits 0x03).write4bits 0x02).i2c
      false false c := by
  obtain ⟨l₁, h₁⟩ := linked_write4bits h 0x03
  obtain ⟨l₂, h₂⟩ := linked_write4bits h₁ 0x03
  obtain ⟨l₃, h₃⟩ := linked_write4bits h₂ 0x03
  obtain ⟨l₄, h₄⟩ := linked_write4bits h₃ 0x02
  exact ⟨_, CharacterDisplay.resync l₁ l₂ l₃ l₄ c, h₄⟩

theorem execute_0x28 (c : CharacterDisplay) :
    c.execute 0x28 = { c with interface := .halves none, twoLine := true } := rfl

theorem execute_0x0C (c : CharacterDisplay) : c.execute 0x0C = { c with displayOn := true } := rfl

theorem execute_0x01 (c : CharacterDisplay) :
    c.execute 0x01 = { c with
      memory := Function.update c.memory .ddram fun _ => 0x20
      target := .ddram, address := 0, offset := 0, increment := true } := rfl

theorem execute_0x06 (c : CharacterDisplay) :
    c.execute 0x06 = { c with increment := true, shift := false } := rfl

theorem linked_display (h : Linked env p₀ d.i2c rs false c) (hc : c.interface = .halves none) :
    Linked env p₀ (display { d with displaycontrol := 0x04 }).i2c false false
      { c with displayOn := true } := by
  have hshown := linked_command (d := { d with displaycontrol := 0x04 ||| 0x04 }) h hc
    (0x08 ||| (0x04 ||| 0x04))
  rw [show c.execute (0x08 ||| (0x04 ||| 0x04)) = c.execute 0x0C from rfl, execute_0x0C] at hshown
  exact hshown

theorem linked_clear (h : Linked env p₀ d.i2c rs false c) (hc : c.interface = .halves none) :
    Linked env p₀ d.clear.i2c false false { c with
      memory := Function.update c.memory .ddram fun _ => 0x20
      target := .ddram, address := 0, offset := 0, increment := true } := by
  rw [← execute_0x01]
  exact linked_command h hc 0x01

theorem linked_entryMode (h : Linked env p₀ d.i2c rs false c) (hc : c.interface = .halves none) :
    Linked env p₀ (command (0x04 ||| 0x02) { d with displaymode := 0x02 }).i2c false false
      { c with increment := true, shift := false } := by
  have hset := linked_command (d := { d with displaymode := 0x02 }) h hc (0x04 ||| 0x02)
  rw [show c.execute (0x04 ||| 0x02) = c.execute 0x06 from rfl, execute_0x06] at hset
  exact hset

/-- From any state of both, the controller follows the driver then, and shows nothing. -/
theorem linked_begin (hseq : d.i2c.regs.Sequential)
    (hfunction : d.displayfunction ||| 0x08#8 = 0x08#8) {lines : ℕ}
    (hlines : 1 < lines) (env : Surroundings) (p₀ : Panel) :
    ∃ c, Linked env p₀ (d.begin lines 0).i2c false false c ∧ c.Upright ∧
      c.target = .ddram ∧ ∀ a, c.memory .ddram a = 0x20#8 := by
  obtain ⟨rs, enable, c₀, hpins⟩ := linked_beginPins hseq env p₀
  obtain ⟨c₁, hlow⟩ := linked_beginLines hpins hlines
  obtain ⟨c, hc, h⟩ := linked_resync hlow
  set d' := ((((d.beginPins.beginLines lines 0).write4bits 0x03).write4bits 0x03).write4bits
    0x03).write4bits 0x02
  have hvalue : 0x20 ||| d'.displayfunction = 0x28 := by
    have hlater : d'.displayfunction = d.displayfunction ||| 0x08#8 :=
      displayfunction_beginLines hlines d.beginPins
    rw [hlater, hfunction]
    rfl
  have hset := linked_command h hc (0x20 ||| d'.displayfunction)
  rw [show c.execute (0x20 ||| d'.displayfunction) = c.execute 0x28 from
    congrArg c.execute hvalue, execute_0x28] at hset
  have hshown := linked_display hset rfl
  have hcleared := linked_clear hshown rfl
  exact ⟨_, linked_entryMode hcleared rfl, ⟨rfl, rfl, rfl, rfl, rfl, rfl⟩, rfl, fun a => rfl⟩

theorem displayfunction_begin {lines : ℕ} (hlines : 1 < lines) (d : LiquidCrystal) :
    (d.begin lines 0).displayfunction = d.displayfunction ||| 0x08 :=
  displayfunction_beginLines hlines d.beginPins

end LiquidCrystal

end Alko.Arduino
