import Alko.Arduino.Expanders
import Alko.Arduino.Operations
import Alko.Foundation.Run

/-! The columns' object on the registers of its two expanders. Whatever the registers but
IOCON held it does what it would do on pins of its own, and once they are set up no byte on the bus
leaves two motors on. -/

namespace Alko.Arduino

open Foundation

/-- `Narco`, with `m_mcp0` at address `0x20` and `m_mcp1` at `0x21`. -/
structure Board where
  mcp0 : AdafruitMcp23017
  mcp1 : AdafruitMcp23017
  narco : BitVec 32
  infoText : List UInt8

inductive Answer
  | none
  | home (v : Bool)
  | column (c : ℕ)
  | text (t : List UInt8)

def Narco.answer : Operation → Narco → Answer
  | .isHome column, n => .home (n.isHome column).1
  | .getDeployColumn, n => .column n.getDeployColumn.1
  | .getInfoText, n => .text n.getInfoText.1
  | _, _ => .none

namespace Board

def view (b : Board) : Narco := ⟨b.mcp0.view, b.mcp1.view, b.narco, b.infoText⟩

def powerOff (b : Board) : Board :=
  let mcp0 := (List.range' 8 8).foldl (fun m i => m.digitalWrite i false) b.mcp0
  { b with mcp0 := mcp0.digitalWrite 2 false }

def powerOn (column : ℤ) (b : Board) : Board :=
  let b := b.powerOff
  if column < 1 ∨ 9 < column then b
  else if column = 9 then { b with mcp0 := b.mcp0.digitalWrite 2 true }
  else { b with mcp0 := b.mcp0.digitalWrite (column + 7).toNat true }

def setUp (p : ℕ) (input : Bool) (m : AdafruitMcp23017) : AdafruitMcp23017 :=
  (m.pinMode p input).pullUp p input

def begin (b : Board) : Board :=
  let b := { b with mcp0 := b.mcp0.begin, mcp1 := b.mcp1.begin }
  let b := (List.range 16).foldl
    (fun b i => { b with mcp0 := setUp i true b.mcp0, mcp1 := setUp i true b.mcp1 }) b
  let b := (List.range 8).foldl (fun b i => { b with mcp0 := setUp (i + 8) false b.mcp0 }) b
  let b := { b with mcp0 := setUp 2 false b.mcp0 }
  let b := { b with
    mcp1 := ((b.mcp1.writeAt AdafruitMcp23017.gpintena (0x1 <<< 7)).writeAt
      AdafruitMcp23017.gpintenb 0xFF).writeAt AdafruitMcp23017.iocona (0x1 <<< 6) }
  b.powerOff

def sample0 (p i : ℕ) (b : Board) : Board :=
  let r := b.mcp0.digitalRead p
  { b with mcp0 := r.2, narco := writeBit i (!r.1) b.narco }

def sample1 (p i : ℕ) (b : Board) : Board :=
  let r := b.mcp1.digitalRead p
  { b with mcp1 := r.2, narco := writeBit i (!r.1) b.narco }

def update (b : Board) : Board :=
  (List.range' 2 7).foldl (fun b i => b.sample1 (i - 2) i) ((b.sample0 0 0).sample0 1 1)

def isHome (column : ℤ) (b : Board) : Bool × Board :=
  if column < 1 ∨ 9 < column then (false, b)
  else
    let r := b.mcp1.digitalRead (column + 6).toNat
    (!r.1, { b with mcp1 := r.2 })

/-- `setFull`, `setJammed` and `setDeployColumn` touch `m_narco` only. -/
def onWord (f : Narco → Narco) (b : Board) : Board := { b with narco := (f b.view).narco }

def updateWithJam (b : Board) : Board :=
  (List.range' 1 9).foldl
    (fun b (column : ℕ) =>
      let home := b.isHome column
      home.2.onWord (Narco.setJammed column (!home.1)))
    b.update

def getDeployColumn (b : Board) : ℕ × Board :=
  let b := b.updateWithJam
  let stored := ((b.narco >>> 18) &&& 0x0F#32).toNat
  let currentColumn := if stored = 0 then 1 else stored
  match (List.range' currentColumn (10 - currentColumn)).find? b.view.canDeploy with
  | some column => (column, b.onWord (Narco.setDeployColumn column))
  | none =>
    match (List.range' 1 (currentColumn - 1)).find? b.view.canDeploy with
    | some column => (column, b.onWord (Narco.setDeployColumn column))
    | none => (0, b)

def getInfoText (b : Board) : List UInt8 × Board :=
  let b := b.updateWithJam
  let infoText := (List.range' 1 9).foldl
    (fun text (column : ℕ) =>
      let text := if b.view.isFull column then text.set (14 - column) 0x23 else text
      if b.view.isJammed column then text.set (14 - column) 0x4A else text)
    b.infoText
  (infoText, { b with infoText := infoText })

def perform : Operation → Board → Board
  | .begin, b => b.begin
  | .update, b => b.update
  | .updateWithJam, b => b.updateWithJam
  | .setFull column v, b => b.onWord (Narco.setFull column v)
  | .setJammed column v, b => b.onWord (Narco.setJammed column v)
  | .isHome column, b => (b.isHome column).2
  | .powerOn column, b => b.powerOn column
  | .powerOff, b => b.powerOff
  | .getDeployColumn, b => b.getDeployColumn.2
  | .getInfoText, b => b.getInfoText.2

def answer : Operation → Board → Answer
  | .isHome column, b => .home (b.isHome column).1
  | .getDeployColumn, b => .column b.getDeployColumn.1
  | .getInfoText, b => .text b.getInfoText.1
  | _, _ => .none

def latched (regs : PortRegisters) : List ℕ := Narco.motorPins.filter fun p => regs.bit .olat p

/-- The motors that are on: their pin is an output, and its latch is set. -/
def powered (regs : PortRegisters) : List ℕ :=
  (latched regs).filter fun p => !regs.bit .iodir p

theorem length_powered_le (regs : PortRegisters) :
    (powered regs).length ≤ (latched regs).length := List.length_filter_le _ _

def Dims (regs regs' : PortRegisters) : Prop :=
  ∀ p ∈ Narco.motorPins, regs'.bit .olat p = true → regs.bit .olat p = true

theorem Dims.length_le {regs regs' : PortRegisters} (h : Dims regs regs') :
    (latched regs').length ≤ (latched regs).length := by
  rw [latched, latched, ← List.countP_eq_length_filter, ← List.countP_eq_length_filter]
  exact List.countP_mono_left h

theorem motorPins_le : ∀ p ∈ Narco.motorPins, p ≤ 15 := by decide

theorem poweredPins_view (b : Board) : b.view.poweredPins = latched b.mcp0.regs := by
  refine List.filter_congr fun p hp => ?_
  exact AdafruitMcp23017.getLsbD_view_olat b.mcp0 (motorPins_le p hp)

structure Dimmed (regs regs' : PortRegisters) : Prop where
  dims : Dims regs regs'
  iodir : regs' .iodir = regs .iodir
  iocon : regs' .iocon = regs .iocon

theorem Dimmed.trans {regs regs' regs'' : PortRegisters} (h : Dimmed regs regs')
    (h' : Dimmed regs' regs'') : Dimmed regs regs'' :=
  ⟨fun p hp hset => h.dims p hp (h'.dims p hp hset), h'.iodir.trans h.iodir,
    h'.iocon.trans h.iocon⟩

structure Clears (m m' : AdafruitMcp23017) : Prop where
  dimmed : Dimmed m.regs m'.regs
  history : ∃ more, m'.history = m.history ++ more ∧ ∀ regs ∈ more, Dimmed m.regs regs

theorem Clears.trans {m m' m'' : AdafruitMcp23017} (h : Clears m m') (h' : Clears m' m'') :
    Clears m m'' := by
  obtain ⟨more, hmore, hdimmed⟩ := h.history
  obtain ⟨more', hmore', hdimmed'⟩ := h'.history
  refine ⟨h.dimmed.trans h'.dimmed, more ++ more', by rw [hmore', hmore, List.append_assoc],
    fun regs hregs => ?_⟩
  rcases List.mem_append.mp hregs with hregs | hregs
  · exact hdimmed regs hregs
  · exact h.dimmed.trans (hdimmed' regs hregs)

theorem setsPin_digitalWrite {p : ℕ} (hp : p ≤ 15) (high : Bool) (m : AdafruitMcp23017) :
    AdafruitMcp23017.SetsPin .olat p high m (m.digitalWrite p high) :=
  AdafruitMcp23017.setsPin_setPort AdafruitMcp23017.set_latches hp high m

theorem clears_digitalWrite {p : ℕ} (hp : p ≤ 15) (m : AdafruitMcp23017) :
    Clears m (m.digitalWrite p false) := by
  have hset := setsPin_digitalWrite hp false m
  have hdims : Dims m.regs (m.digitalWrite p false).regs := by
    intro q hq hbit
    rw [hset.regs, PortRegisters.bit_set_self] at hbit
    split at hbit
    · exact absurd hbit Bool.false_ne_true
    · exact hbit
  have hdimmed : Dimmed m.regs (m.digitalWrite p false).regs :=
    ⟨hdims, hset.other (by decide), hset.other (by decide)⟩
  refine ⟨hdimmed, [_], hset.history, fun regs hregs => ?_⟩
  rw [List.mem_singleton.mp hregs]
  exact hdimmed

theorem clears_digitalWrites {ps : List ℕ} (hps : ∀ p ∈ ps, p ≤ 15) (m : AdafruitMcp23017) :
    Clears m (ps.foldl (fun m i => m.digitalWrite i false) m) := by
  induction ps generalizing m with
  | nil =>
    exact ⟨⟨fun _ _ hset => hset, rfl, rfl⟩, [], (List.append_nil _).symm,
      fun _ hregs => absurd hregs List.not_mem_nil⟩
  | cons p ps ih =>
    exact (clears_digitalWrite (hps p List.mem_cons_self) m).trans
      (ih (fun q hq => hps q (List.mem_cons_of_mem p hq)) (m.digitalWrite p false))

theorem clears_powerOff (b : Board) : Clears b.mcp0 b.powerOff.mcp0 := by
  have hrange : ∀ p ∈ List.range' 8 8, p ≤ 15 := by decide
  have htwo : 2 ≤ 15 := by decide
  exact (clears_digitalWrites hrange b.mcp0).trans (clears_digitalWrite htwo _)

theorem view_powerOff (b : Board) : b.powerOff.view = b.view.powerOff := by
  have hfold (ps : List ℕ) (m : AdafruitMcp23017) :
      (ps.foldl (fun m i => m.digitalWrite i false) m).view =
        ps.foldl (fun m i => m.digitalWrite i false) m.view :=
    (List.foldl_hom AdafruitMcp23017.view fun m i =>
      (AdafruitMcp23017.view_digitalWrite i false m).symm).symm
  simp only [powerOff, view, Narco.powerOff, AdafruitMcp23017.view_digitalWrite, hfold]

def Sequential (b : Board) : Prop := b.mcp0.regs.Sequential ∧ b.mcp1.regs.Sequential

structure Wired (b : Board) : Prop where
  switches0 : ∀ p < 2, b.mcp0.regs.bit .iodir p = true
  switches1 : ∀ p ≤ 15, b.mcp1.regs.bit .iodir p = true
  motors : ∀ p ∈ Narco.motorPins, b.mcp0.regs.bit .iodir p = false

/-! Bringing the board up. -/

theorem sets_setUp (p : ℕ) (input : Bool) (m : AdafruitMcp23017) :
    AdafruitMcp23017.Sets m (setUp p input m) :=
  (AdafruitMcp23017.sets_setPort AdafruitMcp23017.set_directions (by decide) (by decide) (by decide)
    p input m).trans
    (AdafruitMcp23017.sets_setPort AdafruitMcp23017.set_pullUps (by decide) (by decide) (by decide)
      p input _)

theorem bit_iodir_setUp {p : ℕ} (hp : p ≤ 15) (input : Bool) (m : AdafruitMcp23017) (q : ℕ) :
    (setUp p input m).regs.bit .iodir q = if q = p then input else m.regs.bit .iodir q := by
  have hpull := AdafruitMcp23017.setsPin_setPort AdafruitMcp23017.set_pullUps hp input
    (m.pinMode p input)
  have hmode := AdafruitMcp23017.setsPin_setPort AdafruitMcp23017.set_directions hp input m
  rw [setUp, AdafruitMcp23017.pullUp, hpull.regs, PortRegisters.bit_set_of_ne (by decide),
    AdafruitMcp23017.pinMode, hmode.regs, PortRegisters.bit_set_self]

theorem bit_iodir_setUps {ps : List ℕ} (hps : ∀ p ∈ ps, p ≤ 15) (input : Bool)
    (m : AdafruitMcp23017) (q : ℕ) :
    (ps.foldl (fun m p => setUp p input m) m).regs.bit .iodir q =
      if q ∈ ps then input else m.regs.bit .iodir q := by
  induction ps generalizing m with
  | nil => rfl
  | cons p ps ih =>
    rw [List.foldl_cons, ih (fun q hq => hps q (List.mem_cons_of_mem p hq)),
      bit_iodir_setUp (hps p List.mem_cons_self)]
    by_cases hmem : q ∈ ps <;> simp [hmem]

theorem foldl_both {α : Type*} (f g : AdafruitMcp23017 → α → AdafruitMcp23017) (xs : List α)
    (b : Board) :
    xs.foldl (fun b x => { b with mcp0 := f b.mcp0 x, mcp1 := g b.mcp1 x }) b =
      { b with mcp0 := xs.foldl f b.mcp0, mcp1 := xs.foldl g b.mcp1 } := by
  induction xs generalizing b with
  | nil => rfl
  | cons x xs ih => exact ih _

theorem foldl_first {α : Type*} (f : AdafruitMcp23017 → α → AdafruitMcp23017) (xs : List α)
    (b : Board) :
    xs.foldl (fun b x => { b with mcp0 := f b.mcp0 x }) b =
      { b with mcp0 := xs.foldl f b.mcp0 } := by
  induction xs generalizing b with
  | nil => rfl
  | cons x xs ih => exact ih _

def directed0 (m : AdafruitMcp23017) : AdafruitMcp23017 :=
  setUp 2 false ((List.range 8).foldl (fun m i => setUp (i + 8) false m)
    ((List.range 16).foldl (fun m i => setUp i true m) m.begin))

def directed1 (m : AdafruitMcp23017) : AdafruitMcp23017 :=
  ((((List.range 16).foldl (fun m i => setUp i true m) m.begin).writeAt AdafruitMcp23017.gpintena
    (0x1 <<< 7)).writeAt AdafruitMcp23017.gpintenb 0xFF).writeAt AdafruitMcp23017.iocona (0x1 <<< 6)

theorem begin_eq (b : Board) :
    b.begin = powerOff { b with mcp0 := directed0 b.mcp0, mcp1 := directed1 b.mcp1 } := by
  simp only [begin, foldl_both (fun m i => setUp i true m) (fun m i => setUp i true m),
    foldl_first fun m i => setUp (i + 8) false m]
  rfl

theorem sets_begin (m : AdafruitMcp23017) : AdafruitMcp23017.Sets m m.begin := by
  refine (AdafruitMcp23017.sets_writeAt (r := .iodir) ⟨rfl, rfl⟩ ?_ ?_ ?_ ?_ m).trans
    (AdafruitMcp23017.sets_writeAt (r := .iodir) ⟨rfl, rfl⟩ ?_ ?_ ?_ ?_ _) <;> decide

theorem sets_directed0 (m : AdafruitMcp23017) : AdafruitMcp23017.Sets m (directed0 m) :=
  (((sets_begin m).trans (.foldl (fun m i => sets_setUp i true m) _ _)).trans
    (.foldl (fun m i => sets_setUp (i + 8) false m) _ _)).trans (sets_setUp 2 false _)

theorem sets_directed1 (m : AdafruitMcp23017) : AdafruitMcp23017.Sets m (directed1 m) := by
  refine (((((sets_begin m).trans (.foldl (fun m i => sets_setUp i true m) _ _)).trans
    (AdafruitMcp23017.sets_writeAt (r := .gpinten) ⟨rfl, rfl⟩ ?_ ?_ ?_ ?_ _)).trans
    (AdafruitMcp23017.sets_writeAt (r := .gpinten) ⟨rfl, rfl⟩ ?_ ?_ ?_ ?_ _)).trans
    (AdafruitMcp23017.sets_writeAt (r := .iocon) ⟨rfl, rfl⟩ ?_ ?_ ?_ ?_ _)) <;> decide

theorem bit_iodir_directed0 (m : AdafruitMcp23017) {q : ℕ} (hq : q ≤ 15) :
    (directed0 m).regs.bit .iodir q = !decide (q ∈ Narco.motorPins) := by
  have hsixteen : ∀ p ∈ List.range 16, p ≤ 15 := by decide
  have hupper : ∀ p ∈ (List.range 8).map (· + 8), p ≤ 15 := by decide
  have htwo : 2 ≤ 15 := by decide
  have hmap (m : AdafruitMcp23017) : (List.range 8).foldl (fun m i => setUp (i + 8) false m) m =
      ((List.range 8).map (· + 8)).foldl (fun m p => setUp p false m) m := List.foldl_map.symm
  rw [directed0, bit_iodir_setUp htwo, hmap, bit_iodir_setUps hupper, bit_iodir_setUps hsixteen,
    if_pos (List.mem_range.mpr (by omega : q < 16))]
  revert q
  decide

theorem iodir_writeAt {address : BitVec 8} {r : PortRegister} {port : ℕ}
    (h : PortExpander.IsAt 2 address r port) (hpins : r ≠ .gpio) (hiodir : r ≠ .iodir)
    (v : BitVec 8) (m : AdafruitMcp23017) : (m.writeAt address v).regs .iodir = m.regs .iodir := by
  rw [PortExpander.regs_writeAt v m h, PortRegisters.store_of_ne hpins (Ne.symm hiodir)]

theorem bit_iodir_directed1 (m : AdafruitMcp23017) {q : ℕ} (hq : q ≤ 15) :
    (directed1 m).regs.bit .iodir q = true := by
  have hsixteen : ∀ p ∈ List.range 16, p ≤ 15 := by decide
  rw [PortRegisters.bit, directed1, iodir_writeAt (r := .iocon) ⟨rfl, rfl⟩ (by decide) (by decide),
    iodir_writeAt (r := .gpinten) ⟨rfl, rfl⟩ (by decide) (by decide),
    iodir_writeAt (r := .gpinten) ⟨rfl, rfl⟩ (by decide) (by decide)]
  refine (bit_iodir_setUps hsixteen true m.begin q).trans ?_
  rw [if_pos (List.mem_range.mpr (by omega : q < 16))]

theorem Wired.of_iodir {b b' : Board} (h : b.Wired)
    (h0 : b'.mcp0.regs .iodir = b.mcp0.regs .iodir)
    (h1 : b'.mcp1.regs .iodir = b.mcp1.regs .iodir) : b'.Wired where
  switches0 p hp := by
    rw [PortRegisters.bit, h0]
    exact h.switches0 p hp
  switches1 p hp := by
    rw [PortRegisters.bit, h1]
    exact h.switches1 p hp
  motors p hp := by
    rw [PortRegisters.bit, h0]
    exact h.motors p hp

/-- The pins are directed as they should be, all motors are off in the end, and no latch was set at
any time that was not before. -/
theorem begin_spec (b : Board) :
    b.begin.view = b.view.begin ∧ b.begin.Wired ∧ (b.Sequential → b.begin.Sequential) ∧
      ∃ more, b.begin.mcp0.history = b.mcp0.history ++ more ∧
        ∀ regs ∈ more, Dims b.mcp0.regs regs ∧ (b.mcp0.regs.Sequential → regs.Sequential) := by
  have hsets0 := sets_directed0 b.mcp0
  have hclears := clears_powerOff { b with mcp0 := directed0 b.mcp0, mcp1 := directed1 b.mcp1 }
  have hdims {regs : PortRegisters} (h : AdafruitMcp23017.Spares b.mcp0.regs regs) :
      Dims b.mcp0.regs regs ∧ (b.mcp0.regs.Sequential → regs.Sequential) := by
    refine ⟨fun p _ hset => ?_, h.sequential⟩
    rwa [PortRegisters.bit, h.latch] at hset
  have hkeeps {regs : PortRegisters} (h : Dimmed (directed0 b.mcp0).regs regs) :
      Dims b.mcp0.regs regs ∧ (b.mcp0.regs.Sequential → regs.Sequential) :=
    ⟨fun p hp hset => (hdims hsets0.spares).1 p hp (h.dims p hp hset),
      fun hseq => (hsets0.spares.sequential hseq).of_iocon h.iocon⟩
  obtain ⟨more, hmore, hspares⟩ := hsets0.history
  obtain ⟨more', hmore', hdimmed⟩ := hclears.history
  rw [begin_eq]
  refine ⟨?_, ⟨?_, ?_, ?_⟩, ?_, more ++ more', ?_, fun regs hregs => ?_⟩
  · rw [view_powerOff, Narco.begin, view, hsets0.view, (sets_directed1 b.mcp1).view]
    rfl
  · intro p hp
    rw [PortRegisters.bit, hclears.dimmed.iodir]
    refine (bit_iodir_directed0 b.mcp0 (by omega)).trans ?_
    interval_cases p <;> rfl
  · intro p hp
    exact bit_iodir_directed1 b.mcp1 hp
  · intro p hp
    rw [PortRegisters.bit, hclears.dimmed.iodir]
    refine (bit_iodir_directed0 b.mcp0 (motorPins_le p hp)).trans ?_
    rw [decide_eq_true hp, Bool.not_true]
  · rintro ⟨hseq0, hseq1⟩
    exact ⟨(hkeeps hclears.dimmed).2 hseq0, (sets_directed1 b.mcp1).spares.sequential hseq1⟩
  · rw [hmore', hmore, List.append_assoc]
  · rcases List.mem_append.mp hregs with hregs | hregs
    · exact hdims (hspares regs hregs)
    · exact hkeeps (hdimmed regs hregs)

/-- One motor's latch at most is set, and IOCON has not changed its ways. -/
structure Apart (regs : PortRegisters) : Prop where
  latched : (latched regs).length ≤ 1
  sequential : regs.Sequential

theorem Apart.dimmed {regs regs' : PortRegisters} (h : Apart regs) (hdimmed : Dimmed regs regs') :
    Apart regs' :=
  ⟨hdimmed.dims.length_le.trans h.latched, h.sequential.of_iocon hdimmed.iocon⟩

/-- What a call may do to the board where one motor at most is on: what the object does on pins, and
no byte written leaves two motors on. -/
structure Follows (b b' : Board) (n : Narco) : Prop where
  view : b'.view = n
  wired : b'.Wired
  apart : Apart b'.mcp0.regs
  sequential : b'.mcp1.regs.Sequential
  history : ∃ more, b'.mcp0.history = b.mcp0.history ++ more ∧ ∀ regs ∈ more, Apart regs

structure Ready (b : Board) : Prop where
  wired : b.Wired
  apart : Apart b.mcp0.regs
  sequential : b.mcp1.regs.Sequential

namespace Follows

variable {b b' b'' : Board} {n n' : Narco}

theorem ready (h : Follows b b' n) : b'.Ready := ⟨h.wired, h.apart, h.sequential⟩

theorem refl (h : b.Ready) : Follows b b b.view :=
  ⟨rfl, h.wired, h.apart, h.sequential, [], (List.append_nil _).symm,
    fun _ hregs => absurd hregs List.not_mem_nil⟩

theorem trans (h : Follows b b' n) (h' : Follows b' b'' n') : Follows b b'' n' := by
  obtain ⟨more, hmore, happart⟩ := h.history
  obtain ⟨more', hmore', happart'⟩ := h'.history
  refine ⟨h'.view, h'.wired, h'.apart, h'.sequential, more ++ more',
    by rw [hmore', hmore, List.append_assoc], fun regs hregs => ?_⟩
  rcases List.mem_append.mp hregs with hregs | hregs
  · exact happart regs hregs
  · exact happart' regs hregs

theorem foldl {α : Type*} {f : Board → α → Board} {g : Narco → α → Narco} {xs : List α}
    (hf : ∀ b x, x ∈ xs → b.Ready → Follows b (f b x) (g b.view x)) (h : b.Ready) :
    Follows b (xs.foldl f b) (xs.foldl g b.view) := by
  induction xs generalizing b with
  | nil => exact refl h
  | cons x xs ih =>
    have hfirst := hf b x List.mem_cons_self h
    have hrest := ih (fun b y hy => hf b y (List.mem_cons_of_mem x hy)) hfirst.ready
    rw [List.foldl_cons, List.foldl_cons, ← hfirst.view]
    exact hfirst.trans hrest

theorem of_reads (h : b.Ready) (hview : b'.view = n) (h0 : b'.mcp0.regs = b.mcp0.regs)
    (h1 : b'.mcp1.regs = b.mcp1.regs) (hhistory : b'.mcp0.history = b.mcp0.history) :
    Follows b b' n :=
  ⟨hview, h.wired.of_iodir (by rw [h0]) (by rw [h1]), by rw [h0]; exact h.apart,
    by rw [h1]; exact h.sequential, [], by rw [hhistory, List.append_nil],
    fun _ hregs => absurd hregs List.not_mem_nil⟩

theorem sample0 (h : b.Ready) {p : ℕ} (hp : p < 2) (i : ℕ) :
    Follows b (b.sample0 p i) (b.view.sample0 p i) := by
  obtain ⟨hvalue, hview, hregs, hhistory⟩ :=
    AdafruitMcp23017.view_digitalRead fun _ => h.wired.switches0 p hp
  refine of_reads h ?_ hregs rfl hhistory
  simp only [Board.sample0, Board.view, Narco.sample0, hvalue, hview]

theorem sample1 (h : b.Ready) (p i : ℕ) : Follows b (b.sample1 p i) (b.view.sample1 p i) := by
  obtain ⟨hvalue, hview, hregs, -⟩ := AdafruitMcp23017.view_digitalRead (h.wired.switches1 p)
  refine of_reads h ?_ rfl hregs rfl
  simp only [Board.sample1, Board.view, Narco.sample1, hvalue, hview]

theorem isHome (h : b.Ready) (column : ℤ) :
    (b.isHome column).1 = (b.view.isHome column).1 ∧
      Follows b (b.isHome column).2 (b.view.isHome column).2 := by
  unfold Board.isHome Narco.isHome
  split
  · exact ⟨rfl, refl h⟩
  · obtain ⟨hvalue, hview, hregs, -⟩ :=
      AdafruitMcp23017.view_digitalRead (h.wired.switches1 (column + 6).toNat)
    refine ⟨congrArg (!·) hvalue, of_reads h ?_ rfl hregs rfl⟩
    simp only [Board.view, hview]

theorem onWord (h : b.Ready) {f : Narco → Narco}
    (hf : f b.view = { b.view with narco := (f b.view).narco }) :
    Follows b (b.onWord f) (f b.view) :=
  of_reads h hf.symm rfl rfl rfl

theorem setFull (h : b.Ready) (column : ℤ) (v : Bool) :
    Follows b (b.onWord (Narco.setFull column v)) (b.view.setFull column v) := by
  refine onWord h ?_
  unfold Narco.setFull
  split <;> rfl

theorem setJammed (h : b.Ready) (column : ℤ) (v : Bool) :
    Follows b (b.onWord (Narco.setJammed column v)) (b.view.setJammed column v) := by
  refine onWord h ?_
  unfold Narco.setJammed
  split <;> rfl

theorem update (h : b.Ready) : Follows b b.update b.view.update := by
  have hfirst := sample0 h (by decide : 0 < 2) 0
  have hsecond := sample0 hfirst.ready (by decide : 1 < 2) 1
  have hrest : Follows ((b.sample0 0 0).sample0 1 1) b.update ((List.range' 2 7).foldl
      (fun n i => n.sample1 (i - 2) i) ((b.sample0 0 0).sample0 1 1).view) :=
    foldl (fun b i _ hb => sample1 hb (i - 2) i) hsecond.ready
  rw [hsecond.view, hfirst.view] at hrest
  exact (hfirst.trans hsecond).trans hrest

theorem updateWithJam (h : b.Ready) : Follows b b.updateWithJam b.view.updateWithJam := by
  have hscan := update h
  have hjam : Follows b.update b.updateWithJam ((List.range' 1 9).foldl
      (fun n (column : ℕ) => (n.isHome column).2.setJammed column (!(n.isHome column).1))
      b.update.view) := by
    refine foldl (fun b column _ hb => ?_) hscan.ready
    obtain ⟨hvalue, hhome⟩ := isHome hb column
    have hset := setJammed hhome.ready column (!(b.isHome column).1)
    rw [hhome.view] at hset
    rw [← hvalue]
    exact hhome.trans hset
  rw [hscan.view] at hjam
  exact hscan.trans hjam

theorem getDeployColumn (h : b.Ready) :
    b.getDeployColumn.1 = b.view.getDeployColumn.1 ∧
      Follows b b.getDeployColumn.2 b.view.getDeployColumn.2 := by
  have hscan := updateWithJam h
  have hchosen (column : ℕ) : Follows b (b.updateWithJam.onWord (Narco.setDeployColumn column))
      (b.view.updateWithJam.setDeployColumn column) := by
    rw [← hscan.view]
    exact hscan.trans (onWord hscan.ready rfl)
  have hword : b.updateWithJam.narco = b.view.updateWithJam.narco := congrArg Narco.narco hscan.view
  unfold Board.getDeployColumn Narco.getDeployColumn
  simp only [hscan.view, hword]
  split
  · next column hfirst =>
    simp only [hfirst]
    exact ⟨trivial, hchosen column⟩
  · next hfirst =>
    simp only [hfirst]
    split
    · next column hsecond =>
      simp only [hsecond]
      exact ⟨trivial, hchosen column⟩
    · next hsecond =>
      simp only [hsecond]
      exact ⟨trivial, hscan⟩

theorem getInfoText (h : b.Ready) :
    b.getInfoText.1 = b.view.getInfoText.1 ∧
      Follows b b.getInfoText.2 b.view.getInfoText.2 := by
  have hscan := updateWithJam h
  have htext : b.updateWithJam.infoText = b.view.updateWithJam.infoText :=
    congrArg Narco.infoText hscan.view
  have hshown : b.getInfoText.1 = b.view.getInfoText.1 := by
    simp only [Board.getInfoText, Narco.getInfoText, hscan.view, htext]
  refine ⟨hshown, ⟨?_, hscan.wired.of_iodir rfl rfl, hscan.apart, hscan.sequential,
    hscan.history⟩⟩
  have hview : b.getInfoText.2.view = { b.updateWithJam.view with infoText := b.getInfoText.1 } :=
    rfl
  rw [hview, hscan.view, hshown]
  rfl

theorem powerOff (h : b.Ready) : Follows b b.powerOff b.view.powerOff := by
  have hclears := clears_powerOff b
  obtain ⟨more, hmore, hdimmed⟩ := hclears.history
  exact ⟨view_powerOff b, h.wired.of_iodir hclears.dimmed.iodir rfl, h.apart.dimmed hclears.dimmed,
    h.sequential, more, hmore, fun regs hregs => h.apart.dimmed (hdimmed regs hregs)⟩

theorem length_poweredPins_powerOn (n : Narco) (column : ℤ) :
    (n.powerOn column).poweredPins.length ≤ 1 := by
  by_cases hrange : column < 1 ∨ 9 < column
  · rw [Narco.powerOn, if_pos hrange, Narco.poweredPins_powerOff]
    exact Nat.zero_le 1
  · obtain ⟨c, rfl⟩ := Int.eq_ofNat_of_zero_le (by omega : 0 ≤ column)
    rw [Narco.poweredPins_powerOn]
    split
    · exact le_rfl
    · exact Nat.zero_le 1

theorem digitalWrite (h : b.Ready) {p : ℕ} (hp : p ≤ 15) (high : Bool)
    (hn : n = { b.view with mcp0 := b.view.mcp0.digitalWrite p high })
    (hone : n.poweredPins.length ≤ 1) :
    Follows b { b with mcp0 := b.mcp0.digitalWrite p high } n := by
  have hset := setsPin_digitalWrite hp high b.mcp0
  have hview : Board.view { b with mcp0 := b.mcp0.digitalWrite p high } = n := by
    rw [hn]
    simp only [Board.view, AdafruitMcp23017.view_digitalWrite]
  have hpowered := poweredPins_view { b with mcp0 := b.mcp0.digitalWrite p high }
  rw [hview] at hpowered
  rw [hpowered] at hone
  have hapart : Apart (b.mcp0.digitalWrite p high).regs :=
    ⟨hone, h.apart.sequential.of_iocon (hset.other (by decide))⟩
  refine ⟨hview, h.wired.of_iodir (hset.other (by decide)) rfl, hapart, h.sequential, [_],
    hset.history, fun regs hregs => ?_⟩
  rw [List.mem_singleton.mp hregs]
  exact hapart

theorem powerOn (h : b.Ready) (column : ℤ) :
    Follows b (b.powerOn column) (b.view.powerOn column) := by
  have hoff := powerOff h
  have hone := length_poweredPins_powerOn b.view column
  unfold Board.powerOn
  simp only
  split
  · next hrange =>
    rw [Narco.powerOn, if_pos hrange]
    exact hoff
  · next hrange =>
    split
    · next hnine =>
      refine hoff.trans (digitalWrite hoff.ready (by decide) true ?_ hone)
      rw [Narco.powerOn, if_neg hrange, if_pos hnine, hoff.view]
    · next hnine =>
      refine hoff.trans (digitalWrite hoff.ready (by omega) true ?_ hone)
      rw [Narco.powerOn, if_neg hrange, if_neg hnine, hoff.view]

theorem begin (h : b.Ready) : Follows b b.begin b.view.begin := by
  obtain ⟨hview, hwired, hsequential, more, hmore, hdims⟩ := begin_spec b
  obtain ⟨hseq0, hseq1⟩ := hsequential ⟨h.apart.sequential, h.sequential⟩
  refine ⟨hview, hwired, ⟨?_, hseq0⟩, hseq1, more, hmore, fun regs hregs => ?_⟩
  · rw [← poweredPins_view, hview, Narco.begin, Narco.poweredPins_powerOff]
    exact Nat.zero_le 1
  · obtain ⟨hdim, hseq⟩ := hdims regs hregs
    exact ⟨hdim.length_le.trans h.apart.latched, hseq h.apart.sequential⟩

theorem answer (h : b.Ready) (op : Operation) : b.answer op = b.view.answer op := by
  cases op with
  | isHome column => exact congrArg Answer.home (isHome h column).1
  | getDeployColumn => exact congrArg Answer.column (getDeployColumn h).1
  | getInfoText => exact congrArg Answer.text (getInfoText h).1
  | _ => rfl

theorem perform (h : b.Ready) (op : Operation) : Follows b (b.perform op) (b.view.perform op) := by
  cases op with
  | begin => exact begin h
  | update => exact update h
  | updateWithJam => exact updateWithJam h
  | setFull column v => exact setFull h column v
  | setJammed column v => exact setJammed h column v
  | isHome column => exact (isHome h column).2
  | powerOn column => exact powerOn h column
  | powerOff => exact powerOff h
  | getDeployColumn => exact (getDeployColumn h).2
  | getInfoText => exact (getInfoText h).2

end Follows

/-- A call, and the levels from outside at each reading of the pins while it runs. -/
structure Move where
  outside0 : ℕ → ℕ → BitVec 8
  outside1 : ℕ → ℕ → BitVec 8
  op : Operation

def sensing (k : Move) (b : Board) : Board :=
  { b with
    mcp0 := { b.mcp0 with outside := k.outside0, reads := 0 }
    mcp1 := { b.mcp1 with outside := k.outside1, reads := 0 } }

def step (b : Board) (k : Move) : Board := (b.sensing k).perform k.op

/-- What comes through the polarity registers, which nobody writes. -/
def sensors (k : Move) (b : Board) : Sensors where
  mcp0 i p := (k.outside0 i (p / 8)).getLsbD (p % 8) ^^ b.mcp0.regs.bit .ipol p
  mcp1 i p := (k.outside1 i (p / 8)).getLsbD (p % 8) ^^ b.mcp1.regs.bit .ipol p

/-- With the board, what its calls returned since it was brought up. -/
def system (b₀ : Board) : TransitionSystem (Board × List Answer) Move where
  init s := s = (b₀.begin, [])
  step s k t := t = (s.1.step k, s.2 ++ [(s.1.sensing k).answer k.op])

theorem ready_begin {b : Board} (hseq : b.Sequential) : b.begin.Ready := by
  obtain ⟨hview, hwired, hsequential, -⟩ := begin_spec b
  obtain ⟨hseq0, hseq1⟩ := hsequential hseq
  refine ⟨hwired, ⟨?_, hseq0⟩, hseq1⟩
  rw [← poweredPins_view, hview, Narco.begin, Narco.poweredPins_powerOff]
  exact Nat.zero_le 1

theorem follows_sensing {b : Board} (h : b.Ready) (k : Move) :
    Follows b (b.sensing k) (b.view.sensing (b.sensors k)) :=
  .of_reads h rfl rfl rfl rfl

theorem follows_step {b : Board} (h : b.Ready) (k : Move) :
    Follows b (b.step k) ((b.view.sensing (b.sensors k)).perform k.op) := by
  have hsensing := follows_sensing h k
  have hperform := Follows.perform hsensing.ready k.op
  rw [hsensing.view] at hperform
  exact hsensing.trans hperform

/-- After every byte on the bus: while the board is brought up only such motors are on whose latch
was set before, and from then on there is one at most. -/
theorem one_motor_at_most {b₀ : Board} (hseq : b₀.Sequential) {s : Board × List Answer}
    (h : (system b₀).Reachable s) :
    ∃ bringUp later, s.1.mcp0.history = b₀.mcp0.history ++ bringUp ++ later ∧
      (∀ regs ∈ bringUp ++ later, regs.Sequential) ∧
      (∀ regs ∈ bringUp, ∀ p ∈ powered regs, p ∈ latched b₀.mcp0.regs) ∧
      ∀ regs ∈ later, (powered regs).length ≤ 1 := by
  obtain ⟨-, -, -, bringUp, hbringUp, hdims⟩ := begin_spec b₀
  have hrun : s.1.Ready ∧ ∃ later, s.1.mcp0.history = b₀.mcp0.history ++ bringUp ++ later ∧
      ∀ regs ∈ later, Apart regs := by
    refine h.invariant (I := fun s => s.1.Ready ∧ ∃ later,
      s.1.mcp0.history = b₀.mcp0.history ++ bringUp ++ later ∧ ∀ regs ∈ later, Apart regs)
      (fun s hs => ?_) fun s k t _ hs hstep => ?_
    · obtain rfl := hs
      exact ⟨ready_begin hseq, [], by rw [hbringUp, List.append_nil],
        fun regs hregs => absurd hregs List.not_mem_nil⟩
    · obtain rfl := hstep
      obtain ⟨hready, later, hlater, hapart⟩ := hs
      have hfollows := follows_step hready k
      obtain ⟨more, hmore, hmoreApart⟩ := hfollows.history
      refine ⟨hfollows.ready, later ++ more, ?_, fun regs hregs => ?_⟩
      · rw [hmore, hlater, List.append_assoc, List.append_assoc]
      · rcases List.mem_append.mp hregs with hregs | hregs
        · exact hapart regs hregs
        · exact hmoreApart regs hregs
  obtain ⟨-, later, hlater, hapart⟩ := hrun
  refine ⟨bringUp, later, hlater, fun regs hregs => ?_, fun regs hregs p hp => ?_,
    fun regs hregs => (length_powered_le regs).trans (hapart regs hregs).latched⟩
  · rcases List.mem_append.mp hregs with hregs | hregs
    · exact (hdims regs hregs).2 hseq.1
    · exact (hapart regs hregs).sequential
  · obtain ⟨hmotor, hset⟩ := List.mem_filter.mp (List.mem_filter.mp hp).1
    exact List.mem_filter.mpr ⟨hmotor, (hdims regs hregs).1 p hmotor hset⟩

def stuck : Board :=
  ⟨⟨fun r _ => if r = .olat then 0xFF else 0, 0, fun _ _ => 0, 0, []⟩,
    ⟨fun _ _ => 0, 0, fun _ _ => 0, 0, []⟩, 0, Narco.emptyInfoText⟩

theorem sequential_stuck : stuck.Sequential := by
  refine ⟨fun port => ?_, fun port => ?_⟩
  · simp only [stuck, reduceCtorEq, if_false]
    exact ⟨rfl, rfl⟩
  · simp only [stuck]
    exact ⟨rfl, rfl⟩

def switchOn : Move := ⟨fun _ _ => 0, fun _ _ => 0, .powerOn 3⟩

def stuckOn : Board := stuck.begin.step switchOn

/-- The latches of before are on the lines again as soon as the pins are outputs. -/
theorem one_motor_at_most_stuck :
    (∃ regs ∈ stuck.begin.mcp0.history, powered regs = Narco.motorPins) ∧
      powered stuckOn.mcp0.regs = [10] ∧
      ∃ bringUp later, stuckOn.mcp0.history = stuck.mcp0.history ++ bringUp ++ later ∧
        (∀ regs ∈ bringUp ++ later, regs.Sequential) ∧
        (∀ regs ∈ bringUp, ∀ p ∈ powered regs, p ∈ latched stuck.mcp0.regs) ∧
        ∀ regs ∈ later, (powered regs).length ≤ 1 :=
  ⟨by decide +kernel, by decide +kernel,
    one_motor_at_most sequential_stuck (s := (stuckOn, [.none]))
      (.step (k := switchOn) (.init rfl) rfl)⟩

end Board

end Alko.Arduino
