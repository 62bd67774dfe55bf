import Alko.Arduino.LcdRows
import Alko.Arduino.LiquidCrystal

/-! What stands on the panel: over any sequence of the display's calls its controller shows what the
rows say, whatever state it was in before the first `reset`. -/

namespace Alko.Arduino

open Foundation

namespace LiquidCrystal

/-- `LCD::addNorwegianChars`: æ, Æ, ø, Ø, å and Å. -/
def norwegianGlyphs : List (BitVec 8 × List (BitVec 8)) :=
  [(1, [0x0, 0x0, 0x1b, 0x5, 0x1f, 0x14, 0x1f, 0x0]),
    (2, [0xf, 0x14, 0x14, 0x1f, 0x14, 0x14, 0x17, 0x0]),
    (3, [0x0, 0x0, 0xe, 0x13, 0x15, 0x19, 0xe, 0x0]),
    (4, [0xe, 0x13, 0x15, 0x15, 0x15, 0x19, 0xe, 0x0]),
    (5, [0xe, 0xa, 0xe, 0x1, 0xf, 0x11, 0xf, 0x0]),
    (6, [0xe, 0xa, 0x0e, 0x11, 0x1f, 0x11, 0x11, 0x0])]

def addNorwegianChars (d : LiquidCrystal) : LiquidCrystal :=
  norwegianGlyphs.foldl (fun d g => d.createChar g.1 g.2) d

def reset (d : LiquidCrystal) : LiquidCrystal := (d.begin 4 0).addNorwegianChars

def characters (row : List UInt8) : List (BitVec 8) :=
  (row.takeWhile (· ≠ 0)).map UInt8.toBitVec

def update (text : List (List UInt8)) (d : LiquidCrystal) : LiquidCrystal :=
  (List.range 4).foldl (fun d i => (d.setCursor 0 i).print (characters (text.getD i []))) d

/-- The constructor, which leaves the expander as it is. -/
def new (i2c : Mcp23008) : LiquidCrystal := ⟨i2c, 0x00, 0, 0, 0⟩

variable {env : Surroundings} {p₀ : Panel} {d : LiquidCrystal} {rs : Bool} {c : CharacterDisplay}

theorem frame_foldl_write (text : List (BitVec 8)) (d : LiquidCrystal) :
    (text.foldl (fun d b => d.write b) d).numlines = d.numlines ∧
      (text.foldl (fun d b => d.write b) d).displayfunction = d.displayfunction := by
  induction text generalizing d with
  | nil => exact ⟨rfl, rfl⟩
  | cons b text ih => exact ih (d.write b)

theorem linked_print (h : Linked env p₀ d.i2c rs false c) (hc : c.interface = .halves none)
    (text : List (BitVec 8)) :
    ∃ rs, Linked env p₀ (d.print text).i2c rs false (c.storeAll text) := by
  induction text generalizing d rs c with
  | nil => exact ⟨rs, h⟩
  | cons b text ih =>
    exact ih (linked_send h hc b true) ((CharacterDisplay.interface_store b c).trans hc)

def HasGlyph (c : CharacterDisplay) (g : BitVec 8 × List (BitVec 8)) : Prop :=
  ∀ k < 8, c.memory .cgram (8 * g.1.toNat + k) = g.2.getD k 0

theorem norwegianGlyphs_formed : ∀ g ∈ norwegianGlyphs, g.1.toNat < 8 ∧ g.2.length = 8 ∧
    (0x40 ||| (g.1 &&& 0x7) <<< 3).getLsbD 7 = false ∧
    (0x40 ||| (g.1 &&& 0x7) <<< 3).getLsbD 6 = true ∧
    ((0x40 ||| (g.1 &&& 0x7) <<< 3).setWidth 6).toNat = 8 * g.1.toNat := by decide

theorem linked_createChar (h : Linked env p₀ d.i2c rs false c) (hc : c.Upright)
    {g : BitVec 8 × List (BitVec 8)} (hg : g ∈ norwegianGlyphs) :
    ∃ rs c', Linked env p₀ (d.createChar g.1 g.2).i2c rs false c' ∧ c'.Upright ∧
      c'.memory .ddram = c.memory .ddram ∧ HasGlyph c' g ∧
      ∀ g', g'.1.toNat ≠ g.1.toNat → HasGlyph c g' → HasGlyph c' g' := by
  obtain ⟨hplace, hlength, h7, h6, haddress⟩ := norwegianGlyphs_formed g hg
  have hset := linked_command h hc.interface (0x40 ||| (g.1 &&& 0x7) <<< 3)
  rw [CharacterDisplay.execute_cgramAddress (by rw [h7]; exact Bool.false_ne_true) h6, haddress]
    at hset
  obtain ⟨rs', hprinted⟩ := linked_print hset hc.interface g.2
  have hup : CharacterDisplay.Upright { c with target := .cgram, address := 8 * g.1.toNat } :=
    ⟨hc.interface, hc.twoLine, hc.increment, hc.shift, hc.offset, hc.displayOn⟩
  have hfits : CharacterDisplay.Fits (8 * g.1.toNat) g.2.length .cgram := by
    show 8 * g.1.toNat + g.2.length ≤ 64
    omega
  obtain ⟨address, hstored⟩ := CharacterDisplay.storeAll_upright g.2 hup hfits
  refine ⟨rs', _, hprinted, hup.storeAll hfits, ?_, fun k hk => ?_, fun g' hg' hold k hk => ?_⟩
  · rw [hstored]
    rfl
  · simp only [hstored, Function.update_self, CharacterDisplay.fill_apply]
    rw [if_pos (by omega), Nat.add_sub_cancel_left, List.getD_eq_getElem _ _ (by omega),
      List.getD_eq_getElem _ _ (by omega)]
  · simp only [hstored, Function.update_self, CharacterDisplay.fill_apply]
    rw [← hold k hk]
    split
    · exact List.getD_eq_default _ _ (by omega)
    · rfl

theorem linked_glyphs (h : Linked env p₀ d.i2c rs false c) (hc : c.Upright)
    {gs : List (BitVec 8 × List (BitVec 8))} (hgs : ∀ g ∈ gs, g ∈ norwegianGlyphs)
    (hapart : gs.Pairwise fun g g' => g.1.toNat ≠ g'.1.toNat) :
    ∃ rs c', Linked env p₀ (gs.foldl (fun d g => d.createChar g.1 g.2) d).i2c rs false c' ∧
      c'.Upright ∧ c'.memory .ddram = c.memory .ddram ∧ (∀ g ∈ gs, HasGlyph c' g) ∧
      ∀ g', (∀ g ∈ gs, g'.1.toNat ≠ g.1.toNat) → HasGlyph c g' → HasGlyph c' g' := by
  induction gs generalizing d rs c with
  | nil => exact ⟨rs, c, h, hc, rfl, nofun, fun _ _ hold => hold⟩
  | cons g gs ih =>
    obtain ⟨rs', c', h', hc', hddram, hdrawn, hkept⟩ :=
      linked_createChar h hc (hgs g List.mem_cons_self)
    obtain ⟨happart, hapart⟩ := List.pairwise_cons.mp hapart
    obtain ⟨rs'', c'', h'', hc'', hddram', hdrawn', hkept'⟩ :=
      ih h' hc' (fun g' hg' => hgs g' (List.mem_cons_of_mem g hg')) hapart
    refine ⟨rs'', c'', h'', hc'', hddram'.trans hddram, fun g' hg' => ?_, fun g' hg' hold => ?_⟩
    · rcases List.mem_cons.mp hg' with rfl | hg'
      · exact hkept' g' happart hdrawn
      · exact hdrawn' g' hg'
    · exact hkept' g' (fun g'' hg'' => hg' g'' (List.mem_cons_of_mem g hg''))
        (hkept g' (hg' g List.mem_cons_self) hold)

structure Shows (c : CharacterDisplay) (rows : List (List UInt8)) : Prop where
  upright : c.Upright
  glyphs : ∀ g ∈ norwegianGlyphs, HasGlyph c g
  cells : ∀ r < 4, ∀ j < 20,
    c.cell 20 r j = ((rows.getD r []).getD j 0x20).toBitVec

structure Showing (env : Surroundings) (p₀ : Panel) (d : LiquidCrystal) (rows : List (List UInt8)) :
    Prop where
  controller : ∃ rs c, Linked env p₀ d.i2c rs false c ∧ Shows c rows
  numlines : d.numlines = 4
  displayfunction : d.displayfunction = 0x08

theorem frame_createChar (g : BitVec 8 × List (BitVec 8)) (d : LiquidCrystal) :
    (d.createChar g.1 g.2).numlines = d.numlines ∧
      (d.createChar g.1 g.2).displayfunction = d.displayfunction :=
  frame_foldl_write g.2 (d.command (0x40 ||| (g.1 &&& 0x7) <<< 3))

theorem frame_glyphs (gs : List (BitVec 8 × List (BitVec 8))) (d : LiquidCrystal) :
    (gs.foldl (fun d g => d.createChar g.1 g.2) d).numlines = d.numlines ∧
      (gs.foldl (fun d g => d.createChar g.1 g.2) d).displayfunction = d.displayfunction := by
  induction gs generalizing d with
  | nil => exact ⟨rfl, rfl⟩
  | cons g gs ih =>
    obtain ⟨hnumlines, hfunction⟩ := frame_createChar g d
    obtain ⟨hnumlines', hfunction'⟩ := ih (d.createChar g.1 g.2)
    exact ⟨hnumlines'.trans hnumlines, hfunction'.trans hfunction⟩

theorem numlines_begin (d : LiquidCrystal) : (d.begin 4 0).numlines = 4 := rfl

theorem showing_reset (hseq : d.i2c.regs.Sequential)
    (hfunction : d.displayfunction ||| 0x08#8 = 0x08#8) (env : Surroundings) (p₀ : Panel) :
    Showing env p₀ d.reset (List.replicate 4 []) := by
  obtain ⟨c, h, hc, -, hblank⟩ := linked_begin hseq hfunction (by decide : 1 < 4) env p₀
  obtain ⟨rs, c', h', hc', hddram, hdrawn, -⟩ :=
    linked_glyphs h hc (fun g hg => hg) (by decide : norwegianGlyphs.Pairwise _)
  obtain ⟨hnumlines, hset⟩ := frame_glyphs norwegianGlyphs (d.begin 4 0)
  refine ⟨⟨rs, c', h', hc', hdrawn, fun r hr j hj => ?_⟩, hnumlines.trans d.numlines_begin,
    hset.trans ((displayfunction_begin (by decide) d).trans hfunction)⟩
  rw [CharacterDisplay.cell, hddram, hblank, List.getD_replicate _ hr]
  rfl

theorem execute_setCursor (c : CharacterDisplay) {i : ℕ} (hi : i < 4) :
    c.execute (0x80 ||| BitVec.ofNat 8 (0 + rowOffsets.getD i 0)) =
      { c with target := .ddram, address := CharacterDisplay.rowStart 20 i } := by
  interval_cases i <;> rfl

theorem linked_row (h : Linked env p₀ d.i2c rs false c) (hc : c.Upright)
    (hnumlines : d.numlines = 4) {i : ℕ} (hi : i < 4) {row : List (BitVec 8)} (hrow : row.length = 20) :
    ∃ rs c', Linked env p₀ ((d.setCursor 0 i).print row).i2c rs false c' ∧ c'.Upright ∧
      c'.memory .cgram = c.memory .cgram ∧
      ∀ r < 4, ∀ j < 20, c'.cell 20 r j = if r = i then row.getD j 0 else c.cell 20 r j := by
  have hset : Linked env p₀ (d.setCursor 0 i).i2c false false
      { c with target := .ddram, address := CharacterDisplay.rowStart 20 i } := by
    rw [setCursor, hnumlines, if_neg (by omega), ← execute_setCursor c hi]
    exact linked_command h hc.interface _
  have hup : CharacterDisplay.Upright
      { c with target := .ddram, address := CharacterDisplay.rowStart 20 i } :=
    ⟨hc.interface, hc.twoLine, hc.increment, hc.shift, hc.offset, hc.displayOn⟩
  have hfits : CharacterDisplay.Fits (CharacterDisplay.rowStart 20 i) row.length .ddram := by
    rw [hrow]
    exact CharacterDisplay.fits_row le_rfl hi
  obtain ⟨rs', hprinted⟩ := linked_print hset hc.interface row
  obtain ⟨address, hstored⟩ := CharacterDisplay.storeAll_upright row hup hfits
  refine ⟨rs', _, hprinted, hup.storeAll hfits, ?_, fun r hr j hj => ?_⟩
  · rw [hstored]
    rfl
  · exact CharacterDisplay.cell_storeAll hup le_rfl hi hr hj hrow rfl rfl

theorem linked_rows (h : Linked env p₀ d.i2c rs false c) (hc : c.Upright)
    (hnumlines : d.numlines = 4) {rows : ℕ → List (BitVec 8)}
    (hrows : ∀ i < 4, (rows i).length = 20) {n : ℕ} (hn : n ≤ 4) :
    ∃ rs c', Linked env p₀ ((List.range n).foldl
        (fun d i => (d.setCursor 0 i).print (rows i)) d).i2c rs false c' ∧ c'.Upright ∧
      c'.memory .cgram = c.memory .cgram ∧
      (∀ r < 4, ∀ j < 20,
        c'.cell 20 r j = if r < n then (rows r).getD j 0 else c.cell 20 r j) ∧
      ((List.range n).foldl (fun d i => (d.setCursor 0 i).print (rows i)) d).numlines = 4 ∧
      ((List.range n).foldl (fun d i => (d.setCursor 0 i).print (rows i)) d).displayfunction =
        d.displayfunction := by
  induction n with
  | zero => exact ⟨rs, c, h, hc, rfl, fun r _ j _ => rfl, hnumlines, rfl⟩
  | succ n ih =>
    obtain ⟨rs', c', h', hc', hcgram, hcells, hnumlines', hfunction⟩ := ih (by omega)
    obtain ⟨rs'', c'', h'', hc'', hcgram', hcells'⟩ :=
      linked_row h' hc' hnumlines' (by omega : n < 4) (hrows n (by omega))
    obtain ⟨hframe, hframe'⟩ := frame_foldl_write (rows n)
      (((List.range n).foldl (fun d i => (d.setCursor 0 i).print (rows i)) d).setCursor 0 n)
    rw [List.range_succ, List.foldl_append, List.foldl_cons, List.foldl_nil]
    refine ⟨rs'', c'', h'', hc'', hcgram'.trans hcgram, fun r hr j hj => ?_,
      hframe.trans hnumlines', hframe'.trans hfunction⟩
    rw [hcells' r hr j hj, hcells r hr j hj]
    rcases Nat.lt_trichotomy r n with hlt | rfl | hgt
    · rw [if_neg (by omega), if_pos hlt, if_pos (by omega)]
    · rw [if_pos rfl, if_pos (by omega)]
    · rw [if_neg (by omega), if_neg (by omega), if_neg (by omega)]

theorem characters_of_isRow {row : List UInt8} (h : LCD.IsRow row) :
    (characters row).length = 20 ∧
      ∀ j < 20, (characters row).getD j 0 = ((row.takeWhile (· ≠ 0)).getD j 0x20).toBitVec := by
  obtain ⟨shown, rfl, hlength, hzero⟩ := h
  have htaken : (shown ++ [0]).takeWhile (· ≠ 0) = shown := by
    rw [List.takeWhile_append_of_pos (by simpa using fun c hc => ne_of_mem_of_not_mem hc hzero)]
    simp
  refine ⟨by rw [characters, htaken, List.length_map, hlength], fun j hj => ?_⟩
  rw [characters, htaken, List.getD_eq_getElem _ _ (by rw [List.length_map]; omega),
    List.getElem_map, List.getD_eq_getElem _ _ (by omega)]

theorem Showing.update {rows : List (List UInt8)} (h : Showing env p₀ d rows) {l : LCD}
    (hl : l.Formed) : Showing env p₀ (d.update l.text) l.update.panel := by
  obtain ⟨⟨rs, c, hlinked, hshows⟩, hnumlines, hfunction⟩ := h
  have hrow : ∀ i < 4, LCD.IsRow (l.text.getD i []) := by
    intro i hi
    have hi : i < l.text.length := hl.four.symm ▸ hi
    rw [List.getD_eq_getElem _ _ hi]
    exact hl.rows _ (List.getElem_mem hi)
  obtain ⟨rs', c', h', hc', hcgram, hcells, hnumlines', hfunction'⟩ :=
    linked_rows hlinked hshows.upright hnumlines
      (fun i hi => (characters_of_isRow (hrow i hi)).1) le_rfl
  refine ⟨⟨rs', c', h', hc', fun g hg k hk => ?_, fun r hr j hj => ?_⟩, hnumlines',
    hfunction'.trans hfunction⟩
  · rw [hcgram]
    exact hshows.glyphs g hg k hk
  · rw [hcells r hr j hj, if_pos hr, (characters_of_isRow (hrow r hr)).2 j hj]
    have hr : r < l.text.length := hl.four.symm ▸ hr
    rw [LCD.update, List.getD_eq_getElem (l.text.map _) _ (by rwa [List.length_map]),
      List.getElem_map, List.getD_eq_getElem _ _ hr]

end LiquidCrystal

inductive LCD.Operation
  | text (call : TextCall)
  | reset
  | update
  | setColor (r g b : UInt8)
  | setRedCycle
  deriving DecidableEq, Repr

def LCD.perform (l : LCD) : Operation → LCD
  | .text call => l.call call
  | .reset => l.reset
  | .update => l.update
  | .setColor r g b => l.setColor r g b
  | .setRedCycle => l.setRedCycle

structure Screen where
  lcd : LCD
  driver : LiquidCrystal

namespace Screen

def perform (s : Screen) (op : LCD.Operation) : Screen where
  lcd := s.lcd.perform op
  driver :=
    match op with
    | .reset => s.driver.reset
    | .update => s.driver.update s.lcd.text
    | _ => s.driver

def run (ops : List LCD.Operation) (s : Screen) : Screen := ops.foldl perform s

def new (i2c : Mcp23008) : Screen := ⟨.new, .new i2c⟩

/-- The rows are whole, and the panel shows them as they were at the last `update`. -/
structure Faithful (env : Surroundings) (p₀ : Panel) (s : Screen) : Prop where
  formed : s.lcd.Formed
  showing : LiquidCrystal.Showing env p₀ s.driver s.lcd.panel

theorem Faithful.perform {env : Surroundings} {p₀ : Panel} {s : Screen} (h : s.Faithful env p₀)
    (op : LCD.Operation) : (s.perform op).Faithful env p₀ := by
  cases op with
  | text call =>
    cases call with
    | clear => exact ⟨LCD.formed_clear _, h.showing⟩
    | setText line text length =>
      refine ⟨h.formed.setText line text length, ?_⟩
      have hpanel : (s.lcd.setText line text length).panel = s.lcd.panel := by
        unfold LCD.setText
        split
        · rfl
        · split <;> rfl
      exact (congrArg (LiquidCrystal.Showing env p₀ s.driver) hpanel).mpr h.showing
  | reset =>
    have hset : s.driver.displayfunction ||| 0x08#8 = 0x08#8 := by
      rw [h.showing.displayfunction]
      rfl
    obtain ⟨_, _, hlinked, -⟩ := h.showing.controller
    exact ⟨⟨h.formed.four, h.formed.rows⟩,
      LiquidCrystal.showing_reset hlinked.sequential hset env p₀⟩
  | update => exact ⟨⟨h.formed.four, h.formed.rows⟩, h.showing.update h.formed⟩
  | setColor r g b => exact ⟨⟨h.formed.four, h.formed.rows⟩, h.showing⟩
  | setRedCycle => exact ⟨⟨h.formed.four, h.formed.rows⟩, h.showing⟩

/-- Whatever the expander's other registers held, whatever state the controller and its interface
were in and whatever came over the lines while they floated: from the first `reset` on, after any
calls, the panel shows the rows as they were at the last `update`, in 20 places each, none since a
`reset`, and the glyphs of the Norwegian letters are in their places. -/
theorem faithful_run (env : Surroundings) (p₀ : Panel) {i2c : Mcp23008}
    (hseq : i2c.regs.Sequential) (ops : List LCD.Operation) :
    ((new i2c).run (.reset :: ops)).Faithful env p₀ := by
  have hformed := LCD.formed_clear LCD.new
  have hset : (new i2c).driver.displayfunction ||| 0x08#8 = 0x08#8 := by
    show 0x00#8 ||| 0x08#8 = 0x08#8
    decide
  have hreset : ((new i2c).perform .reset).Faithful env p₀ :=
    ⟨⟨hformed.four, hformed.rows⟩, LiquidCrystal.showing_reset (d := (new i2c).driver) hseq hset env p₀⟩
  rw [run, List.foldl_cons]
  apply List.foldlRecOn ops perform hreset
  intro s h op _
  exact h.perform op

def dirty : Mcp23008 := ⟨fun r _ => if r = .iocon then 0 else 0xFF, 0, fun _ _ => 0, 0, []⟩

def interrupted : Panel where
  controller := ⟨.halves (some 0xF), fun _ _ => 0xFF, .cgram, 0, false, true, 7, false, false⟩
  enable := none
  clock := 0

def humming : Surroundings := ⟨fun k c => { c with address := k }, fun k => BitVec.ofNat 4 k⟩

def greeting : List LCD.Operation := [.text (.setText 2 (some [0x48, 0x65, 0x69]) 3), .update]

theorem sequential_dirty : dirty.regs.Sequential := by
  intro port
  simp only [dirty, if_true]
  exact ⟨rfl, rfl⟩

theorem faithful_run_greeting :
    ((new dirty).run (.reset :: greeting)).lcd.panel.getD 2 [] =
        [0x48, 0x65, 0x69] ++ List.replicate 17 0x20 ∧
      ((new dirty).run (.reset :: greeting)).Faithful humming interrupted :=
  ⟨by decide +kernel, faithful_run humming interrupted sequential_dirty greeting⟩

end Screen

end Alko.Arduino
