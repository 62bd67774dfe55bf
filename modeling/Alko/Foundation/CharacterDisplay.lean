import Mathlib.Data.List.GetD
import Mathlib.Tactic

/-! The controller of a character display, after its data sheet: its memories, its instructions, and
the interface of four lines over which a byte comes in two halves. -/

namespace Alko.Foundation

/-- Whole bytes are taken over; or halves, and the high one of a byte may have come. -/
inductive Interface
  | bytes
  | halves (high : Option (BitVec 4))
  deriving DecidableEq, Repr

inductive Memory
  | ddram
  | cgram
  deriving DecidableEq, Repr

structure CharacterDisplay where
  interface : Interface
  memory : Memory → ℕ → BitVec 8
  -- Where data goes.
  target : Memory
  address : ℕ
  increment : Bool
  shift : Bool
  offset : ℕ
  twoLine : Bool
  displayOn : Bool

namespace CharacterDisplay

/-- Each of two lines has 40 places, from `0x00` and from `0x40` on; a single one has 80. -/
def next (twoLine : Bool) (a : ℕ) : Memory → ℕ
  | .cgram => (a + 1) % 64
  | .ddram =>
    if twoLine then (if a = 0x27 then 0x40 else if a = 0x67 then 0x00 else (a + 1) % 128)
    else if a = 0x4F then 0x00 else (a + 1) % 128

def previous (twoLine : Bool) (a : ℕ) : Memory → ℕ
  | .cgram => (a + 63) % 64
  | .ddram =>
    if twoLine then (if a = 0x40 then 0x27 else if a = 0x00 then 0x67 else a - 1)
    else if a = 0x00 then 0x4F else a - 1

def moveOn (forward : Bool) (c : CharacterDisplay) : CharacterDisplay :=
  { c with
    address :=
      if forward then next c.twoLine c.address c.target
      else previous c.twoLine c.address c.target }

def places (c : CharacterDisplay) : ℕ := if c.twoLine then 40 else 80

def shiftBy (left : Bool) (c : CharacterDisplay) : CharacterDisplay :=
  { c with offset := (if left then c.offset + 1 else c.offset + (c.places - 1)) % c.places }

/-- The instructions, told apart by the highest bit that is set. -/
def execute (b : BitVec 8) (c : CharacterDisplay) : CharacterDisplay :=
  if b.getLsbD 7 then { c with target := .ddram, address := (b.setWidth 7).toNat }
  else if b.getLsbD 6 then { c with target := .cgram, address := (b.setWidth 6).toNat }
  else if b.getLsbD 5 then
    { c with
      interface := if b.getLsbD 4 then .bytes else .halves none, twoLine := b.getLsbD 3 }
  else if b.getLsbD 4 then
    if b.getLsbD 3 then c.shiftBy (!b.getLsbD 2) else c.moveOn (b.getLsbD 2)
  else if b.getLsbD 3 then { c with displayOn := b.getLsbD 2 }
  else if b.getLsbD 2 then { c with increment := b.getLsbD 1, shift := b.getLsbD 0 }
  else if b.getLsbD 1 then { c with target := .ddram, address := 0, offset := 0 }
  else if b.getLsbD 0 then
    { c with
      memory := Function.update c.memory .ddram fun _ => 0x20
      target := .ddram, address := 0, offset := 0, increment := true }
  else c

def store (b : BitVec 8) (c : CharacterDisplay) : CharacterDisplay :=
  let written := Function.update (c.memory c.target) c.address b
  let moved := moveOn c.increment { c with memory := Function.update c.memory c.target written }
  if c.shift && c.target == .ddram then moved.shiftBy c.increment else moved

def take (data : Bool) (b : BitVec 8) (c : CharacterDisplay) : CharacterDisplay :=
  if data then c.store b else c.execute b

/-- The four lines are taken over. Of a whole byte they are the high half, and the lines of the low
half may show anything. -/
def latch (data : Bool) (half : BitVec 4) (low : BitVec 4) (c : CharacterDisplay) :
    CharacterDisplay :=
  match c.interface with
  | .bytes => c.take data (half ++ low)
  | .halves none => { c with interface := .halves (some half) }
  | .halves (some high) => take data (high ++ half) { c with interface := .halves none }

variable {c : CharacterDisplay}

theorem execute_functionSet {b : BitVec 8} (h7 : ¬b.getLsbD 7) (h6 : ¬b.getLsbD 6)
    (h5 : b.getLsbD 5) (c : CharacterDisplay) :
    c.execute b = { c with
      interface := if b.getLsbD 4 then .bytes else .halves none, twoLine := b.getLsbD 3 } := by
  rw [execute, if_neg h7, if_neg h6, if_pos h5]

theorem interface_execute {b : BitVec 8} (h : b.getLsbD 5 → b.getLsbD 7 ∨ b.getLsbD 6)
    (c : CharacterDisplay) :
    (c.execute b).interface = c.interface ∧ (c.execute b).twoLine = c.twoLine := by
  unfold execute shiftBy moveOn
  split_ifs with h7 h6 h5
  · exact ⟨rfl, rfl⟩
  · exact ⟨rfl, rfl⟩
  · exact ((h h5).elim h7 h6).elim
  · exact ((h h5).elim h7 h6).elim
  all_goals exact ⟨rfl, rfl⟩

/-- With three or two on the four lines a byte begins that chooses the width of the interface. -/
theorem execute_width {half : BitVec 4} (h3 : ¬half.getLsbD 3) (h2 : ¬half.getLsbD 2)
    (h1 : half.getLsbD 1) (low : BitVec 4) (c : CharacterDisplay) :
    (c.execute (half ++ low)).interface = if half.getLsbD 0 then .bytes else .halves none := by
  have hbit (i : ℕ) (hi : 4 ≤ i) : (half ++ low).getLsbD i = half.getLsbD (i - 4) := by
    rw [BitVec.getLsbD_append, if_neg (Nat.not_lt.mpr hi)]
  rw [execute_functionSet (by rwa [hbit 7 (by decide)]) (by rwa [hbit 6 (by decide)])
    (by rwa [hbit 5 (by decide)]), hbit 4 (by decide)]

theorem execute_three (low : BitVec 4) (c : CharacterDisplay) :
    (c.execute (3#4 ++ low)).interface = .bytes :=
  execute_width (by decide) (by decide) (by decide) low c

theorem execute_two (low : BitVec 4) (c : CharacterDisplay) :
    (c.execute (2#4 ++ low)).interface = .halves none :=
  execute_width (by decide) (by decide) (by decide) low c

theorem latch_bytes (h : c.interface = .bytes) (data : Bool) (half low : BitVec 4) :
    c.latch data half low = c.take data (half ++ low) := by
  rw [latch, h]

theorem latch_first (h : c.interface = .halves none) (data : Bool) (half low : BitVec 4) :
    c.latch data half low = { c with interface := .halves (some half) } := by
  rw [latch, h]

theorem latch_second {high : BitVec 4} (h : c.interface = .halves (some high)) (data : Bool)
    (half low : BitVec 4) :
    c.latch data half low = take data (high ++ half) { c with interface := .halves none } := by
  rw [latch, h]

theorem bytes_latch_three (h : c.interface = .bytes ∨ c.interface = .halves (some 3#4))
    (low : BitVec 4) : (c.latch false 3#4 low).interface = .bytes := by
  rcases h with h | h
  · rw [latch_bytes h]
    exact execute_three low c
  · rw [latch_second h]
    exact execute_three 3#4 { c with interface := .halves none }

/-- A three is left behind between two bytes, where the next one makes whole bytes of them. -/
theorem latch_three (low : BitVec 4) (c : CharacterDisplay) :
    (c.latch false 3#4 low).interface = .bytes ∨
      ∃ high, (high = none ∨ high = some 3#4) ∧
        (c.latch false 3#4 low).interface = .halves high := by
  cases hwidth : c.interface with
  | bytes => exact .inl (bytes_latch_three (.inl hwidth) low)
  | halves high =>
    cases high with
    | none =>
      rw [latch_first hwidth]
      exact .inr ⟨some 3#4, .inr rfl, rfl⟩
    | some high =>
      rw [latch_second hwidth]
      by_cases hset : (high ++ 3#4).getLsbD 5 → (high ++ 3#4).getLsbD 7 ∨ (high ++ 3#4).getLsbD 6
      · exact .inr ⟨none, .inl rfl, (interface_execute hset _).1⟩
      · rw [Classical.not_imp, not_or] at hset
        rw [take, if_neg Bool.false_ne_true, execute_functionSet hset.2.1 hset.2.2 hset.1]
        cases (high ++ 3#4).getLsbD 4 with
        | true => exact .inl rfl
        | false => exact .inr ⟨none, .inl rfl, rfl⟩

/-- Three, three, three and two, and whatever the controller took them for, it is between two bytes
then. -/
theorem resync (l₁ l₂ l₃ l₄ : BitVec 4) (c : CharacterDisplay) :
    ((((c.latch false 3#4 l₁).latch false 3#4 l₂).latch false 3#4 l₃).latch false 2#4
      l₄).interface = .halves none := by
  have hbytes : (((c.latch false 3#4 l₁).latch false 3#4 l₂).latch false 3#4
      l₃).interface = .bytes := by
    rcases latch_three l₁ c with h | ⟨high, rfl | rfl, h⟩
    · exact bytes_latch_three (.inl (bytes_latch_three (.inl h) l₂)) l₃
    · rw [latch_first h]
      exact bytes_latch_three (.inr rfl) l₃
    · exact bytes_latch_three (.inl (bytes_latch_three (.inr h) l₂)) l₃
  rw [latch_bytes hbytes]
  exact execute_two l₄ _

theorem append_halves (b : BitVec 8) : (b >>> 4).setWidth 4 ++ b.setWidth 4 = b := by
  refine BitVec.eq_of_getLsbD_eq fun i hi => ?_
  rw [BitVec.getLsbD_append]
  split
  · next hlow => simp [hlow]
  · next hhigh => simp [show i - 4 < 4 by omega, show 4 + (i - 4) = i by omega]

theorem latch_latch (h : c.interface = .halves none) (data : Bool) (b : BitVec 8)
    (low low' : BitVec 4) :
    (c.latch data ((b >>> 4).setWidth 4) low).latch data (b.setWidth 4) low' = c.take data b := by
  rw [latch_first h, latch_second rfl, append_halves, ← h]

/-- Two lines, written from left to right, that stay where they are. -/
structure Upright (c : CharacterDisplay) : Prop where
  interface : c.interface = .halves none
  twoLine : c.twoLine = true
  increment : c.increment = true
  shift : c.shift = false
  offset : c.offset = 0
  displayOn : c.displayOn = true

def fill {β : Type*} (base : ℕ) : List β → (ℕ → β) → ℕ → β
  | [], m => m
  | x :: xs, m => fill (base + 1) xs (Function.update m base x)

theorem fill_apply {β : Type*} (base : ℕ) (xs : List β) (m : ℕ → β) (a : ℕ) :
    fill base xs m a = if base ≤ a then xs.getD (a - base) (m a) else m a := by
  induction xs generalizing base m with
  | nil => rw [fill, List.getD_nil, ite_self]
  | cons x xs ih =>
    rw [fill, ih]
    rcases Nat.lt_trichotomy a base with hlt | rfl | hgt
    · rw [if_neg (by omega), if_neg (by omega), Function.update_of_ne (by omega)]
    · rw [if_neg (by omega), if_pos le_rfl, Function.update_self, Nat.sub_self]
      rfl
    · rw [if_pos (by omega), if_pos (by omega), Function.update_of_ne (by omega),
        show a - base = a - (base + 1) + 1 by omega, List.getD_cons_succ]

theorem execute_cgramAddress {b : BitVec 8} (h7 : ¬b.getLsbD 7) (h6 : b.getLsbD 6)
    (c : CharacterDisplay) :
    c.execute b = { c with target := .cgram, address := (b.setWidth 6).toNat } := by
  rw [execute, if_neg h7, if_pos h6]

def storeAll (bytes : List (BitVec 8)) (c : CharacterDisplay) : CharacterDisplay :=
  bytes.foldl (fun c b => c.store b) c

/-- So many bytes fit from there on, into the rest of a line or of the generator's memory. -/
def Fits (address count : ℕ) : Memory → Prop
  | .cgram => address + count ≤ 64
  | .ddram => address + count ≤ 0x28 ∨ 0x40 ≤ address ∧ address + count ≤ 0x68

theorem Fits.next {address count : ℕ} {m : Memory} (h : Fits address (count + 2) m) :
    next true address m = address + 1 ∧ Fits (address + 1) (count + 1) m := by
  cases m with
  | cgram =>
    have hle : address + (count + 2) ≤ 64 := h
    exact ⟨Nat.mod_eq_of_lt (by omega), show address + 1 + (count + 1) ≤ 64 by omega⟩
  | ddram =>
    have hle : address + (count + 2) ≤ 0x28 ∨ 0x40 ≤ address ∧ address + (count + 2) ≤ 0x68 := h
    refine ⟨?_, show address + 1 + (count + 1) ≤ 0x28 ∨
      0x40 ≤ address + 1 ∧ address + 1 + (count + 1) ≤ 0x68 by omega⟩
    rw [CharacterDisplay.next, if_pos rfl, if_neg (by omega), if_neg (by omega),
      Nat.mod_eq_of_lt (by omega)]

theorem store_upright (h : c.Upright) (b : BitVec 8) :
    c.store b = { c with
      memory := Function.update c.memory c.target
        (Function.update (c.memory c.target) c.address b)
      address := next true c.address c.target } := by
  rw [store, h.shift, Bool.false_and, if_neg Bool.false_ne_true, moveOn, h.increment, if_pos rfl,
    h.twoLine]

theorem storeAll_upright (bytes : List (BitVec 8)) {c : CharacterDisplay} (h : c.Upright)
    (hfits : Fits c.address bytes.length c.target) :
    ∃ address, c.storeAll bytes = { c with
      memory := Function.update c.memory c.target
        (fill c.address bytes (c.memory c.target))
      address := address } := by
  induction bytes generalizing c with
  | nil => exact ⟨c.address, by rw [fill, Function.update_eq_self]; rfl⟩
  | cons b bytes ih =>
    cases bytes with
    | nil => exact ⟨_, store_upright h b⟩
    | cons b' bytes =>
      obtain ⟨hnext, hfits'⟩ := hfits.next
      have hstore := store_upright h b
      rw [hnext] at hstore
      obtain ⟨address, haddress⟩ := ih (c := c.store b) (by rw [hstore]; exact ⟨h.interface,
        h.twoLine, h.increment, h.shift, h.offset, h.displayOn⟩) (by rw [hstore]; exact hfits')
      refine ⟨address, ?_⟩
      rw [storeAll, List.foldl_cons]
      refine haddress.trans ?_
      simp only [hstore, Function.update_self, Function.update_idem]
      rfl

theorem interface_store (b : BitVec 8) (c : CharacterDisplay) :
    (c.store b).interface = c.interface := by
  unfold store
  split <;> rfl

theorem Upright.storeAll (h : c.Upright) {bytes : List (BitVec 8)}
    (hfits : Fits c.address bytes.length c.target) : (c.storeAll bytes).Upright := by
  obtain ⟨address, hbytes⟩ := storeAll_upright bytes h hfits
  rw [hbytes]
  exact ⟨h.interface, h.twoLine, h.increment, h.shift, h.offset, h.displayOn⟩

/-! A panel of four rows: the second half of either line is two rows further down. -/

def cell (columns r j : ℕ) (c : CharacterDisplay) : BitVec 8 :=
  c.memory .ddram (0x40 * (r % 2) + (columns * (r / 2) + j + c.offset) % 40)

def rowStart (columns r : ℕ) : ℕ := 0x40 * (r % 2) + columns * (r / 2)

theorem fits_row {columns r : ℕ} (hcolumns : columns ≤ 20) (hr : r < 4) :
    Fits (rowStart columns r) columns .ddram := by
  show rowStart columns r + columns ≤ 0x28 ∨
    0x40 ≤ rowStart columns r ∧ rowStart columns r + columns ≤ 0x68
  unfold rowStart
  interval_cases r <;> omega

theorem cell_storeAll {columns r r' j : ℕ} (h : c.Upright) (hcolumns : columns ≤ 20) (hr : r < 4)
    (hr' : r' < 4) (hj : j < columns) {bytes : List (BitVec 8)} (hbytes : bytes.length = columns)
    (htarget : c.target = .ddram) (haddress : c.address = rowStart columns r) :
    (c.storeAll bytes).cell columns r' j =
      if r' = r then bytes.getD j 0 else c.cell columns r' j := by
  have hfits : Fits c.address bytes.length c.target := by
    rw [htarget, haddress, hbytes]
    exact fits_row hcolumns hr
  obtain ⟨address, hstored⟩ := storeAll_upright bytes h hfits
  have hplace : (columns * (r' / 2) + j + c.offset) % 40 = columns * (r' / 2) + j := by
    rw [h.offset, Nat.add_zero, Nat.mod_eq_of_lt]
    interval_cases r' <;> omega
  simp only [hstored, cell, htarget, Function.update_self, fill_apply, haddress, hplace, rowStart]
  rcases eq_or_ne r' r with rfl | hne
  · rw [if_pos (by omega), if_pos rfl, Nat.add_sub_add_left, Nat.add_sub_cancel_left,
      List.getD_eq_getElem _ _ (by omega), List.getD_eq_getElem _ _ (by omega)]
  · -- the rows lie apart
    have hapart : 0x40 * (r % 2) + columns * (r / 2) ≤ 0x40 * (r' % 2) + (columns * (r' / 2) + j) →
        columns ≤ 0x40 * (r' % 2) + (columns * (r' / 2) + j) -
          (0x40 * (r % 2) + columns * (r / 2)) := by
      interval_cases r <;> interval_cases r' <;> omega
    rw [if_neg hne]
    split
    · next hle => rw [List.getD_eq_default _ _ (by rw [hbytes]; exact hapart hle)]
    · rfl

end CharacterDisplay

end Alko.Foundation
