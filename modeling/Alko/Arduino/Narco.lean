import Mathlib.Tactic
import Alko.Foundation.Bits

/-! The vending columns: motors, sold-out switches and rotation switches behind two 16-bit port
expanders, and the word in which the program packs what it read of them. -/

namespace Alko.Arduino

open Alko.Foundation

/-- A port expander: its output latch, and the levels its input pins show to the successive calls
of `digitalRead`. -/
structure Mcp23017 where
  olat : BitVec 16
  level : ℕ → ℕ → Bool
  reads : ℕ

namespace Mcp23017

def digitalWrite (p : ℕ) (v : Bool) (m : Mcp23017) : Mcp23017 :=
  if 15 < p then m else { m with olat := writeBit p v m.olat }

def digitalRead (p : ℕ) (m : Mcp23017) : Bool × Mcp23017 :=
  if 15 < p then (false, m) else (m.level m.reads p, { m with reads := m.reads + 1 })

theorem getLsbD_digitalWrite (p q : ℕ) (v : Bool) (m : Mcp23017) (h : p ≤ 15) :
    (m.digitalWrite p v).olat.getLsbD q = if q = p then v else m.olat.getLsbD q := by
  rw [digitalWrite, if_neg (Nat.not_lt.mpr h)]
  exact getLsbD_writeBit p q v m.olat (by omega)

end Mcp23017

structure Narco where
  mcp0 : Mcp23017
  mcp1 : Mcp23017
  -- `m_narco`: bits 0..8 full, bits 9..17 jammed, bits 18..21 the column chosen last.
  narco : BitVec 32
  infoText : List UInt8

namespace Narco

def emptyInfoText : List UInt8 :=
  [0x20, 0x20, 0x20, 0x20, 0x5B, 0x5F, 0x5F, 0x5F, 0x5F, 0x5F, 0x5F, 0x5F, 0x5F, 0x5F, 0x5D, 0]

def new (mcp0 mcp1 : Mcp23017) : Narco := ⟨mcp0, mcp1, 0, emptyInfoText⟩

/-- `if (!m_mcp0.digitalRead(p)) m_narco |= (1 << i); else m_narco &= ~(1 << i);` -/
def sample0 (p i : ℕ) (n : Narco) : Narco :=
  let r := n.mcp0.digitalRead p
  { n with mcp0 := r.2, narco := writeBit i (!r.1) n.narco }

def sample1 (p i : ℕ) (n : Narco) : Narco :=
  let r := n.mcp1.digitalRead p
  { n with mcp1 := r.2, narco := writeBit i (!r.1) n.narco }

def update (n : Narco) : Narco :=
  (List.range' 2 7).foldl (fun n i => n.sample1 (i - 2) i) ((n.sample0 0 0).sample0 1 1)

def isFull (column : ℤ) (n : Narco) : Bool :=
  if column < 1 ∨ 9 < column then false else (n.narco >>> (column - 1).toNat).getLsbD 0

def setFull (column : ℤ) (b : Bool) (n : Narco) : Narco :=
  if column < 1 ∨ 9 < column then n
  else { n with narco := writeBit (column - 1).toNat b n.narco }

def isJammed (column : ℤ) (n : Narco) : Bool :=
  if column < 1 ∨ 9 < column then false else (n.narco >>> (column + 8).toNat).getLsbD 0

def setJammed (column : ℤ) (b : Bool) (n : Narco) : Narco :=
  if column < 1 ∨ 9 < column then n
  else { n with narco := writeBit (column + 8).toNat b n.narco }

def isHome (column : ℤ) (n : Narco) : Bool × Narco :=
  if column < 1 ∨ 9 < column then (false, n)
  else
    let r := n.mcp1.digitalRead (column + 6).toNat
    (!r.1, { n with mcp1 := r.2 })

def updateWithJam (n : Narco) : Narco :=
  (List.range' 1 9).foldl
    (fun n (column : ℕ) =>
      let home := n.isHome column
      home.2.setJammed column (!home.1))
    n.update

def powerOff (n : Narco) : Narco :=
  let mcp0 := (List.range' 8 8).foldl (fun m i => m.digitalWrite i false) n.mcp0
  { n with mcp0 := mcp0.digitalWrite 2 false }

def powerOn (column : ℤ) (n : Narco) : Narco :=
  let n := n.powerOff
  if column < 1 ∨ 9 < column then n
  else if column = 9 then { n with mcp0 := n.mcp0.digitalWrite 2 true }
  else { n with mcp0 := n.mcp0.digitalWrite (column + 7).toNat true }

def setDeployColumn (column : ℕ) (n : Narco) : Narco :=
  { n with narco := n.narco ||| (BitVec.ofNat 32 column <<< 18) }

/-- The body of the two column loops, up to the `return`. -/
def canDeploy (n : Narco) (column : ℕ) : Bool := !n.isJammed column && n.isFull column

def getDeployColumn (n : Narco) : ℕ × Narco :=
  let n := n.updateWithJam
  let stored := ((n.narco >>> 18) &&& 0x0F#32).toNat
  let currentColumn := if stored = 0 then 1 else stored
  match (List.range' currentColumn (10 - currentColumn)).find? n.canDeploy with
  | some column => (column, n.setDeployColumn column)
  | none =>
    match (List.range' 1 (currentColumn - 1)).find? n.canDeploy with
    | some column => (column, n.setDeployColumn column)
    | none => (0, n)

def getInfoText (n : Narco) : List UInt8 × Narco :=
  let n := n.updateWithJam
  let infoText := (List.range' 1 9).foldl
    (fun text (column : ℕ) =>
      let text := if n.isFull column then text.set (14 - column) 0x23 else text
      if n.isJammed column then text.set (14 - column) 0x4A else text)
    n.infoText
  (infoText, { n with infoText := infoText })

/-- Pin modes, pull-ups and interrupt registers are set up; the motors are switched off. -/
def begin (n : Narco) : Narco := n.powerOff

def getRawData (n : Narco) : BitVec 32 := n.narco

def readsFull (n : Narco) (column : ℕ) : Bool :=
  if column ≤ 2 then !n.mcp0.level (n.mcp0.reads + (column - 1)) (column - 1)
  else !n.mcp1.level (n.mcp1.reads + (column - 3)) (column - 3)

def readsHome (n : Narco) (column : ℕ) : Bool :=
  !n.mcp1.level (n.mcp1.reads + (column + 6)) (column + 6)

/-- One pass of either scan loop: pin `i - 2` of the second expander goes to bit `i`. -/
def store (low : Bool) (n : Narco) (i : ℕ) : Narco :=
  let r := n.mcp1.digitalRead (i - 2)
  { n with mcp1 := r.2, narco := writeBit i (xor low r.1) n.narco }

theorem store_of_lt (low : Bool) (n : Narco) {i : ℕ} (hi : i < 18) :
    n.store low i = { n with
      mcp1 := { n.mcp1 with reads := n.mcp1.reads + 1 }
      narco := writeBit i (xor low (n.mcp1.level n.mcp1.reads (i - 2))) n.narco } := by
  simp only [store, Mcp23017.digitalRead, if_neg (show ¬15 < i - 2 by omega)]

/-- The loop invariant of both scan loops. -/
theorem foldl_store (low : Bool) (k a : ℕ) (n : Narco) (h : a + k ≤ 18) :
    ∃ w : BitVec 32,
      (List.range' a k).foldl (store low) n = { n with
        mcp1 := { n.mcp1 with reads := n.mcp1.reads + k }, narco := w } ∧
      ∀ j, w.getLsbD j =
        if a ≤ j ∧ j < a + k then xor low (n.mcp1.level (n.mcp1.reads + (j - a)) (j - 2))
        else n.narco.getLsbD j := by
  induction k generalizing a n with
  | zero => exact ⟨n.narco, rfl, fun j => by rw [if_neg (by omega)]⟩
  | succ k ih =>
    obtain ⟨w, hw, hbits⟩ := ih (a + 1) (n.store low a) (by omega)
    refine ⟨w, ?_, fun j => ?_⟩
    · rw [List.range'_succ, List.foldl_cons, hw, store_of_lt low n (by omega)]
      simp only [Nat.add_assoc, Nat.add_comm 1 k]
    · rw [hbits j, store_of_lt low n (by omega)]
      simp only [getLsbD_writeBit a j _ _ (show a < 32 by omega)]
      rcases Nat.lt_trichotomy j a with hlt | rfl | hgt
      · rw [if_neg (by omega), if_neg (by omega), if_neg (by omega)]
      · rw [if_neg (by omega), if_pos rfl, if_pos (by omega), Nat.sub_self, Nat.add_zero]
      · by_cases hj : j < a + (k + 1)
        · rw [if_pos (by omega), if_pos (by omega)]
          congr 2
          omega
        · rw [if_neg (by omega), if_neg (by omega), if_neg (by omega)]

theorem update_spec (n : Narco) : ∃ w : BitVec 32,
    n.update = { n with
      mcp0 := { n.mcp0 with reads := n.mcp0.reads + 2 }
      mcp1 := { n.mcp1 with reads := n.mcp1.reads + 7 }
      narco := w } ∧
    ∀ j, w.getLsbD j = if j < 9 then n.readsFull (j + 1) else n.narco.getLsbD j := by
  obtain ⟨w, hw, hbits⟩ := foldl_store true 7 2 ((n.sample0 0 0).sample0 1 1) (by omega)
  have hstep : (fun (n : Narco) i => n.sample1 (i - 2) i) = store true := by
    funext n i
    simp only [sample1, store, Bool.true_xor]
  refine ⟨w, ?_, fun j => ?_⟩
  · rw [update, hstep, hw]
    rfl
  · rw [hbits j]
    simp only [sample0, Mcp23017.digitalRead, Nat.not_lt_zero, if_false, Bool.true_xor,
      show ¬15 < 1 by omega, getLsbD_writeBit 1 j _ _ (show 1 < 32 by omega),
      getLsbD_writeBit 0 j _ _ (show 0 < 32 by omega), readsFull]
    rcases j with _ | _ | j
    · rfl
    · rfl
    · by_cases hj : j + 2 < 9
      · rw [if_pos (by omega), if_pos (by omega), if_neg (by omega)]
        rfl
      · rw [if_neg (by omega), if_neg (by omega), if_neg (by omega), if_neg (by omega)]

theorem setJammed_isHome (n : Narco) (column : ℕ) (h : 1 ≤ column) (h' : column ≤ 9) :
    ((n.isHome column).2.setJammed column (!(n.isHome column).1)) =
      n.store false (column + 8) := by
  have hrange : ¬((column : ℤ) < 1 ∨ 9 < (column : ℤ)) := by omega
  have hpin : ((column : ℤ) + 6).toNat = column + 8 - 2 := by omega
  have hbit : ((column : ℤ) + 8).toNat = column + 8 := by omega
  simp only [isHome, setJammed, if_neg hrange, hpin, hbit, store, Bool.not_not, Bool.false_xor]

theorem updateWithJam_spec (n : Narco) : ∃ w : BitVec 32,
    n.updateWithJam = { n with
      mcp0 := { n.mcp0 with reads := n.mcp0.reads + 2 }
      mcp1 := { n.mcp1 with reads := n.mcp1.reads + 16 }
      narco := w } ∧
    (∀ j < 9, w.getLsbD j = n.readsFull (j + 1)) ∧
    (∀ c, 1 ≤ c → c ≤ 9 → w.getLsbD (c + 8) = !n.readsHome c) ∧
    ∀ j, 18 ≤ j → w.getLsbD j = n.narco.getLsbD j := by
  obtain ⟨u, hu, hfull⟩ := n.update_spec
  obtain ⟨w, hw, hbits⟩ := foldl_store false 9 9 n.update (by omega)
  -- the second scan starts at bit 9: the bits 0 to 8 stay as the first has left them
  refine ⟨w, ?_, fun j hj => ?_, fun c hc hc' => ?_, fun j hj => ?_⟩
  · have hfold : n.updateWithJam = (List.range' 9 9).foldl (store false) n.update := by
      rw [updateWithJam, show List.range' 9 9 = (List.range' 1 9).map (· + 8) by decide,
        List.foldl_map]
      apply List.foldl_ext
      intro m c hc
      rw [List.mem_range'_1] at hc
      exact setJammed_isHome m c hc.1 (by omega)
    rw [hfold, hw, hu]
  · rw [hbits, if_neg (by omega), hu]
    exact (hfull j).trans (if_pos hj)
  · rw [hbits, if_pos (by omega), hu]
    simp only [Bool.false_xor, readsHome, Bool.not_not, Nat.add_assoc]
    congr 1
    omega
  · rw [hbits, if_neg (by omega), hu]
    exact (hfull j).trans (if_neg (by omega))

def columnAvailable (n : Narco) : Bool :=
  (List.range' 1 9).any fun column => n.readsFull column && n.readsHome column

theorem isFull_of_mem (n : Narco) {column : ℕ} (h : 1 ≤ column) (h' : column ≤ 9) :
    n.isFull column = n.narco.getLsbD (column - 1) := by
  have hrange : ¬((column : ℤ) < 1 ∨ 9 < (column : ℤ)) := by omega
  have hbit : ((column : ℤ) - 1).toNat = column - 1 := by omega
  rw [isFull, if_neg hrange, hbit, BitVec.getLsbD_ushiftRight, Nat.add_zero]

theorem isJammed_of_mem (n : Narco) {column : ℕ} (h : 1 ≤ column) (h' : column ≤ 9) :
    n.isJammed column = n.narco.getLsbD (column + 8) := by
  have hrange : ¬((column : ℤ) < 1 ∨ 9 < (column : ℤ)) := by omega
  have hbit : ((column : ℤ) + 8).toNat = column + 8 := by omega
  rw [isJammed, if_neg hrange, hbit, BitVec.getLsbD_ushiftRight, Nat.add_zero]

theorem canDeploy_updateWithJam (n : Narco) (column : ℕ) :
    n.updateWithJam.canDeploy column = true ↔
      1 ≤ column ∧ column ≤ 9 ∧ n.readsFull column = true ∧ n.readsHome column = true := by
  by_cases hrange : 1 ≤ column ∧ column ≤ 9
  · obtain ⟨w, hw, hfull, hhome, -⟩ := n.updateWithJam_spec
    have hf := hfull (column - 1) (by omega)
    rw [Nat.sub_add_cancel hrange.1] at hf
    rw [canDeploy, isJammed_of_mem _ hrange.1 hrange.2, isFull_of_mem _ hrange.1 hrange.2, hw]
    simp only [hf, hhome column hrange.1 hrange.2, hrange, Bool.not_not, Bool.and_eq_true,
      true_and]
    exact And.comm
  · have hout : (column : ℤ) < 1 ∨ 9 < (column : ℤ) := by omega
    simp only [canDeploy, isFull, if_pos hout, Bool.and_false, Bool.false_eq_true, false_iff]
    exact fun h => hrange ⟨h.1, h.2.1⟩

/-- The chosen column was read full and home by the scan of that very call; no column is chosen
only when no column was. -/
theorem getDeployColumn_spec (n : Narco) :
    (n.getDeployColumn.1 = 0 ∧ n.columnAvailable = false) ∨
      (1 ≤ n.getDeployColumn.1 ∧ n.getDeployColumn.1 ≤ 9 ∧
        n.readsFull n.getDeployColumn.1 = true ∧ n.readsHome n.getDeployColumn.1 = true) := by
  unfold getDeployColumn
  simp only
  set start := if ((n.updateWithJam.narco >>> 18) &&& 0x0F#32).toNat = 0 then 1
    else ((n.updateWithJam.narco >>> 18) &&& 0x0F#32).toNat with hstart
  have hpos : 1 ≤ start := by
    rw [hstart]
    split <;> omega
  -- first the columns from the one chosen last on, then those before it
  cases h1 : (List.range' start (10 - start)).find? n.updateWithJam.canDeploy with
  | some column => exact Or.inr ((canDeploy_updateWithJam n column).mp (List.find?_some h1))
  | none =>
    simp only
    cases h2 : (List.range' 1 (start - 1)).find? n.updateWithJam.canDeploy with
    | some column => exact Or.inr ((canDeploy_updateWithJam n column).mp (List.find?_some h2))
    | none =>
      refine Or.inl ⟨rfl, ?_⟩
      rw [List.find?_eq_none] at h1 h2
      rw [columnAvailable, List.any_eq_false]
      intro column hc
      rw [List.mem_range'_1] at hc
      rw [Bool.and_eq_true]
      intro hread
      -- no column is left out: the two ranges make up 1 to 9
      have hcan := (canDeploy_updateWithJam n column).mpr ⟨hc.1, by omega, hread⟩
      rcases Nat.lt_or_ge column start with hlt | hge
      · exact h2 column (List.mem_range'_1.mpr (by omega)) hcan
      · exact h1 column (List.mem_range'_1.mpr (by omega)) hcan

theorem getDeployColumn_le (n : Narco) : n.getDeployColumn.1 ≤ 9 := by
  rcases n.getDeployColumn_spec with h | h <;> omega

theorem getDeployColumn_eq_zero_iff (n : Narco) :
    n.getDeployColumn.1 = 0 ↔ n.columnAvailable = false := by
  rcases n.getDeployColumn_spec with ⟨h, h'⟩ | ⟨h, h', hread⟩
  · exact iff_of_true h h'
  · refine iff_of_false (by omega) ?_
    rw [columnAvailable, Bool.not_eq_false, List.any_eq_true]
    exact ⟨_, List.mem_range'_1.mpr ⟨h, by omega⟩, by rw [hread.1, hread.2]; rfl⟩

/-! A scan reads two pins of the first expander and sixteen of the second; of the rest it changes
the packed word only. -/

def scanned (n : Narco) (w : BitVec 32) (infoText : List UInt8) : Narco :=
  ⟨{ n.mcp0 with reads := n.mcp0.reads + 2 }, { n.mcp1 with reads := n.mcp1.reads + 16 }, w,
    infoText⟩

theorem getDeployColumn_snd (n : Narco) :
    ∃ w, n.getDeployColumn.2 = n.scanned w n.infoText := by
  obtain ⟨w, hw, -⟩ := n.updateWithJam_spec
  unfold getDeployColumn
  simp only
  split
  · exact ⟨_, by rw [setDeployColumn, hw]; rfl⟩
  · split
    · exact ⟨_, by rw [setDeployColumn, hw]; rfl⟩
    · exact ⟨w, hw⟩

theorem getInfoText_snd (n : Narco) : ∃ w text, n.getInfoText.2 = n.scanned w text := by
  obtain ⟨w, hw, -⟩ := n.updateWithJam_spec
  exact ⟨w, _, by rw [getInfoText, hw]; rfl⟩

theorem columnAvailable_congr {n m : Narco} (h0 : m.mcp0 = n.mcp0) (h1 : m.mcp1 = n.mcp1) :
    m.columnAvailable = n.columnAvailable := by
  simp only [columnAvailable, readsFull, readsHome, h0, h1]

def motorPin (column : ℕ) : ℕ := if column = 9 then 2 else column + 7

def motorPins : List ℕ := [8, 9, 10, 11, 12, 13, 14, 15, 2]

def poweredPins (n : Narco) : List ℕ := motorPins.filter fun p => n.mcp0.olat.getLsbD p

theorem foldl_digitalWrite (v : Bool) (ps : List ℕ) (hps : ∀ p ∈ ps, p ≤ 15) (m : Mcp23017) :
    ∃ olat : BitVec 16,
      ps.foldl (fun m i => m.digitalWrite i v) m = { m with olat := olat } ∧
      ∀ q, olat.getLsbD q = if q ∈ ps then v else m.olat.getLsbD q := by
  induction ps generalizing m with
  | nil => exact ⟨m.olat, rfl, fun q => rfl⟩
  | cons p ps ih =>
    have hp : p ≤ 15 := hps p List.mem_cons_self
    obtain ⟨olat, hfold, hbits⟩ :=
      ih (fun q hq => hps q (List.mem_cons_of_mem _ hq)) (m.digitalWrite p v)
    refine ⟨olat, ?_, fun q => ?_⟩
    · rw [List.foldl_cons, hfold, Mcp23017.digitalWrite, if_neg (Nat.not_lt.mpr hp)]
    · rw [hbits q, Mcp23017.getLsbD_digitalWrite p q v m hp]
      by_cases hmem : q ∈ ps <;> simp [hmem]

theorem powerOff_spec (n : Narco) : ∃ olat : BitVec 16,
    n.powerOff = { n with mcp0 := { n.mcp0 with olat := olat } } ∧
    ∀ q ∈ motorPins, olat.getLsbD q = false := by
  obtain ⟨olat, hfold, hbits⟩ :=
    foldl_digitalWrite false (List.range' 8 8) (by decide) n.mcp0
  refine ⟨writeBit 2 false olat, ?_, fun q hq => ?_⟩
  · rw [powerOff, hfold]
    rfl
  · rw [getLsbD_writeBit 2 q false olat (by omega), hbits q]
    have hcases : q = 2 ∨ q ∈ List.range' 8 8 := by
      revert q
      decide
    rcases hcases with rfl | hmem
    · rw [if_pos rfl]
    · rw [if_pos hmem, ite_self]

theorem powerOn_spec (n : Narco) (column : ℕ) : ∃ olat : BitVec 16,
    n.powerOn column = { n with mcp0 := { n.mcp0 with olat := olat } } ∧
    ∀ q ∈ motorPins, olat.getLsbD q =
      decide (1 ≤ column ∧ column ≤ 9 ∧ q = motorPin column) := by
  obtain ⟨off, hoff, hbits⟩ := n.powerOff_spec
  by_cases hrange : (column : ℤ) < 1 ∨ 9 < (column : ℤ)
  · refine ⟨off, ?_, fun q hq => ?_⟩
    · rw [powerOn, if_pos hrange, hoff]
    · rw [hbits q hq, eq_comm, decide_eq_false_iff_not]
      omega
  · have hpin : motorPin column ≤ 15 := by
      unfold motorPin
      split <;> omega
    refine ⟨writeBit (motorPin column) true off, ?_, fun q hq => ?_⟩
    · have hwrite (m : Mcp23017) : m.digitalWrite (motorPin column) true =
          { m with olat := writeBit (motorPin column) true m.olat } :=
        if_neg (Nat.not_lt.mpr hpin)
      have hnine : ((column : ℤ) = 9) ↔ column = 9 := by omega
      have htoNat : ((column : ℤ) + 7).toNat = column + 7 := by omega
      rw [powerOn, if_neg hrange, hoff]
      simp only [hnine, htoNat]
      unfold motorPin at hwrite ⊢
      split
      · rename_i h9
        simpa only [if_pos h9] using congrArg (fun m => ({ n with mcp0 := m } : Narco)) (hwrite _)
      · rename_i h9
        simpa only [if_neg h9] using congrArg (fun m => ({ n with mcp0 := m } : Narco)) (hwrite _)
    · rw [getLsbD_writeBit _ q true off (by omega), hbits q hq]
      by_cases hq' : q = motorPin column
      · rw [if_pos hq', eq_comm, decide_eq_true_eq]
        exact ⟨by omega, by omega, hq'⟩
      · rw [if_neg hq', eq_comm, decide_eq_false_iff_not]
        exact fun h => hq' h.2.2

@[simp] theorem poweredPins_powerOff (n : Narco) : n.powerOff.poweredPins = [] := by
  obtain ⟨olat, hn, hbits⟩ := n.powerOff_spec
  rw [poweredPins, hn, List.filter_eq_nil_iff]
  intro q hq
  rw [hbits q hq]
  exact Bool.false_ne_true

theorem poweredPins_powerOn (n : Narco) (column : ℕ) :
    (n.powerOn column).poweredPins =
      if 1 ≤ column ∧ column ≤ 9 then [motorPin column] else [] := by
  obtain ⟨olat, hn, hbits⟩ := n.powerOn_spec column
  have hfilter : (n.powerOn column).poweredPins =
      motorPins.filter fun q => decide (1 ≤ column ∧ column ≤ 9 ∧ q = motorPin column) := by
    rw [poweredPins, hn]
    exact List.filter_congr hbits
  rw [hfilter]
  split
  · rename_i h
    obtain ⟨h1, h9⟩ := h
    interval_cases column <;> decide
  · rename_i h
    rw [List.filter_eq_nil_iff]
    intro q _
    rw [decide_eq_true_eq]
    exact fun h' => h ⟨h'.1, h'.2.1⟩

end Narco

end Alko.Arduino
