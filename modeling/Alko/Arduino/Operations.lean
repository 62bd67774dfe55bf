import Alko.Arduino.Narco

/-! Histories of the columns' object: its operations in any order, each with what the pins show
while it runs. -/

namespace Alko.Arduino

open Alko.Foundation

/-- The levels that the pins of either expander show to the successive reads of one call. -/
structure Sensors where
  mcp0 : ℕ → ℕ → Bool
  mcp1 : ℕ → ℕ → Bool

namespace Sensors

def full (s : Sensors) (column : ℕ) : Bool :=
  if column ≤ 2 then !s.mcp0 (column - 1) (column - 1) else !s.mcp1 (column - 3) (column - 3)

def home (s : Sensors) (column : ℕ) : Bool := !s.mcp1 (column + 6) (column + 6)

def available (s : Sensors) (column : ℕ) : Bool :=
  decide (1 ≤ column ∧ column ≤ 9) && (s.full column && s.home column)

def steady (mcp0 mcp1 : ℕ → Bool) : Sensors := ⟨fun _ => mcp0, fun _ => mcp1⟩

end Sensors

/-- What changes the object; `isFull`, `isJammed` and `getRawData` only look at it, and nobody else
calls `setDeployColumn`. -/
inductive Operation
  | begin
  | update
  | updateWithJam
  | setFull (column : ℤ) (b : Bool)
  | setJammed (column : ℤ) (b : Bool)
  | isHome (column : ℤ)
  | powerOn (column : ℤ)
  | powerOff
  | getDeployColumn
  | getInfoText
  deriving DecidableEq

namespace Narco

@[simps] def sensing (s : Sensors) (n : Narco) : Narco :=
  { n with mcp0 := ⟨n.mcp0.olat, s.mcp0, 0⟩, mcp1 := ⟨n.mcp1.olat, s.mcp1, 0⟩ }

def perform : Operation → Narco → Narco
  | .begin, n => n.begin
  | .update, n => n.update
  | .updateWithJam, n => n.updateWithJam
  | .setFull column b, n => n.setFull column b
  | .setJammed column b, n => n.setJammed column b
  | .isHome column, n => (n.isHome column).2
  | .powerOn column, n => n.powerOn column
  | .powerOff, n => n.powerOff
  | .getDeployColumn, n => n.getDeployColumn.2
  | .getInfoText, n => n.getInfoText.2

@[simp] theorem readsFull_sensing (s : Sensors) (n : Narco) (column : ℕ) :
    (n.sensing s).readsFull column = s.full column := by
  simp only [readsFull, Sensors.full, sensing_mcp0_level, sensing_mcp0_reads, sensing_mcp1_level,
    sensing_mcp1_reads, Nat.zero_add]

@[simp] theorem readsHome_sensing (s : Sensors) (n : Narco) (column : ℕ) :
    (n.sensing s).readsHome column = s.home column := by
  simp only [readsHome, Sensors.home, sensing_mcp1_level, sensing_mcp1_reads, Nat.zero_add]

theorem getLsbD_setFull (n : Narco) (column : ℤ) (b : Bool) (j : ℕ) :
    (n.setFull column b).narco.getLsbD j =
      if 1 ≤ column ∧ column ≤ 9 ∧ (j : ℤ) = column - 1 then b else n.narco.getLsbD j := by
  unfold setFull
  split
  · rw [if_neg (by omega)]
  · rw [getLsbD_writeBit _ _ _ _ (by omega)]
    exact if_congr (by omega) rfl rfl

theorem getLsbD_setJammed (n : Narco) (column : ℤ) (b : Bool) (j : ℕ) :
    (n.setJammed column b).narco.getLsbD j =
      if 1 ≤ column ∧ column ≤ 9 ∧ (j : ℤ) = column + 8 then b else n.narco.getLsbD j := by
  unfold setJammed
  split
  · rw [if_neg (by omega)]
  · rw [getLsbD_writeBit _ _ _ _ (by omega)]
    exact if_congr (by omega) rfl rfl

theorem setFull_frame (n : Narco) (column : ℤ) (b : Bool) :
    (n.setFull column b).infoText = n.infoText ∧
      ∀ j, 18 ≤ j → (n.setFull column b).narco.getLsbD j = n.narco.getLsbD j := by
  refine ⟨?_, fun j hj => ?_⟩
  · unfold setFull
    split <;> rfl
  · rw [getLsbD_setFull, if_neg (by omega)]

theorem setJammed_frame (n : Narco) (column : ℤ) (b : Bool) :
    (n.setJammed column b).infoText = n.infoText ∧
      ∀ j, 18 ≤ j → (n.setJammed column b).narco.getLsbD j = n.narco.getLsbD j := by
  refine ⟨?_, fun j hj => ?_⟩
  · unfold setJammed
    split <;> rfl
  · rw [getLsbD_setJammed, if_neg (by omega)]

theorem isHome_frame (n : Narco) (column : ℤ) :
    (n.isHome column).2.infoText = n.infoText ∧ (n.isHome column).2.narco = n.narco := by
  unfold isHome
  split <;> exact ⟨rfl, rfl⟩

theorem powerOff_frame (n : Narco) :
    n.powerOff.infoText = n.infoText ∧ n.powerOff.narco = n.narco := by
  obtain ⟨olat, hn, -⟩ := n.powerOff_spec
  rw [hn]
  exact ⟨rfl, rfl⟩

theorem powerOn_frame (n : Narco) (column : ℤ) :
    (n.powerOn column).infoText = n.infoText ∧ (n.powerOn column).narco = n.narco := by
  have hoff := n.powerOff_frame
  unfold powerOn
  split
  · exact hoff
  · split <;> exact hoff

theorem updateWithJam_frame (n : Narco) :
    n.updateWithJam.infoText = n.infoText ∧
      ∀ j, 18 ≤ j → n.updateWithJam.narco.getLsbD j = n.narco.getLsbD j := by
  obtain ⟨w, hw, -, -, hkept⟩ := n.updateWithJam_spec
  rw [hw]
  exact ⟨rfl, hkept⟩

theorem update_frame (n : Narco) :
    n.update.infoText = n.infoText ∧
      ∀ j, 18 ≤ j → n.update.narco.getLsbD j = n.narco.getLsbD j := by
  obtain ⟨w, hw, hbits⟩ := n.update_spec
  rw [hw]
  exact ⟨rfl, fun j hj => (hbits j).trans (if_neg (by omega))⟩

/-- Only the choice of a column changes the upper bits of the packed word. -/
theorem perform_keeps_upper {op : Operation} (hop : op ≠ .getDeployColumn) (n : Narco) {j : ℕ}
    (hj : 18 ≤ j) : (n.perform op).narco.getLsbD j = n.narco.getLsbD j := by
  cases op with
  | begin => exact congrArg (BitVec.getLsbD · j) n.powerOff_frame.2
  | update => exact n.update_frame.2 j hj
  | updateWithJam => exact n.updateWithJam_frame.2 j hj
  | setFull column b => exact (n.setFull_frame column b).2 j hj
  | setJammed column b => exact (n.setJammed_frame column b).2 j hj
  | isHome column => exact congrArg (BitVec.getLsbD · j) (n.isHome_frame column).2
  | powerOn column => exact congrArg (BitVec.getLsbD · j) (n.powerOn_frame column).2
  | powerOff => exact congrArg (BitVec.getLsbD · j) n.powerOff_frame.2
  | getDeployColumn => exact absurd rfl hop
  | getInfoText => exact n.updateWithJam_frame.2 j hj

theorem perform_keeps_infoText {op : Operation} (hop : op ≠ .getInfoText) (n : Narco) :
    (n.perform op).infoText = n.infoText := by
  cases op with
  | begin => exact n.powerOff_frame.1
  | update => exact n.update_frame.1
  | updateWithJam => exact n.updateWithJam_frame.1
  | setFull column b => exact (n.setFull_frame column b).1
  | setJammed column b => exact (n.setJammed_frame column b).1
  | isHome column => exact (n.isHome_frame column).1
  | powerOn column => exact (n.powerOn_frame column).1
  | powerOff => exact n.powerOff_frame.1
  | getDeployColumn =>
    obtain ⟨w, hw⟩ := n.getDeployColumn_snd
    rw [perform, hw]
    rfl
  | getInfoText => exact absurd rfl hop

end Narco

end Alko.Arduino
