import Alko.Arduino.Operations
import Alko.Foundation.Logs

/-! The packed word as the board computes it, where an `int` has 16 bits and a `long` 32: every
mask is shifted and complemented at the width of its literal and then converted to the width of
the word. -/

namespace Alko.Arduino.Avr

open Alko.Foundation

variable {w : ℕ}

/-- A signed operand of `|=`, `&=` or `&` beside a `uint32_t` is sign-extended first. -/
def toUint32 (x : BitVec w) : BitVec 32 := x.signExtend 32

/-- `if (b) word |= mask; else word &= ~mask;` -/
def writeMask (mask : BitVec w) (b : Bool) (word : BitVec 32) : BitVec 32 :=
  if b then word ||| toUint32 mask else word &&& toUint32 (~~~mask)

theorem toUint32_one_shiftLeft {i : ℕ} (hi : i + 1 < w) (hw : w ≤ 32) :
    toUint32 (1#w <<< i) = 1#32 <<< i := by
  have hmsb : (1#w <<< i).msb = false := by
    rw [BitVec.msb_eq_getLsbD_last, getLsbD_one_shiftLeft, decide_eq_false_iff_not]
    omega
  apply BitVec.eq_of_getLsbD_eq
  intro j hj
  rw [toUint32, BitVec.getLsbD_signExtend, hmsb, getLsbD_one_shiftLeft, getLsbD_one_shiftLeft,
    decide_eq_true hj, Bool.true_and]
  split
  · rename_i hjw
    simp only [hjw, hj, true_and]
  · rename_i hjw
    rw [eq_comm, decide_eq_false_iff_not]
    omega

theorem writeMask_one_shiftLeft {i : ℕ} (hi : i + 1 < w) (hw : w ≤ 32) (b : Bool)
    (word : BitVec 32) : writeMask (1#w <<< i) b word = writeBit i b word := by
  have hnot : toUint32 (~~~(1#w <<< i)) = ~~~(1#32 <<< i) := by
    rw [toUint32, BitVec.signExtend_not (by omega), ← toUint32, toUint32_one_shiftLeft hi hw]
  rw [writeMask, writeBit, toUint32_one_shiftLeft hi hw, hnot]

-- the sign bit itself is copied into the upper half
example : writeMask (1#16 <<< 15) true 0#32 = 0xFFFF8000#32 := by decide

def sample0 (p : ℕ) (mask : BitVec 16) (n : Narco) : Narco :=
  let r := n.mcp0.digitalRead p
  { n with mcp0 := r.2, narco := writeMask mask (!r.1) n.narco }

def sample1 (p : ℕ) (mask : BitVec 16) (n : Narco) : Narco :=
  let r := n.mcp1.digitalRead p
  { n with mcp1 := r.2, narco := writeMask mask (!r.1) n.narco }

def update (n : Narco) : Narco :=
  (List.range' 2 7).foldl (fun n i => sample1 (i - 2) (1#16 <<< i) n)
    (sample0 1 (1#16 <<< 1) (sample0 0 1#16 n))

def isFull (column : BitVec 16) (n : Narco) : Bool :=
  if column.toInt < 1 ∨ 9 < column.toInt then false
  else (n.narco >>> (column - 1#16)) &&& toUint32 0x01#16 != 0#32

def setFull (column : BitVec 16) (b : Bool) (n : Narco) : Narco :=
  if column.toInt < 1 ∨ 9 < column.toInt then n
  else { n with narco := writeMask (1#16 <<< (column - 1#16)) b n.narco }

def isJammed (column : BitVec 16) (n : Narco) : Bool :=
  if column.toInt < 1 ∨ 9 < column.toInt then false
  else (n.narco >>> (column + 8#16)) &&& toUint32 0x01#16 != 0#32

def setJammed (column : BitVec 16) (b : Bool) (n : Narco) : Narco :=
  if column.toInt < 1 ∨ 9 < column.toInt then n
  else { n with narco := writeMask (1#32 <<< (column + 8#16)) b n.narco }

def updateWithJam (n : Narco) : Narco :=
  (List.range' 1 9).foldl
    (fun n (column : ℕ) =>
      let home := n.isHome column
      setJammed (BitVec.ofNat 16 column) (!home.1) home.2)
    (update n)

def setDeployColumn (column : UInt8) (n : Narco) : Narco :=
  { n with narco := n.narco ||| (column.toBitVec.setWidth 32 <<< 18) }

theorem and_one_bne_zero (word : BitVec 32) :
    (word &&& toUint32 0x01#16 != 0#32) = word.getLsbD 0 := by
  have hone : toUint32 0x01#16 = 1#32 := by decide
  rw [hone, BitVec.and_one_eq_setWidth_ofBool_getLsbD]
  cases word.getLsbD 0 <;> rfl

theorem toNat_column {column : BitVec 16} (h : ¬(column.toInt < 1 ∨ 9 < column.toInt)) :
    (column - 1#16).toNat = (column.toInt - 1).toNat ∧
      (column + 8#16).toNat = (column.toInt + 8).toNat ∧ column.toInt.toNat ≤ 9 := by
  rw [BitVec.toInt_eq_toNat_cond] at h ⊢
  split at h <;> bv_omega

theorem isFull_eq (column : BitVec 16) (n : Narco) : isFull column n = n.isFull column.toInt := by
  unfold isFull Narco.isFull
  split
  · rfl
  · rename_i h
    rw [and_one_bne_zero, BitVec.ushiftRight_eq', (toNat_column h).1]

theorem isJammed_eq (column : BitVec 16) (n : Narco) :
    isJammed column n = n.isJammed column.toInt := by
  unfold isJammed Narco.isJammed
  split
  · rfl
  · rename_i h
    rw [and_one_bne_zero, BitVec.ushiftRight_eq', (toNat_column h).2.1]

theorem setFull_eq (column : BitVec 16) (b : Bool) (n : Narco) :
    setFull column b n = n.setFull column.toInt b := by
  unfold setFull Narco.setFull
  split
  · rfl
  · rename_i h
    obtain ⟨hshift, -, hle⟩ := toNat_column h
    rw [BitVec.shiftLeft_eq', hshift, writeMask_one_shiftLeft (by omega) (by decide)]

theorem setJammed_eq (column : BitVec 16) (b : Bool) (n : Narco) :
    setJammed column b n = n.setJammed column.toInt b := by
  unfold setJammed Narco.setJammed
  split
  · rfl
  · rename_i h
    obtain ⟨-, hshift, hle⟩ := toNat_column h
    rw [BitVec.shiftLeft_eq', hshift, writeMask_one_shiftLeft (by omega) le_rfl]

theorem sample0_eq (p : ℕ) {i : ℕ} (hi : i < 15) (n : Narco) :
    sample0 p (1#16 <<< i) n = n.sample0 p i := by
  rw [sample0, Narco.sample0, writeMask_one_shiftLeft (by omega) (by decide)]

theorem sample1_eq (p : ℕ) {i : ℕ} (hi : i < 15) (n : Narco) :
    sample1 p (1#16 <<< i) n = n.sample1 p i := by
  rw [sample1, Narco.sample1, writeMask_one_shiftLeft (by omega) (by decide)]

theorem update_eq (n : Narco) : update n = n.update := by
  have hfirst : sample0 0 1#16 n = n.sample0 0 0 := by
    rw [← sample0_eq 0 (by decide), BitVec.shiftLeft_zero]
  rw [update, Narco.update, hfirst, sample0_eq 1 (by decide)]
  apply List.foldl_ext
  intro m i hi
  rw [List.mem_range'_1] at hi
  exact sample1_eq (i - 2) (by omega) m

theorem updateWithJam_eq (n : Narco) : updateWithJam n = n.updateWithJam := by
  rw [updateWithJam, Narco.updateWithJam, update_eq]
  apply List.foldl_ext
  intro m column hc
  rw [List.mem_range'_1] at hc
  have htoInt : (BitVec.ofNat 16 column).toInt = column := by
    rw [BitVec.toInt_eq_toNat_cond, BitVec.toNat_ofNat]
    omega
  rw [setJammed_eq, htoInt]

theorem setDeployColumn_eq (column : UInt8) (n : Narco) :
    setDeployColumn column n = n.setDeployColumn column.toNat := by
  rw [setDeployColumn, Narco.setDeployColumn, ← UInt8.toNat_toBitVec, BitVec.ofNat_toNat]

theorem getLsbD_update (s : Sensors) (n : Narco) (j : ℕ) :
    (n.sensing s).update.narco.getLsbD j =
      if j < 9 then s.full (j + 1) else n.narco.getLsbD j := by
  obtain ⟨word, hword, hbits⟩ := (n.sensing s).update_spec
  rw [hword, hbits, Narco.readsFull_sensing, Narco.sensing_narco]

theorem getLsbD_updateWithJam (s : Sensors) (n : Narco) (j : ℕ) :
    (n.sensing s).updateWithJam.narco.getLsbD j =
      if j < 9 then s.full (j + 1) else if j < 18 then !s.home (j - 8) else n.narco.getLsbD j := by
  obtain ⟨word, hword, hfull, hhome, hkept⟩ := (n.sensing s).updateWithJam_spec
  rw [hword]
  split
  · rename_i hj
    rw [hfull j hj, Narco.readsFull_sensing]
  · rename_i hj
    split
    · have hcolumn := hhome (j - 8) (by omega) (by omega)
      rw [Nat.sub_add_cancel (by omega), Narco.readsHome_sensing] at hcolumn
      exact hcolumn
    · exact hkept j (by omega)

theorem getLsbD_setDeployColumn (column : ℕ) (n : Narco) {j : ℕ} (hj : j < 18) :
    (n.setDeployColumn column).narco.getLsbD j = n.narco.getLsbD j := by
  rw [Narco.setDeployColumn, BitVec.getLsbD_or, BitVec.getLsbD_shiftLeft, decide_eq_true hj,
    Bool.not_true, Bool.and_false, Bool.false_and, Bool.or_false]

theorem getLsbD_getDeployColumn (n : Narco) {j : ℕ} (hj : j < 18) :
    n.getDeployColumn.2.narco.getLsbD j = n.updateWithJam.narco.getLsbD j := by
  unfold Narco.getDeployColumn
  simp only
  split
  · exact getLsbD_setDeployColumn _ _ hj
  · split
    · exact getLsbD_setDeployColumn _ _ hj
    · rfl

inductive Call
  | update
  | updateWithJam
  | setFull (column : BitVec 16) (b : Bool)
  | setJammed (column : BitVec 16) (b : Bool)
  | setDeployColumn (column : UInt8)
  | getDeployColumn
  | getInfoText
  deriving DecidableEq

def perform (n : Narco) : Call → Narco
  | .update => update n
  | .updateWithJam => updateWithJam n
  | .setFull column b => setFull column b n
  | .setJammed column b => setJammed column b n
  | .setDeployColumn column => setDeployColumn column n
  -- in these two the widths matter only where they call the others
  | .getDeployColumn => n.getDeployColumn.2
  | .getInfoText => n.getInfoText.2

def performs (n : Narco) (history : List (Sensors × Call)) : Narco :=
  history.foldl (fun n e => perform (n.sensing e.1) e.2) n

def writesFull (column : BitVec 16) : Sensors × Call → Option Bool
  | (_, .setFull column' b) => if column' = column then some b else none
  | (s, .update) | (s, .updateWithJam) | (s, .getDeployColumn) | (s, .getInfoText) =>
    some (s.full column.toNat)
  | (_, .setJammed _ _) | (_, .setDeployColumn _) => none

def writesJammed (column : BitVec 16) : Sensors × Call → Option Bool
  | (_, .setJammed column' b) => if column' = column then some b else none
  | (s, .updateWithJam) | (s, .getDeployColumn) | (s, .getInfoText) =>
    some (!s.home column.toNat)
  | (_, .update) | (_, .setFull _ _) | (_, .setDeployColumn _) => none

variable {column : BitVec 16}

theorem toInt_column (h : 1 ≤ column.toInt ∧ column.toInt ≤ 9) :
    column.toInt = column.toNat ∧ 1 ≤ column.toNat ∧ column.toNat ≤ 9 := by
  rw [BitVec.toInt_eq_toNat_cond] at h ⊢
  split at h <;> bv_omega

theorem isFull_of_range (h : 1 ≤ column.toInt ∧ column.toInt ≤ 9) (n : Narco) :
    isFull column n = n.narco.getLsbD (column.toNat - 1) := by
  obtain ⟨htoInt, hpos, hle⟩ := toInt_column h
  rw [isFull_eq, htoInt, Narco.isFull_of_mem n hpos hle]

theorem isJammed_of_range (h : 1 ≤ column.toInt ∧ column.toInt ≤ 9) (n : Narco) :
    isJammed column n = n.narco.getLsbD (column.toNat + 8) := by
  obtain ⟨htoInt, hpos, hle⟩ := toInt_column h
  rw [isJammed_eq, htoInt, Narco.isJammed_of_mem n hpos hle]

theorem isFull_perform (h : 1 ≤ column.toInt ∧ column.toInt ≤ 9) (n : Narco) (s : Sensors)
    (call : Call) : isFull column (perform (n.sensing s) call) =
      (writesFull column (s, call)).getD (isFull column n) := by
  obtain ⟨htoInt, hpos, hle⟩ := toInt_column h
  have hbit : column.toNat - 1 + 1 = column.toNat := Nat.sub_add_cancel hpos
  have hscan : (n.sensing s).updateWithJam.narco.getLsbD (column.toNat - 1) =
      s.full column.toNat := by
    rw [getLsbD_updateWithJam, if_pos (by omega), hbit]
  rw [isFull_of_range h, isFull_of_range h]
  cases call with
  | update =>
    rw [perform, update_eq, getLsbD_update, if_pos (by omega), hbit]
    rfl
  | updateWithJam =>
    rw [perform, updateWithJam_eq, hscan]
    rfl
  | setFull column' b =>
    have hsame : (1 ≤ column'.toInt ∧ column'.toInt ≤ 9 ∧
        ((column.toNat - 1 : ℕ) : ℤ) = column'.toInt - 1) ↔ column' = column := by
      rw [← BitVec.toInt_inj]
      omega
    rw [perform, setFull_eq, Narco.getLsbD_setFull, if_congr hsame rfl rfl]
    change _ = (if column' = column then some b else none).getD _
    split <;> rfl
  | setJammed column' b =>
    rw [perform, setJammed_eq, Narco.getLsbD_setJammed, if_neg (by omega)]
    rfl
  | setDeployColumn column' =>
    rw [perform, setDeployColumn_eq, getLsbD_setDeployColumn _ _ (by omega)]
    rfl
  | getDeployColumn =>
    rw [perform, getLsbD_getDeployColumn _ (by omega), hscan]
    rfl
  | getInfoText => exact hscan

theorem isJammed_perform (h : 1 ≤ column.toInt ∧ column.toInt ≤ 9) (n : Narco) (s : Sensors)
    (call : Call) : isJammed column (perform (n.sensing s) call) =
      (writesJammed column (s, call)).getD (isJammed column n) := by
  obtain ⟨htoInt, hpos, hle⟩ := toInt_column h
  have hscan : (n.sensing s).updateWithJam.narco.getLsbD (column.toNat + 8) =
      !s.home column.toNat := by
    rw [getLsbD_updateWithJam, if_neg (by omega), if_pos (by omega), Nat.add_sub_cancel]
  rw [isJammed_of_range h, isJammed_of_range h]
  cases call with
  | update =>
    rw [perform, update_eq, getLsbD_update, if_neg (by omega)]
    rfl
  | updateWithJam =>
    rw [perform, updateWithJam_eq, hscan]
    rfl
  | setFull column' b =>
    rw [perform, setFull_eq, Narco.getLsbD_setFull, if_neg (by omega)]
    rfl
  | setJammed column' b =>
    have hsame : (1 ≤ column'.toInt ∧ column'.toInt ≤ 9 ∧
        ((column.toNat + 8 : ℕ) : ℤ) = column'.toInt + 8) ↔ column' = column := by
      rw [← BitVec.toInt_inj]
      omega
    rw [perform, setJammed_eq, Narco.getLsbD_setJammed, if_congr hsame rfl rfl]
    change _ = (if column' = column then some b else none).getD _
    split <;> rfl
  | setDeployColumn column' =>
    rw [perform, setDeployColumn_eq, getLsbD_setDeployColumn _ _ (by omega)]
    rfl
  | getDeployColumn =>
    rw [perform, getLsbD_getDeployColumn _ (by omega), hscan]
    rfl
  | getInfoText => exact hscan

theorem isFull_performs (h : 1 ≤ column.toInt ∧ column.toInt ≤ 9) (n : Narco)
    (history : List (Sensors × Call)) :
    isFull column (performs n history) =
      (lastWrite (writesFull column) history).getD (n.narco.getLsbD (column.toNat - 1)) := by
  rw [← isFull_of_range h]
  exact foldl_eq_lastWrite (isFull column) _ _ (fun n e => isFull_perform h n e.1 e.2) history n

theorem isJammed_performs (h : 1 ≤ column.toInt ∧ column.toInt ≤ 9) (n : Narco)
    (history : List (Sensors × Call)) :
    isJammed column (performs n history) =
      (lastWrite (writesJammed column) history).getD (n.narco.getLsbD (column.toNat + 8)) := by
  rw [← isJammed_of_range h]
  exact foldl_eq_lastWrite (isJammed column) _ _ (fun n e => isJammed_perform h n e.1 e.2) history n

/-- Each of the four writes its own bits of the word and no others, the flags read back what was
written last, and no other column is written or read. -/
theorem column_word (n : Narco) (s : Sensors) (history : List (Sensors × Call))
    (column : BitVec 16) (b : Bool) :
    (∀ j, (setFull column b n).narco.getLsbD j =
      if 1 ≤ column.toInt ∧ column.toInt ≤ 9 ∧ (j : ℤ) = column.toInt - 1 then b
      else n.narco.getLsbD j) ∧
    (∀ j, (setJammed column b n).narco.getLsbD j =
      if 1 ≤ column.toInt ∧ column.toInt ≤ 9 ∧ (j : ℤ) = column.toInt + 8 then b
      else n.narco.getLsbD j) ∧
    (∀ j, (update (n.sensing s)).narco.getLsbD j =
      if j < 9 then s.full (j + 1) else n.narco.getLsbD j) ∧
    (∀ j, (updateWithJam (n.sensing s)).narco.getLsbD j =
      if j < 9 then s.full (j + 1) else if j < 18 then !s.home (j - 8)
      else n.narco.getLsbD j) ∧
    if 1 ≤ column.toInt ∧ column.toInt ≤ 9 then
      isFull column (performs n history) =
        (lastWrite (writesFull column) history).getD (n.narco.getLsbD (column.toNat - 1)) ∧
      isJammed column (performs n history) =
        (lastWrite (writesJammed column) history).getD (n.narco.getLsbD (column.toNat + 8))
    else
      setFull column b n = n ∧ setJammed column b n = n ∧ isFull column n = false ∧
        isJammed column n = false := by
  refine ⟨fun j => ?_, fun j => ?_, fun j => ?_, fun j => ?_, ?_⟩
  · rw [setFull_eq, Narco.getLsbD_setFull]
  · rw [setJammed_eq, Narco.getLsbD_setJammed]
  · rw [update_eq, getLsbD_update]
  · rw [updateWithJam_eq, getLsbD_updateWithJam]
  · split
    · rename_i h
      exact ⟨isFull_performs h n history, isJammed_performs h n history⟩
    · rename_i h
      have hout : column.toInt < 1 ∨ 9 < column.toInt := by omega
      exact ⟨if_pos hout, if_pos hout, if_pos hout, if_pos hout⟩

end Alko.Arduino.Avr
