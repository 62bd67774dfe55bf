import Mathlib.Tactic

/-! Setting and clearing single bits of a word. -/

namespace Alko.Foundation

variable {w : ℕ}

/-- `word |= 1 << i` or `word &= ~(1 << i)`. -/
def writeBit (i : ℕ) (b : Bool) (word : BitVec w) : BitVec w :=
  if b then word ||| (1#w <<< i) else word &&& ~~~(1#w <<< i)

theorem getLsbD_one_shiftLeft (i j : ℕ) :
    (1#w <<< i).getLsbD j = decide (j < w ∧ j = i) := by
  rw [BitVec.getLsbD_shiftLeft, BitVec.getLsbD_one, Bool.eq_iff_iff]
  simp only [Bool.and_eq_true, Bool.not_eq_true', decide_eq_true_eq, decide_eq_false_iff_not]
  omega

theorem getLsbD_writeBit (i j : ℕ) (b : Bool) (word : BitVec w) (h : i < w) :
    (writeBit i b word).getLsbD j = if j = i then b else word.getLsbD j := by
  cases b
  · simp only [writeBit, Bool.false_eq_true, if_false, BitVec.getLsbD_and, BitVec.getLsbD_not,
      getLsbD_one_shiftLeft]
    by_cases hj : j = i
    · simp [hj, h]
    · by_cases hw : j < w
      · simp [hj, hw]
      · simp [hj, hw, BitVec.getLsbD_of_ge word j (Nat.le_of_not_lt hw)]
  · simp only [writeBit, if_true, BitVec.getLsbD_or, getLsbD_one_shiftLeft]
    by_cases hj : j = i
    · simp [hj, h]
    · simp [hj]

end Alko.Foundation
