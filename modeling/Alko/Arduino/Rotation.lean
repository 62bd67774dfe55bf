import Alko.Arduino.Operations
import Alko.Arduino.Refinement
import Alko.Foundation.Rotation

/-! Which column `getDeployColumn` chooses: one that this very call has read full and home, the
first of them from the stored column on. The stored column is the OR of all that were chosen. -/

namespace Alko.Arduino

open Alko.Foundation

/-- The first loop starts with the first column where none is stored. -/
def scanStart (stored : ℕ) : ℕ := if stored = 0 then 1 else stored

theorem one_le_scanStart (stored : ℕ) : 1 ≤ scanStart stored := by
  unfold scanStart
  split <;> omega

theorem Sensors.within_available (s : Sensors) : Within 9 s.available := by
  intro column h
  rw [available, Bool.and_eq_true, decide_eq_true_eq] at h
  exact h.1

namespace Narco

def storedColumn (n : Narco) : ℕ := ((n.narco >>> 18) &&& 0x0F#32).toNat

theorem getLsbD_field (w : BitVec 32) (j : ℕ) :
    ((w >>> 18) &&& 0x0F#32).getLsbD j = (w.getLsbD (18 + j) && decide (j < 4)) := by
  have hmask : (0x0F#32).getLsbD j = decide (j < 4) := by
    by_cases hj : j < 32
    · interval_cases j <;> rfl
    · rw [BitVec.getLsbD_of_ge _ _ (by omega), eq_comm, decide_eq_false_iff_not]
      omega
  rw [BitVec.getLsbD_and, BitVec.getLsbD_ushiftRight, hmask]

theorem storedColumn_congr {n m : Narco}
    (h : ∀ j, 18 ≤ j → m.narco.getLsbD j = n.narco.getLsbD j) :
    m.storedColumn = n.storedColumn := by
  unfold storedColumn
  congr 1
  apply BitVec.eq_of_getLsbD_eq
  intro j _
  rw [getLsbD_field, getLsbD_field, h _ (by omega)]

theorem storedColumn_new (mcp0 mcp1 : Mcp23017) : (Narco.new mcp0 mcp1).storedColumn = 0 := by
  simp [storedColumn, Narco.new]

theorem storedColumn_setDeployColumn (n : Narco) {column : ℕ} (h : column ≤ 9) :
    (n.setDeployColumn column).storedColumn = n.storedColumn ||| column := by
  have hcolumn : (BitVec.ofNat 32 column).toNat = column := by
    rw [BitVec.toNat_ofNat]
    exact Nat.mod_eq_of_lt (by omega)
  unfold storedColumn
  rw [← hcolumn, ← BitVec.toNat_or]
  congr 1
  apply BitVec.eq_of_getLsbD_eq
  intro j hj
  rw [getLsbD_field, BitVec.getLsbD_or, getLsbD_field, setDeployColumn, BitVec.getLsbD_or,
    BitVec.getLsbD_shiftLeft, Bool.and_or_distrib_right]
  congr 1
  by_cases hfour : j < 4
  · simp [hfour, show 18 + j < 32 by omega, hcolumn]
  · have hzero : (BitVec.ofNat 32 column).getLsbD j = false := by
      rw [BitVec.getLsbD_ofNat, Nat.testBit_lt_two_pow]
      · simp
      · exact lt_of_le_of_lt h (lt_of_lt_of_le (by decide : 9 < 2 ^ 4)
          (Nat.pow_le_pow_right (by decide) (by omega)))
    simp [hfour, hzero]

def available (n : Narco) (column : ℕ) : Bool :=
  decide (1 ≤ column ∧ column ≤ 9) && (n.readsFull column && n.readsHome column)

@[simp] theorem available_sensing (n : Narco) (s : Sensors) :
    (n.sensing s).available = s.available := by
  funext column
  rw [available, Sensors.available, readsFull_sensing, readsHome_sensing]

theorem within_available (n : Narco) : Within 9 n.available := by
  intro column h
  rw [available, Bool.and_eq_true, decide_eq_true_eq] at h
  exact h.1

theorem canDeploy_eq (n : Narco) : n.updateWithJam.canDeploy = n.available := by
  funext column
  rw [Bool.eq_iff_iff, canDeploy_updateWithJam, available]
  simp only [Bool.and_eq_true, decide_eq_true_eq, and_assoc]

/-- The two loops are one cyclic scan. -/
theorem getDeployColumn_eq (n : Narco) :
    n.getDeployColumn.1 = (pick 9 (scanStart n.storedColumn) n.available).getD 0 ∧
      n.getDeployColumn.2.storedColumn =
        n.storedColumn ||| (pick 9 (scanStart n.storedColumn) n.available).getD 0 := by
  have hfield : n.updateWithJam.storedColumn = n.storedColumn :=
    storedColumn_congr n.updateWithJam_frame.2
  have hstart : (if (n.updateWithJam.narco >>> 18 &&& 0x0F#32).toNat = 0 then 1
      else (n.updateWithJam.narco >>> 18 &&& 0x0F#32).toNat) = scanStart n.storedColumn := by
    rw [← hfield]
    rfl
  have hset {column : ℕ} (hc : n.available column = true) :
      (n.updateWithJam.setDeployColumn column).storedColumn = n.storedColumn ||| column := by
    rw [storedColumn_setDeployColumn _ (n.within_available column hc).2, hfield]
  unfold getDeployColumn pick cycle
  simp only [hstart, n.canDeploy_eq, List.find?_append]
  cases hhigh : (List.range' (scanStart n.storedColumn) (10 - scanStart n.storedColumn)).find?
      n.available with
  | some column => exact ⟨rfl, hset (List.find?_some hhigh)⟩
  | none =>
    simp only [Option.none_or]
    cases hlow : (List.range' 1 (scanStart n.storedColumn - 1)).find? n.available with
    | some column => exact ⟨rfl, hset (List.find?_some hlow)⟩
    | none => exact ⟨rfl, by rw [hfield, Option.getD_none, Nat.or_zero]⟩

/-- The scan of the next call chooses `column`: it reads it full and home, and none of those that
come before it from the stored column on. -/
def Chooses (n : Narco) (column : ℕ) : Prop :=
  n.available column = true ∧
    ∀ j, Arc (scanStart n.storedColumn) column j → n.available j = false

theorem chooses_iff {n : Narco} {column : ℕ} (h : column ≠ 0) :
    n.Chooses column ↔ n.getDeployColumn.1 = column := by
  rw [n.getDeployColumn_eq.1, Chooses, ← pick_eq_some_iff n.within_available (one_le_scanStart _)]
  cases pick 9 (scanStart n.storedColumn) n.available with
  | none => simpa using h.symm
  | some c => simp

end Narco

theorem Sensors.available_iff (s : Sensors) (column : ℕ) :
    s.available column = true ↔
      1 ≤ column ∧ column ≤ 9 ∧ s.full column = true ∧ s.home column = true := by
  simp only [available, Bool.and_eq_true, decide_eq_true_eq, and_assoc]

theorem Narco.getDeployColumn_available (n : Narco) (s : Sensors)
    (h : (n.sensing s).getDeployColumn.1 ≠ 0) :
    s.available (n.sensing s).getDeployColumn.1 = true := by
  rw [(n.sensing s).getDeployColumn_eq.1, available_sensing] at h ⊢
  cases hpick : pick 9 (scanStart (n.sensing s).storedColumn) s.available with
  | none => exact absurd (by rw [hpick]; rfl) h
  | some column =>
    exact ((pick_eq_some_iff s.within_available (one_le_scanStart _)).mp hpick).1

theorem Sensors.pick_eq_zero_iff (s : Sensors) {start : ℕ} (hstart : 1 ≤ start) :
    (pick 9 start s.available).getD 0 = 0 ↔ ∀ column, s.available column = false := by
  rw [← pick_eq_none_iff s.within_available hstart]
  cases hpick : pick 9 start s.available with
  | none => exact iff_of_true rfl rfl
  | some column =>
    have hmem := s.within_available column
      ((pick_eq_some_iff s.within_available hstart).mp hpick).1
    simp only [Option.getD_some, reduceCtorEq, iff_false]
    omega

theorem Narco.getDeployColumn_none (n : Narco) (s : Sensors) :
    (n.sensing s).getDeployColumn.1 = 0 ↔ ∀ column, s.available column = false := by
  rw [(n.sensing s).getDeployColumn_eq.1, available_sensing,
    s.pick_eq_zero_iff (one_le_scanStart _)]

theorem Dixie.enterDeployState_powers (d : Dixie) :
    d.enterDeployState.narco.poweredPins =
      if d.narco.getDeployColumn.1 = 0 then d.narco.poweredPins
      else [Narco.motorPin d.narco.getDeployColumn.1] := by
  have hpowered (n : Narco) (h : n.mcp0.olat = d.narco.mcp0.olat) :
      n.poweredPins = d.narco.poweredPins := by
    rw [Narco.poweredPins, Narco.poweredPins, h]
  obtain ⟨w, hscan⟩ := d.narco.getDeployColumn_snd
  have hle := d.narco.getDeployColumn_le
  by_cases hzero : d.narco.getDeployColumn.1 = 0
  · rw [if_pos hzero, enterDeployState]
    simp only [onLcd_narco, if_pos hzero]
    exact hpowered _ (congrArg (fun n => n.mcp0.olat) hscan)
  · have hpos : 1 ≤ d.narco.getDeployColumn.1 := Nat.one_le_iff_ne_zero.mpr hzero
    rw [if_neg hzero, enterDeployState]
    simp only [onLcd_narco, if_neg hzero]
    exact (Narco.poweredPins_powerOn _ _).trans (if_pos ⟨hpos, hle⟩)

/-- Whatever word is stored, `getDeployColumn` finds a column exactly if its scan reads one full
and home, and returns such a one; DEPLOY powers the motor of the column so found, or none. -/
theorem column_choice (s : Sensors) (n : Narco) (d : Dixie) :
    ((n.sensing s).getDeployColumn.1 = 0 ↔
        ¬∃ column, 1 ≤ column ∧ column ≤ 9 ∧ s.full column = true ∧ s.home column = true) ∧
      ((n.sensing s).getDeployColumn.1 ≠ 0 →
        1 ≤ (n.sensing s).getDeployColumn.1 ∧ (n.sensing s).getDeployColumn.1 ≤ 9 ∧
          s.full (n.sensing s).getDeployColumn.1 = true ∧
          s.home (n.sensing s).getDeployColumn.1 = true) ∧
      let entered := { d with narco := d.narco.sensing s }.enterDeployState
      (entered.deployColumn = 0 ∧ entered.narco.poweredPins = d.narco.poweredPins) ∨
        (entered.narco.poweredPins = [Narco.motorPin entered.deployColumn] ∧
          1 ≤ entered.deployColumn ∧ entered.deployColumn ≤ 9 ∧
          s.full entered.deployColumn = true ∧ s.home entered.deployColumn = true) := by
  refine ⟨?_, fun h => (s.available_iff _).mp (n.getDeployColumn_available s h), ?_⟩
  · simp only [n.getDeployColumn_none s, ← s.available_iff, not_exists, Bool.not_eq_true]
  · have hpowers := Dixie.enterDeployState_powers { d with narco := d.narco.sensing s }
    have hcolumn : ({ d with narco := d.narco.sensing s } : Dixie).enterDeployState.deployColumn =
        (d.narco.sensing s).getDeployColumn.1 := by
      unfold Dixie.enterDeployState
      simp only
      split <;> rfl
    simp only [hcolumn, hpowers]
    by_cases hzero : (d.narco.sensing s).getDeployColumn.1 = 0
    · rw [if_pos hzero]
      exact Or.inl ⟨hzero, rfl⟩
    · rw [if_neg hzero]
      exact Or.inr ⟨rfl, (s.available_iff _).mp (d.narco.getDeployColumn_available s hzero)⟩

def queries (history : List (Sensors × Operation)) : List Sensors :=
  history.filterMap fun call => if call.2 = .getDeployColumn then some call.1 else none

def choices : List (Sensors × Operation) → Narco → List (Sensors × ℕ)
  | [], _ => []
  | (s, op) :: history, n =>
    (if op = .getDeployColumn then [(s, (n.sensing s).getDeployColumn.1)] else []) ++
      choices history ((n.sensing s).perform op)

/-- Each column returned is the first available one from the column returned before it on. -/
def Rotates : ℕ → List (Sensors × ℕ) → Prop
  | _, [] => True
  | last, (s, column) :: calls =>
    (column ≠ 0 → pick 9 last s.available = some column) ∧
      Rotates (if column = 0 then last else column) calls

instance Rotates.decidable : (last : ℕ) → (calls : List (Sensors × ℕ)) →
    Decidable (Rotates last calls)
  | _, [] => isTrue trivial
  | last, (_, column) :: calls =>
    have := Rotates.decidable (if column = 0 then last else column) calls
    inferInstanceAs (Decidable (_ ∧ _))

/-- What the choices ought to be: a rotation from the first column on, in which two calls that read
the same choose the same. -/
structure RotationLaw (calls : List (Sensors × ℕ)) : Prop where
  rotates : Rotates 1 calls
  agree : calls.IsChain fun call call' =>
    (∀ column, call.1.full column = call'.1.full column ∧
      call.1.home column = call'.1.home column) → call.2 = call'.2

/-- In each call either no available column, or every one, lies from the rotation's last choice up
to the OR of all its choices. -/
def Straight : ℕ → ℕ → List Sensors → Prop
  | _, _, [] => True
  | last, stored, s :: sensors =>
    ((∀ column, Arc last (scanStart stored) column → s.available column = false) ∨
        ∀ column, s.available column = true → Arc last (scanStart stored) column) ∧
      match pick 9 last s.available with
      | some column => Straight column (stored ||| column) sensors
      | none => Straight last stored sensors

def chosen : ℕ → List Sensors → List (Sensors × ℕ)
  | _, [] => []
  | stored, s :: sensors =>
    let column := (pick 9 (scanStart stored) s.available).getD 0
    (s, column) :: chosen (stored ||| column) sensors

/-- Of all that happens to the object only the stored column counts. -/
theorem choices_eq (history : List (Sensors × Operation)) (n : Narco) :
    choices history n = chosen n.storedColumn (queries history) := by
  induction history generalizing n with
  | nil => rfl
  | cons call history ih =>
    obtain ⟨s, op⟩ := call
    rw [choices, queries, List.filterMap_cons]
    by_cases hop : op = .getDeployColumn
    · obtain ⟨hcolumn, hstored⟩ := (n.sensing s).getDeployColumn_eq
      rw [Narco.available_sensing] at hcolumn hstored
      simp only [if_pos hop, chosen]
      rw [ih, hop, Narco.perform, hstored, hcolumn]
      rfl
    · simp only [if_neg hop, List.nil_append]
      rw [ih, Narco.storedColumn_congr (n := n.sensing s) (m := (n.sensing s).perform op)
        fun j hj => Narco.perform_keeps_upper hop (n.sensing s) hj]
      rfl

theorem rotates_chosen_iff {last : ℕ} (hlast : 1 ≤ last) (stored : ℕ) (sensors : List Sensors) :
    Rotates last (chosen stored sensors) ↔ Straight last stored sensors := by
  induction sensors generalizing last stored with
  | nil => exact Iff.rfl
  | cons s sensors ih =>
    have hagree := pick_eq_pick_iff s.within_available hlast (one_le_scanStart stored)
    simp only [chosen, Rotates, Straight]
    rw [← hagree]
    cases hpick : pick 9 (scanStart stored) s.available with
    | none =>
      -- nothing is available: neither scan finds a column, and nothing moves
      have hnone := (pick_eq_none_iff s.within_available (one_le_scanStart _)).mp hpick
      rw [(pick_eq_none_iff s.within_available hlast).mpr hnone]
      simpa using ih hlast stored
    | some column =>
      have hpos := (s.within_available column
        ((pick_eq_some_iff s.within_available (one_le_scanStart _)).mp hpick).1).1
      have hne : column ≠ 0 := Nat.one_le_iff_ne_zero.mp hpos
      simp only [Option.getD_some, ne_eq, hne, not_false_eq_true, true_implies, if_false, ih hpos]
      constructor
      · rintro ⟨hrotates, hrest⟩
        rw [hrotates]
        exact ⟨rfl, hrest⟩
      · rintro ⟨hsame, hrest⟩
        rw [← hsame] at hrest ⊢
        exact ⟨rfl, hrest⟩

theorem Sensors.available_congr {s s' : Sensors}
    (h : ∀ column, s.full column = s'.full column ∧ s.home column = s'.home column) :
    s.available = s'.available := by
  funext column
  rw [available, available, (h column).1, (h column).2]

theorem Rotates.isChain {last : ℕ} (hlast : 1 ≤ last) {stored : ℕ} {sensors : List Sensors}
    (h : Rotates last (chosen stored sensors)) :
    (chosen stored sensors).IsChain fun call call' =>
      (∀ column, call.1.full column = call'.1.full column ∧
        call.1.home column = call'.1.home column) → call.2 = call'.2 := by
  induction sensors generalizing last stored with
  | nil => exact .nil
  | cons s sensors ih =>
    set column := (pick 9 (scanStart stored) s.available).getD 0 with hcolumn
    have hrest : Rotates (if column = 0 then last else column)
        (chosen (stored ||| column) sensors) := h.2
    have hlast' : 1 ≤ if column = 0 then last else column := by
      split <;> omega
    have hchain := ih hlast' hrest
    cases sensors with
    | nil => exact .singleton _
    | cons s' sensors =>
      refine .cons_cons (fun hsame => ?_) hchain
      have havail : s.available = s'.available := Sensors.available_congr hsame
      have hnext := hrest.1
      simp only [← hcolumn]
      by_cases hzero : column = 0
      · have hnone := (s.pick_eq_zero_iff (one_le_scanStart stored)).mp (hcolumn.symm.trans hzero)
        rw [havail] at hnone
        rw [hzero, eq_comm]
        exact (s'.pick_eq_zero_iff (one_le_scanStart _)).mpr hnone
      · -- what was chosen from further back is the first from itself on
        have hchoice : s'.available column = true := by
          rw [← havail]
          cases hpick : pick 9 (scanStart stored) s.available with
          | none => exact absurd (hcolumn.trans (by rw [hpick]; rfl)) hzero
          | some c =>
            rw [hcolumn, hpick]
            exact ((pick_eq_some_iff s.within_available (one_le_scanStart _)).mp hpick).1
        have hne : (pick 9 (scanStart (stored ||| column)) s'.available).getD 0 ≠ 0 := by
          intro hzero'
          rw [(s'.pick_eq_zero_iff (one_le_scanStart _)).mp hzero' column] at hchoice
          cases hchoice
        have hfirst := hnext hne
        rw [if_neg hzero, pick_self s'.within_available hchoice] at hfirst
        exact Option.some.inj hfirst

/-- From a new object on, the choices rotate exactly if the readings are straight. -/
theorem rotation_iff (mcp0 mcp1 : Mcp23017) (history : List (Sensors × Operation)) :
    RotationLaw (choices history (Narco.new mcp0 mcp1)) ↔ Straight 1 0 (queries history) := by
  rw [choices_eq, Narco.storedColumn_new, ← rotates_chosen_iff le_rfl]
  exact ⟨fun h => h.rotates, fun h => ⟨h, h.isChain le_rfl⟩⟩

def Sensors.stocked (columns : List ℕ) : Sensors :=
  .steady (fun p => decide (p + 1 ∉ columns)) fun p => decide (p < 7 ∧ p + 3 ∉ columns)

/-- First only column 1 is full, then only column 2: the stored column is 3, and with 2 and 3 full
the next choice is 3. -/
def overtaken : List (Sensors × Operation) :=
  [(.stocked [1], .getDeployColumn), (.stocked [2], .getDeployColumn),
    (.stocked [2, 3], .getDeployColumn)]

def Mcp23017.unread : Mcp23017 := ⟨0, fun _ _ => true, 0⟩

theorem rotation_overtaken :
    ¬RotationLaw (choices overtaken (Narco.new .unread .unread)) := by
  intro h
  have hrotates := h.rotates
  rw [choices_eq, Narco.storedColumn_new] at hrotates
  exact absurd hrotates (by decide)

end Alko.Arduino
