import Mathlib.Tactic

/-! Cyclic scans: the first of the positions 1 to `n` that qualifies, looked for from a given
position on and then from the first. -/

namespace Alko.Foundation

variable {n start last c : ℕ} {p : ℕ → Bool}

def cycle (n start : ℕ) : List ℕ := List.range' start (n + 1 - start) ++ List.range' 1 (start - 1)

def pick (n start : ℕ) (p : ℕ → Bool) : Option ℕ := (cycle n start).find? p

/-- `j` comes before `b` where positions are passed from `a` on. -/
def Arc (a b j : ℕ) : Prop := if a ≤ b then a ≤ j ∧ j < b else a ≤ j ∨ j < b

instance (a b j : ℕ) : Decidable (Arc a b j) := by
  unfold Arc
  infer_instance

section Arc

variable {a b j : ℕ}

theorem Arc.before (hc : ¬Arc a b c) (hj : Arc a b j) : Arc a c j := by
  unfold Arc at *
  split_ifs at * <;> omega

theorem Arc.behind (hc : Arc a b c) (hj : ¬Arc a b j) : Arc b c j := by
  unfold Arc at *
  split_ifs at * <;> omega

theorem Arc.extend (hside : Arc a b j ↔ Arc a b c) (hj : Arc b c j) : Arc a c j := by
  unfold Arc at *
  split_ifs at * <;> omega

end Arc

def Within (n : ℕ) (p : ℕ → Bool) : Prop := ∀ j, p j = true → 1 ≤ j ∧ j ≤ n

theorem pick_eq_some_iff (hp : Within n p) (hstart : 1 ≤ start) :
    pick n start p = some c ↔ p c = true ∧ ∀ j, Arc start c j → p j = false := by
  have houtside {j : ℕ} (hj : ¬(1 ≤ j ∧ j ≤ n)) : p j = false :=
    Bool.eq_false_of_not_eq_true fun h => hj (hp j h)
  rw [pick, cycle, List.find?_append, Option.or_eq_some_iff]
  simp only [List.find?_range'_eq_some, List.find?_range'_eq_none, List.mem_range'_1,
    Bool.not_eq_true', Arc]
  constructor
  · rintro (⟨hc, hmem, hbefore⟩ | ⟨hnone, hc, hmem, hbefore⟩)
    · refine ⟨hc, fun j hj => ?_⟩
      rw [if_pos hmem.1] at hj
      exact hbefore j hj.1 hj.2
    · refine ⟨hc, fun j hj => ?_⟩
      by_cases hlow : j < start
      · by_cases hpos : 1 ≤ j
        · split at hj
          · omega
          · exact hbefore j hpos (by omega)
        · exact houtside fun h => hpos h.1
      · by_cases hle : j ≤ n
        · exact hnone j (by omega) (by omega)
        · exact houtside fun h => hle h.2
  · rintro ⟨hc, hbefore⟩
    obtain ⟨hpos, hle⟩ := hp c hc
    by_cases hsc : start ≤ c
    · refine Or.inl ⟨hc, by omega, fun j hj hj' => hbefore j ?_⟩
      rw [if_pos hsc]
      exact ⟨hj, hj'⟩
    · refine Or.inr ⟨fun j hj hj' => hbefore j ?_, hc, by omega, fun j hj hj' => hbefore j ?_⟩
      · rw [if_neg hsc]
        exact Or.inl hj
      · rw [if_neg hsc]
        exact Or.inr hj'

theorem pick_eq_none_iff (hp : Within n p) (hstart : 1 ≤ start) :
    pick n start p = none ↔ ∀ j, p j = false := by
  rw [pick, cycle, List.find?_append, Option.or_eq_none_iff]
  simp only [List.find?_range'_eq_none, Bool.not_eq_true']
  constructor
  · rintro ⟨hhigh, hlow⟩ j
    by_contra hj
    have hmem := hp j (Bool.eq_true_of_not_eq_false hj)
    by_cases hsj : start ≤ j
    · exact hj (hhigh j hsj (by omega))
    · exact hj (hlow j hmem.1 (by omega))
  · exact fun h => ⟨fun j _ _ => h j, fun j _ _ => h j⟩

theorem pick_self (hp : Within n p) (hc : p c = true) : pick n c p = some c := by
  refine (pick_eq_some_iff hp (hp c hc).1).mpr ⟨hc, fun j hj => ?_⟩
  rw [Arc, if_pos le_rfl] at hj
  omega

/-- Two scans agree exactly if nothing that qualifies lies between their starts, or all of it. -/
theorem pick_eq_pick_iff (hp : Within n p) (hlast : 1 ≤ last) (hstart : 1 ≤ start) :
    pick n start p = pick n last p ↔
      (∀ j, Arc last start j → p j = false) ∨ ∀ j, p j = true → Arc last start j := by
  cases h : pick n last p with
  | none =>
    have hnone := (pick_eq_none_iff hp hlast).mp h
    exact iff_of_true ((pick_eq_none_iff hp hstart).mpr hnone) (Or.inl fun j _ => hnone j)
  | some c =>
    obtain ⟨hc, hbefore⟩ := (pick_eq_some_iff hp hlast).mp h
    rw [pick_eq_some_iff hp hstart]
    constructor
    · rintro ⟨-, hbefore'⟩
      by_cases hcut : Arc last start c
      · right
        intro j hj
        by_contra hout
        rw [hbefore' j (hcut.behind hout)] at hj
        cases hj
      · left
        intro j hj
        exact hbefore j (Arc.before hcut hj)
    · rintro (hnone | hall)
      · refine ⟨hc, fun j hj => ?_⟩
        have hcut : ¬Arc last start c := fun hcut => by
          rw [hnone c hcut] at hc
          cases hc
        by_cases hjl : Arc last start j
        · exact hnone j hjl
        · exact hbefore j (Arc.extend (iff_of_false hjl hcut) hj)
      · refine ⟨hc, fun j hj => ?_⟩
        by_contra hout
        have hjl := hall j (Bool.eq_true_of_not_eq_false hout)
        have hcl := hall c hc
        exact hout (hbefore j (Arc.extend (iff_of_true hjl hcl) hj))

end Alko.Foundation
