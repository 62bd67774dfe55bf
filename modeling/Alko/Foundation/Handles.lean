import Mathlib.Data.Finset.Card
import Mathlib.Logic.Function.Basic

/-! Handles that name shared objects: how many live handles an object has, and what making, dropping
and pointing a handle elsewhere does to that number. -/

namespace Alko.Foundation

structure Handles (H B : Type*) where
  live : Finset H
  target : H → B

namespace Handles

variable {H B : Type*} {s : Handles H B} {h src : H} {b : B}

section Count

variable [DecidableEq B]

def count (b : B) (s : Handles H B) : ℕ := (s.live.filter fun h => s.target h = b).card

theorem count_pos (hlive : h ∈ s.live) : 0 < s.count (s.target h) :=
  Finset.card_pos.mpr ⟨h, Finset.mem_filter.mpr ⟨hlive, rfl⟩⟩

end Count

variable [DecidableEq H]

def make (h : H) (b : B) (s : Handles H B) : Handles H B :=
  ⟨insert h s.live, Function.update s.target h b⟩

def drop (h : H) (s : Handles H B) : Handles H B := { s with live := s.live.erase h }

def point (h : H) (b : B) (s : Handles H B) : Handles H B :=
  { s with target := Function.update s.target h b }

/-- To point a handle elsewhere is to drop it and to make it again. -/
theorem point_eq (hlive : h ∈ s.live) (b : B) : s.point h b = (s.drop h).make h b := by
  rw [point, make, drop, Finset.insert_erase hlive]

variable [DecidableEq B]

theorem count_make (hnew : h ∉ s.live) (b c : B) :
    (s.make h b).count c = s.count c + if b = c then 1 else 0 := by
  have hrest : (s.live.filter fun g => Function.update s.target h b g = c) =
      s.live.filter fun g => s.target g = c := by
    refine Finset.filter_congr fun g hg => ?_
    rw [Function.update_of_ne (ne_of_mem_of_not_mem hg hnew)]
  change ((insert h s.live).filter fun g => Function.update s.target h b g = c).card = _
  rw [Finset.filter_insert, Function.update_self, hrest]
  split_ifs
  · exact Finset.card_insert_of_notMem fun hmem => hnew (Finset.mem_filter.mp hmem).1
  · rfl

theorem count_drop (hlive : h ∈ s.live) (c : B) :
    (s.drop h).count c + (if s.target h = c then 1 else 0) = s.count c := by
  change ((s.live.erase h).filter fun g => s.target g = c).card + _ = s.count c
  rw [Finset.filter_erase]
  split_ifs with hc
  · exact Finset.card_erase_add_one (Finset.mem_filter.mpr ⟨hlive, hc⟩)
  · have hout : h ∉ s.live.filter fun g => s.target g = c := fun hmem =>
      hc (Finset.mem_filter.mp hmem).2
    rw [Finset.erase_eq_of_notMem hout]
    rfl

theorem count_point (hlive : h ∈ s.live) (b c : B) :
    (s.point h b).count c = (s.drop h).count c + if b = c then 1 else 0 := by
  rw [point_eq hlive, count_make]
  exact Finset.notMem_erase h s.live

theorem count_drop_pos (hsrc : src ∈ s.live) (hne : src ≠ h) :
    0 < (s.drop h).count (s.target src) :=
  count_pos (s := s.drop h) (Finset.mem_erase.mpr ⟨hne, hsrc⟩)

end Handles

end Alko.Foundation
