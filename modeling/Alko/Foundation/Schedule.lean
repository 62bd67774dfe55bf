import Mathlib.Tactic

/-! Schedules: phases that follow one another, each left within its limit, and how long they take
together when the entry of some of them costs extra. -/

namespace Alko.Foundation

/-- Which phase may follow which, how long a phase may last, how long it may be from its entry to
the end of the last phase, and what an entry adds to that. -/
structure Schedule (φ : Type*) where
  next : φ → φ → Prop
  limit : φ → ℕ
  remaining : φ → ℕ
  extra : φ → ℕ
  planned : ∀ p q, next p q → limit p + remaining q ≤ remaining p + extra q

namespace Schedule

variable {φ : Type*}

def Kept (s : Schedule φ) (entries : List (φ × ℕ)) : Prop :=
  entries.IsChain fun e f => s.next e.1 f.1 ∧ f.2 ≤ e.2 + s.limit e.1

def extras (s : Schedule φ) (entries : List (φ × ℕ)) : ℕ := (entries.map fun e => s.extra e.1).sum

variable {s : Schedule φ} {e f : φ × ℕ} {entries : List (φ × ℕ)}

/-- No entry comes later than what was planned at the first one leaves room for. -/
theorem Kept.entered_by (h : s.Kept (e :: entries)) (hlast : (e :: entries).getLast? = some f) :
    f.2 + s.remaining f.1 ≤ e.2 + s.remaining e.1 + s.extras entries := by
  induction entries generalizing e with
  | nil =>
    obtain rfl := Option.some.inj hlast
    exact Nat.le_refl _
  | cons g entries ih =>
    obtain ⟨⟨hnext, htime⟩, hrest⟩ := List.isChain_cons_cons.mp h
    have hlater := ih hrest (by rwa [List.getLast?_cons_cons] at hlast)
    have hplanned := s.planned e.1 g.1 hnext
    simp only [extras, List.map_cons, List.sum_cons] at hlater ⊢
    omega

end Schedule

end Alko.Foundation
