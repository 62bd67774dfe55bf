import Mathlib.Tactic

/-! Logs: what the last write leaves in a register, and entries numbered in turn by a counter that
comes round. -/

namespace Alko.Foundation

variable {σ ε β : Type*}

def lastWrite (writes : ε → Option β) (history : List ε) : Option β :=
  history.reverse.findSome? writes

theorem lastWrite_concat (writes : ε → Option β) (history : List ε) (e : ε) :
    lastWrite writes (history ++ [e]) = (writes e).or (lastWrite writes history) := by
  rw [lastWrite, lastWrite, List.reverse_append, List.reverse_singleton, List.findSome?_append,
    List.findSome?_singleton]

theorem lastWrite_eq_some_iff {writes : ε → Option β} {history : List ε} {b : β} :
    lastWrite writes history = some b ↔ ∃ before e after,
      history = before ++ e :: after ∧ writes e = some b ∧ ∀ x ∈ after, writes x = none := by
  rw [lastWrite, List.findSome?_eq_some_iff]
  constructor
  · rintro ⟨after, e, before, hsplit, he, hafter⟩
    refine ⟨before.reverse, e, after.reverse, ?_, he, fun x hx => ?_⟩
    · rw [← List.reverse_reverse history, hsplit, List.reverse_append, List.reverse_cons,
        List.append_assoc, List.singleton_append]
    · exact hafter x (List.mem_reverse.mp hx)
  · rintro ⟨before, e, after, rfl, he, hafter⟩
    refine ⟨after.reverse, e, before.reverse, ?_, he, fun x hx => ?_⟩
    · rw [List.reverse_append, List.reverse_cons, List.append_assoc, List.singleton_append]
    · exact hafter x (List.mem_reverse.mp hx)

/-- A register that every step of a run overwrites or keeps reads back its last write. -/
theorem foldl_eq_lastWrite (read : σ → β) (step : σ → ε → σ) (writes : ε → Option β)
    (hstep : ∀ s e, read (step s e) = (writes e).getD (read s)) (history : List ε) (s : σ) :
    read (history.foldl step s) = (lastWrite writes history).getD (read s) := by
  induction history using List.reverseRecOn with
  | nil => rfl
  | append_singleton history e ih =>
    rw [List.foldl_append, List.foldl_cons, List.foldl_nil, hstep, ih, lastWrite_concat]
    cases writes e with
    | none => rw [Option.getD_none, Option.none_or]
    | some b => rw [Option.getD_some, Option.some_or, Option.getD_some]

variable {number : ε → ℕ} {first period : ℕ} {log : List ε}

/-- The entries have the numbers from `first` on, and from the start again after `period` of
them. -/
def Cyclic (number : ε → ℕ) (first period : ℕ) (log : List ε) : Prop :=
  ∀ k e, log[k]? = some e → number e = first + k % period

theorem Cyclic.concat (h : Cyclic number first period log) {e : ε}
    (he : number e = first + log.length % period) : Cyclic number first period (log ++ [e]) := by
  intro k x hx
  rcases Nat.lt_trichotomy k log.length with hlt | rfl | hgt
  · rw [List.getElem?_append_left hlt] at hx
    exact h k x hx
  · rw [List.getElem?_concat_length] at hx
    rw [← Option.some.inj hx, he]
  · rw [List.getElem?_eq_none (by simpa using hgt)] at hx
    cases hx

theorem Cyclic.nodup_window (h : Cyclic number first period log) (a : ℕ) :
    ((log.drop a).take period).Nodup := by
  rw [List.nodup_iff_getElem?_ne_getElem?]
  intro i j hij hj heq
  rw [List.length_take] at hj
  have hperiod : j < period := hj.trans_le (min_le_left _ _)
  have hlength : j < (log.drop a).length := hj.trans_le (min_le_right _ _)
  rw [List.getElem?_take_of_lt (hij.trans hperiod), List.getElem?_take_of_lt hperiod,
    List.getElem?_eq_getElem hlength, List.getElem?_drop] at heq
  have hlast : log[a + j]? = some (log.drop a)[j] := by
    rw [← List.getElem?_drop, List.getElem?_eq_getElem hlength]
  have hmod : (a + i) % period = (a + j) % period :=
    Nat.add_left_cancel ((h _ _ heq).symm.trans (h _ _ hlast))
  have hsame : i ≡ j [MOD period] := Nat.ModEq.add_left_cancel' a hmod
  exact hij.ne (hsame.eq_of_lt_of_lt (hij.trans hperiod) hperiod)

end Alko.Foundation
