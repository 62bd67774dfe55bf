import Mathlib.Tactic

/-! Texts that a stop ends, read from strokes some of which may be missed. -/

namespace Alko.Foundation

inductive Stroke (α : Type*)
  | letter (a : α)
  | stop
  | idle
  deriving DecidableEq

namespace Stroke

variable {α : Type*}

/-- The letters up to each stop, behind those of `data`. -/
def segments : List (Stroke α) → List α → List (List α)
  | [], _ => []
  | letter a :: strokes, data => segments strokes (data ++ [a])
  | stop :: strokes, data => data :: segments strokes []
  | idle :: strokes, data => segments strokes data

def unfinished : List (Stroke α) → List α → List α
  | [], data => data
  | letter a :: strokes, data => unfinished strokes (data ++ [a])
  | stop :: strokes, _ => unfinished strokes []
  | idle :: strokes, data => unfinished strokes data

theorem segments_append (s t : List (Stroke α)) (data : List α) :
    segments (s ++ t) data = segments s data ++ segments t (unfinished s data) := by
  induction s generalizing data with
  | nil => rfl
  | cons x s ih => cases x <;> simp [segments, unfinished, ih]

theorem unfinished_append (s t : List (Stroke α)) (data : List α) :
    unfinished (s ++ t) data = unfinished t (unfinished s data) := by
  induction s generalizing data with
  | nil => rfl
  | cons x s ih => cases x <;> simp [unfinished, ih]

def strokes (l : List (Stroke α × Bool)) : List (Stroke α) := l.map Prod.fst

def seen (l : List (Stroke α × Bool)) : List (Stroke α) := (l.filter Prod.snd).map Prod.fst

/-- No stop is missed, and no letter with a stop behind it. -/
def Kept : List (Stroke α × Bool) → Prop
  | [] => True
  | (letter _, false) :: l => stop ∉ strokes l ∧ Kept l
  | (stop, false) :: _ => False
  | _ :: l => Kept l

@[simp] theorem strokes_cons (x : Stroke α × Bool) (l : List (Stroke α × Bool)) :
    strokes (x :: l) = x.1 :: strokes l := rfl

@[simp] theorem seen_true (s : Stroke α) (l : List (Stroke α × Bool)) :
    seen ((s, true) :: l) = s :: seen l := rfl

@[simp] theorem seen_false (s : Stroke α) (l : List (Stroke α × Bool)) :
    seen ((s, false) :: l) = seen l := rfl

theorem strokes_append (l l' : List (Stroke α × Bool)) :
    strokes (l ++ l') = strokes l ++ strokes l' := List.map_append

theorem seen_append (l l' : List (Stroke α × Bool)) : seen (l ++ l') = seen l ++ seen l' := by
  rw [seen, List.filter_append, List.map_append]
  rfl

theorem Kept.of_append {l l' : List (Stroke α × Bool)} (h : Kept (l ++ l')) : Kept l := by
  induction l with
  | nil => trivial
  | cons x l ih =>
    obtain ⟨s, b⟩ := x
    cases s with
    | letter c =>
      cases b with
      | true => exact ih h
      | false =>
        have hstop : stop ∉ strokes (l ++ l') := h.1
        rw [strokes_append] at hstop
        exact ⟨fun hmem => hstop (List.mem_append_left _ hmem), ih h.2⟩
    | stop =>
      cases b with
      | true => exact ih h
      | false => exact h.elim
    | idle => cases b <;> exact ih h

theorem length_seen_le (l : List (Stroke α × Bool)) (data data' : List α) :
    (segments (seen l) data).length ≤ (segments (strokes l) data').length := by
  induction l generalizing data data' with
  | nil => rfl
  | cons x l ih =>
    obtain ⟨s, b⟩ := x
    cases b <;> cases s <;> simp only [seen_true, seen_false, strokes_cons, segments,
      List.length_cons]
    · exact ih ..
    · exact (ih ..).trans (Nat.le_succ _)
    · exact ih ..
    · exact ih ..
    · exact Nat.succ_le_succ (ih ..)
    · exact ih ..

/-- What is seen gives the same texts exactly when all is seen that matters; `f` has already been
seen of `a`. -/
theorem segments_seen_iff (l : List (Stroke α × Bool)) {f a : List α} (hle : f.length ≤ a.length) :
    segments (seen l) f = segments (strokes l) a ↔ (stop ∈ strokes l → f = a) ∧ Kept l := by
  induction l generalizing f a with
  | nil => simp [seen, strokes, segments, Kept]
  | cons x l ih =>
    obtain ⟨s, b⟩ := x
    cases s with
    | letter c =>
      cases b with
      | true =>
        simp only [seen_true, strokes_cons, segments, Kept]
        rw [ih (by simpa using hle)]
        simp
      | false =>
        -- the letter is missing from now on, so that no stop may come any more
        have hne : f ≠ a ++ [c] := by
          intro heq
          rw [heq, List.length_append, List.length_singleton] at hle
          exact absurd hle (Nat.not_succ_le_self _)
        simp only [seen_false, strokes_cons, segments, Kept]
        rw [ih (hle.trans (by rw [List.length_append]; exact Nat.le_add_right ..))]
        constructor
        · rintro ⟨heq, hkept⟩
          have hstop : stop ∉ strokes l := fun h => hne (heq h)
          exact ⟨fun h => absurd h (by simpa using hstop), hstop, hkept⟩
        · rintro ⟨-, hstop, hkept⟩
          exact ⟨fun h => absurd h hstop, hkept⟩
    | stop =>
      cases b with
      | true =>
        simp only [seen_true, strokes_cons, segments, Kept, List.cons.injEq]
        rw [ih le_rfl]
        simp
      | false =>
        -- one text is missing, and no text more can come
        simp only [seen_false, strokes_cons, segments, Kept, and_false, iff_false]
        intro heq
        have hle := length_seen_le l f ([] : List α)
        rw [heq, List.length_cons] at hle
        exact absurd hle (Nat.not_succ_le_self _)
    | idle =>
      cases b with
      | true =>
        simp only [seen_true, strokes_cons, segments, Kept]
        rw [ih hle]
        simp
      | false =>
        simp only [seen_false, strokes_cons, segments, Kept]
        rw [ih hle]
        simp

end Stroke

end Alko.Foundation
