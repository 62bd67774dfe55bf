import Mathlib.Data.List.DropRight
import Alko.Foundation.FrameParse

/-! Junk without a signature in it. The scan takes the first signature letter together with the
letter behind it, so it meets the frame behind the junk only where the signature letters that the
junk ends with pair up. -/

namespace Alko.Foundation.FrameFormat

variable {α : Type*}

theorem rtakeWhile_append (p : α → Bool) (k l : List α) :
    (k ++ l).rtakeWhile p = if l.all p then k.rtakeWhile p ++ l else l.rtakeWhile p := by
  induction l using List.reverseRecOn with
  | nil => simp
  | append_singleton l x ih =>
    have hall : (l ++ [x]).all p = (l.all p && p x) := by
      rw [List.all_append, List.all_cons, List.all_nil, Bool.and_true]
    rw [← List.append_assoc, List.rtakeWhile_concat, List.rtakeWhile_concat, ih, hall]
    cases p x <;> cases l.all p <;> simp

theorem rtakeWhile_all {p : α → Bool} {l : List α} (h : l.all p) : l.rtakeWhile p = l :=
  List.rtakeWhile_eq_self_iff.mpr (List.all_eq_true.mp h)

theorem rtakeWhile_cons {p : α → Bool} {x : α} (l : List α) (h : p x = false) :
    (x :: l).rtakeWhile p = l.rtakeWhile p := by
  have happend := rtakeWhile_append p [x] l
  cases hall : l.all p with
  | true =>
    rw [hall, if_pos rfl] at happend
    rw [rtakeWhile_all hall]
    simpa [List.rtakeWhile, h] using happend
  | false => simpa [hall] using happend

theorem even_rtakeWhile_cons_cons {p : α → Bool} {x y : α} (l : List α) (h : p x = true) :
    Even ((x :: y :: l).rtakeWhile p).length ↔ Even (l.rtakeWhile p).length := by
  have happend := rtakeWhile_append p [x, y] l
  cases hall : l.all p with
  | true =>
    have hpair : Even (([x, y] : List α).rtakeWhile p).length := by
      cases hy : p y <;> simp [List.rtakeWhile, h, hy]
    rw [hall, if_pos rfl] at happend
    rw [show x :: y :: l = [x, y] ++ l from rfl, happend, List.length_append, Nat.even_add,
      rtakeWhile_all hall]
    exact iff_true_left hpair
  | false =>
    rw [hall] at happend
    rw [show x :: y :: l = [x, y] ++ l from rfl, happend]
    rfl

variable [DecidableEq α] {F : FrameFormat α}

/-- The front letters of junk that go at once leave the same parity behind. -/
theorem cuts_junk (hne : F.sig0 ≠ F.sig1) (f : F.Frame) (junk : List α)
    (hclean : ¬[F.sig0, F.sig1] <:+: junk) :
    ∃ ps : List F.Piece, frames ps = [] ∧ Cuts (junk ++ f.letters) ps
      (if Even (junk.rtakeWhile (· = F.sig0)).length then f.letters else f.letters.tail) := by
  have hneed : F.need ≤ f.letters.length := F.need_le.trans f.minSize_le
  have hroom : ∀ l : List α, F.need ≤ (l ++ f.letters).length := by
    intro l
    rw [List.length_append]
    exact Nat.le_add_left_of_le hneed
  match junk, hclean with
  | [], _ => exact ⟨[], rfl, by simpa using Cuts.nil f.letters⟩
  | x :: junk, hclean =>
    by_cases hx : x = F.sig0
    · subst hx
      match junk, hclean with
      | [], _ =>
        -- the frame loses its first letter
        refine ⟨[.junk [F.sig0, F.sig0]], rfl, ?_⟩
        have hodd : ¬Even (([F.sig0] : List α).rtakeWhile (· = F.sig0)).length := by
          simp [List.rtakeWhile]
        rw [if_neg hodd]
        exact .one (.sig1 (by simp only [Frame.letters, List.length_cons] at hneed ⊢; omega) hne)
      | y :: junk, hclean =>
        have hy : y ≠ F.sig1 := by
          rintro rfl
          exact hclean ⟨[], junk, rfl⟩
        obtain ⟨ps, hps, hcuts⟩ := cuts_junk hne f junk
          fun h => hclean (h.trans (List.suffix_append [F.sig0, y] junk).isInfix)
        refine ⟨.junk [F.sig0, y] :: ps, hps, ?_⟩
        have heven := even_rtakeWhile_cons_cons (p := fun x => decide (x = F.sig0)) (y := y) junk
          (decide_eq_true rfl)
        simp only [heven]
        exact .cons (.sig1 (Nat.le_add_right_of_le (hroom junk)) hy) hcuts
    · obtain ⟨ps, hps, hcuts⟩ := cuts_junk hne f junk
        fun h => hclean (h.trans (List.suffix_cons x junk).isInfix)
      refine ⟨.junk [x] :: ps, hps, ?_⟩
      rw [rtakeWhile_cons junk (decide_eq_false hx)]
      exact .cons (.sig0 (Nat.le_add_right_of_le (hroom junk)) hx) hcuts

theorem frames_of_even (hne : F.sig0 ≠ F.sig1) (f : F.Frame) {junk : List α}
    (hclean : ¬[F.sig0, F.sig1] <:+: junk) (heven : Even (junk.rtakeWhile (· = F.sig0)).length) :
    frames (F.parse (junk ++ f.letters)) = [f] := by
  obtain ⟨ps, hps, hcuts⟩ := cuts_junk hne f junk hclean
  have hlast : Cut f.letters (.frame f) [] := by
    simpa using Cut.frame f []
  rw [if_pos heven] at hcuts
  have h3 := F.three_le_need
  have hend : F.cut ([] : List α) = none :=
    cut_eq_none_of_length (by rw [List.length_nil]; omega)
  rw [← (hcuts.trans (.one hlast)).eq_parse hend, frames_append, hps]
  rfl

theorem shorter_of_odd (hne : F.sig0 ≠ F.sig1) (f : F.Frame) {junk : List α}
    (hclean : ¬[F.sig0, F.sig1] <:+: junk) (hodd : ¬Even (junk.rtakeWhile (· = F.sig0)).length)
    {g : F.Frame} (hg : g ∈ frames (F.parse (junk ++ f.letters))) :
    g.letters.length < f.letters.length := by
  obtain ⟨ps, hps, hcuts⟩ := cuts_junk hne f junk hclean
  rw [if_neg hodd] at hcuts
  obtain ⟨rest, hrest, hend⟩ := parse_cuts (F := F) (junk ++ f.letters)
  obtain ⟨qs, hqs, hcuts'⟩ := hcuts.isPrefix hrest hend
  rw [hqs, frames_append, hps, List.nil_append] at hg
  have hle := (hcuts'.isInfix hg).length_le
  rw [List.length_tail] at hle
  have hpos := f.length_letters
  omega

end Alko.Foundation.FrameFormat
