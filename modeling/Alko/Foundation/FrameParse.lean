import Alko.Foundation.FrameStream

/-! Arbitrary streams. A stream is cut from its front into pieces, each a frame or junk that no
frame starts with; a resumable reader takes the same pieces in the same order, however arrivals
and polls are interleaved. -/

namespace Alko.Foundation.FrameFormat

variable {α : Type*}

inductive Piece (F : FrameFormat α)
  | junk (letters : List α)
  | frame (f : F.Frame)

namespace Piece

variable {F : FrameFormat α}

def letters : F.Piece → List α
  | junk letters => letters
  | frame f => f.letters

def toFrame : F.Piece → Option F.Frame
  | junk _ => none
  | frame f => some f

end Piece

def consumed {F : FrameFormat α} (ps : List F.Piece) : List α := (ps.map Piece.letters).flatten

def frames {F : FrameFormat α} (ps : List F.Piece) : List F.Frame := ps.filterMap Piece.toFrame

variable {F : FrameFormat α}

theorem frames_append (ps qs : List F.Piece) : frames (ps ++ qs) = frames ps ++ frames qs := by
  simp only [frames, List.filterMap_append]

/-- What lies in front of a stream with all the letters a reader needs to tell. -/
inductive Cut : List α → F.Piece → List α → Prop
  | sig0 {s0 rest} (need : F.need ≤ rest.length + 1) (h : s0 ≠ F.sig0) :
      Cut (s0 :: rest) (.junk [s0]) rest
  | sig1 {s1 rest} (need : F.need ≤ rest.length + 2) (h : s1 ≠ F.sig1) :
      Cut (F.sig0 :: s1 :: rest) (.junk [F.sig0, s1]) rest
  | size {n rest} (need : F.need ≤ rest.length + 3)
      (h : F.maxSize < F.size n ∨ F.size n < F.minSize) :
      Cut (F.sig0 :: F.sig1 :: n :: rest) (.junk [F.sig0, F.sig1, n]) rest
  | frame (f : F.Frame) (rest) : Cut (f.letters ++ rest) (.frame f) rest

theorem Cut.append {s s' : List α} {p : F.Piece} (h : Cut s p s') (t : List α) :
    Cut (s ++ t) p (s' ++ t) := by
  have hle : ∀ k, s'.length + k ≤ (s' ++ t).length + k := by
    intro k
    rw [List.length_append]
    omega
  cases h with
  | sig0 need h => exact .sig0 (need.trans (hle 1)) h
  | sig1 need h => exact .sig1 (need.trans (hle 2)) h
  | size need h => exact .size (need.trans (hle 3)) h
  | frame f =>
    rw [List.append_assoc]
    exact .frame f (s' ++ t)

theorem Cut.letters {s s' : List α} {p : F.Piece} (h : Cut s p s') : s = p.letters ++ s' := by
  cases h <;> rfl

theorem Cut.pos {s s' : List α} {p : F.Piece} (h : Cut s p s') : 0 < p.letters.length := by
  cases h <;> simp [Piece.letters]

theorem Cut.of_append {u t : List α} {p : F.Piece} (h : Cut (p.letters ++ (u ++ t)) p (u ++ t))
    (hneed : F.need ≤ (p.letters ++ u).length) : Cut (p.letters ++ u) p u := by
  rw [List.length_append, Nat.add_comm] at hneed
  generalize p.letters ++ (u ++ t) = s at h
  generalize u ++ t = s' at h
  cases h with
  | sig0 need h => exact .sig0 hneed h
  | sig1 need h => exact .sig1 hneed h
  | size need h => exact .size hneed h
  | frame f => exact .frame f u

inductive Cuts : List α → List F.Piece → List α → Prop
  | nil (s) : Cuts s [] s
  | cons {s p s' ps rest} (h : Cut s p s') (hs : Cuts s' ps rest) : Cuts s (p :: ps) rest

theorem Cuts.one {s s' : List α} {p : F.Piece} (h : Cut s p s') : Cuts s [p] s' :=
  .cons h (.nil s')

theorem Cuts.trans {s₁ s₂ s₃ : List α} {ps qs : List F.Piece} (h : Cuts s₁ ps s₂)
    (h' : Cuts s₂ qs s₃) : Cuts s₁ (ps ++ qs) s₃ := by
  induction h with
  | nil s => exact h'
  | cons h _ ih => exact .cons h (ih h')

theorem Cuts.append {s s' : List α} {ps : List F.Piece} (h : Cuts s ps s') (t : List α) :
    Cuts (s ++ t) ps (s' ++ t) := by
  induction h with
  | nil s => exact .nil (s ++ t)
  | cons h _ ih => exact .cons (h.append t) ih

theorem Cuts.letters {s s' : List α} {ps : List F.Piece} (h : Cuts s ps s') :
    s = consumed ps ++ s' := by
  induction h with
  | nil s => rfl
  | cons h _ ih =>
    rw [h.letters, ih]
    simp only [consumed, List.map_cons, List.flatten_cons, List.append_assoc]

theorem Cuts.isInfix {s s' : List α} {ps : List F.Piece} (h : Cuts s ps s') {f : F.Frame}
    (hf : f ∈ frames ps) : f.letters <:+: s := by
  obtain ⟨p, hp, hframe⟩ := List.mem_filterMap.mp hf
  obtain ⟨before, after, rfl⟩ := List.append_of_mem hp
  have hletters : p.letters = f.letters := by
    cases p with
    | junk letters => simp [Piece.toFrame] at hframe
    | frame g => rw [Option.some.inj hframe, Piece.letters]
  refine ⟨consumed before, consumed after ++ s', ?_⟩
  rw [h.letters, ← hletters]
  simp only [consumed, List.map_append, List.map_cons, List.flatten_append, List.flatten_cons,
    List.append_assoc]

section Body

variable {n : α} {rest : List α}

theorem size_eq_take (hsize : ¬(F.maxSize < F.size n ∨ F.size n < F.minSize))
    (hbody : ¬rest.length < F.size n - 3) :
    F.size n = (rest.take (F.size n - 3)).length + 3 := by
  have h3 := F.lt_minSize
  rw [List.length_take]
  omega

theorem minSize_le_take (hsize : ¬(F.maxSize < F.size n ∨ F.size n < F.minSize))
    (hbody : ¬rest.length < F.size n - 3) :
    F.minSize ≤ (rest.take (F.size n - 3)).length + 3 := by
  rw [← size_eq_take hsize hbody]
  exact Nat.le_of_not_lt (not_or.mp hsize).2

theorem take_le_maxSize (hsize : ¬(F.maxSize < F.size n ∨ F.size n < F.minSize))
    (hbody : ¬rest.length < F.size n - 3) :
    (rest.take (F.size n - 3)).length + 3 ≤ F.maxSize := by
  rw [← size_eq_take hsize hbody]
  exact Nat.le_of_not_lt (not_or.mp hsize).1

end Body

section Parse

variable (F) [DecidableEq α]

/-- The front piece of a stream, and what is behind it; none where a reader has to wait. -/
def cut (s : List α) : Option (F.Piece × List α) :=
  if s.length < F.need then none
  else
    match s with
    | s0 :: s1 :: n :: rest =>
      if s0 ≠ F.sig0 then some (.junk [s0], s1 :: n :: rest)
      else if s1 ≠ F.sig1 then some (.junk [s0, s1], n :: rest)
      else if hsize : F.maxSize < F.size n ∨ F.size n < F.minSize then
        some (.junk [s0, s1, n], rest)
      else if hbody : rest.length < F.size n - 3 then none
      else
        some (.frame
          { sizeLetter := n
            body := rest.take (F.size n - 3)
            size_eq := size_eq_take hsize hbody
            minSize_le := minSize_le_take hsize hbody
            le_maxSize := take_le_maxSize hsize hbody }, rest.drop (F.size n - 3))
    | _ => none

def parseFor : ℕ → List α → List F.Piece
  | 0, _ => []
  | fuel + 1, s =>
    match F.cut s with
    | none => []
    | some (p, rest) => p :: parseFor fuel rest

def parse (s : List α) : List F.Piece := F.parseFor s.length s

variable {F}

theorem cut_cases {s s' : List α} {p : F.Piece} (h : F.cut s = some (p, s')) : Cut s p s' := by
  unfold cut at h
  split at h
  · exact absurd h (by simp)
  · rename_i hneed
    match s, hneed, h with
    | s0 :: s1 :: n :: rest, hneed, h =>
      simp only [List.length_cons, Nat.not_lt] at hneed
      simp only at h
      split_ifs at h with h0 h1 hsize hbody
      · cases h
        exact .sig0 hneed h0
      · cases h
        rw [not_not.mp h0]
        exact .sig1 hneed h1
      · cases h
        rw [not_not.mp h0, not_not.mp h1]
        exact .size hneed hsize
      · simp only [Option.some.injEq, Prod.mk.injEq] at h
        obtain ⟨rfl, rfl⟩ := h
        rw [not_not.mp h0, not_not.mp h1]
        -- the body and what is behind it are the letters behind the header again
        refine Eq.subst (motive := fun letters => Cut letters _ _) ?_ (Cut.frame _ _)
        simp only [Frame.letters, List.cons_append, List.take_append_drop]
    | [], _, h => simp at h
    | [_], _, h => simp at h
    | [_, _], _, h => simp at h

theorem Cut.cut_eq {s s' : List α} {p : F.Piece} (h : Cut s p s') : F.cut s = some (p, s') := by
  have h3 := F.three_le_need
  cases h with
  | @sig0 s0 _ need h =>
    match s', need with
    | s1 :: n :: rest, need =>
      simp only [List.length_cons] at need
      rw [cut, if_neg (by simpa using need)]
      exact if_pos h
    | [], need => simp only [List.length_nil] at need; omega
    | [_], need => simp only [List.length_singleton] at need; omega
  | @sig1 s1 _ need h =>
    match s', need with
    | n :: rest, need =>
      simp only [List.length_cons] at need
      rw [cut, if_neg (by simpa using need)]
      simp only [ne_eq, not_true_eq_false, if_false, if_pos h]
    | [], need => simp only [List.length_nil] at need; omega
  | size need h =>
    rw [cut, if_neg (by simpa using need)]
    simp only [ne_eq, not_true_eq_false, if_false, dif_pos h]
  | frame f =>
    obtain ⟨n, body, hsize, hmin, hmax⟩ := f
    have hneed := F.need_le
    have hok : ¬(F.maxSize < body.length + 3 ∨ body.length + 3 < F.minSize) := by omega
    have hbody : ¬(body ++ s').length < body.length := by
      rw [List.length_append]
      omega
    change F.cut (F.sig0 :: F.sig1 :: n :: (body ++ s')) = _
    rw [cut, if_neg (by simp only [List.length_cons, List.length_append]; omega)]
    simp only [ne_eq, not_true_eq_false, if_false, hsize, Nat.add_sub_cancel, dif_neg hok,
      dif_neg hbody, List.take_left, List.drop_left]

theorem Cut.functional {s s₁ s₂ : List α} {p₁ p₂ : F.Piece} (h₁ : Cut s p₁ s₁)
    (h₂ : Cut s p₂ s₂) : p₁ = p₂ ∧ s₁ = s₂ := by
  have h := h₁.cut_eq.symm.trans h₂.cut_eq
  simpa using h

theorem parseFor_cuts (fuel : ℕ) (s : List α) (h : s.length ≤ fuel) :
    ∃ rest, Cuts s (F.parseFor fuel s) rest ∧ F.cut rest = none := by
  induction fuel generalizing s with
  | zero =>
    have hs : s = [] := List.eq_nil_of_length_eq_zero (Nat.le_zero.mp h)
    have h3 := F.three_le_need
    refine ⟨s, .nil s, ?_⟩
    exact if_pos (by rw [hs, List.length_nil]; omega)
  | succ fuel ih =>
    rw [parseFor]
    cases hcut : F.cut s with
    | none => exact ⟨s, .nil s, hcut⟩
    | some c =>
      obtain ⟨p, s'⟩ := c
      have hp := cut_cases hcut
      have hlen := congrArg List.length hp.letters
      have hpos := hp.pos
      rw [List.length_append] at hlen
      obtain ⟨rest, hrest, hend⟩ := ih s' (by omega)
      exact ⟨rest, .cons hp hrest, hend⟩

theorem parse_cuts (s : List α) : ∃ rest, Cuts s (F.parse s) rest ∧ F.cut rest = none :=
  parseFor_cuts s.length s le_rfl

theorem Cuts.isPrefix {s s₁ s₂ : List α} {ps qs : List F.Piece} (h : Cuts s ps s₁)
    (hq : Cuts s qs s₂) (hend : F.cut s₂ = none) : ∃ qs', qs = ps ++ qs' ∧ Cuts s₁ qs' s₂ := by
  induction h generalizing qs with
  | nil s => exact ⟨qs, rfl, hq⟩
  | cons h _ ih =>
    cases hq with
    | nil => exact absurd (h.cut_eq.symm.trans hend) (by simp)
    | cons hq hqs =>
      obtain ⟨rfl, rfl⟩ := h.functional hq
      obtain ⟨qs', rfl, hqs'⟩ := ih hqs
      exact ⟨qs', rfl, hqs'⟩

theorem Cuts.prefix_parse {s s' : List α} {ps : List F.Piece} (h : Cuts s ps s') :
    ps <+: F.parse s := by
  obtain ⟨rest, hrest, hend⟩ := parse_cuts (F := F) s
  obtain ⟨qs, hqs, -⟩ := h.isPrefix hrest hend
  exact ⟨qs, hqs.symm⟩

theorem Cuts.eq_parse {s s' : List α} {ps : List F.Piece} (h : Cuts s ps s')
    (hend : F.cut s' = none) : ps = F.parse s := by
  obtain ⟨rest, hrest, -⟩ := parse_cuts (F := F) s
  have hprefix := h.prefix_parse
  obtain ⟨ps', hps', -⟩ := hrest.isPrefix h hend
  rw [hps'] at hprefix ⊢
  have hlen := hprefix.length_le
  rw [List.length_append] at hlen
  rw [List.eq_nil_of_length_eq_zero (by omega : ps'.length = 0), List.append_nil]

inductive Advance (F : FrameFormat α) (s : List α) : List F.Piece → List α → Prop
  | stuck (h : F.cut s = none) : Advance F s [] s
  | takes {p s'} (h : Cut s p s') : Advance F s [p] s'

theorem Advance.cuts {s s' : List α} {ps : List F.Piece} (h : F.Advance s ps s') :
    Cuts s ps s' := by
  cases h with
  | stuck h => exact .nil s
  | takes h => exact .one h

theorem cut_eq_none_of_length {s : List α} (h : s.length < F.need) : F.cut s = none := if_pos h

/-- Where three letters are enough to look at, a reader keeps up with letters that come singly. -/
theorem Advance.keeps_up (hneed : F.need = 3) {s s' : List α} {ps : List F.Piece} {letter : α}
    (hstuck : F.cut s = none) (h : F.Advance (s ++ [letter]) ps s') : F.cut s' = none := by
  cases h with
  | stuck h => exact h
  | @takes p _ h =>
    have hletters := h.letters
    rcases List.eq_nil_or_concat s' with rfl | ⟨u, last, rfl⟩
    · exact cut_eq_none_of_length (by rw [hneed, List.length_nil]; omega)
    · rw [List.concat_eq_append, ← List.append_assoc] at hletters
      obtain ⟨rfl, hlast⟩ := List.append_inj' hletters rfl
      rw [List.concat_eq_append, ← hlast, List.append_assoc] at h
      by_cases hlen : F.need ≤ (p.letters ++ u).length
      -- the piece would have been there before the letter
      · exact absurd ((h.of_append hlen).cut_eq.symm.trans hstuck) (by simp)
      · have hpos := h.pos
        rw [List.length_append] at hlen
        refine cut_eq_none_of_length ?_
        rw [List.concat_eq_append, List.length_append, List.length_singleton]
        omega

end Parse

/-! The reader. -/

/-- `r` has taken in `s` and not done with it: its buffer, behind a header already taken. -/
inductive Holds (F : FrameFormat α) (r : Reader α) : List α → Prop
  | idle (pending : r.pending = 0) : Holds F r r.buffer
  | body {n} (size : F.size n = r.pending + 3) (minSize : F.minSize ≤ F.size n)
      (maxSize : F.size n ≤ F.maxSize) : Holds F r (F.sig0 :: F.sig1 :: n :: r.buffer)

theorem Holds.arrive {r : Reader α} {s : List α} (h : F.Holds r s) (letters : List α) :
    F.Holds ⟨r.pending, r.buffer ++ letters⟩ (s ++ letters) := by
  cases h with
  | idle pending => exact .idle pending
  | body size minSize maxSize => exact .body size minSize maxSize

theorem Holds.length_eq {r : Reader α} {s : List α} (h : F.Holds r s) :
    s.length = arrived r := by
  have hmin := F.lt_minSize
  cases h with
  | idle pending => rw [arrived, if_pos pending]
  | body size minSize maxSize =>
    rw [arrived, if_neg (by omega)]
    rfl

variable [DecidableEq α]

inductive Took (F : FrameFormat α) (s late : List α) : Option (List α) → List α → Prop
  | waits (stuck : F.cut s = none) : Took F s late none (s ++ late)
  | skips {letters s'} (h : Cut (s ++ late) (.junk letters : F.Piece) s') : Took F s late none s'
  | yields {f : F.Frame} {s'} (h : Cut (s ++ late) (.frame f) s') :
      Took F s late (some f.body) s'

theorem body_took {n : α} {buffer : List α} (hmin : F.minSize ≤ F.size n)
    (hmax : F.size n ≤ F.maxSize) (late : List α) :
    ∃ s', F.Took (F.sig0 :: F.sig1 :: n :: buffer) late
        (FrameFormat.body (F.size n - 3) (buffer ++ late)).1 s' ∧
      F.Holds (FrameFormat.body (F.size n - 3) (buffer ++ late)).2 s' := by
  have h3 := F.lt_minSize
  have hsize : F.size n = F.size n - 3 + 3 := by omega
  unfold FrameFormat.body
  by_cases hlen : (buffer ++ late).length < F.size n - 3
  · rw [if_pos hlen]
    refine ⟨_, .waits ?_, .body hsize hmin hmax⟩
    rw [List.length_append] at hlen
    have hshort : buffer.length < F.size n - 3 := by omega
    have hok : ¬(F.maxSize < F.size n ∨ F.size n < F.minSize) := by omega
    unfold cut
    split
    · rfl
    · simp only [ne_eq, not_true_eq_false, if_false, dif_neg hok, dif_pos hshort]
  · rw [if_neg hlen]
    have hbody : ((buffer ++ late).take (F.size n - 3)).length + 3 = F.size n := by
      rw [List.length_take]
      omega
    have hcut := Cut.frame (F := F)
      ⟨n, (buffer ++ late).take (F.size n - 3), hbody.symm, by omega, by omega⟩
      ((buffer ++ late).drop (F.size n - 3))
    simp only [Frame.letters, List.cons_append, List.take_append_drop] at hcut
    have hyield : F.Took (F.sig0 :: F.sig1 :: n :: buffer) late _ _ := .yields hcut
    exact ⟨_, hyield, .idle rfl⟩

/-- The step lemma: a poll waits, or takes one piece off what the reader holds. -/
theorem poll_took {r : Reader α} {s : List α} (h : F.Holds r s) (late : List α) :
    ∃ s', F.Took s late (F.poll late r).1 s' ∧ F.Holds (F.poll late r).2 s' := by
  unfold poll
  cases h with
  | idle pending =>
    rw [if_pos pending]
    by_cases hneed : r.buffer.length < F.need
    · rw [if_pos hneed]
      exact ⟨_, .waits (if_pos hneed), .idle rfl⟩
    · rw [if_neg hneed]
      have h3 := F.three_le_need
      match r.buffer, hneed with
      | s0 :: s1 :: n :: rest, hneed =>
        simp only [List.length_cons, Nat.not_lt] at hneed
        have hlate : F.need ≤ (rest ++ late).length + 3 := by
          rw [List.length_append]
          omega
        simp only [header]
        split_ifs with h0 h1 hsize
        · exact ⟨_, .skips (.sig0 hlate h0), .idle rfl⟩
        · rw [not_not.mp h0]
          exact ⟨_, .skips (.sig1 hlate h1), .idle rfl⟩
        · rw [not_not.mp h0, not_not.mp h1]
          exact ⟨_, .skips (.size hlate hsize), .idle rfl⟩
        · rw [not_not.mp h0, not_not.mp h1]
          exact body_took (by omega) (by omega) late
      | [], hneed => simp only [List.length_nil] at hneed; omega
      | [_], hneed => simp only [List.length_singleton] at hneed; omega
      | [_, _], hneed => simp only [List.length_cons, List.length_nil] at hneed; omega
  | @body n size minSize maxSize =>
    have h3 := F.lt_minSize
    rw [if_neg (by omega), show r.pending = F.size n - 3 by omega]
    exact body_took minSize maxSize late

omit [DecidableEq α] in
theorem body_letters (f : F.Frame) (rest : List α) :
    FrameFormat.body f.body.length (f.body ++ rest) = (some f.body, ⟨0, rest⟩) := by
  have hlen : ¬(f.body ++ rest).length < f.body.length := by
    rw [List.length_append]
    omega
  rw [FrameFormat.body, if_neg hlen, List.take_left, List.drop_left]

theorem poll_frame (f : F.Frame) {r : Reader α} {s late rest : List α} (h : F.Holds r s)
    (hlooks : r.pending = 0 → F.need ≤ r.buffer.length) (hframe : s ++ late = f.letters ++ rest) :
    F.poll late r = (some f.body, ⟨0, rest⟩) := by
  have hthree := F.three_le_need
  unfold poll
  cases h with
  | idle idle =>
    rw [if_pos idle, if_neg (Nat.not_lt.mpr (hlooks idle))]
    match hbuffer : r.buffer, hlooks idle with
    | s0 :: s1 :: n :: buffer, _ =>
      rw [hbuffer] at hframe
      simp only [Frame.letters, List.cons_append, List.cons.injEq] at hframe
      obtain ⟨rfl, rfl, rfl, hbody⟩ := hframe
      rw [header_letters]
      simp only
      rw [hbody, body_letters]
    | [], hneed => simp only [List.length_nil] at hneed; omega
    | [_], hneed => simp only [List.length_singleton] at hneed; omega
    | [_, _], hneed => simp only [List.length_cons, List.length_nil] at hneed; omega
  | @body n size minSize maxSize =>
    have hmin := F.lt_minSize
    simp only [Frame.letters, List.cons_append, List.cons.injEq] at hframe
    obtain ⟨-, -, rfl, hbody⟩ := hframe
    have hpending : r.pending = f.body.length := by
      have hsize := f.size_eq
      omega
    rw [if_neg (by omega), hpending, hbody, body_letters]

theorem Holds.cut_eq_none {r : Reader α} {s : List α} (h : F.Holds r s)
    (hsame : (F.poll [] r).2 = r) : F.cut s = none := by
  obtain ⟨s', htook, hholds⟩ := poll_took h []
  rw [hsame] at hholds
  have hlen : s'.length = s.length := hholds.length_eq.trans h.length_eq.symm
  have hshorter : ∀ {p : F.Piece}, ¬Cut (s ++ []) p s' := by
    intro p hcut
    have hletters := congrArg List.length hcut.letters
    have hpos := hcut.pos
    rw [List.length_append, List.length_append, List.length_nil] at hletters
    omega
  generalize (F.poll [] r).1 = o at htook
  cases htook with
  | waits stuck => exact stuck
  | skips hcut => exact absurd hcut hshorter
  | yields hcut => exact absurd hcut hshorter

theorem header_shorter {buffer : List α} (h : 3 ≤ buffer.length) :
    (F.header buffer).2.length < buffer.length := by
  match buffer, h with
  | s0 :: s1 :: n :: rest, _ =>
    simp only [header]
    split_ifs <;> simp only [List.length_cons] <;> omega
  | [], h => simp at h
  | [_], h => simp at h
  | [_, _], h => simp at h

omit [DecidableEq α] in
theorem body_length_le (pending : ℕ) (buffer : List α) :
    (FrameFormat.body pending buffer).2.buffer.length ≤ buffer.length := by
  unfold FrameFormat.body
  split
  · exact le_rfl
  · simp only [List.length_drop, Nat.sub_le]

theorem poll_progress {r : Reader α} (late : List α) (hidle : r.pending = 0)
    (hneed : F.need ≤ r.buffer.length) :
    (F.poll late r).2.buffer.length < r.buffer.length + late.length := by
  have h3 := F.three_le_need
  have hshorter := header_shorter (F := F) (h3.trans hneed)
  unfold poll
  rw [if_pos hidle, if_neg (Nat.not_lt.mpr hneed)]
  generalize F.header r.buffer = hd at hshorter ⊢
  match hd, hshorter with
  | (none, rest), hshorter =>
    simp only [List.length_append]
    exact Nat.add_lt_add_right hshorter _
  | (some n, rest), hshorter =>
    have hle := body_length_le n (rest ++ late)
    rw [List.length_append] at hle
    exact Nat.lt_of_le_of_lt hle (Nat.add_lt_add_right hshorter _)

theorem poll_rests_or_shorter (r : Reader α) :
    (F.poll [] r).2 = r ∨ (F.poll [] r).2.buffer.length < r.buffer.length := by
  obtain ⟨pending, buffer⟩ := r
  by_cases hidle : pending = 0
  · by_cases hneed : F.need ≤ buffer.length
    · exact .inr (poll_progress [] hidle hneed)
    · left
      simp only [poll, hidle, if_true, if_pos (Nat.not_le.mp hneed), List.append_nil]
  · simp only [poll, if_neg hidle, List.append_nil, FrameFormat.body]
    split
    · exact .inl rfl
    · right
      simp only [List.length_drop]
      omega

theorem exists_rest (r : Reader α) :
    ∃ n, (F.poll [] ((fun r => (F.poll [] r).2)^[n] r)).2 = (fun r => (F.poll [] r).2)^[n] r := by
  rcases poll_rests_or_shorter (F := F) r with hsame | hshorter
  · exact ⟨0, hsame⟩
  · obtain ⟨n, hn⟩ := exists_rest (F.poll [] r).2
    exact ⟨n + 1, hn⟩
termination_by r.buffer.length

end Alko.Foundation.FrameFormat
