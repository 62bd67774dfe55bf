import Mathlib.Tactic

/-! Resumable readers of a stream of length-prefixed frames. A frame is two signature letters, a
size letter and a body; a reader holds what has arrived and, between two polls, the size of a body
it still waits for. On a stream of well-formed frames it yields the bodies in order, each once,
however arrivals and polls are interleaved. -/

namespace Alko.Foundation

structure FrameFormat (α : Type*) where
  sig0 : α
  sig1 : α
  size : α → ℕ
  -- Letters that must have arrived before a header is looked at.
  need : ℕ
  minSize : ℕ
  maxSize : ℕ
  three_le_need : 3 ≤ need
  need_le : need ≤ minSize
  lt_minSize : 3 < minSize

structure Reader (α : Type*) where
  -- Size of the body the reader waits for; 0 while it looks for a header.
  pending : ℕ
  buffer : List α

namespace FrameFormat

section Poll

variable {α : Type*} [DecidableEq α] (F : FrameFormat α)

/-- The header scan: the body size a full header announces, and the letters left. -/
def header : List α → Option ℕ × List α
  | s0 :: s1 :: n :: rest =>
    if s0 ≠ F.sig0 then (none, s1 :: n :: rest)
    else if s1 ≠ F.sig1 then (none, n :: rest)
    else if F.maxSize < F.size n ∨ F.size n < F.minSize then (none, rest)
    else (some (F.size n - 3), rest)
  | buffer => (none, buffer)

omit [DecidableEq α] in
def body (pending : ℕ) (buffer : List α) : Option (List α) × Reader α :=
  if buffer.length < pending then (none, ⟨pending, buffer⟩)
  else (some (buffer.take pending), ⟨0, buffer.drop pending⟩)

/-- One poll; `late` arrives between the look at the header and the look at the body. -/
def poll (late : List α) (r : Reader α) : Option (List α) × Reader α :=
  if r.pending = 0 then
    if r.buffer.length < F.need then (none, ⟨0, r.buffer ++ late⟩)
    else
      match F.header r.buffer with
      | (none, rest) => (none, ⟨0, rest ++ late⟩)
      | (some n, rest) => body n (rest ++ late)
  else body r.pending (r.buffer ++ late)

end Poll

variable {α : Type*} {F : FrameFormat α}

structure Frame (F : FrameFormat α) where
  sizeLetter : α
  body : List α
  size_eq : F.size sizeLetter = body.length + 3
  minSize_le : F.minSize ≤ body.length + 3
  le_maxSize : body.length + 3 ≤ F.maxSize

namespace Frame

def letters (f : F.Frame) : List α := F.sig0 :: F.sig1 :: f.sizeLetter :: f.body

@[simp] theorem length_letters (f : F.Frame) : f.letters.length = f.body.length + 3 := rfl

theorem body_pos (f : F.Frame) : 0 < f.body.length := by
  have h := f.minSize_le
  have hm := F.lt_minSize
  omega

end Frame

def stream (fs : List F.Frame) : List α := (fs.map Frame.letters).flatten

@[simp] theorem stream_nil : stream ([] : List F.Frame) = [] := rfl

@[simp] theorem stream_cons (f : F.Frame) (fs : List F.Frame) :
    stream (f :: fs) = f.letters ++ stream fs := rfl

/-- `r` has `fs` still to yield, where `future` is what has not arrived yet. -/
inductive Expects (r : Reader α) (future : List α) : List F.Frame → Prop
  | header {fs} (idle : r.pending = 0) (letters : r.buffer ++ future = stream fs) :
      Expects r future fs
  | body {f fs} (pending : r.pending = f.body.length)
      (letters : r.buffer ++ future = f.body ++ stream fs) : Expects r future (f :: fs)

theorem Expects.arrive {r : Reader α} {letters future : List α} {fs : List F.Frame}
    (h : Expects r (letters ++ future) fs) :
    Expects ⟨r.pending, r.buffer ++ letters⟩ future fs := by
  cases h with
  | header idle hletters => exact .header idle (by rw [List.append_assoc, hletters])
  | body pending hletters => exact .body pending (by rw [List.append_assoc, hletters])

def arrived (r : Reader α) : ℕ := if r.pending = 0 then r.buffer.length else r.buffer.length + 3

theorem arrived_arrive (r : Reader α) (letters : List α) :
    arrived ⟨r.pending, r.buffer ++ letters⟩ = arrived r + letters.length := by
  unfold arrived
  by_cases hidle : r.pending = 0
  · simp only [if_pos hidle, List.length_append]
  · simp only [if_neg hidle, List.length_append]
    omega

inductive Polled (f : F.Frame) (fs : List F.Frame) (future : List α) :
    ℕ → Option (List α) × Reader α → Prop
  | waits {r} (more : arrived r < f.body.length + 3) (rest : Expects r future (f :: fs)) :
      Polled f fs future (arrived r) (none, r)
  | yields {r} (rest : Expects r future fs) :
      Polled f fs future (f.body.length + 3 + arrived r) (some f.body, r)

theorem body_polled (f : F.Frame) (fs : List F.Frame) {buffer future : List α}
    (h : buffer ++ future = f.body ++ stream fs) :
    Polled f fs future (buffer.length + 3) (FrameFormat.body f.body.length buffer) := by
  have hpos := f.body_pos
  unfold FrameFormat.body
  by_cases hlen : buffer.length < f.body.length
  · have ha : arrived (⟨f.body.length, buffer⟩ : Reader α) = buffer.length + 3 :=
      if_neg (Nat.pos_iff_ne_zero.mp hpos)
    rw [if_pos hlen, ← ha]
    exact .waits (by omega) (.body rfl h)
  · have hle : f.body.length ≤ buffer.length := Nat.le_of_not_lt hlen
    have htake : buffer.take f.body.length = f.body := by
      have hsplit : (buffer ++ future).take f.body.length = buffer.take f.body.length :=
        List.take_append_of_le_length hle
      rw [← hsplit, h, List.take_left]
    have hdrop : buffer.drop f.body.length ++ future = stream fs := by
      rw [← List.drop_append_of_le_length hle, h, List.drop_left]
    have ha : buffer.length + 3 =
        f.body.length + 3 + arrived (⟨0, buffer.drop f.body.length⟩ : Reader α) := by
      simp only [arrived, if_true, List.length_drop]
      omega
    rw [if_neg hlen, htake, ha]
    exact .yields (.header rfl hdrop)

theorem buffer_of_header (f : F.Frame) (fs : List F.Frame) {buffer future : List α}
    (h : buffer ++ future = stream (f :: fs)) (hlen : F.need ≤ buffer.length) :
    ∃ rest, buffer = F.sig0 :: F.sig1 :: f.sizeLetter :: rest ∧
      rest ++ future = f.body ++ stream fs := by
  have hneed := F.three_le_need
  match buffer, h, hlen with
  | a :: b :: c :: rest, h, _ =>
    simp only [stream_cons, Frame.letters, List.cons_append, List.cons.injEq] at h
    obtain ⟨rfl, rfl, rfl, hrest⟩ := h
    exact ⟨rest, rfl, hrest⟩
  | [], _, hlen => simp only [List.length_nil] at hlen; omega
  | [_], _, hlen => simp only [List.length_singleton] at hlen; omega
  | [_, _], _, hlen => simp only [List.length_cons, List.length_nil] at hlen; omega

theorem arrived_add_length {r : Reader α} {future : List α} {fs : List F.Frame}
    (h : Expects r future fs) : arrived r + future.length = (stream fs).length := by
  cases h with
  | header idle letters =>
    have hlen := congrArg List.length letters
    rw [List.length_append] at hlen
    rwa [arrived, if_pos idle]
  | @body f fs pending letters =>
    have hlen := congrArg List.length letters
    have hne : r.pending ≠ 0 := by
      rw [pending]
      exact Nat.pos_iff_ne_zero.mp f.body_pos
    rw [List.length_append, List.length_append] at hlen
    rw [arrived, if_neg hne, stream_cons, List.length_append, Frame.length_letters]
    omega

theorem le_arrived (f : F.Frame) (fs : List F.Frame) {r : Reader α}
    (h : Expects r [] (f :: fs)) : f.body.length + 3 ≤ arrived r := by
  have hlen := arrived_add_length h
  rw [stream_cons, List.length_append, Frame.length_letters, List.length_nil] at hlen
  omega

section Stream

variable [DecidableEq α]

theorem header_letters (f : F.Frame) (rest : List α) :
    F.header (F.sig0 :: F.sig1 :: f.sizeLetter :: rest) = (some f.body.length, rest) := by
  have hmin := f.minSize_le
  have hmax := f.le_maxSize
  have hsize : ¬(F.maxSize < F.size f.sizeLetter ∨ F.size f.sizeLetter < F.minSize) := by
    rw [f.size_eq]
    omega
  simp only [header, ne_eq, not_true_eq_false, if_false, if_neg hsize]
  rw [f.size_eq, Nat.add_sub_cancel]

/-- The step lemma: a poll either waits for the rest of the next frame or yields it whole. -/
theorem poll_polled (f : F.Frame) (fs : List F.Frame) {r : Reader α} {late future : List α}
    (h : Expects r (late ++ future) (f :: fs)) :
    (∃ r', F.poll late r = (none, r') ∧ arrived r < F.need ∧
        arrived r' = arrived r + late.length ∧ Expects r' future (f :: fs)) ∨
      Polled f fs future (arrived r + late.length) (F.poll late r) := by
  unfold poll
  cases h with
  | header idle letters =>
    rw [if_pos idle]
    by_cases hneed : r.buffer.length < F.need
    · have ha : arrived r = r.buffer.length := if_pos idle
      refine Or.inl ⟨_, if_pos hneed, ha ▸ hneed, ?_, .header rfl (by simpa using letters)⟩
      rw [ha]
      simp only [arrived, if_true, List.length_append]
    · obtain ⟨rest, hbuf, hrest⟩ := buffer_of_header f fs letters (Nat.le_of_not_lt hneed)
      right
      rw [if_neg hneed, hbuf, header_letters]
      have ha : arrived r + late.length = (rest ++ late).length + 3 := by
        simp only [arrived, idle, if_true, hbuf, List.length_cons, List.length_append]
        omega
      rw [ha]
      exact body_polled f fs (by simpa using hrest)
  | body pending letters =>
    right
    have hne : r.pending ≠ 0 := by
      rw [pending]
      exact Nat.pos_iff_ne_zero.mp f.body_pos
    have ha : arrived r + late.length = (r.buffer ++ late).length + 3 := by
      simp only [arrived, if_neg hne, List.length_append]
      omega
    rw [if_neg hne, pending, ha]
    exact body_polled f fs (by simpa using letters)

theorem poll_now (f : F.Frame) (fs : List F.Frame) {r : Reader α} {future : List α}
    (h : Expects r future (f :: fs)) : Polled f fs future (arrived r) (F.poll [] r) := by
  have hnow : Expects r ([] ++ future) (f :: fs) := h
  rcases poll_polled f fs hnow with ⟨r', hpoll, hneed, ha, hr'⟩ | hp
  -- a poll that still lacks the header has not got the whole frame either
  · have hle := F.need_le
    have hmin := f.minSize_le
    rw [hpoll, show arrived r = arrived r' by simpa using ha.symm]
    exact .waits (by simp only [List.length_nil] at ha; omega) hr'
  · simpa using hp

theorem poll_nil {r : Reader α} {late future : List α}
    (h : Expects r (late ++ future) ([] : List F.Frame)) :
    F.poll late r = (none, r) ∧ Expects r future ([] : List F.Frame) := by
  cases h with
  | header idle letters =>
    simp only [stream_nil, List.append_eq_nil_iff] at letters
    obtain ⟨hbuf, hlate, hfuture⟩ := letters
    have hneed : r.buffer.length < F.need := by
      have h3 := F.three_le_need
      rw [hbuf, List.length_nil]
      omega
    refine ⟨?_, .header idle (by rw [hbuf, hfuture, stream_nil, List.append_nil])⟩
    obtain ⟨pending, buffer⟩ := r
    simp only at idle
    simp only [poll, idle, if_true, if_pos hneed, hlate, List.append_nil]

theorem poll_complete (f : F.Frame) (fs : List F.Frame) {r : Reader α}
    (h : Expects r [] (f :: fs)) :
    ∃ r', F.poll [] r = (some f.body, r') ∧ Expects r' [] fs := by
  have hpolled := poll_now f fs h
  generalize F.poll [] r = p, arrived r = n at hpolled
  cases hpolled with
  | waits more rest => exact absurd (le_arrived f fs rest) (Nat.not_le.mpr more)
  | yields rest => exact ⟨_, rfl, rest⟩

end Stream

end FrameFormat
end Alko.Foundation
