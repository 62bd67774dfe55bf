import Alko.Qt.Lines

/-! A reader that reads one line as each chunk of a stream comes, against one that waits for lines
to be complete. -/

namespace Alko.Qt

/-! Lines of a stream of which more may come. -/

theorem firstLine_append_behindLine (bytes : List UInt8) :
    firstLine bytes ++ behindLine bytes = bytes := by
  induction bytes with
  | nil => rfl
  | cons b bytes ih =>
    rw [firstLine, behindLine]
    split
    · rfl
    · rw [List.cons_append, ih]

theorem mem_firstLine {bytes : List UInt8} : 0x0A ∈ firstLine bytes ↔ 0x0A ∈ bytes := by
  induction bytes with
  | nil => rfl
  | cons b bytes ih =>
    rw [firstLine]
    split
    · rename_i hb
      simp [hb]
    · rw [List.mem_cons, List.mem_cons, ih]

theorem readLine_of_unbroken {bytes : List UInt8} (h : 0x0A ∉ bytes) :
    firstLine bytes = bytes ∧ behindLine bytes = [] ∧ completeLines bytes = ([], bytes) := by
  induction bytes with
  | nil => exact ⟨rfl, rfl, rfl⟩
  | cons b bytes ih =>
    obtain ⟨hb, hbytes⟩ := not_or.mp (List.mem_cons.not.mp h)
    obtain ⟨hfirst, hbehind, hlines⟩ := ih hbytes
    simp only [firstLine, behindLine, completeLines, if_neg (Ne.symm hb), hfirst, hbehind, hlines,
      and_self]

theorem readLine_append {bytes : List UInt8} (h : 0x0A ∈ bytes) (later : List UInt8) :
    firstLine (bytes ++ later) = firstLine bytes ∧
      (completeLines (bytes ++ later)).1 =
        firstLine bytes :: (completeLines (behindLine bytes ++ later)).1 := by
  induction bytes with
  | nil => exact absurd h List.not_mem_nil
  | cons b bytes ih =>
    by_cases hb : b = 0x0A
    · simp only [List.cons_append, firstLine, behindLine, completeLines, if_pos hb, and_self]
    · obtain ⟨hfirst, hlines⟩ := ih ((List.mem_cons.mp h).resolve_left (Ne.symm hb))
      simp only [List.cons_append, firstLine, behindLine, completeLines, if_neg hb, hfirst,
        true_and]
      generalize completeLines (bytes ++ later) = p at hlines ⊢
      obtain ⟨lines, rest⟩ := p
      obtain rfl : lines = _ := hlines
      rfl

theorem completeLines_eq_nil {bytes : List UInt8} :
    (completeLines bytes).1 = [] ↔ 0x0A ∉ bytes := by
  constructor
  · intro hnil hmem
    have hlines := (readLine_append hmem []).2
    rw [List.append_nil, hnil] at hlines
    cases hlines
  · intro h
    rw [(readLine_of_unbroken h).2.2]

theorem readLine_line {line : List UInt8} (h : 0x0A ∉ line) (later : List UInt8) :
    firstLine (line ++ 0x0A :: later) = line ++ [0x0A] ∧
      behindLine (line ++ 0x0A :: later) = later ∧
      completeLines (line ++ 0x0A :: later) =
        ((line ++ [0x0A]) :: (completeLines later).1, (completeLines later).2) := by
  induction line with
  | nil => exact ⟨rfl, rfl, rfl⟩
  | cons b line ih =>
    obtain ⟨hb, hline⟩ := not_or.mp (List.mem_cons.not.mp h)
    simp only [List.cons_append, firstLine, behindLine, completeLines, if_neg (Ne.symm hb),
      ih hline, and_self]

theorem completeLines_lines {lines : List (List UInt8)} (h : ∀ line ∈ lines, 0x0A ∉ line)
    {rest : List UInt8} (hrest : 0x0A ∉ rest) :
    completeLines (lines.flatMap (· ++ [0x0A]) ++ rest) = (lines.map (· ++ [0x0A]), rest) := by
  induction lines with
  | nil => exact (readLine_of_unbroken hrest).2.2
  | cons line lines ih =>
    obtain ⟨hline, hlines⟩ := List.forall_mem_cons.mp h
    rw [List.flatMap_cons, List.append_assoc, List.append_assoc, List.singleton_append,
      (readLine_line hline _).2.2, ih hlines, List.map_cons]

theorem completeLines_append (bytes later : List UInt8) :
    completeLines (bytes ++ later) =
      ((completeLines bytes).1 ++ (completeLines ((completeLines bytes).2 ++ later)).1,
        (completeLines ((completeLines bytes).2 ++ later)).2) := by
  induction bytes with
  | nil => rfl
  | cons b bytes ih =>
    by_cases hb : b = 0x0A
    · simp only [List.cons_append, completeLines, if_pos hb, ih]
    · simp only [List.cons_append, completeLines, if_neg hb, ih]
      generalize completeLines bytes = p
      obtain ⟨lines, rest⟩ := p
      cases lines with
      | nil => simp only [List.nil_append, List.cons_append, completeLines, if_neg hb]
      | cons line lines => simp only [List.cons_append]

theorem newline_mem_of_completeLines {bytes line : List UInt8}
    (h : line ∈ (completeLines bytes).1) : 0x0A ∈ line := by
  induction bytes generalizing line with
  | nil => cases h
  | cons b bytes ih =>
    by_cases hb : b = 0x0A
    · rw [completeLines, if_pos hb] at h
      rcases List.mem_cons.mp h with rfl | h
      · simp [hb]
      · exact ih h
    · rw [completeLines, if_neg hb] at h
      generalize hp : completeLines bytes = p at h ih
      obtain ⟨lines, rest⟩ := p
      cases lines with
      | nil => cases h
      | cons l lines =>
        rcases List.mem_cons.mp h with rfl | h
        · exact List.mem_cons_of_mem _ (ih List.mem_cons_self)
        · exact ih (List.mem_cons_of_mem _ h)

section Reads

variable (stops : List UInt8 → Bool)

/-- The lines up to the first one that stops the reader. -/
def due : List (List UInt8) → List (List UInt8)
  | [] => []
  | line :: lines => line :: if stops line then [] else due lines

def reads : List UInt8 → List (List UInt8) → List (List UInt8)
  | _, [] => []
  | buffer, chunk :: chunks =>
    firstLine (buffer ++ chunk) ::
      if stops (firstLine (buffer ++ chunk)) then []
      else reads (behindLine (buffer ++ chunk)) chunks

/-- Each line that is due has come to its end by the chunk that should make the reader read it. -/
def Timely (buffer : List UInt8) (chunks : List (List UInt8)) : Prop :=
  ∀ i < (due stops (completeLines (buffer ++ chunks.flatten)).1).length,
    i < chunks.length ∧ i < (completeLines (buffer ++ (chunks.take (i + 1)).flatten)).1.length

/-- What is read behind the complete lines of a stream none of which stops the reader: the rest of
the chunks they came in with the next one, and the chunks after it. -/
def tailReads (buffer : List UInt8) (chunks : List (List UInt8)) : List (List UInt8) :=
  let lines := (completeLines (buffer ++ chunks.flatten)).1
  match chunks.drop lines.length with
  | [] => []
  | chunk :: later =>
    ((buffer ++ (chunks.take lines.length).flatten).drop lines.flatten.length ++ chunk) :: later

variable {stops} {buffer : List UInt8} {chunks : List (List UInt8)}

theorem due_isPrefix (lines : List (List UInt8)) : due stops lines <+: lines := by
  induction lines with
  | nil => exact List.prefix_refl _
  | cons line lines ih =>
    rw [due, List.prefix_cons_inj]
    split
    · exact List.nil_prefix
    · exact ih

theorem due_eq_concat {lines : List (List UInt8)} {line : List UInt8}
    (h : lines.find? stops = some line) :
    ∃ before, due stops lines = before ++ [line] ∧ ∀ line ∈ before, stops line = false := by
  induction lines with
  | nil => cases h
  | cons first lines ih =>
    rw [due]
    by_cases hfirst : stops first = true
    · rw [List.find?_cons_of_pos hfirst] at h
      rw [if_pos hfirst, Option.some.inj h]
      exact ⟨[], rfl, fun _ hmem => absurd hmem List.not_mem_nil⟩
    · rw [List.find?_cons_of_neg hfirst] at h
      obtain ⟨before, hdue, hbefore⟩ := ih h
      rw [if_neg hfirst, hdue]
      exact ⟨first :: before, rfl,
        List.forall_mem_cons.mpr ⟨Bool.eq_false_of_not_eq_true hfirst, hbefore⟩⟩

theorem append_flatten_cons (chunk : List UInt8) :
    buffer ++ (chunk :: chunks).flatten = (buffer ++ chunk) ++ chunks.flatten := by
  rw [List.flatten_cons, List.append_assoc]

theorem timely_of_newline {chunk : List UInt8} (h : 0x0A ∈ buffer ++ chunk) :
    Timely stops buffer (chunk :: chunks) ↔
      stops (firstLine (buffer ++ chunk)) = true ∨
        Timely stops (behindLine (buffer ++ chunk)) chunks := by
  have hlines (later : List UInt8) := (readLine_append h later).2
  simp only [Timely, List.take_succ_cons, append_flatten_cons, hlines, due, List.length_cons]
  by_cases hstops : stops (firstLine (buffer ++ chunk)) = true
  · rw [if_pos hstops]
    refine iff_of_true (fun i hi => ?_) (Or.inl hstops)
    obtain rfl : i = 0 := Nat.lt_one_iff.mp hi
    exact ⟨Nat.succ_pos _, Nat.succ_pos _⟩
  · rw [if_neg hstops, or_iff_right hstops]
    constructor
    · intro htimely i hi
      obtain ⟨hlength, hlines⟩ := htimely (i + 1) (Nat.succ_lt_succ hi)
      exact ⟨Nat.lt_of_succ_lt_succ hlength, Nat.lt_of_succ_lt_succ hlines⟩
    · intro htimely i hi
      cases i with
      | zero => exact ⟨Nat.succ_pos _, Nat.succ_pos _⟩
      | succ i =>
        obtain ⟨hlength, hlines⟩ := htimely i (Nat.lt_of_succ_lt_succ hi)
        exact ⟨Nat.succ_lt_succ hlength, Nat.succ_lt_succ hlines⟩

theorem timely_of_unbroken {chunk : List UInt8} (h : 0x0A ∉ buffer ++ chunk) :
    Timely stops buffer (chunk :: chunks) ↔ 0x0A ∉ chunks.flatten := by
  rw [← iff_congr Iff.rfl (not_congr (or_iff_right h)), ← List.mem_append,
    ← completeLines_eq_nil, ← append_flatten_cons]
  constructor
  · intro htimely
    by_contra hlines
    obtain ⟨line, lines, hlines⟩ := List.exists_cons_of_ne_nil hlines
    have hfirst := (htimely 0 (by rw [hlines, due]; exact Nat.succ_pos _)).2
    rw [List.take_succ_cons, List.take_zero, append_flatten_cons, List.flatten_nil,
      List.append_nil, (readLine_of_unbroken h).2.2] at hfirst
    exact absurd hfirst (Nat.not_lt_zero 0)
  · intro hlines i hi
    rw [hlines] at hi
    exact absurd hi (Nat.not_lt_zero i)

/-- The reader has read what is due exactly if that came in time. -/
theorem due_prefix_reads_iff :
    due stops (completeLines (buffer ++ chunks.flatten)).1 <+: reads stops buffer chunks ↔
      Timely stops buffer chunks := by
  induction chunks generalizing buffer with
  | nil =>
    rw [reads, List.prefix_nil, Timely, ← List.length_eq_zero_iff]
    constructor
    · intro hnone i hi
      rw [hnone] at hi
      cases hi
    · intro htimely
      by_contra hsome
      exact absurd (htimely 0 (Nat.pos_of_ne_zero hsome)).1 (Nat.not_lt_zero 0)
  | cons chunk chunks ih =>
    rw [append_flatten_cons, reads]
    by_cases h : 0x0A ∈ buffer ++ chunk
    · rw [timely_of_newline h, (readLine_append h _).2, due, List.prefix_cons_inj]
      by_cases hstops : stops (firstLine (buffer ++ chunk)) = true
      · simp only [if_pos hstops, List.prefix_refl, true_iff]
        exact Or.inl hstops
      · rw [if_neg hstops, if_neg hstops, or_iff_right hstops]
        exact ih
    · rw [timely_of_unbroken h]
      constructor
      · -- what is due first ends with a newline, what was read first does not
        intro hstart hlater
        have hlines : (completeLines ((buffer ++ chunk) ++ chunks.flatten)).1 ≠ [] := by
          rw [Ne, completeLines_eq_nil, not_not]
          exact List.mem_append_right _ hlater
        obtain ⟨line, lines, hlines⟩ := List.exists_cons_of_ne_nil hlines
        have hnewline : 0x0A ∈ line :=
          newline_mem_of_completeLines (by rw [hlines]; exact List.mem_cons_self)
        rw [hlines, due, List.cons_prefix_cons] at hstart
        rw [hstart.1, mem_firstLine] at hnewline
        exact h hnewline
      · intro hlater
        have hnone : (completeLines ((buffer ++ chunk) ++ chunks.flatten)).1 = [] := by
          rw [completeLines_eq_nil, List.mem_append, not_or]
          exact ⟨h, hlater⟩
        rw [hnone]
        exact List.nil_prefix

theorem reads_eq_of_prefix {lines : List (List UInt8)} (h : lines <+: reads stops buffer chunks)
    (hstops : ∃ line ∈ lines, stops line = true) : reads stops buffer chunks = lines := by
  induction chunks generalizing buffer lines with
  | nil =>
    obtain ⟨line, hmem, -⟩ := hstops
    rw [reads, List.prefix_nil] at h
    rw [h] at hmem
    cases hmem
  | cons chunk chunks ih =>
    obtain ⟨line, hmem, hline⟩ := hstops
    cases lines with
    | nil => cases hmem
    | cons first lines =>
      rw [reads, List.cons_prefix_cons] at h
      obtain ⟨rfl, hstart⟩ := h
      rw [reads, List.cons_inj_right]
      by_cases hfirst : stops (firstLine (buffer ++ chunk)) = true
      · rw [if_pos hfirst, List.prefix_nil] at hstart
        rw [if_pos hfirst, hstart]
      · rw [if_neg hfirst] at hstart ⊢
        rcases List.mem_cons.mp hmem with rfl | hmem
        · exact absurd hline hfirst
        · exact ih hstart ⟨line, hmem, hline⟩

theorem reads_unbroken {chunk : List UInt8} (h : 0x0A ∉ buffer ++ (chunk :: chunks).flatten) :
    (∀ line ∈ reads stops buffer (chunk :: chunks), stops line = false) ↔
      ∀ piece ∈ (buffer ++ chunk) :: chunks, stops piece = false := by
  induction chunks generalizing buffer chunk with
  | nil =>
    rw [List.flatten_singleton] at h
    simp [reads, (readLine_of_unbroken h).1]
  | cons next chunks ih =>
    rw [append_flatten_cons, List.mem_append, not_or] at h
    obtain ⟨hfirst, hbehind, -⟩ := readLine_of_unbroken h.1
    rw [reads, hfirst, hbehind, List.forall_mem_cons, List.forall_mem_cons]
    refine and_congr_right fun hpiece => ?_
    have hrest : 0x0A ∉ [] ++ (next :: chunks).flatten := h.2
    rw [if_neg (by rw [hpiece]; exact Bool.false_ne_true), ih hrest, List.nil_append]

theorem not_mem_reads_of_unbroken (h : 0x0A ∉ buffer ++ chunks.flatten) :
    ∀ line ∈ reads stops buffer chunks, 0x0A ∉ line := by
  induction chunks generalizing buffer with
  | nil => exact fun _ hline => absurd hline List.not_mem_nil
  | cons chunk chunks ih =>
    rw [append_flatten_cons, List.mem_append, not_or] at h
    obtain ⟨hfirst, hbehind, -⟩ := readLine_of_unbroken h.1
    rw [reads, hfirst, hbehind, List.forall_mem_cons]
    refine ⟨h.1, ?_⟩
    split
    · exact fun _ hline => absurd hline List.not_mem_nil
    · exact ih (by rw [List.nil_append]; exact h.2)

theorem mem_completeLines_of_reads (h : Timely stops buffer chunks) :
    ∀ line ∈ reads stops buffer chunks, 0x0A ∈ line →
      line ∈ (completeLines (buffer ++ chunks.flatten)).1 := by
  induction chunks generalizing buffer with
  | nil => exact fun _ hline => absurd hline List.not_mem_nil
  | cons chunk chunks ih =>
    rw [append_flatten_cons]
    by_cases hnewline : 0x0A ∈ buffer ++ chunk
    · rw [timely_of_newline hnewline] at h
      rw [(readLine_append hnewline _).2, reads, List.forall_mem_cons]
      refine ⟨fun _ => List.mem_cons_self, ?_⟩
      split
      · exact fun _ hline => absurd hline List.not_mem_nil
      · next hstops =>
        exact fun line hline hend =>
          List.mem_cons_of_mem _ (ih (h.resolve_left hstops) line hline hend)
    · rw [timely_of_unbroken hnewline] at h
      intro line hline hend
      refine absurd hend (not_mem_reads_of_unbroken ?_ line hline)
      rw [append_flatten_cons, List.mem_append, not_or]
      exact ⟨hnewline, h⟩

theorem drop_firstLine (bytes later : List UInt8) (n : ℕ) :
    (bytes ++ later).drop ((firstLine bytes).length + n) = (behindLine bytes ++ later).drop n := by
  calc (bytes ++ later).drop ((firstLine bytes).length + n)
    _ = ((firstLine bytes ++ behindLine bytes) ++ later).drop ((firstLine bytes).length + n) := by
      rw [firstLine_append_behindLine]
    _ = (behindLine bytes ++ later).drop n := by
      rw [List.append_assoc, ← List.drop_drop, List.drop_left]

theorem tailReads_of_newline {chunk : List UInt8} (h : 0x0A ∈ buffer ++ chunk) :
    tailReads buffer (chunk :: chunks) = tailReads (behindLine (buffer ++ chunk)) chunks := by
  have hlines : (completeLines (buffer ++ (chunk :: chunks).flatten)).1 =
      firstLine (buffer ++ chunk) ::
        (completeLines (behindLine (buffer ++ chunk) ++ chunks.flatten)).1 := by
    rw [append_flatten_cons, (readLine_append h _).2]
  unfold tailReads
  simp only [hlines, List.length_cons, List.drop_succ_cons, List.take_succ_cons]
  generalize (completeLines (behindLine (buffer ++ chunk) ++ chunks.flatten)).1 = lines
  cases chunks.drop lines.length with
  | nil => rfl
  | cons next later =>
    rw [append_flatten_cons, List.flatten_cons, List.length_append, drop_firstLine]

theorem stops_reads_iff
    (hnone : ∀ line ∈ (completeLines (buffer ++ chunks.flatten)).1, stops line = false)
    (h : Timely stops buffer chunks) :
    (∀ line ∈ reads stops buffer chunks, stops line = true → 0x0A ∈ line) ↔
      ∀ piece ∈ tailReads buffer chunks, stops piece = false := by
  induction chunks generalizing buffer with
  | nil =>
    rw [reads, tailReads, List.drop_nil]
    exact iff_of_true (fun _ hline => absurd hline List.not_mem_nil)
      fun _ hpiece => absurd hpiece List.not_mem_nil
  | cons chunk chunks ih =>
    by_cases hnewline : 0x0A ∈ buffer ++ chunk
    · rw [append_flatten_cons, (readLine_append hnewline _).2, List.forall_mem_cons] at hnone
      obtain ⟨hfirst, hnone⟩ := hnone
      rw [timely_of_newline hnewline, hfirst, or_iff_right Bool.false_ne_true] at h
      rw [tailReads_of_newline hnewline, reads, if_neg (by rw [hfirst]; exact Bool.false_ne_true),
        List.forall_mem_cons, ← ih hnone h]
      exact and_iff_right fun hstops => absurd (hfirst.symm.trans hstops) Bool.false_ne_true
    · rw [timely_of_unbroken hnewline] at h
      have hunbroken : 0x0A ∉ buffer ++ (chunk :: chunks).flatten := by
        rw [append_flatten_cons, List.mem_append, not_or]
        exact ⟨hnewline, h⟩
      have htail : tailReads buffer (chunk :: chunks) = (buffer ++ chunk) :: chunks := by
        simp only [tailReads, completeLines_eq_nil.mpr hunbroken, List.length_nil, List.drop_zero,
          List.take_zero, List.flatten_nil, List.append_nil]
      rw [htail, ← reads_unbroken hunbroken]
      refine forall₂_congr fun line hline => ?_
      have hline := not_mem_reads_of_unbroken hunbroken line hline
      rw [imp_iff_not hline, Bool.not_eq_true]

end Reads

end Alko.Qt
