import Alko.Alkod.LogEntries

/-! The log page: the end of the log file, its lines looked for from the end on. -/

namespace Alko.Alkod

open Qt

def bufferSize : ℕ := 2048

def readText (bytes : List UInt8) : List UInt8 := bytes.filter (· ≠ 0x0D)

/-- The buffer behind the stream, which ASCII text passes unchanged. A short file's buffer is
resized first, and `heap` is what its new bytes hold. -/
def logBuffer (heap : ℕ → UInt8) (file : List UInt8) : List UInt8 :=
  if bufferSize < file.length then readText (file.drop (file.length - bufferSize))
  else readText file ++ ((List.range file.length).map heap).drop (readText file).length

def lastNewline (buffer : List UInt8) : ℕ → Option ℕ
  | 0 => if buffer[0]? = some 0x0A then some 0 else none
  | start + 1 =>
    if buffer[start + 1]? = some 0x0A then some (start + 1) else lastNewline buffer start

theorem lastNewline_le {buffer : List UInt8} {start pos : ℕ}
    (h : lastNewline buffer start = some pos) : pos ≤ start := by
  induction start with
  | zero =>
    rw [lastNewline] at h
    split_ifs at h
    exact (Option.some.inj h).ge
  | succ start ih =>
    rw [lastNewline] at h
    split_ifs at h
    · exact (Option.some.inj h).ge
    · exact (ih h).trans (Nat.le_succ start)

/-- `readLine` from a place on; a carriage return before the newline, or the end, is not part of the
line. -/
def lineAt (pos : ℕ) (buffer : List UInt8) : List UInt8 :=
  let line := (buffer.drop pos).takeWhile (· ≠ 0x0A)
  if line.getLast? = some 0x0D then line.dropLast else line

/-- The loop, from a place on backwards: a newline at the very beginning ends it. -/
def backLines (buffer : List UInt8) (start : ℕ) : List (List UInt8) :=
  match h : lastNewline buffer start with
  | some (pos + 1) => lineAt (pos + 2) buffer :: backLines buffer pos
  | _ => []
termination_by start
decreasing_by exact lastNewline_le h

/-- The lines that are passed on, in this order. The search begins at the last byte but one. -/
def passedLines (heap : ℕ → UInt8) (file : List UInt8) : List (List UInt8) :=
  let buffer := logBuffer heap file
  (if buffer.length < 2 then [] else backLines buffer (buffer.length - 2)) ++
    if buffer.length < bufferSize then [lineAt 0 buffer] else []

def generatePrettyHtmlLog (heap : ℕ → UInt8) (file : List UInt8) : QString :=
  (passedLines heap file).flatMap fun line => generatePrettyHtmlLogObject (QString.fromUtf8 line)

def joinLines (lines : List (List UInt8)) : List UInt8 := lines.flatMap (· ++ [0x0A])

def Unbroken (lines : List (List UInt8)) : Prop := ∀ line ∈ lines, 0x0A ∉ line

theorem joinLines_cons (line : List UInt8) (lines : List (List UInt8)) :
    joinLines (line :: lines) = line ++ 0x0A :: joinLines lines := by
  simp [joinLines]

theorem joinLines_append (a b : List (List UInt8)) :
    joinLines (a ++ b) = joinLines a ++ joinLines b := List.flatMap_append

theorem joinLines_concat (lines : List (List UInt8)) (line : List UInt8) :
    joinLines (lines ++ [line]) = joinLines lines ++ (line ++ [0x0A]) := by
  simp [joinLines]

theorem exists_joinLines (line : List UInt8) (lines : List (List UInt8)) :
    ∃ bytes, joinLines (line :: lines) = bytes ++ [0x0A] := by
  rcases List.eq_nil_or_concat (line :: lines) with hnil | ⟨before, last, hsplit⟩
  · cases hnil
  · rw [hsplit, List.concat_eq_append, joinLines_concat, ← List.append_assoc]
    exact ⟨_, rfl⟩

theorem readText_joinLines (lines : List (List UInt8)) :
    readText (joinLines lines) = joinLines (lines.map readText) := by
  induction lines with
  | nil => rfl
  | cons line lines ih =>
    have hnewline : readText (0x0A :: joinLines lines) = 0x0A :: readText (joinLines lines) := rfl
    rw [joinLines_cons, List.map_cons, joinLines_cons, ← ih, ← hnewline]
    exact List.filter_append ..

theorem readText_eq_self {bytes : List UInt8} (h : 0x0D ∉ bytes) : readText bytes = bytes := by
  refine List.filter_eq_self.mpr fun b hb => ?_
  simpa using ne_of_mem_of_not_mem hb h

theorem return_notMem_readText (bytes : List UInt8) : 0x0D ∉ readText bytes := by
  simp [readText]

theorem lastNewline_behind {line : List UInt8} (hline : 0x0A ∉ line) (before behind : List UInt8)
    {n : ℕ} (hn : n ≤ line.length) :
    lastNewline (before ++ 0x0A :: (line ++ behind)) (before.length + n) = some before.length := by
  induction n with
  | zero =>
    have hat : (before ++ 0x0A :: (line ++ behind))[before.length]? = some 0x0A := by simp
    rw [Nat.add_zero]
    cases hlen : before.length with
    | zero =>
      rw [hlen] at hat
      rw [lastNewline, if_pos hat]
    | succ k =>
      rw [hlen] at hat
      rw [lastNewline, if_pos hat]
  | succ n ih =>
    have hnot : (before ++ 0x0A :: (line ++ behind))[before.length + n + 1]? ≠ some 0x0A := by
      have hplace : before.length + n + 1 - before.length = n + 1 := by omega
      rw [List.getElem?_append_right (by omega), hplace, List.getElem?_cons_succ,
        List.getElem?_append_left hn]
      intro hat
      exact hline (List.mem_of_getElem? hat)
    rw [← Nat.add_assoc, lastNewline, if_neg hnot]
    exact ih (Nat.le_of_succ_le hn)

theorem lastNewline_eq_none {line : List UInt8} (hline : 0x0A ∉ line) (behind : List UInt8) {n : ℕ}
    (hn : n < line.length) : lastNewline (line ++ behind) n = none := by
  have hnot {k : ℕ} (hk : k < line.length) : (line ++ behind)[k]? ≠ some 0x0A := by
    rw [List.getElem?_append_left hk]
    exact fun hat => hline (List.mem_of_getElem? hat)
  induction n with
  | zero => rw [lastNewline, if_neg (hnot hn)]
  | succ n ih => rw [lastNewline, if_neg (hnot hn), ih (Nat.lt_of_succ_lt hn)]

theorem lineAt_behind {line : List UInt8} (hnewline : 0x0A ∉ line) (hreturn : 0x0D ∉ line)
    (before behind : List UInt8) :
    lineAt before.length (before ++ (line ++ 0x0A :: behind)) = line := by
  have hlast : line.getLast? ≠ some 0x0D := fun h => hreturn (List.mem_of_getLast? h)
  simp only [lineAt, List.drop_left, QString.takeWhile_ne_append hnewline]
  exact if_neg hlast

/-- What the loop passes on of a buffer of lines: not the first, and not the second either if the
first is empty. -/
def scanned (first : List UInt8) (lines : List (List UInt8)) : List (List UInt8) :=
  if first = [] then lines.tail else lines

theorem eq_nil_of_length_joinLines {first : List UInt8} {lines : List (List UInt8)}
    (hlen : (joinLines (first :: lines)).length < 2) : first = [] ∧ lines = [] := by
  rw [joinLines_cons, List.length_append, List.length_cons] at hlen
  refine ⟨List.eq_nil_of_length_eq_zero (by omega), ?_⟩
  cases lines with
  | nil => rfl
  | cons line lines =>
    rw [joinLines_cons, List.length_append, List.length_cons] at hlen
    omega

theorem scanned_concat {first : List UInt8} {lines : List (List UInt8)}
    (h : ¬ (first = [] ∧ lines = [])) (line : List UInt8) :
    scanned first (lines ++ [line]) = scanned first lines ++ [line] := by
  unfold scanned
  split_ifs with hfirst
  · exact List.tail_append_of_ne_nil fun hlines => h ⟨hfirst, hlines⟩
  · rfl

theorem backLines_of_none {buffer : List UInt8} {start : ℕ} (h : lastNewline buffer start = none) :
    backLines buffer start = [] := by
  rw [backLines]
  split
  · rename_i pos hpos
    rw [h] at hpos
    cases hpos
  · rfl

theorem backLines_of_zero {buffer : List UInt8} {start : ℕ}
    (h : lastNewline buffer start = some 0) : backLines buffer start = [] := by
  rw [backLines]
  split
  · rename_i pos hpos
    rw [h] at hpos
    cases hpos
  · rfl

theorem backLines_of_succ {buffer : List UInt8} {start pos : ℕ}
    (h : lastNewline buffer start = some (pos + 1)) :
    backLines buffer start = lineAt (pos + 2) buffer :: backLines buffer pos := by
  rw [backLines]
  split
  · rename_i p hp
    obtain rfl : pos = p := Nat.succ_injective (Option.some.inj (h.symm.trans hp))
    rfl
  · rename_i hnot
    exact absurd h (hnot pos)

theorem backLines_behind {line : List UInt8} (hnewline : 0x0A ∉ line) (hreturn : 0x0D ∉ line)
    (before behind : List UInt8) :
    backLines (before ++ 0x0A :: (line ++ 0x0A :: behind)) (before.length + line.length) =
      if before = [] then []
      else line :: backLines (before ++ 0x0A :: (line ++ 0x0A :: behind)) (before.length - 1) := by
  have hlast := lastNewline_behind hnewline before (0x0A :: behind) le_rfl
  cases hcount : before.length with
  | zero =>
    obtain rfl := List.eq_nil_of_length_eq_zero hcount
    rw [if_pos rfl]
    exact backLines_of_zero hlast
  | succ pos =>
    have hne : before ≠ [] := List.ne_nil_of_length_eq_add_one hcount
    have hshown := lineAt_behind hnewline hreturn (before ++ [0x0A]) behind
    rw [List.length_append, List.length_singleton, hcount, List.append_assoc,
      List.singleton_append] at hshown
    rw [hcount] at hlast
    rw [if_neg hne, backLines_of_succ hlast, hshown, Nat.add_sub_cancel]

theorem backLines_joinLines {first : List UInt8} {lines : List (List UInt8)} (behind : List UInt8)
    (hnewline : Unbroken (first :: lines)) (hreturn : ∀ line ∈ lines, 0x0D ∉ line) :
    backLines (joinLines (first :: lines) ++ behind) ((joinLines (first :: lines)).length - 2) =
      (scanned first lines).reverse := by
  induction lines using List.reverseRecOn generalizing behind with
  | nil =>
    have hfirst : 0x0A ∉ first := hnewline first List.mem_cons_self
    have hjoin : joinLines [first] ++ behind = first ++ 0x0A :: behind := by simp [joinLines]
    have hlen : (joinLines [first]).length - 2 = first.length - 1 := by simp [joinLines]
    rw [hjoin, hlen]
    cases hcase : first with
    | nil => exact backLines_of_zero rfl
    | cons b bytes =>
      rw [hcase] at hfirst
      rw [backLines_of_none (lastNewline_eq_none hfirst _ (by simp)), scanned,
        if_neg (List.cons_ne_nil _ _), List.reverse_nil]
  | append_singleton lines line ih =>
    obtain ⟨bytes, hbytes⟩ := exists_joinLines first lines
    have hrest := ih (line ++ 0x0A :: behind) (fun l hl => hnewline l (by
      simp only [List.mem_cons, List.mem_append] at hl ⊢
      tauto)) fun l hl => hreturn l (List.mem_append_left _ hl)
    rw [hbytes, List.append_assoc, List.singleton_append, List.length_append, List.length_singleton,
      Nat.add_sub_add_right bytes.length 1 1] at hrest
    have hwhole : joinLines (first :: (lines ++ [line])) ++ behind =
        bytes ++ 0x0A :: (line ++ 0x0A :: behind) := by
      rw [← List.cons_append, joinLines_concat, hbytes]
      simp
    have hlen : (joinLines (first :: (lines ++ [line]))).length - 2 =
        bytes.length + line.length := by
      rw [← List.cons_append, joinLines_concat, hbytes]
      simp only [List.length_append, List.length_cons, List.length_nil]
      omega
    rw [hlen, hwhole, backLines_behind (hnewline line (by simp)) (hreturn line (by simp)), hrest]
    split_ifs with hempty
    · have hshort : (joinLines (first :: lines)).length < 2 := by
        rw [hbytes, hempty]
        decide
      obtain ⟨rfl, rfl⟩ := eq_nil_of_length_joinLines hshort
      rfl
    · rw [scanned_concat, List.reverse_concat]
      rintro ⟨rfl, rfl⟩
      have hsingle : bytes ++ [0x0A] = [] ++ [0x0A] := hbytes.symm
      exact hempty (List.append_cancel_right hsingle)

theorem passedLines_of_buffer {heap : ℕ → UInt8} {file first : List UInt8}
    {lines : List (List UInt8)} (hbuffer : logBuffer heap file = joinLines (first :: lines))
    (hnewline : Unbroken (first :: lines)) (hreturn : ∀ line ∈ first :: lines, 0x0D ∉ line) :
    passedLines heap file = (scanned first lines).reverse ++
      if (joinLines (first :: lines)).length < bufferSize then [first] else [] := by
  have hloop := backLines_joinLines [] hnewline fun line hl =>
    hreturn line (List.mem_cons_of_mem _ hl)
  have hfirst := lineAt_behind (hnewline first List.mem_cons_self)
    (hreturn first List.mem_cons_self) [] (joinLines lines)
  rw [List.nil_append, ← joinLines_cons, List.length_nil] at hfirst
  rw [List.append_nil] at hloop
  have hscan : (if (joinLines (first :: lines)).length < 2 then []
      else backLines (joinLines (first :: lines)) ((joinLines (first :: lines)).length - 2)) =
      (scanned first lines).reverse := by
    split_ifs with hshort
    · obtain ⟨rfl, rfl⟩ := eq_nil_of_length_joinLines hshort
      rfl
    · exact hloop
  simp only [passedLines, hbuffer, hscan, hfirst]

theorem mem_backLines {buffer : List UInt8} {start : ℕ} {line : List UInt8}
    (h : line ∈ backLines buffer start) : ∃ pos, line = lineAt pos buffer := by
  induction start using Nat.strong_induction_on with
  | _ start ih =>
    cases hlast : lastNewline buffer start with
    | none =>
      rw [backLines_of_none hlast] at h
      cases h
    | some pos =>
      cases pos with
      | zero =>
        rw [backLines_of_zero hlast] at h
        cases h
      | succ pos =>
        rw [backLines_of_succ hlast] at h
        rcases List.mem_cons.mp h with rfl | hrest
        · exact ⟨_, rfl⟩
        · exact ih pos (lastNewline_le hlast) hrest

theorem mem_lineAt {buffer : List UInt8} {pos : ℕ} {b : UInt8} (h : b ∈ lineAt pos buffer) :
    b ∈ buffer := by
  have hline {b : UInt8} (hb : b ∈ (buffer.drop pos).takeWhile (· ≠ 0x0A)) : b ∈ buffer :=
    List.mem_of_mem_drop ((List.takeWhile_sublist _).subset hb)
  unfold lineAt at h
  simp only at h
  split_ifs at h
  · exact hline (List.dropLast_subset _ h)
  · exact hline h

theorem mem_passedLines {heap : ℕ → UInt8} {file line : List UInt8} {b : UInt8}
    (h : line ∈ passedLines heap file) (hb : b ∈ line) : b ∈ logBuffer heap file := by
  simp only [passedLines, List.mem_append] at h
  rcases h with h | h
  · split_ifs at h
    · cases h
    · obtain ⟨pos, rfl⟩ := mem_backLines h
      exact mem_lineAt hb
  · split_ifs at h
    · rw [List.mem_singleton.mp h] at hb
      exact mem_lineAt hb
    · cases h

def recent : ℕ → List (List UInt8) → List (List UInt8)
  | _, [] => []
  | room, line :: older =>
    if line.length + 1 ≤ room then line :: recent (room - (line.length + 1)) older else []

theorem recent_cases (room : ℕ) (lines : List (List UInt8)) :
    ((joinLines lines).length ≤ room ∧ recent room lines.reverse = lines.reverse) ∨
      ∃ older last newer, lines = older ++ last :: newer ∧
        recent room lines.reverse = newer.reverse ∧ (joinLines newer).length ≤ room ∧
          room < last.length + 1 + (joinLines newer).length := by
  induction lines using List.reverseRecOn generalizing room with
  | nil => exact Or.inl ⟨Nat.zero_le _, rfl⟩
  | append_singleton lines line ih =>
    have hlen : (joinLines (lines ++ [line])).length =
        (joinLines lines).length + (line.length + 1) := by
      rw [joinLines_concat, List.length_append, List.length_append, List.length_singleton]
    rw [hlen, List.reverse_concat, recent]
    split_ifs with hfits
    · rcases ih (room - (line.length + 1)) with
        ⟨hle, hall⟩ | ⟨older, last, newer, rfl, hrecent, hle, hlt⟩
      · rw [hall]
        exact Or.inl ⟨by omega, rfl⟩
      · have hnewer : (joinLines (newer ++ [line])).length =
            (joinLines newer).length + (line.length + 1) := by
          rw [joinLines_concat, List.length_append, List.length_append, List.length_singleton]
        refine Or.inr ⟨older, last, newer ++ [line], by simp, ?_, by omega, by omega⟩
        rw [hrecent, List.reverse_concat]
    · exact Or.inr ⟨lines, line, [], rfl, rfl, Nat.zero_le _, by simp [joinLines]; omega⟩

structure LogFile where
  lines : List (List UInt8)
  unbroken : Unbroken lines
  ascii : ∀ line ∈ lines, ∀ b ∈ line, b < 0x80

namespace LogFile

variable {f : LogFile}

def bytes (f : LogFile) : List UInt8 := joinLines f.lines

def window (f : LogFile) : List UInt8 := f.bytes.drop (f.bytes.length - bufferSize)

/-- The window begins at the beginning of a line; only asked of a file that is longer. -/
def Aligned (f : LogFile) : Prop := f.bytes[f.bytes.length - (bufferSize + 1)]? = some 0x0A

/-- Whatever the heap holds, the lines in the window are passed on, once each and newest first. -/
def Complete (f : LogFile) : Prop :=
  ∀ heap, passedLines heap f.bytes = recent bufferSize f.lines.reverse

theorem window_cases (hlong : bufferSize < f.bytes.length) :
    ∃ newer, Unbroken newer ∧ recent bufferSize f.lines.reverse = newer.reverse ∧
      ((f.Aligned ∧ f.window = joinLines newer) ∨
        (¬ f.Aligned ∧ ∃ rest, 0x0A ∉ rest ∧ f.window = joinLines (rest :: newer))) := by
  rcases recent_cases bufferSize f.lines with
    ⟨hle, -⟩ | ⟨older, last, newer, hlines, hrecent, hle, hlt⟩
  · exact absurd hlong (not_lt.mpr hle)
  · have hunbroken : Unbroken newer := fun line hl => f.unbroken line (by
      rw [hlines]
      exact List.mem_append_right _ (List.mem_cons_of_mem _ hl))
    have hlast : 0x0A ∉ last := f.unbroken last (by rw [hlines]; simp)
    have hbytes : f.bytes = joinLines older ++ (last ++ 0x0A :: joinLines newer) := by
      rw [bytes, hlines, joinLines_append, joinLines_cons]
    have hlen : f.bytes.length =
        (joinLines older).length + (last.length + 1 + (joinLines newer).length) := by
      rw [hbytes]
      simp only [List.length_append, List.length_cons]
      omega
    -- how much of the last line that is not whole is cut off
    obtain ⟨cut, hcut⟩ :
        ∃ cut, last.length + 1 + (joinLines newer).length = bufferSize + (cut + 1) :=
      ⟨last.length + (joinLines newer).length - bufferSize, by omega⟩
    have hwindow : f.window = (last ++ 0x0A :: joinLines newer).drop (cut + 1) := by
      have hplace : f.bytes.length - bufferSize = (joinLines older).length + (cut + 1) := by omega
      rw [window, hplace, hbytes, List.drop_append, List.drop_of_length_le (Nat.le_add_right _ _),
        Nat.add_sub_cancel_left, List.nil_append]
    have haligned : f.Aligned ↔ (last ++ 0x0A :: joinLines newer)[cut]? = some 0x0A := by
      have hplace : f.bytes.length - (bufferSize + 1) = (joinLines older).length + cut := by omega
      rw [Aligned, hplace, hbytes, List.getElem?_append_right (Nat.le_add_right _ _),
        Nat.add_sub_cancel_left]
    refine ⟨newer, hunbroken, hrecent, ?_⟩
    rw [haligned, hwindow]
    rcases Nat.lt_or_ge cut last.length with hin | hend
    · refine Or.inr ⟨?_, last.drop (cut + 1), fun h => hlast (List.mem_of_mem_drop h), ?_⟩
      · rw [List.getElem?_append_left hin]
        exact fun h => hlast (List.mem_of_getElem? h)
      · rw [List.drop_append_of_le_length hin, joinLines_cons]
    · obtain rfl : cut = last.length := by omega
      refine Or.inl ⟨by simp, ?_⟩
      rw [List.drop_append, List.drop_of_length_le (Nat.le_succ _), Nat.add_sub_cancel_left]
      rfl

theorem return_notMem_joinLines {lines : List (List UInt8)} :
    0x0D ∉ joinLines lines ↔ ∀ line ∈ lines, 0x0D ∉ line := by
  simp [joinLines]

theorem length_scanned_le (first : List UInt8) (lines : List (List UInt8)) :
    (scanned first lines).length ≤ lines.length := by
  unfold scanned
  split_ifs
  · exact (List.length_tail ..).trans_le (Nat.sub_le _ _)
  · exact le_rfl

theorem scanned_eq_self_iff {first : List UInt8} {lines : List (List UInt8)} (hlines : lines ≠ []) :
    (scanned first lines).reverse = lines.reverse ↔ first ≠ [] := by
  rw [List.reverse_inj]
  by_cases hfirst : first = []
  · rw [scanned, if_pos hfirst]
    refine iff_of_false (fun heq => ?_) (not_not.mpr hfirst)
    have hlen := congrArg List.length heq
    have hpos := List.length_pos_iff.mpr hlines
    rw [List.length_tail] at hlen
    omega
  · rw [scanned, if_neg hfirst]
    exact iff_of_true rfl hfirst

theorem scanned_first_iff {first : List UInt8} {lines : List (List UInt8)} :
    (scanned first lines).reverse ++ [first] = lines.reverse ↔
      first = [] ∧ ∃ older, lines = [] :: older := by
  rw [← List.reverse_cons, List.reverse_inj]
  by_cases hfirst : first = []
  · rw [scanned, if_pos hfirst, hfirst]
    cases lines with
    | nil => simp
    | cons line lines =>
      simp [eq_comm]
  · rw [scanned, if_neg hfirst]
    refine iff_of_false (fun heq => ?_) fun h => hfirst h.1
    have hlen := congrArg List.length heq
    rw [List.length_cons] at hlen
    omega

theorem scanned_whole_iff {first : List UInt8} {lines : List (List UInt8)} :
    (scanned first lines).reverse ++ [first] = (first :: lines).reverse ↔
      first ≠ [] ∨ lines = [] := by
  rw [← List.reverse_cons, List.reverse_inj, List.cons_inj_right, ← List.reverse_inj]
  by_cases hlines : lines = []
  · rw [hlines, scanned]
    simp
  · rw [scanned_eq_self_iff hlines]
    simp [hlines]

theorem logBuffer_short (hshort : f.bytes.length ≤ bufferSize) (hreturn : 0x0D ∉ f.bytes)
    (heap : ℕ → UInt8) : logBuffer heap f.bytes = f.bytes := by
  rw [logBuffer, if_neg (not_lt.mpr hshort), readText_eq_self hreturn,
    List.drop_of_length_le (by simp), List.append_nil]

theorem logBuffer_long (hlong : bufferSize < f.bytes.length) (heap : ℕ → UInt8) :
    logBuffer heap f.bytes = readText f.window := if_pos hlong

theorem Complete.return_notMem (h : f.Complete) :
    ∀ line ∈ recent bufferSize f.lines.reverse, 0x0D ∉ line := by
  -- the bytes a resize leaves may be any
  have hbuffer : 0x0D ∉ logBuffer (fun _ => 0x78) f.bytes := by
    unfold logBuffer
    split_ifs
    · exact return_notMem_readText _
    · rw [List.mem_append, not_or]
      refine ⟨return_notMem_readText _, fun hmem => ?_⟩
      obtain ⟨n, -, hx⟩ := List.mem_map.mp (List.mem_of_mem_drop hmem)
      exact absurd hx (by decide)
  rw [← h fun _ => 0x78]
  exact fun line hl hmem => hbuffer (mem_passedLines hl hmem)

theorem recent_short (hshort : f.bytes.length ≤ bufferSize) :
    recent bufferSize f.lines.reverse = f.lines.reverse := by
  rcases recent_cases bufferSize f.lines with ⟨-, hall⟩ | ⟨older, last, newer, hlines, -, -, hlt⟩
  · exact hall
  · rw [bytes, hlines, joinLines_append, joinLines_cons] at hshort
    simp only [List.length_append, List.length_cons] at hshort
    omega

theorem joinLines_eq_nil {lines : List (List UInt8)} (h : joinLines lines = []) : lines = [] := by
  cases lines with
  | nil => rfl
  | cons line lines => simp [joinLines_cons] at h

theorem head_joinLines {first : List UInt8} {lines : List (List UInt8)} (hfirst : 0x0A ∉ first) :
    (joinLines (first :: lines)).head? = some 0x0A ↔ first = [] := by
  rw [joinLines_cons]
  cases first with
  | nil => simp
  | cons b first =>
    refine iff_of_false (fun h => hfirst ?_) (List.cons_ne_nil _ _)
    rw [← Option.some.inj h]
    exact List.mem_cons_self

theorem not_complete_empty (hlines : f.lines = []) : ¬ f.Complete := by
  intro h
  have hempty := h fun _ => 0
  rw [bytes, hlines] at hempty
  exact absurd hempty (List.cons_ne_nil _ _)

theorem length_one_or_head_iff {first : List UInt8} {lines : List (List UInt8)}
    (hfirst : 0x0A ∉ first) :
    (joinLines (first :: lines)).length = 1 ∨ (joinLines (first :: lines)).head? ≠ some 0x0A ↔
      first ≠ [] ∨ lines = [] := by
  rw [ne_eq, head_joinLines hfirst, or_comm]
  refine or_congr_right' fun hempty => ?_
  obtain rfl := not_not.mp hempty
  rw [joinLines_cons, List.nil_append, List.length_cons, Nat.add_eq_right, List.length_eq_zero_iff]
  exact ⟨joinLines_eq_nil, fun h => by rw [h]; rfl⟩

theorem complete_short (hshort : f.bytes.length ≤ bufferSize) :
    f.Complete ↔ 0 < f.bytes.length ∧ f.bytes.length < bufferSize ∧ 0x0D ∉ f.bytes ∧
      (f.bytes.length = 1 ∨ f.bytes.head? ≠ some 0x0A) := by
  cases hlines : f.lines with
  | nil =>
    refine iff_of_false (not_complete_empty hlines) fun h => ?_
    rw [bytes, hlines] at h
    exact absurd h.1 (lt_irrefl 0)
  | cons first lines =>
    have hunbroken : Unbroken (first :: lines) := hlines ▸ f.unbroken
    have hbytes : f.bytes = joinLines (first :: lines) := by rw [bytes, hlines]
    have hexpected := recent_short hshort
    rw [hlines] at hexpected
    by_cases hreturn : 0x0D ∈ f.bytes
    · refine iff_of_false (fun h => ?_) fun h => h.2.2.1 hreturn
      have hnone := h.return_notMem
      rw [hlines, hexpected] at hnone
      rw [hbytes] at hreturn
      have hclean := fun line hl => hnone line (List.mem_reverse.mpr hl)
      exact return_notMem_joinLines.mpr hclean hreturn
    · have hpassed (heap : ℕ → UInt8) : passedLines heap f.bytes =
          (scanned first lines).reverse ++ if f.bytes.length < bufferSize then [first] else [] := by
        have hclean := return_notMem_joinLines.mp (hbytes ▸ hreturn)
        rw [hbytes]
        exact passedLines_of_buffer (hbytes ▸ logBuffer_short hshort hreturn heap) hunbroken hclean
      have hpos : 0 < f.bytes.length := by
        rw [hbytes, joinLines_cons, List.length_append, List.length_cons]
        omega
      rw [hbytes, length_one_or_head_iff (hunbroken first List.mem_cons_self), ← hbytes]
      simp only [Complete, hlines, hexpected, hpassed, forall_const]
      split_ifs with hroom
      · rw [scanned_whole_iff]
        simp [hpos, hroom, hreturn]
      · refine iff_of_false (fun h => ?_) fun h => hroom h.2.1
        have hlen := congrArg List.length h
        have hle := length_scanned_le first lines
        simp only [List.append_nil, List.length_reverse, List.length_cons] at hlen
        omega

theorem not_complete_aligned (hlong : bufferSize < f.bytes.length) (haligned : f.Aligned) :
    ¬ f.Complete := by
  intro h
  obtain ⟨newer, hunbroken, hrecent, ⟨-, hwindow⟩ | ⟨hnot, -⟩⟩ := window_cases hlong
  · have hnone := h.return_notMem
    rw [hrecent] at hnone
    have hclean : ∀ line ∈ newer, 0x0D ∉ line := fun line hl => hnone line (List.mem_reverse.mpr hl)
    have hsize : f.window.length = bufferSize := by
      rw [window, List.length_drop]
      omega
    cases newer with
    | nil =>
      rw [hwindow] at hsize
      exact absurd hsize (by decide)
    | cons first lines =>
      have hbuffer : logBuffer (fun _ => 0) f.bytes = joinLines (first :: lines) := by
        rw [logBuffer_long hlong, hwindow, readText_eq_self (return_notMem_joinLines.mpr hclean)]
      have hpassed := h fun _ => 0
      rw [passedLines_of_buffer hbuffer hunbroken hclean, ← hwindow, hsize, if_neg (lt_irrefl _),
        hrecent, List.append_nil] at hpassed
      have hlen := congrArg List.length hpassed
      have hle := length_scanned_le first lines
      simp only [List.length_reverse, List.length_cons] at hlen
      omega
  · exact hnot haligned

theorem return_mem_iff_length {bytes : List UInt8} :
    (readText bytes).length < bytes.length ↔ 0x0D ∈ bytes := by
  simp [readText, List.length_filter_lt_length_iff_exists]

/-- Of a cut line text mode may leave less, and then the buffer seems to hold the whole file. -/
theorem passedLines_cut {rest : List UInt8} {newer : List (List UInt8)}
    (hlong : bufferSize < f.bytes.length) (hrest : 0x0A ∉ rest) (hunbroken : Unbroken newer)
    (hclean : ∀ line ∈ newer, 0x0D ∉ line) (hwindow : f.window = joinLines (rest :: newer))
    (heap : ℕ → UInt8) :
    passedLines heap f.bytes = (scanned (readText rest) newer).reverse ++
      if 0x0D ∈ rest then [readText rest] else [] := by
  have hsize : f.window.length = bufferSize := by
    rw [window, List.length_drop]
    omega
  have htext : newer.map readText = newer := by
    calc
      newer.map readText = newer.map id :=
        List.map_congr_left fun line hl => readText_eq_self (hclean line hl)
      _ = newer := List.map_id newer
  have hbuffer : logBuffer heap f.bytes = joinLines (readText rest :: newer) := by
    rw [logBuffer_long hlong, hwindow, readText_joinLines, List.map_cons, htext]
  have hnewline : Unbroken (readText rest :: newer) := by
    rintro line (- | ⟨-, hl⟩)
    · exact fun h => hrest (List.mem_of_mem_filter h)
    · exact hunbroken line hl
  have hreturn : ∀ line ∈ readText rest :: newer, 0x0D ∉ line := by
    rintro line (- | ⟨-, hl⟩)
    · exact return_notMem_readText rest
    · exact hclean line hl
  have hroom : (joinLines (readText rest :: newer)).length < bufferSize ↔ 0x0D ∈ rest := by
    rw [← return_mem_iff_length, ← hsize, hwindow, joinLines_cons, joinLines_cons,
      List.length_append, List.length_append, Nat.add_lt_add_iff_right]
  rw [passedLines_of_buffer hbuffer hnewline hreturn]
  simp only [hroom]

theorem readText_eq_nil_iff {bytes : List UInt8} :
    readText bytes = [] ↔ bytes = List.replicate bytes.length 0x0D := by
  simp [readText, List.eq_replicate_iff]

/-- The window begins with nothing but carriage returns of a line, with an empty line behind them
and no carriage return in any later one. -/
def ReturnsFirst (window : List UInt8) : Prop :=
  ∃ returns behind, window = List.replicate (returns + 1) 0x0D ++ 0x0A :: 0x0A :: behind ∧
    0x0D ∉ behind

theorem returnsFirst_iff {rest : List UInt8} {newer : List (List UInt8)} (hrest : 0x0A ∉ rest)
    (hunbroken : Unbroken newer) :
    ReturnsFirst (joinLines (rest :: newer)) ↔ 0x0D ∈ rest ∧ readText rest = [] ∧
      (∀ line ∈ newer, 0x0D ∉ line) ∧ ∃ older, newer = [] :: older := by
  constructor
  · rintro ⟨returns, behind, hsplit, hbehind⟩
    have hreturns : (0x0A : UInt8) ∉ List.replicate (returns + 1) 0x0D := by simp
    rw [joinLines_cons] at hsplit
    obtain ⟨rfl, hnewer⟩ := QString.append_cons_inj hrest hreturns hsplit
    refine ⟨by simp, by simp [readText_eq_nil_iff], ?_, ?_⟩
    · rw [← return_notMem_joinLines, hnewer]
      simpa using hbehind
    · cases newer with
      | nil => cases hnewer
      | cons line older =>
        have hline : (joinLines (line :: older)).head? = some 0x0A := by rw [hnewer]; rfl
        rw [head_joinLines (hunbroken line List.mem_cons_self)] at hline
        exact ⟨older, by rw [hline]⟩
  · rintro ⟨hmem, hempty, hclean, older, rfl⟩
    rw [readText_eq_nil_iff] at hempty
    obtain ⟨returns, hlen⟩ := Nat.exists_eq_add_of_lt (List.length_pos_of_mem hmem)
    rw [Nat.zero_add] at hlen
    refine ⟨returns, joinLines older, ?_, ?_⟩
    · rw [joinLines_cons, joinLines_cons, List.nil_append, ← hlen, ← hempty]
    · exact return_notMem_joinLines.mpr fun line hl => hclean line (List.mem_cons_of_mem _ hl)

theorem complete_cut (hlong : bufferSize < f.bytes.length) (hcut : ¬ f.Aligned) :
    f.Complete ↔ (0x0D ∉ f.window ∧ f.window.head? ≠ some 0x0A) ∨ ReturnsFirst f.window := by
  obtain ⟨newer, hunbroken, hrecent, ⟨haligned, -⟩ | ⟨-, rest, hrest, hwindow⟩⟩ :=
    window_cases hlong
  · exact absurd haligned hcut
  · have hreturns : 0x0D ∉ f.window ↔ 0x0D ∉ rest ∧ ∀ line ∈ newer, 0x0D ∉ line := by
      rw [hwindow, return_notMem_joinLines, List.forall_mem_cons]
    have hhead : f.window.head? = some 0x0A ↔ rest = [] := by rw [hwindow, head_joinLines hrest]
    rw [hreturns, ne_eq, hhead, hwindow, returnsFirst_iff hrest hunbroken]
    by_cases hclean : ∀ line ∈ newer, 0x0D ∉ line
    · simp only [Complete, passedLines_cut hlong hrest hunbroken hclean hwindow, hrecent,
        forall_const]
      split_ifs with hmem
      · rw [scanned_first_iff]
        simp only [hmem, not_true_eq_false, false_and, true_and, false_or]
        exact and_congr_right' (and_iff_right hclean).symm
      · have hnewer : rest = [] → newer ≠ [] := by
          rintro rfl rfl
          have hsize : f.window.length = bufferSize := by
            rw [window, List.length_drop]
            omega
          rw [hwindow] at hsize
          exact absurd hsize (by decide)
        rw [List.append_nil, readText_eq_self hmem]
        simp only [hmem, not_false_eq_true, false_and, or_false, true_and]
        by_cases hempty : rest = []
        · rw [scanned_eq_self_iff (hnewer hempty)]
          exact (and_iff_right hclean).symm
        · rw [scanned, if_neg hempty]
          exact iff_of_true rfl ⟨hclean, hempty⟩
    · refine iff_of_false (fun h => hclean fun line hl => ?_) ?_
      · refine h.return_notMem line ?_
        rw [hrecent]
        exact List.mem_reverse.mpr hl
      · rintro (⟨⟨-, h⟩, -⟩ | ⟨-, -, h, -⟩)
        · exact hclean h
        · exact hclean h

/-- A file shorter than the buffer is shown if it is one empty line, or has no carriage return and
no empty line first; a longer one if the buffer begins within a line and has no carriage return. -/
theorem complete_iff (f : LogFile) :
    f.Complete ↔ (0 < f.bytes.length ∧ f.bytes.length < bufferSize ∧ 0x0D ∉ f.bytes ∧
        (f.bytes.length = 1 ∨ f.bytes.head? ≠ some 0x0A)) ∨
      (bufferSize < f.bytes.length ∧ ¬ f.Aligned ∧
        ((0x0D ∉ f.window ∧ f.window.head? ≠ some 0x0A) ∨ ReturnsFirst f.window)) := by
  rcases Nat.lt_or_ge bufferSize f.bytes.length with hlong | hshort
  · by_cases haligned : f.Aligned
    · refine iff_of_false (not_complete_aligned hlong haligned) ?_
      rintro (⟨-, hlt, -⟩ | ⟨-, hcut, -⟩)
      · exact hlt.not_gt hlong
      · exact hcut haligned
    · rw [complete_cut hlong haligned]
      simp [hlong, hlong.le, haligned]
  · rw [complete_short hshort]
    simp [hshort]

theorem not_complete : ¬ LogFile.Complete ⟨[], List.forall_mem_nil _, List.forall_mem_nil _⟩ :=
  not_complete_empty rfl

end LogFile

end Alko.Alkod
