import Alko.Qt.Text

/-! The placeholders of the templates and the pattern that looks for them. -/

namespace Alko.Alkod

open Qt

/-- `QString("{$%1}").arg(name)`. -/
def placeholder (name : QString) : QString := 0x7B :: 0x24 :: (name ++ [0x7D])

/-- What `\{\$(\S+)(?:\s(\S+))?\}` captures where it matches all of a word. -/
def captures : QString → Option (QString × QString)
  | 0x7B :: 0x24 :: rest =>
    let inner := rest.dropLast
    let cap1 := inner.takeWhile (!QString.isSpace ·)
    let cap2 := inner.drop (cap1.length + 1)
    if rest.getLast? = some 0x7D ∧ cap1 ≠ [] ∧
        (cap1 = inner ∨ (cap2 ≠ [] ∧ cap2.all (!QString.isSpace ·))) then some (cap1, cap2)
    else none
  | _ => none

/-- A `QRegExp` takes the longest word that matches; those tried have at most that length. -/
def longest (s : QString) : ℕ → Option (ℕ × QString × QString)
  | 0 => none
  | n + 1 =>
    match captures (s.take (n + 1)) with
    | some caps => some (n + 1, caps)
    | none => longest s n

structure Match where
  start : ℕ
  matchedLength : ℕ
  cap1 : QString
  cap2 : QString
  deriving DecidableEq

def indexFrom : ℕ → QString → Option Match
  | _, [] => none
  | start, c :: s =>
    match longest (c :: s) (c :: s).length with
    | some (length, cap1, cap2) => some ⟨start, length, cap1, cap2⟩
    | none => indexFrom (start + 1) s

/-- `rx.indexIn(line, pos)`: the first place from `pos` on. -/
def indexIn (line : QString) (pos : ℕ) : Option Match := indexFrom pos (line.drop pos)

theorem length_placeholder (name : QString) : (placeholder name).length = name.length + 3 := by
  simp [placeholder]

theorem captures_eq_some {word : QString} {caps : QString × QString}
    (h : captures word = some caps) : word.head? = some 0x7B ∧ word.getLast? = some 0x7D := by
  unfold captures at h
  split at h
  · rename_i rest
    simp only at h
    split_ifs at h with hmatch
    obtain ⟨hlast, -⟩ := hmatch
    refine ⟨rfl, ?_⟩
    cases rest with
    | nil => cases hlast
    | cons c rest => rwa [List.getLast?_cons_cons, List.getLast?_cons_cons]
  · cases h

theorem longest_eq_none {s : QString} (hs : s.head? ≠ some 0x7B) (n : ℕ) : longest s n = none := by
  induction n with
  | zero => rfl
  | succ n ih =>
    have hnone : captures (s.take (n + 1)) = none := by
      refine Option.eq_none_iff_forall_not_mem.mpr fun caps hcaps => hs ?_
      rw [← (captures_eq_some hcaps).1, List.head?_take, if_neg (Nat.succ_ne_zero n)]
    rw [longest, hnone]
    exact ih

theorem longest_eq {s : QString} {n : ℕ} {caps : QString × QString} (hpos : 0 < n)
    (hcaps : captures (s.take n) = some caps) (more : ℕ)
    (hlonger : ∀ m, n < m → m ≤ n + more → captures (s.take m) = none) :
    longest s (n + more) = some (n, caps) := by
  induction more with
  | zero =>
    obtain ⟨k, rfl⟩ := Nat.exists_eq_succ_of_ne_zero hpos.ne'
    rw [Nat.add_zero, longest, hcaps]
  | succ more ih =>
    rw [← Nat.add_assoc, longest, hlonger (n + more + 1) (by omega) le_rfl]
    exact ih fun m hm hle => hlonger m hm (Nat.le_succ_of_le hle)

theorem indexFrom_append {a : QString} (ha : 0x7B ∉ a) (s : QString) (start : ℕ) :
    indexFrom start (a ++ s) = indexFrom (start + a.length) s := by
  induction a generalizing start with
  | nil => rfl
  | cons c a ih =>
    have hhead : (c :: (a ++ s)).head? ≠ some 0x7B := fun h =>
      ha (List.mem_cons.mpr (Or.inl (Option.some.inj h).symm))
    rw [List.cons_append, indexFrom, longest_eq_none hhead, List.length_cons]
    simp only
    rw [ih fun h => ha (List.mem_cons_of_mem _ h), Nat.add_assoc, Nat.add_comm 1]

theorem indexIn_eq_none {line : QString} {pos : ℕ} (h : 0x7B ∉ line.drop pos) :
    indexIn line pos = none := by
  have hend := indexFrom_append h [] pos
  rwa [List.append_nil] at hend

theorem indexIn_word {a word b cap1 cap2 : QString} {pos : ℕ} (hpos : pos ≤ a.length)
    (ha : 0x7B ∉ a.drop pos) (hword : captures word = some (cap1, cap2)) (hb : 0x7D ∉ b) :
    indexIn (a ++ (word ++ b)) pos = some ⟨a.length, word.length, cap1, cap2⟩ := by
  have hwhole : captures ((word ++ b).take word.length) = some (cap1, cap2) := by
    rwa [List.take_left]
  have hlonger (m : ℕ) (hm : word.length < m) (hle : m ≤ word.length + b.length) :
      captures ((word ++ b).take m) = none := by
    refine Option.eq_none_iff_forall_not_mem.mpr fun caps hcaps => ?_
    obtain ⟨k, rfl⟩ := Nat.exists_eq_add_of_lt hm
    obtain ⟨c, rest, hrest⟩ := List.exists_cons_of_length_pos (l := b) (by omega)
    have hlast := (captures_eq_some hcaps).2
    rw [Nat.add_assoc, List.take_length_add_append, hrest, List.take_succ_cons,
      List.getLast?_append_cons, ← List.take_succ_cons, ← hrest] at hlast
    exact hb (List.mem_of_mem_take (List.mem_of_getLast? hlast))
  obtain ⟨c, s, hsplit⟩ : ∃ c s, word ++ b = c :: s := by
    cases hcase : word with
    | nil =>
      rw [hcase] at hword
      cases hword
    | cons c s => exact ⟨c, s ++ b, rfl⟩
  have hnonempty : 0 < word.length := by
    refine List.length_pos_iff.mpr fun hnil => ?_
    rw [hnil] at hword
    cases hword
  have hlongest := longest_eq hnonempty hwhole b.length hlonger
  rw [← List.length_append, hsplit] at hlongest
  rw [indexIn, List.drop_append_of_le_length hpos, indexFrom_append ha, List.length_drop,
    Nat.add_sub_cancel' hpos, hsplit, indexFrom, hlongest]

/-! The same pattern, read off the text: where a match can begin, and how far it goes. -/

def firstWord (s : QString) : QString := s.takeWhile (!QString.isSpace ·)

def secondWord (s : QString) : QString := firstWord (s.drop ((firstWord s).length + 1))

/-- A match that has come to this text, with a name already, can take more of it. -/
def EndsIn (s : QString) : Prop := 0x7D ∈ firstWord s ∨ 0x7D ∈ (secondWord s).tail

instance : DecidablePred EndsIn := fun s =>
  inferInstanceAs (Decidable (0x7D ∈ firstWord s ∨ 0x7D ∈ (secondWord s).tail))

def Opens (s : QString) : Prop :=
  [0x7B, 0x24] <+: s ∧ (∃ c ∈ (s.drop 2).head?, QString.isSpace c = false) ∧ EndsIn (s.drop 3)

instance : DecidablePred Opens := fun s =>
  inferInstanceAs (Decidable ([0x7B, 0x24] <+: s ∧
    (∃ c ∈ (s.drop 2).head?, QString.isSpace c = false) ∧ EndsIn (s.drop 3)))

def Unspaced (a : QString) : Prop := ∀ c ∈ a, QString.isSpace c = false

inductive Holds : QString → Prop
  | one {a : QString} (ha : Unspaced a) : Holds a
  | two {a v : QString} {b : UInt16} (ha : Unspaced a) (hb : QString.isSpace b = true)
    (hne : v ≠ []) (hv : Unspaced v) : Holds (a ++ b :: v)

theorem Unspaced.append {a v : QString} (ha : Unspaced a) (hv : Unspaced v) : Unspaced (a ++ v) :=
  fun c hc => (List.mem_append.mp hc).elim (ha c) (hv c)

theorem Unspaced.of_append {a v : QString} (h : Unspaced (a ++ v)) : Unspaced a ∧ Unspaced v :=
  ⟨fun c hc => h c (List.mem_append_left v hc), fun c hc => h c (List.mem_append_right a hc)⟩

theorem unspaced_brace : Unspaced [0x7D] := List.forall_mem_singleton.mpr rfl

theorem firstWord_append {a : QString} (ha : Unspaced a) (s : QString) :
    firstWord (a ++ s) = a ++ firstWord s :=
  List.takeWhile_append_of_pos fun c hc => by rw [ha c hc, Bool.not_false]

theorem firstWord_eq {a : QString} (ha : Unspaced a) : firstWord a = a :=
  List.takeWhile_eq_self_iff.mpr fun c hc => by rw [ha c hc, Bool.not_false]

theorem unspaced_firstWord (s : QString) : Unspaced (firstWord s) := by
  intro c hc
  have hunspaced := List.mem_takeWhile_imp hc
  rwa [Bool.not_eq_true'] at hunspaced

theorem firstWord_blank {a : QString} {b : UInt16} (ha : Unspaced a)
    (hb : QString.isSpace b = true) (s : QString) : firstWord (a ++ b :: s) = a := by
  rw [firstWord_append ha, firstWord, List.takeWhile_cons_of_neg (by rw [hb]; decide),
    List.append_nil]

theorem drop_blank (a s : QString) (b : UInt16) : (a ++ b :: s).drop (a.length + 1) = s := by
  rw [← List.drop_drop, List.drop_left, List.drop_one, List.tail_cons]

theorem secondWord_blank {a : QString} {b : UInt16} (ha : Unspaced a)
    (hb : QString.isSpace b = true) (s : QString) : secondWord (a ++ b :: s) = firstWord s := by
  rw [secondWord, firstWord_blank ha hb, drop_blank]

theorem firstWord_cons {c : UInt16} (hc : QString.isSpace c = false) (s : QString) :
    firstWord (c :: s) = c :: firstWord s :=
  firstWord_append (List.forall_mem_singleton.mpr hc) s

theorem firstWord_cons_blank {c : UInt16} (hc : QString.isSpace c = true) (s : QString) :
    firstWord (c :: s) = [] :=
  firstWord_blank (List.forall_mem_nil _) hc s

theorem exists_prefix_of_mem {d : UInt16} {s : QString} (h : d ∈ firstWord s) :
    ∃ u, Unspaced u ∧ u ++ [d] <+: s := by
  obtain ⟨u, rest, hu⟩ := List.append_of_mem h
  have hword : u ++ [d] <+: firstWord s := ⟨rest, by rw [hu, List.append_assoc]; rfl⟩
  exact ⟨u, (hu ▸ unspaced_firstWord s).of_append.1, hword.trans (List.takeWhile_prefix _)⟩

theorem exists_cons_of_mem_tail {d : UInt16} {s : QString} (h : d ∈ (firstWord s).tail) :
    ∃ c rest, s = c :: rest ∧ QString.isSpace c = false ∧ d ∈ firstWord rest := by
  cases s with
  | nil => cases h
  | cons c rest =>
    cases hc : QString.isSpace c with
    | true =>
      rw [firstWord_cons_blank hc] at h
      cases h
    | false =>
      rw [firstWord_cons hc] at h
      exact ⟨c, rest, rfl, hc, h⟩

theorem firstWord_cases (s : QString) : firstWord s = s ∨
    ∃ b rest, QString.isSpace b = true ∧ s = firstWord s ++ b :: rest := by
  induction s with
  | nil => exact Or.inl rfl
  | cons c s ih =>
    cases hc : QString.isSpace c with
    | true => exact Or.inr ⟨c, s, hc, by rw [firstWord_cons_blank hc, List.nil_append]⟩
    | false =>
      rw [firstWord_cons hc]
      rcases ih with hall | ⟨b, rest, hb, hrest⟩
      · exact Or.inl (congrArg _ hall)
      · exact Or.inr ⟨b, rest, hb, congrArg (c :: ·) hrest⟩

theorem Holds.append_iff {a : QString} (ha : Unspaced a) (u : QString) :
    Holds (a ++ u) ↔ Holds u := by
  constructor
  · intro h
    generalize hw : a ++ u = w at h
    cases h with
    | one hall =>
      rw [← hw] at hall
      exact .one hall.of_append.2
    | @two f v b hf hb hne hv =>
      have hfirst := congrArg firstWord hw
      rw [firstWord_append ha, firstWord_blank hf hb] at hfirst
      have hu : u = firstWord u ++ b :: v := by
        rw [← hfirst, List.append_assoc] at hw
        exact List.append_cancel_left hw
      rw [hu]
      exact .two (unspaced_firstWord u) hb hne hv
  · intro h
    cases h with
    | one hall => exact .one (ha.append hall)
    | two hf hb hne hv =>
      rw [← List.append_assoc]
      exact .two (ha.append hf) hb hne hv

theorem endsIn_iff (s : QString) : EndsIn s ↔ ∃ u, u ++ [0x7D] <+: s ∧ Holds u := by
  constructor
  · rintro (hfirst | hsecond)
    · obtain ⟨u, hu, hprefix⟩ := exists_prefix_of_mem hfirst
      exact ⟨u, hprefix, .one hu⟩
    · rcases firstWord_cases s with hall | ⟨b, later, hb, hs⟩
      · rw [secondWord, hall, List.drop_eq_nil_of_le (Nat.le_succ _)] at hsecond
        cases hsecond
      · have hword : secondWord s = firstWord later := by
          rw [hs, secondWord_blank (unspaced_firstWord s) hb]
        rw [hword] at hsecond
        obtain ⟨c, behind, rfl, hc, hmem⟩ := exists_cons_of_mem_tail hsecond
        obtain ⟨v, hv, rest, rfl⟩ := exists_prefix_of_mem hmem
        have hunspaced : Unspaced (c :: v) :=
          Unspaced.append (List.forall_mem_singleton.mpr hc) hv
        refine ⟨firstWord s ++ b :: (c :: v), ⟨rest, ?_⟩,
          .two (unspaced_firstWord s) hb (List.cons_ne_nil c v) hunspaced⟩
        nth_rewrite 2 [hs]
        simp
  · rintro ⟨u, ⟨rest, rfl⟩, hu⟩
    rw [List.append_assoc]
    cases hu with
    | one ha =>
      refine Or.inl ?_
      rw [firstWord_append ha, firstWord_append unspaced_brace]
      simp
    | @two a v b ha hb hne hv =>
      refine Or.inr ?_
      rw [List.append_assoc, List.cons_append, secondWord_blank ha hb, firstWord_append hv,
        firstWord_append unspaced_brace, List.tail_append_of_ne_nil hne]
      simp

theorem holds_iff (u : QString) : Holds u ↔ firstWord u = u ∨
    u.drop ((firstWord u).length + 1) ≠ [] ∧ Unspaced (u.drop ((firstWord u).length + 1)) := by
  constructor
  · intro h
    cases h with
    | one ha => exact Or.inl (firstWord_eq ha)
    | two ha hb hne hv =>
      rw [firstWord_blank ha hb, drop_blank]
      exact Or.inr ⟨hne, hv⟩
  · rintro (hall | ⟨hne, hv⟩)
    · exact hall ▸ Holds.one (unspaced_firstWord u)
    · rcases firstWord_cases u with hall | ⟨b, rest, hb, hu⟩
      · exact hall ▸ Holds.one (unspaced_firstWord u)
      · have hdrop : u.drop ((firstWord u).length + 1) = rest := by
          nth_rewrite 2 [hu]
          exact drop_blank _ rest b
        rw [hdrop] at hne hv
        rw [hu]
        exact .two (unspaced_firstWord u) hb hne hv

theorem all_iff_unspaced (s : QString) : s.all (!QString.isSpace ·) = true ↔ Unspaced s := by
  simp only [List.all_eq_true, Bool.not_eq_true', Unspaced]

theorem captures_placeholder (inner : QString) :
    captures (placeholder inner) ≠ none ↔
      ∃ c u, inner = c :: u ∧ QString.isSpace c = false ∧ Holds u := by
  have hword : captures (placeholder inner) =
      if firstWord inner ≠ [] ∧ (firstWord inner = inner ∨
        inner.drop ((firstWord inner).length + 1) ≠ [] ∧
          (inner.drop ((firstWord inner).length + 1)).all (!QString.isSpace ·)) then
        some (firstWord inner, inner.drop ((firstWord inner).length + 1)) else none := by
    simp only [captures, placeholder, List.getLast?_concat, List.dropLast_concat, true_and]
    rfl
  rw [hword, ne_eq, ite_eq_right_iff, Classical.not_imp, all_iff_unspaced, ← holds_iff]
  simp only [reduceCtorEq, not_false_eq_true, and_true]
  constructor
  · rintro ⟨hne, hheld⟩
    obtain ⟨c, u, rfl⟩ : ∃ c u, inner = c :: u :=
      List.exists_cons_of_ne_nil fun hnil => hne (by rw [hnil]; rfl)
    have hc : QString.isSpace c = false := by
      by_contra hspace
      rw [Bool.not_eq_false] at hspace
      exact hne (firstWord_cons_blank hspace u)
    exact ⟨c, u, rfl, hc, (Holds.append_iff (List.forall_mem_singleton.mpr hc) u).mp hheld⟩
  · rintro ⟨c, u, rfl, hc, hu⟩
    refine ⟨?_, (Holds.append_iff (List.forall_mem_singleton.mpr hc) u).mpr hu⟩
    rw [firstWord_cons hc]
    exact List.cons_ne_nil _ _

theorem eq_placeholder {word : QString} (h : captures word ≠ none) :
    ∃ inner, word = placeholder inner := by
  obtain ⟨caps, hcaps⟩ := Option.ne_none_iff_exists'.mp h
  unfold captures at hcaps
  split at hcaps
  · rename_i rest
    simp only at hcaps
    split_ifs at hcaps with hmatch
    exact ⟨rest.dropLast, by rw [placeholder, List.dropLast_append_getLast? _ hmatch.1]⟩
  · cases hcaps

theorem captures_ne_none_iff (word : QString) : captures word ≠ none ↔
    ∃ c u, word = placeholder (c :: u) ∧ QString.isSpace c = false ∧ Holds u := by
  constructor
  · intro h
    obtain ⟨inner, rfl⟩ := eq_placeholder h
    obtain ⟨c, u, rfl, hc, hu⟩ := (captures_placeholder inner).mp h
    exact ⟨c, u, rfl, hc, hu⟩
  · rintro ⟨c, u, rfl, hc, hu⟩
    exact (captures_placeholder (c :: u)).mpr ⟨c, u, rfl, hc, hu⟩

theorem placeholder_append (c : UInt16) (u s : QString) :
    placeholder (c :: u) ++ s = 0x7B :: 0x24 :: c :: (u ++ [0x7D] ++ s) := rfl

theorem opens_iff (s : QString) : Opens s ↔ ∃ word, word <+: s ∧ captures word ≠ none := by
  simp only [captures_ne_none_iff]
  constructor
  · rintro ⟨⟨rest, rfl⟩, ⟨c, hhead, hc⟩, hends⟩
    obtain ⟨s, rfl⟩ : ∃ s, rest = c :: s := by
      cases rest with
      | nil => cases hhead
      | cons d s => exact ⟨s, by rw [Option.some.inj hhead]⟩
    obtain ⟨u, ⟨behind, rfl⟩, hu⟩ := (endsIn_iff s).mp hends
    exact ⟨_, ⟨behind, placeholder_append c u behind⟩, c, u, rfl, hc, hu⟩
  · rintro ⟨word, ⟨behind, rfl⟩, c, u, rfl, hc, hu⟩
    rw [placeholder_append]
    exact ⟨⟨_, rfl⟩, ⟨c, rfl, hc⟩, (endsIn_iff _).mpr ⟨u, ⟨behind, rfl⟩, hu⟩⟩

theorem longest_eq_none_iff (s : QString) (n : ℕ) :
    longest s n = none ↔ ∀ m ≤ n, captures (s.take m) = none := by
  induction n with
  | zero =>
    refine iff_of_true rfl fun m hm => ?_
    rw [Nat.le_zero.mp hm]
    rfl
  | succ n ih =>
    rw [longest]
    cases hcaps : captures (s.take (n + 1)) with
    | some caps =>
      refine iff_of_false (Option.some_ne_none _) fun h => ?_
      rw [h (n + 1) le_rfl] at hcaps
      cases hcaps
    | none =>
      refine ih.trans ⟨fun h m hm => ?_, fun h m hm => h m (Nat.le_succ_of_le hm)⟩
      rcases Nat.le_succ_iff.mp hm with hle | rfl
      · exact h m hle
      · exact hcaps

theorem longest_length_eq_none_iff (s : QString) : longest s s.length = none ↔ ¬ Opens s := by
  rw [longest_eq_none_iff, opens_iff]
  constructor
  · rintro h ⟨word, hword, hcaps⟩
    rw [List.prefix_iff_eq_take.mp hword] at hcaps
    exact hcaps (h _ hword.length_le)
  · intro h m _
    by_contra hcaps
    exact h ⟨_, List.take_prefix m s, hcaps⟩

theorem longest_eq_some {s : QString} {n m : ℕ} {caps : QString × QString}
    (h : longest s n = some (m, caps)) {k : ℕ} (hm : m < k) (hk : k ≤ n) :
    captures (s.take k) = none := by
  induction n with
  | zero => cases h
  | succ n ih =>
    rw [longest] at h
    cases hcaps : captures (s.take (n + 1)) with
    | some found =>
      rw [hcaps] at h
      have hlen : n + 1 = m := congrArg Prod.fst (Option.some.inj h)
      omega
    | none =>
      rw [hcaps] at h
      rcases Nat.le_succ_iff.mp hk with hle | rfl
      · exact ih h hle
      · exact hcaps

theorem captures_name {name : QString} (hne : name ≠ []) (hname : Unspaced name) :
    captures (placeholder name) = some (name, []) := by
  have hword := firstWord_eq hname
  unfold firstWord at hword
  simp [captures, placeholder, hword, hne]

/-- What a match takes behind a placeholder is an end in the text there. -/
theorem captures_beyond {name : QString} (hne : name ≠ []) (hname : Unspaced name) (s : QString) :
    EndsIn s ↔ ∃ word, word <+: placeholder name ++ s ∧ captures word ≠ none ∧
      (placeholder name).length < word.length := by
  obtain ⟨c, name, rfl⟩ := List.exists_cons_of_ne_nil hne
  have hheld : Unspaced (name ++ [0x7D]) :=
    Unspaced.append (fun d hd => hname d (List.mem_cons_of_mem c hd)) unspaced_brace
  rw [endsIn_iff]
  constructor
  · rintro ⟨u, ⟨behind, rfl⟩, hu⟩
    refine ⟨placeholder (c :: (name ++ [0x7D] ++ u)), ⟨behind, ?_⟩,
      (captures_placeholder _).mpr ⟨c, _, rfl, hname c List.mem_cons_self,
        (Holds.append_iff hheld u).mpr hu⟩, ?_⟩
    · simp [placeholder]
    · simp [length_placeholder]
  · rintro ⟨word, ⟨behind, hbehind⟩, hcaps, hlen⟩
    obtain ⟨d, held, rfl, -, hheld'⟩ := (captures_ne_none_iff word).mp hcaps
    rw [placeholder_append, placeholder_append] at hbehind
    simp only [List.cons.injEq, true_and] at hbehind
    obtain ⟨rfl, hbehind⟩ := hbehind
    have hle : (name ++ [0x7D]).length ≤ held.length := by
      simp only [length_placeholder, List.length_cons] at hlen
      rw [List.length_append, List.length_singleton]
      omega
    have hfront : held <+: name ++ [0x7D] ++ s :=
      ⟨[0x7D] ++ behind, by rw [← hbehind, List.append_assoc held]⟩
    obtain ⟨u, rfl⟩ : name ++ [0x7D] <+: held :=
      List.prefix_of_prefix_length_le (List.prefix_append _ s) hfront hle
    refine ⟨u, ⟨behind, ?_⟩, (Holds.append_iff hheld u).mp hheld'⟩
    rw [List.append_assoc, List.append_assoc] at hbehind
    exact List.append_assoc u _ _ ▸ List.append_cancel_left hbehind

theorem longest_placeholder_iff {name : QString} (hne : name ≠ []) (hname : Unspaced name)
    (s : QString) : longest (placeholder name ++ s) (placeholder name ++ s).length =
      some (name.length + 3, name, []) ↔ ¬ EndsIn s := by
  rw [captures_beyond hne hname]
  constructor
  · rintro h ⟨word, hword, hcaps, hlen⟩
    rw [List.prefix_iff_eq_take.mp hword] at hcaps
    rw [length_placeholder] at hlen
    exact hcaps (longest_eq_some h hlen hword.length_le)
  · intro h
    rw [List.length_append, ← length_placeholder]
    refine longest_eq (by rw [length_placeholder]; exact Nat.succ_pos _) ?_ s.length ?_
    · rw [List.take_left, captures_name hne hname]
    · intro m hm hle
      by_contra hcaps
      refine h ⟨_, List.take_prefix m _, hcaps, ?_⟩
      rwa [List.length_take, List.length_append, Nat.min_eq_left hle]

/-- No match begins in `a` where `s` stands behind it. -/
def Unopened (a s : QString) : Prop := ∀ t ∈ a.tails, t ≠ [] → ¬ Opens (t ++ s)

instance (a s : QString) : Decidable (Unopened a s) :=
  inferInstanceAs (Decidable (∀ t ∈ a.tails, t ≠ [] → ¬ Opens (t ++ s)))

theorem unopened_nil (s : QString) : Unopened [] s := by
  simp [Unopened]

theorem unopened_cons {c : UInt16} {a s : QString} :
    Unopened (c :: a) s ↔ ¬ Opens (c :: (a ++ s)) ∧ Unopened a s := by
  simp [Unopened]

theorem le_start_of_indexFrom {start : ℕ} {s : QString} {rx : Match}
    (h : indexFrom start s = some rx) : start ≤ rx.start := by
  induction s generalizing start with
  | nil => cases h
  | cons c s ih =>
    rw [indexFrom] at h
    cases hlongest : longest (c :: s) (c :: s).length with
    | none =>
      rw [hlongest] at h
      exact (Nat.le_succ start).trans (ih h)
    | some found =>
      rw [hlongest] at h
      rw [← Option.some.inj h]

theorem indexFrom_append_of_le {a s : QString} {start : ℕ} {rx : Match}
    (h : indexFrom start (a ++ s) = some rx) (hle : start + a.length ≤ rx.start) :
    indexFrom start (a ++ s) = indexFrom (start + a.length) s := by
  induction a generalizing start with
  | nil => rfl
  | cons c a ih =>
    rw [List.length_cons] at hle
    rw [List.cons_append, indexFrom] at h ⊢
    cases hlongest : longest (c :: (a ++ s)) (c :: (a ++ s)).length with
    | none =>
      rw [hlongest] at h
      rw [List.length_cons, Nat.add_comm a.length, ← Nat.add_assoc]
      exact ih h (by omega)
    | some found =>
      rw [hlongest] at h
      have hstart : start = rx.start := congrArg Match.start (Option.some.inj h)
      omega

theorem indexFrom_here_iff {s cap1 cap2 : QString} {n : ℕ} (hs : s ≠ []) (start : ℕ) :
    indexFrom start s = some ⟨start, n, cap1, cap2⟩ ↔
      longest s s.length = some (n, cap1, cap2) := by
  obtain ⟨c, s, rfl⟩ := List.exists_cons_of_ne_nil hs
  rw [indexFrom]
  cases hlongest : longest (c :: s) (c :: s).length with
  | none =>
    refine iff_of_false (fun h => ?_) (Option.some_ne_none _).symm
    have hle := le_start_of_indexFrom h
    dsimp only at hle
    omega
  | some found =>
    obtain ⟨m, caps⟩ := found
    simp [Prod.ext_iff]

theorem indexFrom_append_iff (a s : QString) (start : ℕ) :
    indexFrom start (a ++ s) = indexFrom (start + a.length) s ↔ Unopened a s := by
  induction a generalizing start with
  | nil => exact iff_of_true rfl (unopened_nil s)
  | cons c a ih =>
    have hlen : start + (c :: a).length = start + 1 + a.length := by
      rw [List.length_cons, Nat.add_comm a.length, ← Nat.add_assoc]
    rw [unopened_cons, ← longest_length_eq_none_iff, ← ih (start + 1), hlen, List.cons_append,
      indexFrom]
    cases hlongest : longest (c :: (a ++ s)) (c :: (a ++ s)).length with
    | none => exact (and_iff_right rfl).symm
    | some found =>
      refine iff_of_false (fun h => ?_) fun h => Option.some_ne_none _ h.1
      have hle := le_start_of_indexFrom h.symm
      dsimp only at hle
      omega

end Alko.Alkod
