import Mathlib.Tactic

/-! Histories that grow at the end: what comes before every occurrence of an event, and what comes
after one. -/

namespace Alko.Foundation

variable {α β : Type*} {e x : α} {past : List α → Prop} {later quiet : α → Prop}
  {history : List α}

/-- Every `e` comes after a history with the property `past`. -/
def Preceded (e : α) (past : List α → Prop) (history : List α) : Prop :=
  ∀ before after, history = before ++ e :: after → past before

/-- Whatever comes after an `e` has the property `later`. -/
def Followed (e : α) (later : α → Prop) (history : List α) : Prop :=
  ∀ before after, history = before ++ e :: after → ∀ x ∈ after, later x

theorem not_mem_split (h : e ∉ history) (before after : List α) :
    history ≠ before ++ e :: after := by
  intro hsplit
  exact h (hsplit ▸ List.mem_append_right before List.mem_cons_self)

theorem Preceded.of_not_mem (h : e ∉ history) : Preceded e past history :=
  fun before after hsplit => absurd hsplit (not_mem_split h before after)

theorem Followed.of_not_mem (h : e ∉ history) : Followed e later history :=
  fun before after hsplit => absurd hsplit (not_mem_split h before after)

theorem concat_eq_split {before after : List α} (h : history ++ [x] = before ++ e :: after) :
    (x = e ∧ history = before ∧ after = []) ∨
      ∃ rest, after = rest ++ [x] ∧ history = before ++ e :: rest := by
  rcases List.eq_nil_or_concat after with rfl | ⟨rest, y, rfl⟩
  · obtain ⟨hhistory, hx⟩ := List.append_inj' h rfl
    exact Or.inl ⟨List.cons.inj hx |>.1, hhistory, rfl⟩
  · have hsplit : history ++ [x] = (before ++ e :: rest) ++ [y] := by
      rw [h, List.append_assoc, List.cons_append, List.concat_eq_append]
    obtain ⟨hhistory, hx⟩ := List.append_inj' hsplit rfl
    rw [List.cons.inj hx |>.1, List.concat_eq_append]
    exact Or.inr ⟨rest, rfl, hhistory⟩

theorem Preceded.concat (h : Preceded e past history) (hnew : x = e → past history) :
    Preceded e past (history ++ [x]) := by
  intro before after hsplit
  rcases concat_eq_split hsplit with ⟨hx, rfl, -⟩ | ⟨rest, -, hhistory⟩
  · exact hnew hx
  · exact h before rest hhistory

theorem preceded_concat_iff :
    Preceded e past (history ++ [x]) ↔ Preceded e past history ∧ (x = e → past history) := by
  refine ⟨fun h => ⟨fun before after hsplit => ?_, fun hx => ?_⟩, fun h => h.1.concat h.2⟩
  · apply h before (after ++ [x])
    rw [hsplit, List.append_assoc, List.cons_append]
  · exact h history [] (hx ▸ rfl)

theorem preceded_append_iff {rest : List α} (h : e ∉ rest) :
    Preceded e past (history ++ rest) ↔ Preceded e past history := by
  induction rest using List.reverseRecOn with
  | nil => rw [List.append_nil]
  | append_singleton rest x ih =>
    rw [List.mem_append, List.mem_singleton, not_or] at h
    rw [← List.append_assoc, preceded_concat_iff, ih h.1]
    exact and_iff_left fun hx => absurd hx.symm h.2

theorem Followed.concat (h : Followed e later history) (hnew : e ∈ history → later x) :
    Followed e later (history ++ [x]) := by
  intro before after hsplit y hy
  rcases concat_eq_split hsplit with ⟨-, -, rfl⟩ | ⟨rest, rfl, hhistory⟩
  · simp at hy
  · rcases List.mem_append.mp hy with hy | hy
    · exact h before rest hhistory y hy
    · rw [List.mem_singleton.mp hy]
      exact hnew (hhistory ▸ List.mem_append_right before List.mem_cons_self)

def Latest (e : α) (quiet : α → Prop) (history : List α) : Prop :=
  ∃ before after, history = before ++ e :: after ∧ ∀ x ∈ after, quiet x

theorem Latest.append (h : Latest e quiet history) {rest : List α} (hrest : ∀ x ∈ rest, quiet x) :
    Latest e quiet (history ++ rest) := by
  obtain ⟨before, after, rfl, hafter⟩ := h
  refine ⟨before, after ++ rest, by rw [List.append_assoc, List.cons_append], fun x hx => ?_⟩
  rcases List.mem_append.mp hx with hx | hx
  · exact hafter x hx
  · exact hrest x hx

theorem Latest.prepend (h : Latest e quiet history) (earlier : List α) :
    Latest e quiet (earlier ++ history) := by
  obtain ⟨before, after, rfl, hafter⟩ := h
  exact ⟨earlier ++ before, after, (List.append_assoc ..).symm, hafter⟩

theorem Latest.of_filter {p : α → Bool} (hquiet : ∀ x, p x = false → quiet x)
    (h : Latest e quiet (history.filter p)) : Latest e quiet history := by
  obtain ⟨before, after, hsplit, hafter⟩ := h
  obtain ⟨history₁, history₂, rfl, -, hrest⟩ := List.filter_eq_append_iff.mp hsplit
  obtain ⟨skipped, rest, rfl, -, -, rfl⟩ := List.filter_eq_cons_iff.mp hrest
  refine ⟨history₁ ++ skipped, rest, by rw [List.append_assoc], fun x hx => ?_⟩
  cases hp : p x with
  | false => exact hquiet x hp
  | true => exact hafter x (List.mem_filter.mpr ⟨hx, hp⟩)

theorem Latest.map {quiet' : β → Prop} (h : Latest e quiet history) (f : α → β)
    (hquiet : ∀ x, quiet x → quiet' (f x)) : Latest (f e) quiet' (history.map f) := by
  obtain ⟨before, after, rfl, hafter⟩ := h
  refine ⟨before.map f, after.map f, List.map_append, fun y hy => ?_⟩
  obtain ⟨x, hx, rfl⟩ := List.mem_map.mp hy
  exact hquiet x (hafter x hx)

theorem latest_cons {x : α} :
    Latest e quiet (x :: history) ↔ (x = e ∧ ∀ y ∈ history, quiet y) ∨ Latest e quiet history := by
  constructor
  · rintro ⟨before, after, hsplit, hafter⟩
    cases before with
    | nil =>
      obtain ⟨rfl, rfl⟩ := List.cons.inj hsplit
      exact Or.inl ⟨rfl, hafter⟩
    | cons y before => exact Or.inr ⟨before, after, (List.cons.inj hsplit).2, hafter⟩
  · rintro (⟨rfl, hquiet⟩ | hlatest)
    · exact ⟨[], history, rfl, hquiet⟩
    · exact hlatest.prepend [x]

instance Latest.decidable [DecidableEq α] [DecidablePred quiet] :
    (history : List α) → Decidable (Latest e quiet history)
  | [] => isFalse fun ⟨before, after, hsplit, _⟩ => by cases before <;> cases hsplit
  | _ :: history =>
    have := Latest.decidable history
    decidable_of_iff _ latest_cons.symm

theorem append_eq_split {rest before after : List α}
    (h : history ++ rest = before ++ e :: after) :
    (∃ later, history = before ++ e :: later) ∨
      ∃ earlier later, rest = earlier ++ e :: later ∧ before = history ++ earlier := by
  rcases List.append_eq_append_iff.mp h with ⟨earlier, hbefore, hrest⟩ | ⟨later, hhistory, hrest⟩
  · exact Or.inr ⟨earlier, after, hrest, hbefore⟩
  · cases later with
    | nil => exact Or.inr ⟨[], after, hrest.symm, by simpa using hhistory.symm⟩
    | cons x later =>
      obtain ⟨rfl, -⟩ := List.cons.inj hrest
      exact Or.inl ⟨later, hhistory⟩

theorem latest_append_iff {rest : List α} (he : ¬quiet e) (hrest : ∀ x ∈ rest, quiet x) :
    Latest e quiet (history ++ rest) ↔ Latest e quiet history := by
  refine ⟨fun ⟨before, after, hsplit, hafter⟩ => ?_, fun h => h.append hrest⟩
  rcases append_eq_split hsplit with ⟨later, hhistory⟩ | ⟨earlier, later, hlater, -⟩
  · refine ⟨before, later, hhistory, fun x hx => hafter x ?_⟩
    rw [hhistory, List.append_assoc, List.cons_append, List.append_cancel_left_eq,
      List.cons.injEq] at hsplit
    exact hsplit.2 ▸ List.mem_append_left _ hx
  · exact absurd (hrest e (hlater ▸ List.mem_append_right _ List.mem_cons_self)) he

end Alko.Foundation
