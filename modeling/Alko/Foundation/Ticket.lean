import Mathlib.Tactic

/-! Histories in which something may be used only on a ticket, as often as wanted, until the ticket
is redeemed. -/

namespace Alko.Foundation

inductive TicketEvent
  | issue | use | redeem | other
  deriving DecidableEq

namespace Ticket

variable {ε : Type*} (kind : ε → TicketEvent)

/-- Whether a ticket is held after a history, if it was (`held`) before it. -/
def holds : Bool → List ε → Bool
  | held, [] => held
  | held, e :: es =>
    match kind e with
    | .issue => holds true es
    | .redeem => holds false es
    | _ => holds held es

def Lawful : Bool → List ε → Prop
  | _, [] => True
  | held, e :: es =>
    match kind e with
    | .issue => Lawful true es
    | .use => held = true ∧ Lawful held es
    | .redeem => held = true ∧ Lawful false es
    | .other => Lawful held es

theorem holds_append (held : Bool) (es fs : List ε) :
    holds kind held (es ++ fs) = holds kind (holds kind held es) fs := by
  induction es generalizing held with
  | nil => rfl
  | cons e es ih =>
    simp only [List.cons_append, holds]
    split <;> exact ih _

theorem lawful_append (held : Bool) (es fs : List ε) :
    Lawful kind held (es ++ fs) ↔ Lawful kind held es ∧ Lawful kind (holds kind held es) fs := by
  induction es generalizing held with
  | nil => exact ⟨fun h => ⟨trivial, h⟩, fun h => h.2⟩
  | cons e es ih =>
    simp only [List.cons_append, Lawful, holds]
    cases kind e <;> simp only [ih, and_assoc]

theorem quiet {held : Bool} {es : List ε}
    (h : ∀ e ∈ es, kind e = .other ∨ (held = true ∧ kind e = .use)) :
    Lawful kind held es ∧ holds kind held es = held := by
  induction es with
  | nil => exact ⟨trivial, rfl⟩
  | cons e es ih =>
    obtain ⟨hlawful, hholds⟩ := ih fun f hf => h f (List.mem_cons_of_mem _ hf)
    rcases h e List.mem_cons_self with hk | ⟨hheld, hk⟩
    · exact ⟨by simpa only [Lawful, hk] using hlawful, by simpa only [holds, hk] using hholds⟩
    · exact ⟨by simpa only [Lawful, hk] using ⟨hheld, hlawful⟩, by
        simpa only [holds, hk] using hholds⟩

variable {kind}

theorem lawful_filter {p : ε → Bool} (hp : ∀ e, p e = false → kind e = .other) {held : Bool}
    {es : List ε} : Lawful kind held (es.filter p) ↔ Lawful kind held es := by
  induction es generalizing held with
  | nil => exact Iff.rfl
  | cons e es ih =>
    cases he : p e with
    | true =>
      rw [List.filter_cons_of_pos he]
      simp only [Lawful]
      cases kind e <;> simp only [ih]
    | false =>
      rw [List.filter_cons_of_neg (by simp [he]), ih]
      simp only [Lawful, hp e he]

/-- What is redeemed was issued, and so is the ticket that is still held. -/
theorem Lawful.count_holds_le {held : Bool} {es : List ε} (h : Lawful kind held es) :
    es.countP (fun e => kind e = .redeem) + (holds kind held es).toNat ≤
      es.countP (fun e => kind e = .issue) + held.toNat := by
  induction es generalizing held with
  | nil => exact Nat.le_of_eq (by rw [List.countP_nil, List.countP_nil]; rfl)
  | cons e es ih =>
    simp only [List.countP_cons]
    cases hk : kind e with
    | issue =>
      simp only [Lawful, hk] at h
      have hle := ih h
      simp only [Bool.toNat_true] at hle
      simp [holds, hk]
      omega
    | use =>
      simp only [Lawful, hk] at h
      simpa [holds, hk] using ih h.2
    | redeem =>
      simp only [Lawful, hk] at h
      have hle := ih h.2
      simp only [Bool.toNat_false, Nat.add_zero] at hle
      simp [holds, hk, h.1]
      omega
    | other =>
      simp only [Lawful, hk] at h
      simpa [holds, hk] using ih h

theorem Lawful.count_le {held : Bool} {es : List ε} (h : Lawful kind held es) :
    es.countP (fun e => kind e = .redeem) ≤
      es.countP (fun e => kind e = .issue) + held.toNat :=
  (Nat.le_add_right _ _).trans h.count_holds_le

theorem holds_eq_false {es : List ε} (h : ∀ e ∈ es, kind e ≠ .issue) :
    holds kind false es = false := by
  induction es with
  | nil => rfl
  | cons e es ih =>
    have hrest := ih fun f hf => h f (List.mem_cons_of_mem _ hf)
    rw [holds]
    split
    · exact absurd ‹_› (h e List.mem_cons_self)
    · exact hrest
    · exact hrest

/-- Between a redemption and the next use there is an issue. -/
theorem Lawful.exists_issue {held : Bool} {pre mid post : List ε} {a b : ε}
    (h : Lawful kind held (pre ++ a :: (mid ++ b :: post))) (ha : kind a = .redeem)
    (hb : kind b = .use) : ∃ e ∈ mid, kind e = .issue := by
  -- without an issue the ticket is still gone when it comes to the use
  by_contra hnone
  have hmid : ∀ e ∈ mid, kind e ≠ .issue := fun e he hk => hnone ⟨e, he, hk⟩
  rw [lawful_append] at h
  have hrest := h.2
  simp only [Lawful, ha, lawful_append, hb, holds_eq_false hmid] at hrest
  exact Bool.false_ne_true hrest.2.2.1

end Ticket

end Alko.Foundation
