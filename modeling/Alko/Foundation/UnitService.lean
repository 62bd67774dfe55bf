import Mathlib.Tactic
import Mathlib.Data.List.DropRight

/-! A server that gets one delivery a tick and does at most one job a tick: the next job, and only
when its whole cost is in stock. -/

namespace Alko.Foundation

def served : List ℕ → ℕ → List ℕ → ℕ
  | _, _, [] => 0
  | [], _, _ :: _ => 0
  | job :: jobs, stock, d :: ds =>
    if job ≤ stock + d then served jobs (stock + d - job) ds + 1
    else served (job :: jobs) (stock + d) ds

@[simp] theorem served_nil (stock : ℕ) (ds : List ℕ) : served [] stock ds = 0 := by
  cases ds <;> rfl

theorem served_of_lt {job stock d : ℕ} (h : stock + d < job) (jobs ds : List ℕ) :
    served (job :: jobs) stock (d :: ds) = served (job :: jobs) (stock + d) ds := by
  rw [served, if_neg (Nat.not_le.mpr h)]

theorem served_of_eq {job stock d left : ℕ} (h : stock + d = job + left) (jobs ds : List ℕ) :
    served (job :: jobs) stock (d :: ds) = served jobs left ds + 1 := by
  rw [served, if_pos (by omega), h, Nat.add_sub_cancel_left]

theorem rtake_cons {α : Type*} {l : List α} {n : ℕ} (a : α) (h : n ≤ l.length) :
    (a :: l).rtake n = l.rtake n := by
  rw [List.rtake, List.rtake, List.length_cons, Nat.succ_sub h, List.drop_succ_cons]

theorem rtake_of_length_le {α : Type*} {l : List α} {n : ℕ} (h : l.length ≤ n) : l.rtake n = l := by
  rw [List.rtake, Nat.sub_eq_zero_of_le h, List.drop_zero]

theorem rtake_sum_le (l : List ℕ) (n : ℕ) : (l.rtake n).sum ≤ l.sum :=
  (List.drop_sublist _ _).sum_le_sum fun _ _ => Nat.zero_le _

/-- For every `n`, the last `n` deliveries are late enough a part of the whole: they hold no more
than the last `n` jobs cost. -/
def Late (jobs ds : List ℕ) : Prop :=
  ∀ n < jobs.length, n < ds.length ∧ (ds.rtake n).sum ≤ (jobs.rtake n).sum

theorem late_done {jobs ds : List ℕ} (h : ds.sum ≤ jobs.sum) (job d : ℕ) :
    Late (job :: jobs) (d :: ds) ↔ Late jobs ds := by
  unfold Late
  simp only [List.length_cons]
  constructor
  · intro hlate n hn
    have hlen : n ≤ ds.length := by
      have := (hlate n (by omega)).1
      omega
    have hlen' := (hlate (n + 1) (by omega)).1
    have hle := (hlate n (by omega)).2
    rw [rtake_cons _ hlen, rtake_cons _ hn.le] at hle
    exact ⟨by omega, hle⟩
  · intro hlate n hn
    have hlen : n ≤ ds.length := by
      rcases Nat.eq_zero_or_pos n with rfl | hpos
      · exact Nat.zero_le _
      · have := (hlate (n - 1) (by omega)).1
        omega
    refine ⟨by omega, ?_⟩
    rw [rtake_cons _ hlen, rtake_cons _ (by omega : n ≤ jobs.length)]
    rcases Nat.lt_or_ge n jobs.length with hlt | hge
    · exact (hlate n hlt).2
    · rw [rtake_of_length_le hge]
      exact (rtake_sum_le ds n).trans h

theorem late_waits {job : ℕ} {jobs ds : List ℕ} (h : jobs.sum < ds.sum) (d : ℕ) :
    Late (job :: jobs) (d :: ds) ↔ Late (job :: jobs) ds := by
  unfold Late
  simp only [List.length_cons]
  constructor
  · intro hlate n hn
    obtain ⟨hlen, hle⟩ := hlate n hn
    have hlen : n ≤ ds.length := by omega
    rw [rtake_cons _ hlen] at hle
    refine ⟨?_, hle⟩
    -- the last `n` deliveries cannot be all there are: the first job is not covered yet
    rcases Nat.lt_or_ge n ds.length with hlt | hge
    · exact hlt
    · rw [rtake_of_length_le hge, rtake_cons _ (by omega : n ≤ jobs.length)] at hle
      have := rtake_sum_le jobs n
      omega
  · intro hlate n hn
    obtain ⟨hlen, hle⟩ := hlate n hn
    exact ⟨by omega, by rwa [rtake_cons _ hlen.le]⟩

/-- All jobs get done exactly when the deliveries come late. -/
theorem served_eq_length_iff (jobs : List ℕ) (stock : ℕ) (ds : List ℕ)
    (hpos : ∀ job ∈ jobs, 0 < job) (hsum : stock + ds.sum = jobs.sum) :
    served jobs stock ds = jobs.length ↔ Late jobs ds := by
  induction ds generalizing jobs stock with
  | nil =>
    cases jobs with
    | nil => simp [served, Late]
    | cons job jobs =>
      simp only [served, Late, List.length_cons, List.length_nil]
      exact ⟨fun h => by omega, fun h => absurd (h 0 (by omega)).1 (by omega)⟩
  | cons d ds ih =>
    cases jobs with
    | nil => simp [Late]
    | cons job jobs =>
      have hjobs : ∀ job ∈ jobs, 0 < job := fun j hj => hpos j (List.mem_cons_of_mem _ hj)
      simp only [List.sum_cons] at hsum
      -- the first delivery either pays for the first job, or goes into stock
      rcases Nat.lt_or_ge (stock + d) job with hwait | hdo
      · rw [served_of_lt hwait, late_waits (by omega)]
        exact ih (job :: jobs) _ hpos (by simp only [List.sum_cons]; omega)
      · rw [served_of_eq (Nat.add_sub_of_le hdo).symm, late_done (by omega), List.length_cons,
          Nat.add_right_cancel_iff]
        exact ih jobs _ hjobs (by omega)

theorem rtake_sum_lt {jobs : List ℕ} {n : ℕ} (hpos : ∀ job ∈ jobs, 0 < job)
    (h : n < jobs.length) : (jobs.rtake n).sum < jobs.sum := by
  cases jobs with
  | nil => simp at h
  | cons job jobs =>
    rw [rtake_cons _ (by simpa using Nat.lt_succ_iff.mp h), List.sum_cons]
    have hjob := hpos job List.mem_cons_self
    have := rtake_sum_le jobs n
    omega

theorem served_all_iff (jobs ds : List ℕ) (hpos : ∀ job ∈ jobs, 0 < job)
    (hsum : ds.sum = jobs.sum) :
    served jobs 0 ds = jobs.length ↔
      ∀ n < jobs.length, (ds.rtake n).sum ≤ (jobs.rtake n).sum := by
  rw [served_eq_length_iff jobs 0 ds hpos (by simpa using hsum)]
  apply forall₂_congr
  intro n hn
  refine ⟨fun h => h.2, fun h => ⟨?_, h⟩⟩
  by_contra hlen
  rw [rtake_of_length_le (Nat.le_of_not_lt hlen)] at h
  have := rtake_sum_lt hpos hn
  omega

end Alko.Foundation
