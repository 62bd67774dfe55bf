import Mathlib.Tactic

/-! Labelled transition systems: reachable states, the invariant rule, simulation by a function of
the states, and runs of a step function. -/

namespace Alko.Foundation

structure TransitionSystem (σ κ : Type*) where
  init : σ → Prop
  step : σ → κ → σ → Prop

namespace TransitionSystem

variable {σ κ τ l : Type*}

inductive Reachable (T : TransitionSystem σ κ) : σ → Prop
  | init {s} (h : T.init s) : Reachable T s
  | step {s k t} (h : Reachable T s) (hstep : T.step s k t) : Reachable T t

variable {T : TransitionSystem σ κ} {A : TransitionSystem τ l}

/-- The invariant rule; a step may use that its source is reachable. -/
theorem Reachable.invariant {I : σ → Prop} {s : σ} (h : T.Reachable s)
    (init : ∀ s, T.init s → I s)
    (step : ∀ s k t, T.Reachable s → I s → T.step s k t → I t) : I s := by
  induction h with
  | init h => exact init _ h
  | step h hstep ih => exact step _ _ _ h ih hstep

theorem Reachable.foldl {f : σ → κ → σ} (hf : ∀ s k, T.step s k (f s k)) {s : σ}
    (h : T.Reachable s) (ks : List κ) : T.Reachable (ks.foldl f s) := by
  induction ks generalizing s with
  | nil => exact h
  | cons k ks ih => exact ih (h.step (hf s k))

/-- The runs whose steps all meet a condition. -/
def restrict (T : TransitionSystem σ κ) (P : σ → κ → Prop) : TransitionSystem σ κ where
  init := T.init
  step s k t := P s k ∧ T.step s k t

theorem Reachable.of_restrict {P : σ → κ → Prop} {s : σ} (h : (T.restrict P).Reachable s) :
    T.Reachable s := by
  induction h with
  | init h => exact .init h
  | step _ hstep ih => exact .step ih hstep.2

def onwards (T : TransitionSystem σ κ) (s : σ) : TransitionSystem σ κ where
  init t := t = s
  step := T.step

structure Simulation (T : TransitionSystem σ κ) (A : TransitionSystem τ l) (f : σ → τ) : Prop where
  init : ∀ s, T.init s → A.init (f s)
  step : ∀ s k t, T.step s k t → ∃ j, A.step (f s) j (f t)

theorem Simulation.reachable {f : σ → τ} (h : Simulation T A f) {s : σ} (hs : T.Reachable s) :
    A.Reachable (f s) := by
  induction hs with
  | init hinit => exact .init (h.init _ hinit)
  | step _ hstep ih =>
    obtain ⟨j, hj⟩ := h.step _ _ _ hstep
    exact .step ih hj

structure ForwardSimulation (T : TransitionSystem σ κ) (A : TransitionSystem τ l)
    (R : σ → τ → Prop) : Prop where
  init : ∀ s, T.init s → ∃ a, A.init a ∧ R s a
  step : ∀ s k t a, R s a → T.step s k t → ∃ j b, A.step a j b ∧ R t b

theorem ForwardSimulation.reachable {R : σ → τ → Prop} (h : ForwardSimulation T A R) {s : σ}
    (hs : T.Reachable s) : ∃ a, A.Reachable a ∧ R s a := by
  induction hs with
  | init hinit =>
    obtain ⟨a, ha, hR⟩ := h.init _ hinit
    exact ⟨a, .init ha, hR⟩
  | step _ hstep ih =>
    obtain ⟨a, ha, hR⟩ := ih
    obtain ⟨j, b, hb, hR'⟩ := h.step _ _ _ _ hR hstep
    exact ⟨b, ha.step hb, hR'⟩

theorem Simulation.forward {ρ m : Type*} {B : TransitionSystem ρ m} {f : σ → τ} {R : τ → ρ → Prop}
    (h : Simulation T A f) (hR : ForwardSimulation A B R) :
    ForwardSimulation T B fun s => R (f s) where
  init s hs := hR.init (f s) (h.init s hs)
  step s k t b hb hstep := by
    obtain ⟨j, hj⟩ := h.step s k t hstep
    exact hR.step (f s) j (f t) b hb hj

end TransitionSystem

section Steps

variable {σ κ : Type*} {step : σ → κ → σ} {I G : σ → Prop} {P : σ → κ → Prop}

/-- Each step of the run meets the condition in the state it starts from. -/
def AllSteps (step : σ → κ → σ) (P : σ → κ → Prop) : List κ → σ → Prop
  | [], _ => True
  | k :: ks, s => P s k ∧ AllSteps step P ks (step s k)

instance AllSteps.decidable [(s : σ) → (k : κ) → Decidable (P s k)] :
    (ks : List κ) → (s : σ) → Decidable (AllSteps step P ks s)
  | [], _ => isTrue trivial
  | k :: ks, s =>
    have := AllSteps.decidable ks (step s k)
    inferInstanceAs (Decidable (P s k ∧ AllSteps step P ks (step s k)))

/-- What a step keeps that meets a condition, a run keeps whose steps all do. -/
theorem AllSteps.foldl (hstep : ∀ s k, I s → P s k → I (step s k)) {ks : List κ} {s : σ}
    (hks : AllSteps step P ks s) (hs : I s) : I (ks.foldl step s) := by
  induction ks generalizing s with
  | nil => exact hs
  | cons k ks ih => exact ih hks.2 (hstep s k hs hks.1)

/-- What every step keeps exactly if it meets a condition, a run keeps exactly if all do. -/
theorem foldl_iff_allSteps (hI : ∀ s k, I s → I (step s k))
    (hstep : ∀ s k, I s → (G (step s k) ↔ G s ∧ P s k)) {s : σ} (hs : I s) (ks : List κ) :
    G (ks.foldl step s) ↔ G s ∧ AllSteps step P ks s := by
  induction ks generalizing s with
  | nil => exact (and_true _).to_iff.symm
  | cons k ks ih => rw [List.foldl_cons, ih (hI s k hs), hstep s k hs, AllSteps, and_assoc]

end Steps

end Alko.Foundation
