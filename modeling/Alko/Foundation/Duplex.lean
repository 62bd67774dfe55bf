import Alko.Foundation.FrameStream
import Alko.Foundation.Run

/-! Two parties on a pair of letter streams. Each writes whole frames and reads with a resumable
reader; whatever the streams do to the timing of the letters, the parties do what they would do
with a queue of whole frames in each direction. -/

namespace Alko.Foundation

open FrameFormat (Expects Frame stream)

/-- A party: some of its steps look at the line, and may be handed the body of a frame; every step
may write frames. -/
structure Party (α κ σ : Type*) where
  reads : κ → Bool
  step : κ → Option (List α) → σ → σ × List (List α)

/-- A party on a stream; the inbox is what has been written to it and has not arrived. -/
structure Port (α σ : Type*) where
  state : σ
  reader : Reader α
  inbox : List α

structure Desk (α σ : Type*) where
  state : σ
  inbox : List (List α)

variable {α κ σ l τ : Type*}

namespace Port

/-- `n` letters arrive before the step, and `m` while a step that looks at the line runs. -/
def step [DecidableEq α] (P : Party α κ σ) (F : FrameFormat α) (k : κ) (n m : ℕ)
    (p : Port α σ) : Port α σ × List (List α) :=
  let arrived : Reader α := ⟨p.reader.pending, p.reader.buffer ++ p.inbox.take n⟩
  if P.reads k then
    let polled := F.poll ((p.inbox.drop n).take m) arrived
    let done := P.step k polled.1 p.state
    (⟨done.1, polled.2, (p.inbox.drop n).drop m⟩, done.2)
  else
    let done := P.step k none p.state
    (⟨done.1, arrived, p.inbox.drop n⟩, done.2)

@[simps] def deliver (frames : List (List α)) (p : Port α σ) : Port α σ :=
  { p with inbox := p.inbox ++ frames.flatten }

def new (s : σ) : Port α σ := ⟨s, ⟨0, []⟩, []⟩

end Port

namespace Desk

/-- A step that looks at the line takes the first frame, or leaves the frames for later. -/
def step (P : Party α κ σ) (k : κ) (take : Bool) (d : Desk α σ) : Desk α σ × List (List α) :=
  match P.reads k && take, d.inbox with
  | true, frame :: frames =>
    let done := P.step k (some (frame.drop 3)) d.state
    (⟨done.1, frames⟩, done.2)
  | _, _ =>
    let done := P.step k none d.state
    (⟨done.1, d.inbox⟩, done.2)

@[simps] def deliver (frames : List (List α)) (d : Desk α σ) : Desk α σ :=
  { d with inbox := d.inbox ++ frames }

def new (s : σ) : Desk α σ := ⟨s, []⟩

end Desk

@[ext] structure Ends (ε ε' : Type*) where
  left : ε
  right : ε'

inductive Turn (κ l : Type*)
  | left (k : κ) (n m : ℕ)
  | right (k : l) (n m : ℕ)

inductive Errand (κ l : Type*)
  | left (k : κ) (take : Bool)
  | right (k : l) (take : Bool)

variable (P : Party α κ σ) (Q : Party α l τ) (F G : FrameFormat α)

/-- The left party reads frames of `F`, the right party frames of `G`. -/
def Ends.turn [DecidableEq α] (s : Ends (Port α σ) (Port α τ)) :
    Turn κ l → Ends (Port α σ) (Port α τ)
  | .left k n m => ⟨(s.left.step P F k n m).1, s.right.deliver (s.left.step P F k n m).2⟩
  | .right k n m => ⟨s.left.deliver (s.right.step Q G k n m).2, (s.right.step Q G k n m).1⟩

def Ends.serve (s : Ends (Desk α σ) (Desk α τ)) : Errand κ l → Ends (Desk α σ) (Desk α τ)
  | .left k take => ⟨(s.left.step P k take).1, s.right.deliver (s.left.step P k take).2⟩
  | .right k take => ⟨s.left.deliver (s.right.step Q k take).2, (s.right.step Q k take).1⟩

def wired [DecidableEq α] (init : σ → τ → Prop) :
    TransitionSystem (Ends (Port α σ) (Port α τ)) (Turn κ l) where
  init s := ∃ a b, init a b ∧ s = ⟨.new a, .new b⟩
  step s k t := t = s.turn P Q F G k

def posted (init : σ → τ → Prop) :
    TransitionSystem (Ends (Desk α σ) (Desk α τ)) (Errand κ l) where
  init s := ∃ a b, init a b ∧ s = ⟨.new a, .new b⟩
  step s k t := t = s.serve P Q k

variable {P Q F G}

/-- The port's letters are those of the frames on the desk. -/
structure Port.Reads (F : FrameFormat α) (p : Port α σ) (d : Desk α σ) : Prop where
  state : p.state = d.state
  frames : ∃ frames : List F.Frame, d.inbox = frames.map Frame.letters ∧
    Expects p.reader p.inbox frames

def IsFrame (F : FrameFormat α) (letters : List α) : Prop := ∃ f : F.Frame, f.letters = letters

/-- The party writes frames of `G` as long as it is handed frames of `F`. -/
def Party.Writes (P : Party α κ σ) (F G : FrameFormat α) : Prop :=
  ∀ k o s, (∀ body ∈ o, ∃ f : F.Frame, f.body = body) → ∀ letters ∈ (P.step k o s).2,
    IsFrame G letters

theorem FrameFormat.Expects.write {r : Reader α} {future : List α} {fs : List F.Frame}
    (h : Expects r future fs) (fs' : List F.Frame) :
    Expects r (future ++ stream fs') (fs ++ fs') := by
  have hstream (gs : List F.Frame) : stream (gs ++ fs') = stream gs ++ stream fs' := by
    simp only [stream, List.map_append, List.flatten_append]
  cases h with
  | header idle letters =>
    exact .header idle (by rw [← List.append_assoc, letters, hstream])
  | @body f fs pending letters =>
    refine (.body pending ?_ : Expects r _ (f :: (fs ++ fs')))
    rw [← List.append_assoc, letters, hstream, List.append_assoc]

theorem exists_frames {letters : List (List α)} (h : ∀ x ∈ letters, IsFrame F x) :
    ∃ frames : List F.Frame, letters = frames.map Frame.letters := by
  induction letters with
  | nil => exact ⟨[], rfl⟩
  | cons x xs ih =>
    obtain ⟨f, rfl⟩ := h x List.mem_cons_self
    obtain ⟨fs, rfl⟩ := ih fun y hy => h y (List.mem_cons_of_mem _ hy)
    exact ⟨f :: fs, rfl⟩

theorem Port.Reads.deliver {p : Port α σ} {d : Desk α σ} (h : p.Reads F d)
    {letters : List (List α)} (hletters : ∀ x ∈ letters, IsFrame F x) :
    (p.deliver letters).Reads F (d.deliver letters) := by
  obtain ⟨frames, hinbox, hexp⟩ := h.frames
  obtain ⟨more, rfl⟩ := exists_frames hletters
  refine ⟨h.state, frames ++ more, ?_, hexp.write more⟩
  rw [Desk.deliver_inbox, hinbox, List.map_append]

theorem Port.Reads.new (s : σ) : (Port.new s : Port α σ).Reads F (.new s) :=
  ⟨rfl, [], rfl, .header rfl rfl⟩

inductive Desk.Finds (P : Party α κ σ) (k : κ) :
    List (List α) → Option (List α) → List (List α) → Prop
  | leaves (inbox) : Finds P k inbox none inbox
  | takes (reads : P.reads k = true) (frame inbox) :
      Finds P k (frame :: inbox) (some (frame.drop 3)) inbox

theorem Desk.step_finds (P : Party α κ σ) (k : κ) (take : Bool) (d : Desk α σ) :
    ∃ found inbox, Desk.Finds P k d.inbox found inbox ∧
      d.step P k take = (⟨(P.step k found d.state).1, inbox⟩, (P.step k found d.state).2) := by
  unfold Desk.step
  split
  · next frame frames htake hinbox =>
    rw [hinbox]
    exact ⟨_, _, .takes (Bool.and_eq_true_iff.mp htake).1 frame frames, rfl⟩
  · exact ⟨none, d.inbox, .leaves d.inbox, rfl⟩

theorem Desk.step_takes {P : Party α κ σ} {k : κ} (hreads : P.reads k = true) (d : Desk α σ) :
    (d.step P k true).1.inbox = d.inbox.tail := by
  unfold Desk.step
  rw [hreads, Bool.and_true]
  cases d.inbox <;> rfl

theorem Desk.step_writes (hP : P.Writes F G) {d : Desk α σ} (h : ∀ x ∈ d.inbox, IsFrame F x)
    (k : κ) (take : Bool) : ∀ x ∈ (d.step P k take).2, IsFrame G x := by
  obtain ⟨found, inbox, hfinds, hstep⟩ := d.step_finds P k take
  rw [hstep]
  refine hP k found d.state fun body hbody => ?_
  generalize d.inbox = before at h hfinds
  cases hfinds with
  | leaves => cases hbody
  | takes reads frame =>
    obtain ⟨f, rfl⟩ := h frame List.mem_cons_self
    exact ⟨f, Option.some.inj hbody⟩

variable [DecidableEq α]

/-- The step lemma: a poll of the stream is a look at the queue. -/
theorem Port.Reads.step {p : Port α σ} {d : Desk α σ} (h : p.Reads F d) (k : κ) (n m : ℕ) :
    ∃ take, (d.step P k take).2 = (p.step P F k n m).2 ∧
      (p.step P F k n m).1.Reads F (d.step P k take).1 := by
  obtain ⟨frames, hinbox, hexp⟩ := h.frames
  have harrived : Expects ⟨p.reader.pending, p.reader.buffer ++ p.inbox.take n⟩ (p.inbox.drop n)
      frames := by
    refine Expects.arrive ?_
    rwa [List.take_append_drop]
  have hleave : d.step P k false = (⟨(P.step k none p.state).1, d.inbox⟩,
      (P.step k none p.state).2) := by
    simp only [Desk.step, Bool.and_false, h.state]
  unfold Port.step
  cases hreads : P.reads k with
  | false =>
    rw [if_neg Bool.false_ne_true]
    exact ⟨false, by rw [hleave], by rw [hleave]; exact ⟨rfl, frames, hinbox, harrived⟩⟩
  | true =>
    rw [if_pos rfl]
    simp only
    generalize hreader : (⟨p.reader.pending, p.reader.buffer ++ p.inbox.take n⟩ : Reader α) = r
      at harrived
    generalize hlate : (p.inbox.drop n).take m = late
    have hpoll : Expects r (late ++ (p.inbox.drop n).drop m) frames := by
      rwa [← hlate, List.take_append_drop]
    -- a poll that hands nothing on leaves every frame on the desk
    have hwaits {r' : Reader α} (hnone : F.poll late r = (none, r'))
        (hr' : Expects r' ((p.inbox.drop n).drop m) frames) :
        ∃ take, (d.step P k take).2 = (P.step k (F.poll late r).1 p.state).2 ∧
          (⟨(P.step k (F.poll late r).1 p.state).1, (F.poll late r).2,
            (p.inbox.drop n).drop m⟩ : Port α σ).Reads F (d.step P k take).1 := by
      rw [hnone]
      exact ⟨false, by rw [hleave], by rw [hleave]; exact ⟨rfl, frames, hinbox, hr'⟩⟩
    cases frames with
    | nil =>
      obtain ⟨hnone, hr'⟩ := FrameFormat.poll_nil hpoll
      exact hwaits hnone hr'
    | cons f frames =>
      rcases FrameFormat.poll_polled f frames hpoll with ⟨r', hnone, -, -, hr'⟩ | hpolled
      · exact hwaits hnone hr'
      · generalize hp : F.poll late r = polled,
          FrameFormat.arrived r + late.length = stock at hpolled
        cases hpolled with
        | waits more rest =>
          rw [← hp]
          exact hwaits hp rest
        | yields rest =>
          have htake : d.step P k true = (⟨(P.step k (some f.body) p.state).1,
              frames.map Frame.letters⟩, (P.step k (some f.body) p.state).2) := by
            simp only [Desk.step, hreads, Bool.and_true, hinbox, List.map_cons, h.state]
            rfl
          exact ⟨true, by rw [htake], by rw [htake]; exact ⟨rfl, frames, rfl, rest⟩⟩

theorem Port.Reads.step_arrived {p : Port α σ} {d : Desk α σ} (h : p.Reads F d) {k : κ}
    (hreads : P.reads k = true) {n : ℕ} (hall : p.inbox.length ≤ n) (m : ℕ) :
    (d.step P k true).2 = (p.step P F k n m).2 ∧
      (p.step P F k n m).1.Reads F (d.step P k true).1 := by
  obtain ⟨frames, hinbox, hexp⟩ := h.frames
  have harrived : Expects ⟨p.reader.pending, p.reader.buffer ++ p.inbox⟩ [] frames := by
    refine Expects.arrive ?_
    rwa [List.append_nil]
  unfold Port.step
  rw [if_pos hreads, List.take_of_length_le hall, List.drop_eq_nil_of_le hall, List.take_nil,
    List.drop_nil]
  cases frames with
  | nil =>
    have hnow : Expects ⟨p.reader.pending, p.reader.buffer ++ p.inbox⟩ ([] ++ [])
        ([] : List F.Frame) := harrived
    obtain ⟨hnone, hr'⟩ := FrameFormat.poll_nil hnow
    have hleave : d.step P k true = (⟨(P.step k none p.state).1, d.inbox⟩,
        (P.step k none p.state).2) := by
      simp only [Desk.step, hreads, Bool.and_true, hinbox, List.map_nil, h.state]
    rw [hnone, hleave]
    exact ⟨rfl, rfl, [], hinbox, hr'⟩
  | cons f frames =>
    obtain ⟨r', hsome, hr'⟩ := FrameFormat.poll_complete f frames harrived
    have htake : d.step P k true = (⟨(P.step k (some f.body) p.state).1,
        frames.map Frame.letters⟩, (P.step k (some f.body) p.state).2) := by
      simp only [Desk.step, hreads, Bool.and_true, hinbox, List.map_cons, h.state]
      rfl
    rw [hsome, htake]
    exact ⟨rfl, rfl, frames, rfl, hr'⟩

structure Ends.Reads (F G : FrameFormat α) (s : Ends (Port α σ) (Port α τ))
    (q : Ends (Desk α σ) (Desk α τ)) : Prop where
  left : s.left.Reads F q.left
  right : s.right.Reads G q.right

omit [DecidableEq α] in
theorem Port.Reads.isFrame {p : Port α σ} {d : Desk α σ} (h : p.Reads F d) :
    ∀ x ∈ d.inbox, IsFrame F x := by
  obtain ⟨frames, hinbox, -⟩ := h.frames
  intro x hx
  rw [hinbox] at hx
  obtain ⟨f, -, rfl⟩ := List.mem_map.mp hx
  exact ⟨f, rfl⟩

/-- Parties that write frames for each other do on streams what they do on queues. -/
theorem wired_simulates (hP : P.Writes F G) (hQ : Q.Writes G F) (init : σ → τ → Prop) :
    TransitionSystem.ForwardSimulation (wired P Q F G init) (posted P Q init) (Ends.Reads F G) where
  init s h := by
    obtain ⟨a, b, hab, rfl⟩ := h
    exact ⟨⟨.new a, .new b⟩, ⟨a, b, hab, rfl⟩, .new a, .new b⟩
  step s k t q h hstep := by
    cases k with
    | left k n m =>
      obtain rfl := hstep
      obtain ⟨take, hwrites, hreads⟩ := h.left.step (P := P) k n m
      refine ⟨.left k take, _, rfl, hreads, ?_⟩
      simp only [Ends.turn, Ends.serve, hwrites]
      refine h.right.deliver ?_
      rw [← hwrites]
      exact Desk.step_writes hP h.left.isFrame k take
    | right k n m =>
      obtain rfl := hstep
      obtain ⟨take, hwrites, hreads⟩ := h.right.step (P := Q) k n m
      refine ⟨.right k take, _, rfl, ?_, hreads⟩
      simp only [Ends.turn, Ends.serve, hwrites]
      refine h.left.deliver ?_
      rw [← hwrites]
      exact Desk.step_writes hQ h.right.isFrame k take

end Alko.Foundation
