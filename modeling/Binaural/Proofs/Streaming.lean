import Binaural.Filter.Cascade
import Binaural.Proofs.Lengths

/-!
Filters one sample at a time.

A cascade runs each of its sections over the whole signal before the next one. A stream has no whole
signal: it passes each sample through all sections, which keep what they remember, before it takes
the next sample. The two orders make the same numbers by the same operations, so they agree in any
arithmetic (`Section.Running.stream_eq_runAll`), and a signal can be filtered in parts
(`Section.Running.runAll_append`). In particular filters are causal: the first samples that come out
are those that come out for the first samples alone (`Cascade.filter_take`).
-/

namespace Binaural

variable {α : Type} [Scalar α]

/-! ## Runs of one section -/

namespace Section

variable (s : Section α)

/-- The samples that came out before stand in front of the others. -/
theorem runOnto_eq (state : State α) (done xs : List α) :
    s.runOnto state done xs = (done.reverse ++ (s.runFrom state xs).1, (s.runFrom state xs).2) := by
  induction xs generalizing state done with
  | nil => simp [runFrom, runOnto]
  | cons x xs ih =>
      rw [runFrom, runOnto, runOnto]
      dsimp only
      rw [ih, ih _ [_]]
      simp

theorem runFrom_cons (state : State α) (x : α) (xs : List α) :
    s.runFrom state (x :: xs) =
      ((s.tick state x).1 :: (s.runFrom (s.tick state x).2 xs).1,
        (s.runFrom (s.tick state x).2 xs).2) := by
  rw [runFrom, runOnto]
  dsimp only
  rw [runOnto_eq]
  rfl

/-- A section that is being run: what it computes, and what it remembers. -/
structure Running (α : Type) where
  coefficients : Section α
  state : State α

namespace Running

/-! ## Chains of running sections -/

/-- One sample through a running section. -/
def tick (r : Running α) (x : α) : α × Running α :=
  ((r.coefficients.tick r.state x).1, ⟨r.coefficients, (r.coefficients.tick r.state x).2⟩)

/-- A whole signal through a running section. -/
def run (r : Running α) (xs : List α) : List α × Running α :=
  ((r.coefficients.runFrom r.state xs).1, ⟨r.coefficients, (r.coefficients.runFrom r.state xs).2⟩)

/-- One sample through one running section after the other. -/
def tickAll : List (Running α) → α → α × List (Running α)
  | [], x => (x, [])
  | r :: rest, x =>
    let (y, next) := r.tick x
    let (z, others) := tickAll rest y
    (z, next :: others)

/-- A signal through running sections, each sample through all of them before the next sample. -/
def stream (rs : List (Running α)) : List α → List α × List (Running α)
  | [] => ([], rs)
  | x :: xs =>
    let (y, next) := tickAll rs x
    let (ys, left) := stream next xs
    (y :: ys, left)

/-- A signal through running sections, the whole of it through each section before the next one. -/
def runAll : List (Running α) → List α → List α × List (Running α)
  | [], xs => (xs, [])
  | r :: rest, xs =>
    let (ys, next) := r.run xs
    let (zs, others) := runAll rest ys
    (zs, next :: others)

theorem run_nil (r : Running α) : r.run [] = ([], r) := rfl

theorem run_cons (r : Running α) (x : α) (xs : List α) :
    r.run (x :: xs) =
      ((r.tick x).1 :: ((r.tick x).2.run xs).1, ((r.tick x).2.run xs).2) := by
  rw [run, runFrom_cons]
  rfl

theorem runAll_nil (rs : List (Running α)) : runAll rs [] = ([], rs) := by
  induction rs with
  | nil => rfl
  | cons r rest ih =>
      rw [runAll, run_nil]
      dsimp only
      rw [ih]

/-- The first sample can go ahead of the others through all sections. -/
theorem runAll_cons (rs : List (Running α)) (x : α) (xs : List α) :
    runAll rs (x :: xs) =
      ((tickAll rs x).1 :: (runAll (tickAll rs x).2 xs).1, (runAll (tickAll rs x).2 xs).2) := by
  induction rs generalizing x xs with
  | nil => rfl
  | cons r rest ih =>
      rw [runAll, run_cons]
      dsimp only
      rw [ih]
      rfl

/-- Signals come out the same, and leave the sections in the same states, in both orders. -/
theorem stream_eq_runAll (rs : List (Running α)) (xs : List α) : stream rs xs = runAll rs xs := by
  induction xs generalizing rs with
  | nil => rw [stream, runAll_nil]
  | cons x xs ih =>
      rw [stream, runAll_cons]
      dsimp only
      rw [ih]

/-- The second part of a signal goes through what the first part leaves. -/
theorem runAll_append (rs : List (Running α)) (xs ys : List α) :
    runAll rs (xs ++ ys) =
      ((runAll rs xs).1 ++ (runAll (runAll rs xs).2 ys).1, (runAll (runAll rs xs).2 ys).2) := by
  induction xs generalizing rs with
  | nil => rw [runAll_nil, List.nil_append, List.nil_append]
  | cons x xs ih =>
      rw [List.cons_append, runAll_cons, runAll_cons]
      dsimp only
      rw [ih, List.cons_append]

end Running

end Section

/-! ## Cascades -/

namespace Cascade

open Section

variable (c : Cascade α)

/-- The sections of a cascade before the first sample. -/
def atRest : List (Running α) := c.sections.map fun s => ⟨s, .zero⟩

theorem filter_eq_runAll (xs : List α) : c.filter xs = (Running.runAll c.atRest xs).1 := by
  obtain ⟨sections⟩ := c
  rw [filter, atRest]
  dsimp only
  induction sections generalizing xs with
  | nil => rfl
  | cons s rest ih =>
      rw [List.foldl_cons, ih]
      rfl

theorem filter_append (xs ys : List α) :
    c.filter (xs ++ ys) =
      c.filter xs ++ (Running.runAll (Running.runAll c.atRest xs).2 ys).1 := by
  rw [filter_eq_runAll, filter_eq_runAll, Running.runAll_append]

/-- The first samples are filtered as if there were no others. -/
theorem filter_take (n : Nat) (xs : List α) : c.filter (xs.take n) = (c.filter xs).take n := by
  have split := c.filter_append (xs.take n) (xs.drop n)
  rw [List.take_append_drop] at split
  rcases Nat.le_total n xs.length with inside | beyond
  · have length : (c.filter (xs.take n)).length = n := by
      rw [length_filter, List.length_take, Nat.min_eq_left inside]
    rw [split, List.take_left' length]
  · rw [List.take_of_length_le beyond, List.take_of_length_le (by rwa [length_filter])]

/-- A cascade gives what its sections, each run from rest, make of a stream of the samples, and they
end in the same states. Of a longer signal the first part comes out as it does alone, and the rest
as the sections go on from where that part leaves them. -/
theorem filter_eq_stream :
    (∀ xs, c.filter xs = (Running.stream c.atRest xs).1 ∧
      Running.stream c.atRest xs = Running.runAll c.atRest xs) ∧
      ∀ xs ys, c.filter (xs ++ ys) =
        c.filter xs ++ (Running.stream (Running.stream c.atRest xs).2 ys).1 := by
  refine ⟨fun xs => ⟨?_, Running.stream_eq_runAll c.atRest xs⟩, fun xs ys => ?_⟩
  · rw [Running.stream_eq_runAll, filter_eq_runAll]
  · rw [filter_append, Running.stream_eq_runAll, Running.stream_eq_runAll]

end Cascade

end Binaural
