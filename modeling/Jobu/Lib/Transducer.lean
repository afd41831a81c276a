/-!
# Machines that read one input at a time

`feed step s inputs` is the state after some inputs with everything that was put out on the way.  What
such a machine does with a stream does not depend on how the stream is cut (`feed_append`,
`feed_flatten`), so a component that works on chunks is independent of them as soon as one chunk is a
`feed`.
-/

namespace Lib

variable {S I O : Type} {step : S → I → S × List O} {s : S}

/-- Reads some inputs from a state. -/
def feed (step : S → I → S × List O) (s : S) : List I → S × List O
  | [] => (s, [])
  | i :: rest =>
    let next := step s i
    let last := feed step next.1 rest
    (last.1, next.2 ++ last.2)

theorem feed_cons (step : S → I → S × List O) (s : S) (i : I) (rest : List I) : feed step s (i :: rest) =
      ((feed step (step s i).1 rest).1, (step s i).2 ++ (feed step (step s i).1 rest).2) := rfl

theorem feed_append (step : S → I → S × List O) (s : S) (a b : List I) :
    feed step s (a ++ b) = ((feed step (feed step s a).1 b).1,
      (feed step s a).2 ++ (feed step (feed step s a).1 b).2) := by
  induction a generalizing s with
  | nil => rfl
  | cons _ _ ih => simp only [List.cons_append, feed, ih, List.append_assoc]

/-- A state that every input leaves puts nothing out. -/
theorem feed_stuck (h : ∀ i, step s i = (s, [])) (inputs : List I) : feed step s inputs = (s, []) := by
  induction inputs with
  | nil => rfl
  | cons i _ ih => simp only [feed, h i, ih, List.append_nil]

/-- Reads one chunk after the other, with what each put out. -/
def feedAll (step : S → I → S × List O) (s : S) : List (List I) → S × List (List O)
  | [] => (s, [])
  | chunk :: rest =>
    let next := feed step s chunk
    let last := feedAll step next.1 rest
    (last.1, next.2 :: last.2)

/-- **The chunks do not matter.** -/
theorem feed_flatten (step : S → I → S × List O) (s : S) (chunks : List (List I)) : feed step s chunks.flatten =
      ((feedAll step s chunks).1, (feedAll step s chunks).2.flatten) := by
  induction chunks generalizing s with
  | nil => rfl
  | cons _ _ ih =>
    rw [List.flatten_cons, feed_append, ih]
    rfl

end Lib
