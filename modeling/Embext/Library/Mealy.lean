set_option autoImplicit false

/-! # Devices driven one symbol at a time

A `Mealy` machine answers every input with an output and moves on. Whoever drives it knows the
inputs so far, and `after` and `answer` say what the machine has made of them. The machine that
answers from a queue is the common case of a device with one reply line: while the queue is empty it
sends the filler. -/

/-- A device that answers each input. -/
structure Mealy (ι ο σ : Type) where
  start : σ
  step : σ → ι → ο × σ

namespace Mealy

variable {ι ο σ : Type} (M : Mealy ι ο σ)

/-- The state after the inputs, newest first. -/
def after : List ι → σ
  | [] => M.start
  | i :: rest => (M.step (after rest) i).2

/-- The output to the newest input; `filler` before the first one. -/
def answer (filler : ο) : List ι → ο
  | [] => filler
  | i :: rest => (M.step (M.after rest) i).1

@[simp] theorem after_nil : M.after [] = M.start := rfl

@[simp] theorem after_cons (i : ι) (sent : List ι) :
    M.after (i :: sent) = (M.step (M.after sent) i).2 := rfl

@[simp] theorem answer_cons (filler : ο) (i : ι) (sent : List ι) :
    M.answer filler (i :: sent) = (M.step (M.after sent) i).1 := rfl

end Mealy
