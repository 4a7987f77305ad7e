/-! Cancellation of one request. Callbacks registered before the cancellation run when it comes,
once; one that is added later runs at once. -/
namespace Assay

structure Token (α : Type) where
  cancelled : Bool
  callbacks : List α

namespace Token

variable {α : Type} [DecidableEq α]

inductive Call (α : Type) where
  | add (callback : α)
  | remove (callback : α)
  | cancel
  deriving DecidableEq, Repr

omit [DecidableEq α] in
def fresh : Token α := ⟨false, []⟩

/-- One call: the token after it, and the callbacks that the caller then runs. -/
def step (t : Token α) : Call α → Token α × List α
  | .add c =>
    if t.cancelled then (t, [c]) else ({ t with callbacks := t.callbacks ++ [c] }, [])
  | .remove c => ({ t with callbacks := t.callbacks.erase c }, [])
  | .cancel => if t.cancelled then (t, []) else ({ t with cancelled := true }, t.callbacks)

def run (t : Token α) : List (Call α) → Token α × List (List α)
  | [] => (t, [])
  | c :: cs =>
    let (t, ran) := t.step c
    let (t, more) := t.run cs
    (t, ran :: more)

@[simp] theorem step_cancel_cancelled (t : Token α) : (t.step .cancel).1.cancelled = true := by
  cases h : t.cancelled <;> simp [step, h]

end Token

end Assay
