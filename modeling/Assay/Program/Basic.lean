import Assay.Expr.Basic

/-! Programs: assignments, branches, loops and assertions. -/
namespace Assay

structure Assign (ω : Type) where
  target : String
  value : Expr ω
  deriving DecidableEq, Repr

/-- A `for` loop sets its counter, then runs its body and its update while the condition holds.
The last two forms stand only in trees built by hand: a `for` loop whose first or last part is
no assignment, and something that is no statement. -/
inductive Stmt (ω : Type) where
  | assign (a : Assign ω)
  | assert (cond : Expr ω)
  | branch (cond : Expr ω) (thenBody elseBody : List (Stmt ω))
  | whileLoop (cond : Expr ω) (body : List (Stmt ω))
  | forLoop (init : Assign ω) (cond : Expr ω) (update : Assign ω) (body : List (Stmt ω))
  | strayFor (mark : ω) (init : Stmt ω) (cond : Expr ω) (update : Stmt ω) (body : List (Stmt ω))
  | stray (part : ω)

abbrev Program (ω : Type) := List (Stmt ω)

end Assay
