import Assay.Expr.Basic

/-! Single-assignment streams. A phi takes one of its operands: by its guard, or, without a
guard, at the entry of a loop, where the second operand comes from the end of the body. An
assertion holds along its path, the guards around it from the outermost on. -/
namespace Assay

inductive Instr (ω : Type) where
  | assign (target : String) (value : Expr ω)
  | assert (cond : Expr ω) (path : List (Expr ω))
  | phi (result : String) (operands : List String) (guard : Option (Expr ω))
  | stray (part : ω)
  deriving DecidableEq, Repr

abbrev Stream (ω : Type) := List (Instr ω)

namespace Instr

variable {ω : Type}

def defined? : Instr ω → Option String
  | .assign x _ => some x
  | .phi r _ _ => some r
  | .assert .. | .stray _ => none

def isAssign : Instr ω → Bool
  | .assign .. => true
  | _ => false

def exprs : Instr ω → List (Expr ω)
  | .assign _ e => [e]
  | .assert c path => c :: path
  | .phi _ _ guard => guard.toList
  | .stray _ => []

def operands : Instr ω → List String
  | .phi _ xs _ => xs
  | _ => []

def reads (i : Instr ω) : List String := i.operands ++ i.exprs.flatMap Expr.names

def unknowns [Stray ω] (stage : Stage) : Instr ω → List Error
  | .stray s => [unknownPart stage s]
  | i => i.exprs.flatMap (Expr.unknowns stage)

/-- Only instructions that are none, with the parts of the others left alone. -/
def strays [Stray ω] (stage : Stage) : Instr ω → List Error
  | .stray s => [unknownPart stage s]
  | _ => []

end Instr

end Assay
