import Assay.Program.Basic

/-! Bounded unrolling. A loop becomes `depth` nested copies of a branch that runs the body and
then the next copy; a `for` loop keeps its first part in front and its update at the end of
every copy. Runs that need more rounds continue behind the loop. -/
namespace Assay

variable {ω : Type}

def nest (cond : Expr ω) (body : List (Stmt ω)) : Nat → List (Stmt ω)
  | 0 => []
  | depth + 1 => [.branch cond (body ++ nest cond body depth) []]

namespace Stmt

mutual

def unroll (depth : Nat) : Stmt ω → List (Stmt ω)
  | .branch c t e => [.branch c (unrollAll depth t) (unrollAll depth e)]
  | .whileLoop c b => nest c (unrollAll depth b) depth
  | .forLoop i c u b => .assign i :: nest c (unrollAll depth b ++ [.assign u]) depth
  | .strayFor _ i c u b => i :: nest c (unrollAll depth b ++ [u]) depth
  | .assign a => [.assign a]
  | .assert c => [.assert c]
  | .stray s => [.stray s]

def unrollAll (depth : Nat) : List (Stmt ω) → List (Stmt ω)
  | [] => []
  | s :: rest => unroll depth s ++ unrollAll depth rest

end

mutual

/-- What unrolling has no rule for. It looks at statements only, and not at the first and last
part of a `for` loop. -/
def unrollFaults [Stray ω] : Stmt ω → List Error
  | .branch _ t e => unrollFaultsAll t ++ unrollFaultsAll e
  | .whileLoop _ b | .forLoop _ _ _ b | .strayFor _ _ _ _ b => unrollFaultsAll b
  | .assign _ | .assert _ => []
  | .stray s => [unknownPart .unroll s]

def unrollFaultsAll [Stray ω] : List (Stmt ω) → List Error
  | [] => []
  | s :: rest => unrollFaults s ++ unrollFaultsAll rest

end

end Stmt

def Program.unrolled (depth : Nat) (p : Program ω) : Program ω := Stmt.unrollAll depth p

def Program.unroll [Stray ω] (depth : Int) (p : Program ω) : Except Error (Program ω) := do
  if depth < 1 then throw (.depth depth)
  firstFault (Stmt.unrollFaultsAll p)
  return p.unrolled depth.toNat

end Assay
