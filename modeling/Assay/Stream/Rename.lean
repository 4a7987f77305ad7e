import Assay.Stream.Basic

/-! A suffix on every symbol of a stream, to keep two streams apart. -/
namespace Assay

variable {ω : Type}

def Instr.mapNames (f : String → String) : Instr ω → Instr ω
  | .assign x e => .assign (f x) (e.mapNames f)
  | .assert c path => .assert (c.mapNames f) (path.map (Expr.mapNames f))
  | .phi r xs guard => .phi (f r) (xs.map f) (guard.map (Expr.mapNames f))
  | .stray s => .stray s

namespace Stream

def renamed (suffix : String) (s : Stream ω) : Stream ω := s.map (Instr.mapNames (· ++ suffix))

def rename [Stray ω] (suffix : String) (s : Stream ω) : Except Error (Stream ω) := do
  firstFault (s.flatMap (Instr.unknowns .rename))
  return renamed suffix s

end Stream

end Assay
