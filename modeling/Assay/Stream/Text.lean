import Assay.Stream.Basic
import Assay.Program.Text

/-! Texts of streams. -/
namespace Assay

variable {ω : Type} [Stray ω]

namespace Instr

def toText : Instr ω → String
  | .assign x e => x ++ " = " ++ e.grouped
  | .assert c path =>
    "assert(" ++ c.grouped ++ ")" ++
      if path.isEmpty then "" else " if " ++ " && ".intercalate (path.map Expr.grouped)
  | .phi r xs guard =>
    r ++ " = φ(" ++ ", ".intercalate xs ++ ")" ++
      match guard with
      | none => ""
      | some g => " [" ++ g.grouped ++ "]"
  | .stray s => Stray.text s

def textFaults : Instr ω → List Error
  | .stray s => [unknownPart .format s]
  | i => i.exprs.flatMap Expr.groupedFaults

def write (i : Instr ω) : Except Error String := do
  firstFault i.textFaults
  return i.toText

def kind : Instr ω → String
  | .assign .. => "SAssign"
  | .assert .. => "SAssert"
  | .phi .. => "SPhi"
  | .stray s => Stray.kind s

def describe : Instr ω → String
  | .assign x e => "SAssign(target=" ++ Text.quoted x ++ ", value=" ++ e.describe ++ ")"
  | .assert c path =>
    "SAssert(cond=" ++ c.describe ++ ", path=" ++ tupleText (path.map Expr.describe) ++ ")"
  | .phi r xs guard =>
    "SPhi(result=" ++ Text.quoted r ++ ", operands=" ++ tupleText (xs.map Text.quoted) ++
      ", guard=" ++ (match guard with
        | none => "None"
        | some g => g.describe) ++ ")"
  | .stray s => Stray.text s

def isTooLong : Instr ω → Bool
  | .stray s => Stray.isTooLong s
  | i => i.exprs.any Expr.isTooLong

end Instr

namespace Stream

def writeLines (s : Stream ω) : Except Error (List String) := s.mapM Instr.write

def write (s : Stream ω) : Except Error String := do
  return "\n".intercalate (← writeLines s)

end Stream

end Assay
