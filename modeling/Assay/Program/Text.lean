import Assay.Program.Basic
import Assay.Expr.Text

/-! Texts of programs: one-line headers, the indented outline, and constructors. -/
namespace Assay

variable {ω : Type} [Stray ω]

def Assign.header (a : Assign ω) : String := a.target ++ " := " ++ a.value.source

def Assign.describe (a : Assign ω) : String :=
  "Assignment(target=" ++ Text.quoted a.target ++ ", value=" ++ a.value.describe ++ ")"

namespace Stmt

def forHeader (init : String) (cond : Expr ω) (update : String) : String :=
  "For (" ++ init ++ "; " ++ cond.source ++ "; " ++ update ++ ")"

def header? : Stmt ω → Option String
  | .assign a => some a.header
  | .assert c => some ("Assert (" ++ c.source ++ ")")
  | .branch c _ _ => some ("If (" ++ c.source ++ ")")
  | .whileLoop c _ => some ("While (" ++ c.source ++ ")")
  | .forLoop i c u _ => some (forHeader i.header c u.header)
  | .strayFor _ i c u _ => some (forHeader (i.header?.getD "None") c (u.header?.getD "None"))
  | .stray _ => none

def headerTooLong : Stmt ω → Bool
  | .assign a => a.value.sourceTooLong
  | .assert c | .branch c _ _ | .whileLoop c _ => c.sourceTooLong
  | .forLoop i c u _ => i.value.sourceTooLong || c.sourceTooLong || u.value.sourceTooLong
  | .strayFor _ i c u _ => i.headerTooLong || c.sourceTooLong || u.headerTooLong
  | .stray _ => false

def writeHeader? (s : Stmt ω) : Except Error (Option String) :=
  if s.headerTooLong then .error .longWritten else .ok s.header?

def outlineLine (indent : String) (depth : Nat) (s : Stmt ω) : Except Error String := do
  match ← s.writeHeader? with
  | none => .error .noHeader
  | some h => .ok (String.join (List.replicate depth indent) ++ h)

mutual

/-- The lines of a statement and its bodies. An empty `else` is not shown. -/
def outline (indent : String) (depth : Nat) : Stmt ω → List (Except Error String)
  | .branch c t e =>
    outlineLine indent depth (.branch c t e) :: (outlineAll indent (depth + 1) t ++
      if e.isEmpty then []
      else .ok (String.join (List.replicate depth indent) ++ "Else") ::
        outlineAll indent (depth + 1) e)
  | .whileLoop c b => outlineLine indent depth (.whileLoop c b) :: outlineAll indent (depth + 1) b
  | .forLoop i c u b =>
    outlineLine indent depth (.forLoop i c u b) :: outlineAll indent (depth + 1) b
  | .strayFor m i c u b =>
    outlineLine indent depth (.strayFor m i c u b) :: outlineAll indent (depth + 1) b
  | .assign a => [outlineLine indent depth (.assign a)]
  | .assert c => [outlineLine indent depth (.assert c)]
  | .stray s => [outlineLine indent depth (.stray s)]

def outlineAll (indent : String) (depth : Nat) : List (Stmt ω) → List (Except Error String)
  | [] => []
  | s :: rest => outline indent depth s ++ outlineAll indent depth rest

end

def kind : Stmt ω → String
  | .assign _ => "Assignment"
  | .assert _ => "Assert"
  | .branch .. => "If"
  | .whileLoop .. => "While"
  | .forLoop .. | .strayFor .. => "For"
  | .stray s => Stray.kind s

end Stmt

/-- Members between parentheses; a single member is followed by a comma. -/
def tupleText : List String → String
  | [] => "()"
  | [s] => "(" ++ s ++ ",)"
  | items => "(" ++ ", ".intercalate items ++ ")"

namespace Stmt

mutual

def describe : Stmt ω → String
  | .assign a => a.describe
  | .assert c => "Assert(cond=" ++ c.describe ++ ")"
  | .branch c t e =>
    "If(cond=" ++ c.describe ++ ", then_body=" ++ tupleText (describeAll t) ++
      ", else_body=" ++ tupleText (describeAll e) ++ ")"
  | .whileLoop c b => "While(cond=" ++ c.describe ++ ", body=" ++ tupleText (describeAll b) ++ ")"
  | .forLoop i c u b =>
    "For(init=" ++ i.describe ++ ", cond=" ++ c.describe ++ ", update=" ++ u.describe ++
      ", body=" ++ tupleText (describeAll b) ++ ")"
  | .strayFor _ i c u b =>
    "For(init=" ++ describe i ++ ", cond=" ++ c.describe ++ ", update=" ++ describe u ++
      ", body=" ++ tupleText (describeAll b) ++ ")"
  | .stray s => Stray.text s

def describeAll : List (Stmt ω) → List String
  | [] => []
  | s :: rest => describe s :: describeAll rest

end

mutual

def isTooLong : Stmt ω → Bool
  | .assign a => a.value.isTooLong
  | .assert c => c.isTooLong
  | .branch c t e => c.isTooLong || anyTooLong t || anyTooLong e
  | .whileLoop c b => c.isTooLong || anyTooLong b
  | .forLoop i c u b => i.value.isTooLong || c.isTooLong || u.value.isTooLong || anyTooLong b
  | .strayFor _ i c u b => isTooLong i || c.isTooLong || isTooLong u || anyTooLong b
  | .stray s => Stray.isTooLong s

def anyTooLong : List (Stmt ω) → Bool
  | [] => false
  | s :: rest => isTooLong s || anyTooLong rest

end

end Stmt

def Program.outline (p : Program ω) (indent : String) : Except Error String := do
  let lines ← (Stmt.outlineAll indent 0 p).mapM id
  return "\n".intercalate lines

end Assay
