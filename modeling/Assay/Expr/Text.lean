import Assay.Expr.Basic

/-! Texts of expressions: as a program has them, with grouping, and by constructors. -/
namespace Assay.Expr

variable {ω : Type} [Stray ω]

/-- Source form. No parentheses are added, as the language has none. -/
def source : Expr ω → String
  | .lit n => toString n
  | .var x => x
  | .read a i => a ++ "[" ++ i.source ++ "]"
  | .binary op l r => l.source ++ " " ++ op.text ++ " " ++ r.source
  | .unary op e => op.text ++ e.source
  | .stray s => Stray.kind s

/-- The form used in streams, with parentheses around every binary operation. -/
def grouped : Expr ω → String
  | .lit n => toString n
  | .var x => x
  | .read a i => a ++ "[" ++ i.grouped ++ "]"
  | .binary op l r => "(" ++ l.grouped ++ " " ++ op.text ++ " " ++ r.grouped ++ ")"
  | .unary op e => op.text ++ e.grouped
  | .stray s => Stray.text s

def kind : Expr ω → String
  | .lit _ => "Literal"
  | .var _ => "Variable"
  | .read .. => "ArrayAccess"
  | .binary .. => "BinaryOp"
  | .unary .. => "UnaryOp"
  | .stray s => Stray.kind s

def describe : Expr ω → String
  | .lit n => "Literal(value=" ++ toString n ++ ")"
  | .var x => "Variable(name=" ++ Text.quoted x ++ ")"
  | .read a i => "ArrayAccess(array=" ++ Text.quoted a ++ ", index=" ++ i.describe ++ ")"
  | .binary op l r =>
    "BinaryOp(op=" ++ Text.quoted op.text ++ ", left=" ++ l.describe ++ ", right=" ++
      r.describe ++ ")"
  | .unary op e => "UnaryOp(op=" ++ Text.quoted op.text ++ ", operand=" ++ e.describe ++ ")"
  | .stray s => Stray.text s

def isTooLong (e : Expr ω) : Bool :=
  e.leaves.any fun
    | .number n => Text.isTooLong n
    | .stray s => Stray.isTooLong s
    | _ => false

/-- The source text would. A part outside the language shows only its kind there. -/
def sourceTooLong (e : Expr ω) : Bool :=
  e.leaves.any fun
    | .number n => Text.isTooLong n
    | _ => false

def writeSource (e : Expr ω) : Except Error String :=
  if e.sourceTooLong then .error .longWritten else .ok e.source

def groupedFaults (e : Expr ω) : List Error :=
  e.leaves.filterMap fun
    | .number n => if Text.isTooLong n then some .longWritten else none
    | .stray s => some (unknownPart .format s)
    | _ => none

def writeGrouped (e : Expr ω) : Except Error String := do
  firstFault e.groupedFaults
  return e.grouped

def unknownAt (stage : Stage) (e : Expr ω) : Error :=
  if e.isTooLong then .longWritten else .unknown stage e.kind e.describe

end Assay.Expr
