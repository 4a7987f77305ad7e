/-! Symbolic expressions, the text form of constraint scripts. -/
namespace Assay

inductive Sexp where
  | atom (text : String)
  | list (items : List Sexp)

namespace Sexp

mutual

def toText : Sexp → String
  | .atom text => text
  | .list items => "(" ++ " ".intercalate (texts items) ++ ")"

def texts : List Sexp → List String
  | [] => []
  | s :: rest => s.toText :: texts rest

end

def app (head : String) (arguments : List Sexp) : Sexp := .list (.atom head :: arguments)

end Sexp

/-- The texts of several formulas joined by `and`; none is true, one stands alone. -/
def conjunctionText : List String → String
  | [] => "true"
  | [f] => f
  | fs => "(and " ++ " ".intercalate fs ++ ")"

def Sexp.conjunction : List Sexp → Sexp
  | [] => .atom "true"
  | [f] => f
  | fs => .app "and" fs

end Assay
