import Assay.Expr.Basic

/-! Arithmetic of the language on integers of any size. Division goes toward zero and the
remainder has the sign of the dividend; a comparison is 1 or 0. -/
namespace Assay

def truth (b : Bool) : Int := if b then 1 else 0

def Comparison.holds : Comparison → Int → Int → Bool
  | .eq, l, r => l == r
  | .ne, l, r => l != r
  | .le, l, r => l ≤ r
  | .ge, l, r => r ≤ l
  | .lt, l, r => l < r
  | .gt, l, r => r < l

/-- No value for a zero divisor. -/
def Arithmetic.eval? : Arithmetic → Int → Int → Option Int
  | .add, l, r => some (l + r)
  | .sub, l, r => some (l - r)
  | .mul, l, r => some (l * r)
  | .div, l, r => if r = 0 then none else some (l.tdiv r)
  | .mod, l, r => if r = 0 then none else some (l.tmod r)

variable {ω : Type}

def zeroDivisor (op : Arithmetic) (left : Int) : Error :=
  if Text.isTooLong left then .longWritten else .zeroDivision left op.text

def BinaryOp.eval (op : BinaryOp ω) (left right : Int) : Except Error Int :=
  match op with
  | .compare c => .ok (truth (c.holds left right))
  | .compute a =>
    match a.eval? left right with
    | some n => .ok n
    | none => .error (zeroDivisor a left)
  | .other _ text => .error (.unknown .evaluate "str" (Text.quoted text))

end Assay
