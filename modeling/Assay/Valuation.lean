import Assay.Expr.Arithmetic

/-! Values of names: an integer and a total array for each. Division by zero has a value too,
which a valuation gives for every dividend. -/
namespace Assay

structure Valuation where
  int : String → Int
  array : String → Int → Int
  byZero : Int → Int

namespace Valuation

def set (v : Valuation) (name : String) (n : Int) : Valuation :=
  { v with int := fun x => if x = name then n else v.int x }

@[simp] theorem int_set (v : Valuation) (name x : String) (n : Int) :
    (v.set name n).int x = if x = name then n else v.int x := rfl

@[simp] theorem array_set (v : Valuation) (name : String) (n : Int) :
    (v.set name n).array = v.array := rfl

@[simp] theorem byZero_set (v : Valuation) (name : String) (n : Int) :
    (v.set name n).byZero = v.byZero := rfl

/-- A negative dividend gives the opposite of what its opposite gives. -/
def quotientByZero (v : Valuation) (n : Int) : Int := if 0 ≤ n then v.byZero n else -v.byZero (-n)

def compute (v : Valuation) (op : Arithmetic) (l r : Int) : Int :=
  match op.eval? l r with
  | some n => n
  | none =>
    match op with
    | .div => v.quotientByZero l
    | _ => l

end Valuation

namespace Expr

/-- The value of an expression; a comparison or negation is 1 or 0. -/
def eval (v : Valuation) : Expr Empty → Int
  | .lit n => n
  | .var x => v.int x
  | .read a i => v.array a (i.eval v)
  | .binary (.compare c) l r => truth (c.holds (l.eval v) (r.eval v))
  | .binary (.compute op) l r => v.compute op (l.eval v) (r.eval v)
  | .unary .not e => truth (e.eval v = 0)

def holds (v : Valuation) (e : Expr Empty) : Bool := e.eval v != 0

end Expr

end Assay
