import Assay.Smt.Script
import Assay.Valuation

/-! What scripts mean under a valuation of their symbols. A quotient by zero is the valuation's
choice; all others leave a remainder that is not negative. -/
namespace Assay.Smt

def divide (v : Valuation) (a b : Int) : Int := if b = 0 then v.byZero a else a / b

mutual

def Term.eval (v : Valuation) : Term Empty → Int
  | .numeral n => n
  | .symbol s => v.int s
  | .select a i => v.array a (i.eval v)
  | .neg t => -t.eval v
  | .add l r => l.eval v + r.eval v
  | .sub l r => l.eval v - r.eval v
  | .mul l r => l.eval v * r.eval v
  | .div l r => divide v (l.eval v) (r.eval v)
  | .ite c t e => if c.eval v then t.eval v else e.eval v

def Formula.eval (v : Valuation) : Formula Empty → Bool
  | .true => true
  | .false => false
  | .compare op l r => op.holds (l.eval v) (r.eval v)
  | .not f => !f.eval v

end

def Condition.eval (v : Valuation) (c : Condition Empty) : Bool :=
  !c.path.all (Formula.eval v) || c.cond.eval v

def Agrees (v : Valuation) : VarSort Empty → String → String → Prop
  | .int, a, b => v.int a = v.int b
  | .array, a, b => v.array a = v.array b

def Assertion.Holds (v : Valuation) : Assertion Empty → Prop
  | .define s t => v.int s = t.eval v
  | .copy sort s a => Agrees v sort s a
  | .choose sort s g a b => Agrees v sort s (if g.eval v then a else b)
  | .either sort s a b => Agrees v sort s a ∨ Agrees v sort s b
  | .tie sort a b => Agrees v sort a b
  | .assume c => c.eval v = true
  | .violated cs => ∃ c ∈ cs, c.eval v = false
  | .differ ps => ∃ p ∈ ps, v.int p.1 ≠ v.int p.2

def Script.Models (v : Valuation) (s : Script Empty) : Prop := ∀ a ∈ s.assertions, a.Holds v

def Script.Satisfiable (s : Script Empty) : Prop := ∃ v, s.Models v

end Assay.Smt
