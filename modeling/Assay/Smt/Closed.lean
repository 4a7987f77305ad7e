import Assay.Expr.Arithmetic
import Assay.Smt.Script
import Assay.Solver

/-! Closed questions: every symbol has one definition over symbols defined before it, so there is
one candidate for a model. Quotients by zero, array reads and free symbols have no value here. -/
namespace Assay.Smt

mutual

def Term.value? (known : Entries Int) : Term Empty → Option Int
  | .numeral n => some n
  | .symbol s => known.get? s
  | .select _ _ => none
  | .neg t => (t.value? known).map fun n => -n
  | .add l r => do return (← l.value? known) + (← r.value? known)
  | .sub l r => do return (← l.value? known) - (← r.value? known)
  | .mul l r => do return (← l.value? known) * (← r.value? known)
  | .div l r => do
    let a ← l.value? known
    let b ← r.value? known
    if b = 0 then none else some (a / b)
  | .ite c t e => do if ← c.value? known then t.value? known else e.value? known

def Formula.value? (known : Entries Int) : Formula Empty → Option Bool
  | .true => some true
  | .false => some false
  | .compare op l r => do return op.holds (← l.value? known) (← r.value? known)
  | .not f => (f.value? known).map fun b => !b

end

def Condition.value? (known : Entries Int) (c : Condition Empty) : Option Bool := do
  let path ← c.path.mapM (Formula.value? known)
  let cond ← c.cond.value? known
  return !path.all id || cond

def equal? (known : Entries Int) (a b : String) : Option Bool := do
  return (← known.get? a) == (← known.get? b)

def Assertion.value? (known : Entries Int) : Assertion Empty → Option Bool
  | .define s t => do return (← known.get? s) == (← t.value? known)
  | .copy _ s a => equal? known s a
  | .choose _ s g a b => do equal? known s (if ← g.value? known then a else b)
  | .either _ s a b => do return (← equal? known s a) || (← equal? known s b)
  | .tie _ a b => equal? known a b
  | .assume c => c.value? known
  | .violated cs => do return (← cs.mapM (Condition.value? known)).any fun b => !b
  | .differ ps => do return (← ps.mapM fun p => equal? known p.1 p.2).any fun b => !b

def Assertion.settle (known : Entries Int) : Assertion Empty → Option (Entries Int)
  | .define s t => do return known.putNew s (← t.value? known)
  | .copy _ s a => do return known.putNew s (← known.get? a)
  | .choose _ s g a b => do
    return known.putNew s (← known.get? (if ← g.value? known then a else b))
  | _ => some known

namespace Script

def isRefuted (s : Script Empty) : Bool := s.assertions.any fun a => a.value? [] == some false

/-- The only candidate for a model, where the definitions leave one. -/
def candidate? (s : Script Empty) : Option (Entries Int) := do
  let known ← s.assertions.foldlM Assertion.settle []
  if s.declarations.all fun d => Entries.has d.1 known then some known else none

def decideClosed (s : Script Empty) : Option (Option (Entries Int)) :=
  if s.isRefuted then some none
  else do
    let known ← s.candidate?
    let verdicts ← s.assertions.mapM (Assertion.value? known)
    return if verdicts.all id then
      some (s.declarations.map fun d => (d.1, (known.get? d.1).getD 0))
    else none

end Script

end Assay.Smt

namespace Assay

/-- A model with its symbols in order. Numbers have to be short enough to be read back. -/
def modelOf (values : Entries Int) : Except Error Model := do
  values.forM fun v =>
    if Text.isTooLong v.2 then throw (.longRead (toString v.2.natAbs).length) else pure ()
  return (values.mergeSort fun a b => a.1 ≤ b.1).map fun v => (v.1, .int v.2)

/-- Decides closed questions, and has no answer to the others. -/
def closedSolver : Solver := fun script cancelled =>
  if cancelled then .ok .cancelled
  else
    match script.decideClosed with
    | none => .ok (.unknown "open question")
    | some none => .ok .unsat
    | some (some values) => do
      let model ← modelOf values
      return ⟨.sat, some model, [model], ""⟩

end Assay
