import Assay.Smt.Script
import Assay.Expr.Text
import Assay.Stream.Interface
import Assay.Log

/-! Streams as constraint scripts. Comparisons and negation are formulas, all else is an integer
term, and each is coerced to the other where the context needs it. Division in a script rounds
toward the smaller side for a positive divisor, so the truncated quotient is rebuilt from it.

What an expression becomes does not depend on what was encoded before. What it needs, that is
the sorts of its symbols, is a list of demands in reading order; meeting them may fail, and what
was met before a failure stays. -/
namespace Assay

variable {ω : Type}

open Smt

namespace Smt

def one : Term ω := .numeral 1
def zero : Term ω := .numeral 0

def ofInt (n : Int) : Term ω := if 0 ≤ n then .numeral n.natAbs else .neg (.numeral n.natAbs)

/-- The quotient rounded toward zero. -/
def quotient (l r : Term ω) : Term ω :=
  .ite (.compare .ge l zero) (.div l r) (.neg (.div (.neg l) r))

def compute : Arithmetic → Term ω → Term ω → Term ω
  | .add, l, r => .add l r
  | .sub, l, r => .sub l r
  | .mul, l, r => .mul l r
  | .div, l, r => quotient l r
  | .mod, l, r => .sub l (.mul r (quotient l r))

end Smt

namespace Expr

mutual

def term : Expr ω → Term ω
  | .lit n => ofInt n
  | .var x => .symbol x
  | .read a i => .select a i.term
  | .binary (.compare c) l r => .ite (.compare c l.term r.term) one zero
  | .binary (.compute a) l r => compute a l.term r.term
  | .binary (.other m _) _ _ => .stray m
  | .unary .not e => .ite (.not e.formula) one zero
  | .unary (.other m _) _ => .stray m
  | .stray s => .stray s

def formula : Expr ω → Formula ω
  | .lit n => if n = 0 then .false else .true
  | .var x => .compare .ne (.symbol x) zero
  | .read a i => .compare .ne (.select a i.term) zero
  | .binary (.compare c) l r => .compare c l.term r.term
  | .binary (.compute a) l r => .compare .ne (compute a l.term r.term) zero
  | .binary (.other m _) _ _ => .stray m
  | .unary .not e => .not e.formula
  | .unary (.other m _) _ => .stray m
  | .stray s => .stray s

end

end Expr

/-- What encoding needs: a sort for a symbol, a nonlinear logic, or a rule that is missing. -/
inductive Demand (ω : Type) where
  | declare (symbol : String) (sort : VarSort ω)
  | nonlinear
  | fault (e : Error)

def needsNonlinear (op : Arithmetic) (l r : Expr ω) : Bool :=
  match op with
  | .mul => !l.isLit && !r.isLit
  | .div | .mod => !r.isLit
  | .add | .sub => false

namespace Expr

variable [Stray ω]

mutual

def termDemands : Expr ω → List (Demand ω)
  | .lit n => if Text.isTooLong n then [.fault .longWritten] else []
  | .var x => [.declare x .int]
  | .read a i => .declare a .array :: i.termDemands
  | .binary (.compare _) l r => l.termDemands ++ r.termDemands
  | .binary (.compute a) l r =>
    l.termDemands ++ r.termDemands ++ if needsNonlinear a l r then [.nonlinear] else []
  | .binary (.other m text) l r =>
    l.termDemands ++ r.termDemands ++
      [.fault (unknownAt .encode (.binary (.other m text) l r))]
  | .unary .not e => e.formulaDemands
  | .unary (.other m text) e => [.fault (unknownAt .encode (.unary (.other m text) e))]
  | .stray s => [.fault (unknownPart .encode s)]

def formulaDemands : Expr ω → List (Demand ω)
  | .lit _ => []
  | .var x => [.declare x .int]
  | .read a i => .declare a .array :: i.termDemands
  | .binary (.compare _) l r => l.termDemands ++ r.termDemands
  | .binary (.compute a) l r =>
    l.termDemands ++ r.termDemands ++ if needsNonlinear a l r then [.nonlinear] else []
  | .binary (.other m text) l r =>
    l.termDemands ++ r.termDemands ++
      [.fault (unknownAt .encode (.binary (.other m text) l r))]
  | .unary .not e => e.formulaDemands
  | .unary (.other m text) e => [.fault (unknownAt .encode (.unary (.other m text) e))]
  | .stray s => [.fault (unknownPart .encode s)]

end

end Expr

/-- A script under construction, the conditions that the assertions of the program put, and the
symbols known to be arrays. -/
structure Encoder (ω : Type) where
  script : Script ω
  conditions : List (Condition ω)
  arrays : List String

def Encoder.empty : Encoder ω := ⟨Script.empty, [], []⟩

abbrev Encoding (ω : Type) := ExceptT Error (StateM (Encoder ω))

namespace Encoding

variable [Stray ω]

omit [Stray ω] in
def ofExcept {α : Type} (r : Except Error α) : Encoding ω α := ExceptT.mk (pure r)

omit [Stray ω] in
def modifyScript (f : Script ω → Script ω) : Encoding ω Unit :=
  modify fun e => { e with script := f e.script }

def declare (symbol : String) (sort : VarSort ω) : Encoding ω Unit := do
  match (← get).script.declarations.get? symbol with
  | none =>
    modifyScript fun s => { s with declarations := s.declarations.put symbol sort }
  | some known =>
    if known.text != sort.text then throw (.sorts symbol known.text sort.text)

omit [Stray ω] in
def add (a : Assertion ω) : Encoding ω Unit := modifyScript fun s => s.add a

def meet : Demand ω → Encoding ω Unit
  | .declare symbol sort => declare symbol sort
  | .nonlinear => modifyScript fun s => { s with nonlinear := true }
  | .fault e => throw e

def term (e : Expr ω) : Encoding ω (Term ω) := do
  e.termDemands.forM meet
  return e.term

def formula (e : Expr ω) : Encoding ω (Formula ω) := do
  e.formulaDemands.forM meet
  return e.formula

def phi (result : String) (operands : List String) (guard : Option (Expr ω)) :
    Encoding ω Unit := do
  let sort : VarSort ω := if (← get).arrays.contains result then .array else .int
  declare result sort
  operands.forM fun x => declare x sort
  match operands, guard with
  | [a], _ => add (.copy sort result a)
  | [a, b], none => add (.either sort result a b)
  | [a, b], some g => add (.choose sort result (← formula g) a b)
  | _, _ => throw (.phiOperands result operands.length)

def instruction : Instr ω → Encoding ω Unit
  | .assign x e => do
    let value ← term e
    declare x .int
    add (.define x value)
  | .phi r xs g => phi r xs g
  | .assert c path => do
    let cond ← formula c
    let path ← path.mapM formula
    modify fun e => { e with conditions := e.conditions ++ [⟨cond, path⟩] }
  | .stray s => throw (unknownPart .encode s)

/-- Adds a stream. The arrays are found first: a phi may copy one before it is indexed. -/
def define (s : Stream ω) : Encoding ω Unit := do
  let arrays ← ofExcept (Stream.checkedArrays s)
  modify fun e => { e with arrays := Stream.addNames e.arrays arrays }
  s.forM instruction

def on {α : Type} (e : Encoder ω) (work : Encoding ω α) : Except Error α × Encoder ω :=
  Id.run (StateT.run (ExceptT.run work) e)

end Encoding

namespace Stream

variable [Stray ω]

/-- The script that has a model if and only if some assertion of the stream can fail. -/
def encoded (s : Stream ω) : Except Error (Script ω) :=
  match Encoding.on .empty (Encoding.define s) with
  | (.error e, _) => .error e
  | (.ok _, e) => .ok (e.script.add (.violated e.conditions))

def encode (s : Stream ω) : Traced (Script ω) := do
  let script ← Traced.ofExcept s.encoded
  Traced.report .debug .encoder ("verification script: " ++
    toString script.declarations.length ++ " declarations, " ++
    toString script.assertions.length ++ " assertions")
  return script

end Stream

end Assay
