import Assay.Expr.Basic
import Assay.Entries
import Assay.Smt.Sexp

/-! Constraint scripts over integers and integer arrays: declared symbols and assertions. Terms
are of integer sort and formulas are true or false; an assertion says what it is for. -/
namespace Assay.Smt

inductive VarSort (ω : Type) where
  | int
  | array
  | stray (part : ω)

mutual

inductive Term (ω : Type) where
  | numeral (n : Nat)
  | symbol (s : String)
  | select (array : String) (index : Term ω)
  | neg (t : Term ω)
  | add (l r : Term ω)
  | sub (l r : Term ω)
  | mul (l r : Term ω)
  | div (l r : Term ω)
  | ite (cond : Formula ω) (yes no : Term ω)
  | stray (part : ω)

inductive Formula (ω : Type) where
  | true
  | false
  | compare (op : Comparison) (l r : Term ω)
  | not (f : Formula ω)
  | stray (part : ω)

end

/-- An assertion of the program: `cond` holds where all of `path` does. -/
structure Condition (ω : Type) where
  cond : Formula ω
  path : List (Formula ω)

/-- Assertions of a script. The first four define a symbol; `sort` is that of the symbols. -/
inductive Assertion (ω : Type) where
  | define (symbol : String) (value : Term ω)
  | copy (sort : VarSort ω) (symbol operand : String)
  | choose (sort : VarSort ω) (symbol : String) (guard : Formula ω) (yes no : String)
  | either (sort : VarSort ω) (symbol first second : String)
  | tie (sort : VarSort ω) (first second : String)
  | assume (c : Condition ω)
  | violated (conditions : List (Condition ω))
  | differ (pairs : List (String × String))
  | stray (part : ω)

structure Script (ω : Type) where
  declarations : Entries (VarSort ω)
  assertions : List (Assertion ω)
  nonlinear : Bool

variable {ω : Type} [Stray ω]

def VarSort.text : VarSort ω → String
  | .int => "Int"
  | .array => "(Array Int Int)"
  | .stray s => Stray.text s

def relation : Comparison → String
  | .eq => "="
  | .ne => "distinct"
  | .le => "<="
  | .ge => ">="
  | .lt => "<"
  | .gt => ">"

mutual

def Term.sexp : Term ω → Sexp
  | .numeral n => .atom (toString n)
  | .symbol s => .atom s
  | .select a i => .app "select" [.atom a, i.sexp]
  | .neg t => .app "-" [t.sexp]
  | .add l r => .app "+" [l.sexp, r.sexp]
  | .sub l r => .app "-" [l.sexp, r.sexp]
  | .mul l r => .app "*" [l.sexp, r.sexp]
  | .div l r => .app "div" [l.sexp, r.sexp]
  | .ite c t e => .app "ite" [c.sexp, t.sexp, e.sexp]
  | .stray s => .atom (Stray.text s)

def Formula.sexp : Formula ω → Sexp
  | .true => .atom "true"
  | .false => .atom "false"
  | .compare op l r => .app (relation op) [l.sexp, r.sexp]
  | .not f => .app "not" [f.sexp]
  | .stray s => .atom (Stray.text s)

end

def Condition.sexp (c : Condition ω) : Sexp :=
  if c.path.isEmpty then c.cond.sexp
  else .app "=>" [.conjunction (c.path.map Formula.sexp), c.cond.sexp]

def equation (a b : String) : Sexp := .app "=" [.atom a, .atom b]

/-- Not all of the formulas hold; of none, all do. -/
def refuted (formulas : List Sexp) : Sexp :=
  if formulas.isEmpty then .atom "false" else .app "not" [.conjunction formulas]

def Assertion.sexp : Assertion ω → Sexp
  | .define s t => .app "=" [.atom s, t.sexp]
  | .copy _ s a => equation s a
  | .choose _ s g a b => .app "=" [.atom s, .app "ite" [g.sexp, .atom a, .atom b]]
  | .either _ s a b => .app "or" [equation s a, equation s b]
  | .tie _ a b => equation a b
  | .assume c => c.sexp
  | .violated cs => refuted (cs.map Condition.sexp)
  | .differ ps => refuted (ps.map fun p => equation p.1 p.2)
  | .stray s => .atom (Stray.text s)

namespace Script

def empty : Script ω := ⟨[], [], false⟩

omit [Stray ω] in
def hasArrays (s : Script ω) : Bool :=
  s.declarations.any fun
    | (_, .array) => true
    | _ => false

omit [Stray ω] in
def logic (s : Script ω) : String :=
  "QF_" ++ (if s.hasArrays then "A" else "") ++ (if s.nonlinear then "NIA" else "LIA")

omit [Stray ω] in
def add (s : Script ω) (a : Assertion ω) : Script ω := { s with assertions := s.assertions ++ [a] }

def assertionTexts (s : Script ω) : List String := s.assertions.map fun a => a.sexp.toText

def bareLines (s : Script ω) : List String :=
  s.declarations.map (fun d => "(declare-const " ++ d.1 ++ " " ++ d.2.text ++ ")") ++
    s.assertionTexts.map fun f => "(assert " ++ f ++ ")"

def bareText (s : Script ω) : String := "\n".intercalate s.bareLines ++ "\n"

def toText (s : Script ω) : String :=
  "\n".intercalate (["(set-logic " ++ s.logic ++ ")"] ++ s.bareLines ++
    ["(check-sat)", "(get-model)"]) ++ "\n"

end Script

end Assay.Smt
