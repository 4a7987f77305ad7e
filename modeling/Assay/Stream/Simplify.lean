import Assay.Expr.Arithmetic
import Assay.Expr.Text
import Assay.Stream.Basic
import Assay.Entries
import Assay.Log

/-! One round of simplification: known constants are put in, operations on two numbers carried
out, and assignments dropped that nothing reads. A value found in this round is a known
constant in the next. Division by zero stays as it is and is reported. -/
namespace Assay

variable {ω : Type}

namespace Expr

def foldBinary (op : BinaryOp ω) (l r : Expr ω) : Expr ω :=
  match l, r with
  | .lit a, .lit b =>
    match op.eval a b with
    | .ok n => .lit n
    | .error _ => .binary op (.lit a) (.lit b)
  | l, r => .binary op l r

def fold (known : Entries Int) : Expr ω → Expr ω
  | .lit n => .lit n
  | .var x =>
    match known.get? x with
    | some n => .lit n
    | none => .var x
  | .read a i => .read a (i.fold known)
  | .binary op l r => foldBinary op (l.fold known) (r.fold known)
  | .unary op e => .unary op (e.fold known)
  | .stray s => .stray s

def binaryNotes (op : BinaryOp ω) (l r : Expr ω) : List (Except Error String) :=
  match l, r with
  | .lit a, .lit b =>
    match op.eval a b with
    | .ok _ => []
    | .error (.zeroDivision left text) =>
      [.ok ("not folding " ++ text ++ ": " ++ (Error.zeroDivision left text).message)]
    | .error e => [.error e]
  | _, _ => []

def foldNotes [Stray ω] (known : Entries Int) : Expr ω → List (Except Error String)
  | .lit _ | .var _ => []
  | .read _ i => i.foldNotes known
  | .binary op l r =>
    l.foldNotes known ++ r.foldNotes known ++ binaryNotes op (l.fold known) (r.fold known)
  | .unary _ e => e.foldNotes known
  | .stray s => [.error (unknownPart .optimize s)]

end Expr

namespace Instr

def fold (known : Entries Int) : Instr ω → Instr ω
  | .assign x e => .assign x (e.fold known)
  | .assert c path => .assert (c.fold known) (path.map (Expr.fold known))
  | .phi r xs guard => .phi r xs (guard.map (Expr.fold known))
  | .stray s => .stray s

def foldNotes [Stray ω] (known : Entries Int) : Instr ω → List (Except Error String)
  | .stray s => [.error (unknownPart .optimize s)]
  | i => i.exprs.flatMap (Expr.foldNotes known)

def constant? : Instr ω → Option (String × Int)
  | .assign x (.lit n) => some (x, n)
  | _ => none

def isDead (reads : List String) : Instr ω → Bool
  | .assign x _ => !reads.contains x
  | _ => false

end Instr

namespace Stream

/-- Symbols assigned a number; of several assignments the last counts. -/
def constants (s : Stream ω) : Entries Int :=
  (s.filterMap Instr.constant?).foldl (fun m c => m.put c.1 c.2) []

def folded (s : Stream ω) : Stream ω := s.map (Instr.fold (constants s))

def readSymbols (s : Stream ω) : List String := s.flatMap Instr.reads

def withoutDead (s : Stream ω) : Stream ω :=
  let reads := readSymbols s
  s.filter fun i => !i.isDead reads

def simplified (s : Stream ω) : Stream ω := withoutDead (folded s)

def simplify [Stray ω] (s : Stream ω) : Traced (Stream ω) := do
  (s.flatMap (Instr.foldNotes (constants s))).forM fun
    | .ok message => Traced.report .warning .optimizer message
    | .error e => throw e
  let result := simplified s
  Traced.report .debug .optimizer ("optimizer: " ++ toString (constants s).length ++
    " constants, " ++ toString s.length ++ " -> " ++ toString result.length ++ " instructions")
  return result

end Stream

end Assay
