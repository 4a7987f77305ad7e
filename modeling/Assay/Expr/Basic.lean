import Assay.Error

/-! Expressions of the mini language: integers, names, array reads, binary and unary
operators. The same trees stand in single-assignment streams, where names carry a version.

A tree built by hand may hold parts that the language does not have. They are of a type `ω`
that every tree type takes as a parameter; the trees of a program text hold none, and over
`Empty` there are none. -/
namespace Assay

/-- What messages say about a part outside the language: its kind, its text, and whether that
text would hold a number too long to be written. -/
class Stray (ω : Type) where
  kind : ω → String
  text : ω → String
  isTooLong : ω → Bool

instance : Stray Empty := ⟨Empty.elim, Empty.elim, Empty.elim⟩

inductive Comparison where
  | eq
  | ne
  | le
  | ge
  | lt
  | gt
  deriving DecidableEq, Repr

inductive Arithmetic where
  | add
  | sub
  | mul
  | div
  | mod
  deriving DecidableEq, Repr

inductive BinaryOp (ω : Type) where
  | compare (op : Comparison)
  | compute (op : Arithmetic)
  | other (mark : ω) (text : String)
  deriving DecidableEq, Repr

inductive UnaryOp (ω : Type) where
  | not
  | other (mark : ω) (text : String)
  deriving DecidableEq, Repr

inductive Expr (ω : Type) where
  | lit (value : Int)
  | var (name : String)
  | read (array : String) (index : Expr ω)
  | binary (op : BinaryOp ω) (left right : Expr ω)
  | unary (op : UnaryOp ω) (operand : Expr ω)
  | stray (part : ω)
  deriving DecidableEq, Repr

def Comparison.text : Comparison → String
  | .eq => "=="
  | .ne => "!="
  | .le => "<="
  | .ge => ">="
  | .lt => "<"
  | .gt => ">"

def Arithmetic.text : Arithmetic → String
  | .add => "+"
  | .sub => "-"
  | .mul => "*"
  | .div => "/"
  | .mod => "%"

variable {ω : Type}

def BinaryOp.text : BinaryOp ω → String
  | .compare op => op.text
  | .compute op => op.text
  | .other _ text => text

def UnaryOp.text : UnaryOp ω → String
  | .not => "!"
  | .other _ text => text

/-- The operators in the order in which a text is searched for them, lowest binding first. -/
def BinaryOp.all : List (BinaryOp ω) :=
  [.compare .eq, .compare .ne, .compare .le, .compare .ge, .compare .lt, .compare .gt,
    .compute .add, .compute .sub, .compute .mul, .compute .div, .compute .mod]

def BinaryOp.ofText? (text : String) : Option (BinaryOp ω) :=
  BinaryOp.all.find? fun op => op.text == text

namespace Expr

/-- What stands at the ends of an expression, in reading order. -/
inductive Leaf (ω : Type) where
  | number (value : Int)
  | name (name : String)
  | array (name : String)
  | stray (part : ω)

def leaves : Expr ω → List (Leaf ω)
  | .lit n => [.number n]
  | .var x => [.name x]
  | .read a i => .array a :: i.leaves
  | .binary _ l r => l.leaves ++ r.leaves
  | .unary _ e => e.leaves
  | .stray s => [.stray s]

def Leaf.name? : Leaf ω → Option String
  | .name x => some x
  | .array a => some a
  | .number _ => none
  | .stray _ => none

/-- The names read, arrays included, in reading order and as often as they are read. -/
def names (e : Expr ω) : List String := e.leaves.filterMap Leaf.name?

def indexed (e : Expr ω) : List String :=
  e.leaves.filterMap fun
    | .array a => some a
    | _ => none

def nodes : Expr ω → List (Expr ω)
  | .read a i => .read a i :: i.nodes
  | .binary op l r => .binary op l r :: (l.nodes ++ r.nodes)
  | .unary op e => .unary op e :: e.nodes
  | e => [e]

def isLit : Expr ω → Bool
  | .lit _ => true
  | _ => false

def not (e : Expr ω) : Expr ω := .unary .not e

def mapNames (f : String → String) : Expr ω → Expr ω
  | .lit n => .lit n
  | .var x => .var (f x)
  | .read a i => .read (f a) (i.mapNames f)
  | .binary op l r => .binary op (l.mapNames f) (r.mapNames f)
  | .unary op e => .unary op (e.mapNames f)
  | .stray s => .stray s

theorem names_mapNames (f : String → String) (e : Expr ω) :
    (e.mapNames f).names = e.names.map f := by
  unfold names
  induction e with
  | lit n => rfl
  | var x => rfl
  | read a i ih => simpa [mapNames, leaves, Leaf.name?] using ih
  | binary op l r left right => simp [mapNames, leaves, left, right]
  | unary op e ih => simpa [mapNames, leaves] using ih
  | stray part => rfl

end Expr

def unknownPart [Stray ω] (stage : Stage) (part : ω) : Error :=
  if Stray.isTooLong part then .longWritten
  else .unknown stage (Stray.kind part) (Stray.text part)

def Expr.Leaf.unknown? [Stray ω] (stage : Stage) : Expr.Leaf ω → Option Error
  | .stray s => some (unknownPart stage s)
  | _ => none

def Expr.unknowns [Stray ω] (stage : Stage) (e : Expr ω) : List Error :=
  e.leaves.filterMap (Expr.Leaf.unknown? stage)

end Assay
