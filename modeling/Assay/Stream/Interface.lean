import Assay.Stream.Basic
import Assay.Stream.Symbol
import Assay.Entries

/-! What a stream shows to the outside: the arrays it indexes, the outputs it assigns and the
inputs it reads. -/
namespace Assay.Stream

variable {ω : Type}

def phiGroups (s : Stream ω) : List (List String) :=
  s.filterMap fun
    | .phi r xs _ => some (r :: xs)
    | _ => none

def addNames (known : List String) (names : List String) : List String :=
  names.foldl (fun k n => if k.contains n then k else k ++ [n]) known

/-- A group with one array among its names consists of arrays. -/
def spread (groups : List (List String)) (arrays : List String) : List String :=
  groups.foldl (fun a g => if g.any a.contains then addNames a g else a) arrays

/-- Each further round fills at least one more group, so as many rounds as groups are enough. -/
def closeOver (groups : List (List String)) : Nat → List String → List String
  | 0, arrays => arrays
  | n + 1, arrays => closeOver groups n (spread groups arrays)

def indexedSymbols (s : Stream ω) : List String :=
  addNames [] (s.flatMap fun i => i.exprs.flatMap Expr.indexed)

/-- The symbols that are arrays: those indexed somewhere, and those that a phi ties to one. -/
def arrays (s : Stream ω) : List String :=
  closeOver (phiGroups s) (phiGroups s).length (indexedSymbols s)

def checkedArrays [Stray ω] (s : Stream ω) : Except Error (List String) := do
  firstFault (s.flatMap (Instr.strays .encode))
  return arrays s

structure Outputs where
  assigned : List String
  last : Entries String

def Outputs.step (o : Outputs) (i : Instr ω) : Except Error Outputs :=
  match i.defined? with
  | none => .ok o
  | some s => do
    let (name, _) ← splitSymbol s
    return ⟨if i.isAssign then addNames o.assigned [name] else o.assigned, o.last.put name s⟩

/-- Names with an assignment, in the order of their first one, with their last definition. -/
def outputs (s : Stream ω) : Except Error (Entries String) := do
  let o ← s.foldlM Outputs.step ⟨[], []⟩
  return o.assigned.map fun n => (n, (o.last.get? n).getD "")

def inputStep (inputs : Entries String) (s : String) : Except Error (Entries String) := do
  let (name, version) ← splitSymbol s
  return if version = 0 then inputs.putNew name s else inputs

def inputs [Stray ω] (s : Stream ω) : Except Error (Entries String) := do
  firstFault (s.flatMap (Instr.strays .encode))
  (s.flatMap Instr.reads).foldlM inputStep []

end Assay.Stream
