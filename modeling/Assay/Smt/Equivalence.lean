import Assay.Smt.Encoder
import Assay.Stream.Rename

/-! The script that has a model if and only if two streams, started on one input, pass all their
assertions and leave different outputs. The second stream is renamed. -/
namespace Assay

open Smt

variable {ω : Type} [Stray ω]

structure OutputPair where
  name : String
  first : String
  second : String

structure Comparing (ω : Type) where
  script : Script ω
  pairs : List OutputPair
  shared : List String

omit [Stray ω] in
def sameNames (first second : Entries String) : Bool :=
  first.length == second.length && first.all fun e => second.has e.1

/-- Sort under which both symbols are declared, if they agree; none declared is agreement too. -/
def commonSort? (declarations : Entries (VarSort ω)) (a b : String) : Option (VarSort ω) :=
  match declarations.get? a, declarations.get? b with
  | none, none => some .int
  | some s, some t => if s.text = t.text then some s else none
  | _, _ => none

def tieInput (suffix : String) (inputs : Entries String) (state : Script ω × List String)
    (input : String × String) : Script ω × List String :=
  match inputs.get? input.1 with
  | none => state
  | some s =>
    let other := s ++ suffix
    match commonSort? state.1.declarations input.2 other with
    | none => state
    | some sort => (state.1.add (.tie sort input.2 other), state.2 ++ [input.1])

def outputPairs (suffix : String) (first second : Entries String) : List OutputPair :=
  first.map fun e => ⟨e.1, e.2, (second.get? e.1).getD "" ++ suffix⟩

def compareStreams (first second : Stream ω) (suffix : String) :
    Except Error (Comparing ω) := do
  let outputs1 ← Stream.outputs first
  let outputs2 ← Stream.outputs second
  if !sameNames outputs1 outputs2 then throw (.outputs outputs1.keys outputs2.keys)
  let work : Encoding ω Unit := do
    Encoding.define first
    Encoding.define (← Encoding.ofExcept (Stream.rename suffix second))
  match Encoding.on .empty work with
  | (.error e, _) => throw e
  | (.ok _, encoder) =>
    let assumed := encoder.conditions.foldl (fun s c => s.add (.assume c)) encoder.script
    let inputs2 ← Stream.inputs second
    let inputs1 ← Stream.inputs first
    let (tied, shared) := inputs1.foldl (tieInput suffix inputs2) (assumed, [])
    let pairs := outputPairs suffix outputs1 outputs2
    return ⟨tied.add (.differ (pairs.map fun p => (p.first, p.second))), pairs, shared⟩

def encodeComparison (first second : Stream ω) (suffix : String) : Traced (Comparing ω) := do
  let c ← Traced.ofExcept (compareStreams first second suffix)
  Traced.report .debug .encoder ("equivalence script: outputs " ++
    Text.quotedList (c.pairs.map OutputPair.name) ++ ", shared inputs " ++
    Text.quotedList c.shared)
  return c

end Assay
