import Assay.Analysis
import Assay.Solver
import Assay.Smt.Equivalence

/-! Verification and equivalence. A request is prepared up to the question for the decision
procedure, or to a report where no question is left; the answer then concludes it. -/
namespace Assay

inductive Mode where
  | verification | equivalence
  deriving DecidableEq, Repr

def Mode.name : Mode → String
  | .verification => "verification"
  | .equivalence => "equivalence"

inductive Outcome where
  | verified | violated | equivalent | notEquivalent | inconclusive
  deriving DecidableEq, Repr

def Outcome.name : Outcome → String
  | .verified => "verified"
  | .violated => "violated"
  | .equivalent => "equivalent"
  | .notEquivalent => "not equivalent"
  | .inconclusive => "inconclusive"

def Outcome.isGood : Outcome → Bool
  | .verified | .equivalent => true
  | _ => false

structure Report where
  mode : Mode
  outcome : Outcome
  message : String
  script : Option (Smt.Script Empty)
  counterexamples : List Model
  analyses : List Analysis

structure Question where
  mode : Mode
  script : Smt.Script Empty
  outputs : List String
  analyses : List Analysis

inductive Prepared where
  | settled (report : Report)
  | asked (question : Question)

inductive Request where
  | verify (text : String)
  | compare (first second : String)

def prepareVerification (config : Config) (text : String) : Traced Prepared := do
  let analysis ← analyze config text
  let script ← analysis.encoded.encode
  return .asked ⟨.verification, script, [], [analysis]⟩

def orMismatch {α : Type} (work : Traced α) (onMismatch : Error → Traced α) : Traced α :=
  tryCatch work fun e =>
    match e with
    | .outputs .. => onMismatch e
    | e => throw e

def prepareComparison (config : Config) (text1 text2 : String) : Traced Prepared := do
  let first ← analyze config text1
  let second ← analyze config text2
  let analyses := [first, second]
  let encode : Traced Prepared := do
    let c ← encodeComparison first.encoded second.encoded config.suffix
    return .asked ⟨.equivalence, c.script, c.pairs.map OutputPair.name, analyses⟩
  orMismatch encode fun e => do
    Traced.report .info .pipeline ("equivalence short-circuited: " ++ e.message)
    return .settled ⟨.equivalence, .notEquivalent, "Programs are not equivalent: " ++ e.message,
      none, [], analyses⟩

def prepare (config : Config) : Request → Traced Prepared
  | .verify text => prepareVerification config text
  | .compare text1 text2 => prepareComparison config text1 text2

namespace Question

def report (q : Question) (outcome : Outcome) (message : String) (models : List Model) : Report :=
  ⟨q.mode, outcome, message, some q.script, models, q.analyses⟩

def inconclusive (q : Question) (reason : String) : Report :=
  q.report .inconclusive ("solver gave no answer: " ++ reason) []

def confirmed (q : Question) : Report :=
  match q.mode with
  | .verification => q.report .verified "All assertions verified" []
  | .equivalence =>
    let names := if q.outputs.isEmpty then "none" else ", ".intercalate q.outputs
    q.report .equivalent ("Programs are equivalent (outputs: " ++ names ++ ")") []

def refuted (q : Question) (models : List Model) : Report :=
  match q.mode with
  | .verification =>
    q.report .violated "Verification failed: an assertion can be violated" models
  | .equivalence => q.report .notEquivalent "Programs are not equivalent" models

/-- Concludes from an answer. A failed procedure leaves the request open; other errors, and a
positive answer that shows no model, end it. -/
def conclude (q : Question) (answer : Except Error Answer) : Traced Report :=
  match answer with
  | .error e =>
    if e.kind = .solver then do
      Traced.report .error .pipeline ("solver failed: " ++ e.message)
      return q.inconclusive e.message
    else throw e
  | .ok a =>
    match a.verdict with
    | .unknown => return q.inconclusive a.reason
    | .unsat => return q.confirmed
    | .sat => if a.model.isNone then throw .noModel else return q.refuted a.allModels

end Question

def Request.run (r : Request) (solver : Solver) (config : Config) (cancelled : Bool) :
    Traced Report := do
  match ← prepare config r with
  | .settled report => return report
  | .asked q =>
    Traced.countQuestion
    q.conclude (solver q.script cancelled)

def verify (solver : Solver) (config : Config) (cancelled : Bool) (text : String) :
    Traced Report :=
  (Request.verify text).run solver config cancelled

def checkEquivalence (solver : Solver) (config : Config) (cancelled : Bool)
    (text1 text2 : String) : Traced Report :=
  (Request.compare text1 text2).run solver config cancelled

def titled (analyses : List Analysis) : List (String × Analysis) :=
  match analyses with
  | [a] => [("Program", a)]
  | _ => analyses.zipIdx.map fun a => ("Program " ++ toString (a.2 + 1), a.1)

end Assay
