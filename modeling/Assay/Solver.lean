import Assay.Log
import Assay.Entries
import Assay.Smt.Script

/-! The boundary to a decision procedure. It is asked whether a script has a model, and may be
told that the question was cancelled before it was put. -/
namespace Assay

inductive Verdict where
  | sat | unsat | unknown
  deriving DecidableEq, Repr

abbrev Model := Entries Value

structure Answer where
  verdict : Verdict
  model : Option Model
  models : List Model
  reason : String

namespace Answer

def unsat : Answer := ⟨.unsat, none, [], ""⟩

def unknown (reason : String) : Answer := ⟨.unknown, none, [], reason⟩

def cancelled : Answer := unknown "cancelled"

/-- All models that were given; the single one where there is no list of them. -/
def allModels (a : Answer) : List Model := if a.models.isEmpty then a.model.toList else a.models

end Answer

abbrev Solver := Smt.Script Empty → (cancelled : Bool) → Except Error Answer

end Assay
