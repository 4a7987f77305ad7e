import Assay.Error
import Assay.Text.Integer

/-! Symbols of single-assignment form: a name, a low line and a version. -/
namespace Assay

def symbol (name : String) (version : Nat) : String := name ++ "_" ++ toString version

/-- The text in front of the last low line and the text behind it; without one, all is behind. -/
def splitLowLine (cs : List Char) : List Char × List Char :=
  let back := cs.reverse.takeWhile (· != '_')
  ((cs.reverse.drop (back.length + 1)).reverse, back.reverse)

def readVersion (cs : List Char) : Except Error Int :=
  match Text.readInteger cs with
  | .ok n => .ok n
  | .error .malformed => .error (.version (String.ofList cs))
  | .error (.tooLong digits) => .error (.longRead digits)

def splitSymbol (s : String) : Except Error (String × Int) := do
  let (name, version) := splitLowLine s.toList
  return (String.ofList name, ← readVersion version)

end Assay
