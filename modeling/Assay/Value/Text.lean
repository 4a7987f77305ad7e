import Assay.Value.Basic
import Assay.Value.Shortest
import Assay.Text.Quoted
import Assay.Text.Integer

/-! Values as they stand in messages. -/
namespace Assay.Value

mutual

def toText : Value → String
  | .null => "None"
  | .bool b => if b then "True" else "False"
  | .int n => toString n
  | .float x => floatText x
  | .text s => Text.quoted s
  | .list items => Text.bracketed (itemTexts items)
  | .object entries => "\x7b" ++ ", ".intercalate (entryTexts entries) ++ "\x7d"

def itemTexts : List Value → List String
  | [] => []
  | v :: vs => v.toText :: itemTexts vs

def entryTexts : List (String × Value) → List String
  | [] => []
  | (k, v) :: rest => (Text.quoted k ++ ": " ++ v.toText) :: entryTexts rest

end

mutual

def isTooLong : Value → Bool
  | .int n => Text.isTooLong n
  | .list items => anyTooLong items
  | .object entries => anyEntryTooLong entries
  | _ => false

def anyTooLong : List Value → Bool
  | [] => false
  | v :: vs => v.isTooLong || anyTooLong vs

def anyEntryTooLong : List (String × Value) → Bool
  | [] => false
  | (_, v) :: rest => v.isTooLong || anyEntryTooLong rest

end

end Assay.Value
