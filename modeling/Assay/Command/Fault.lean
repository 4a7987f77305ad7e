import Assay.Command.Flag
import Assay.Text.Quoted

/-! What can be wrong with a command line. -/
namespace Assay.Command

inductive Fault where
  | ambiguous (given : String) (options : List String)
  | integer (flag : Flag) (given : String)
  | choice (title given : String) (choices : List String)
  | valueMissing (flag : Flag)
  | valueUnused (flag : Flag) (given : String)
  | required (names : List String)
  | unrecognized (given : List String)
  deriving DecidableEq, Repr

def Fault.message : Fault → String
  | .ambiguous given options =>
    "ambiguous option: " ++ given ++ " could match " ++ ", ".intercalate options
  | .integer flag given =>
    "argument " ++ flag.title ++ ": invalid int value: " ++ Text.quoted given
  | .choice title given choices =>
    "argument " ++ title ++ ": invalid choice: " ++ Text.quoted given ++ " (choose from " ++
      ", ".intercalate (choices.map Text.quoted) ++ ")"
  | .valueMissing flag => "argument " ++ flag.title ++ ": expected one argument"
  | .valueUnused flag given =>
    "argument " ++ flag.title ++ ": ignored explicit argument " ++ Text.quoted given
  | .required names => "the following arguments are required: " ++ ", ".intercalate names
  | .unrecognized given => "unrecognized arguments: " ++ " ".intercalate given

end Assay.Command
