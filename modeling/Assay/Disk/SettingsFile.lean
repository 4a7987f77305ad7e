import Assay.Disk.Basic
import Assay.Settings

/-! Settings files. Without a path the nearest one is taken: in the start directory or in the
first directory above it that has one. -/
namespace Assay.Disk

def settingsNames : List String := [".minilangrc.json", "minilang.config.json"]

def upward : List String → List (List String)
  | [] => [[]]
  | part :: above => (part :: above).reverse :: upward above

/-- The paths at which a settings file may be, the nearest directory first. -/
def candidates (directory : List String) : List String :=
  (upward directory.reverse).flatMap fun parts =>
    settingsNames.map fun name => "/" ++ join (parts ++ [name])

def findSettings (d : Disk) (start : String) : Option String :=
  (candidates (absolute d.directory start)).find? d.isFile

def settingsOfText (path text : String) : Traced Checked := do
  match Value.ofJson text.toList with
  | .error (.tooLong digits) => throw (.longRead digits)
  | .error (.malformed cause position) =>
    throw (.settings (.badJson path cause (locate text.toList position)))
  | .ok v =>
    Traced.report .debug .config ("loaded config from " ++ path)
    Checked.ofValue v

/-- The settings in a file that was asked for, which has to be there. -/
def loadSettings (d : Disk) (path : String) : Traced Checked := do
  match d.read path with
  | .error (.disk .missing _) => throw (.settings (.noFile path))
  | .error e => throw e
  | .ok text => settingsOfText path text

def nearestSettings (d : Disk) (start : String) : Traced Checked := do
  match d.findSettings start with
  | none => return Checked.default
  | some path => settingsOfText path (← Traced.ofExcept (d.read path))

end Assay.Disk
