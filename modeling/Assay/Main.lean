import Assay.Command.Run
import Assay.Smt.Closed

/-! The command line on real files. All that may be read is read first; the rest is pure. -/
namespace Assay

def errorParts : IO.Error → Nat × String
  | .alreadyExists _ code text | .interrupted _ code text | .noFileOrDirectory _ code text
  | .invalidArgument _ code text | .permissionDenied _ code text | .resourceExhausted _ code text
  | .inappropriateType _ code text | .noSuchThing _ code text | .otherError code text
  | .resourceBusy code text | .resourceVanished code text | .unsupportedOperation code text
  | .hardwareFault code text | .unsatisfiedConstraints code text | .illegalOperation code text
  | .protocolError code text | .timeExpired code text => (code.toNat, text)
  | .unexpectedEof => (0, "unexpected end of file")
  | .userError text => (0, text)

def diskCause (isFile : Bool) (e : IO.Error) : DiskCause :=
  match errorParts e with
  | (2, _) => .missing
  | (20, _) => .notDirectory
  | (21, _) => .isDirectory
  | (36, _) => .longName
  | (code, text) => .other isFile code text

def isRegularFile (path : String) : IO Bool := do
  try
    return (← ((← IO.currentDir) / path).metadata).type == .file
  catch _ =>
    return false

def readFile (path : String) : IO (Except DiskCause (List UInt8)) := do
  try
    return .ok (← IO.FS.readBinFile path).toList
  catch e =>
    return .error (diskCause (← isRegularFile path) e)

/-- The disk as far as a command line may read it. -/
def diskFor (args : List String) : IO Disk := do
  let directory := toString (← IO.currentDir)
  let mut files : List (String × Except DiskCause (List UInt8)) := []
  for path in (Command.Line.read args).paths directory do
    files := (path, ← readFile path) :: files
  let known := files
  let bytes := fun path => match known.lookup path with
    | some content => content
    | none => .error .missing
  return ⟨bytes, directory⟩

end Assay

open Assay in
def main (args : List String) : IO UInt32 := do
  let ended := Command.run (← diskFor args) (fun _ => closedSolver) args
  IO.print ended.output
  IO.eprint ended.errors
  match ended.status with
  | .ok code => return code.toUInt32
  | .error e =>
    IO.eprintln e.message
    return 1
