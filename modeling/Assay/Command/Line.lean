import Assay.Command.Event
import Assay.Text.Integer

/-! Command lines: a command with the files that it works on, and options. -/
namespace Assay.Command

structure Options where
  unroll : Option (Given Int) := none
  timeout : Option (Given Int) := none
  models : Option (Given Int) := none
  noOptimize : Bool := false
  encodeOptimized : Bool := false
  sections : List Section := []
  config : Option (Given String) := none
  verbose : Nat := 0
  deriving DecidableEq, Repr

inductive Task where
  | verify (file : Given String)
  | compare (file1 file2 : Given String)
  deriving DecidableEq, Repr

inductive Line where
  | run (task : Task) (options : Options)
  | nothing
  | help
  | version
  | usage (program : String) (fault : Fault)

def programName : String := "minilang-verify"

structure Gathered where
  options : Options
  names : List (Given String)
  extras : List String

def givenInteger (program : String) (flag : Flag) : Given String → Except Line (Given Int)
  | .leftOut => .ok .leftOut
  | .value text =>
    match Text.readInteger text.toList with
    | .ok n => .ok (.value n)
    | .error _ => .error (.usage program (.integer flag text))

def givenSections (program : String) (flag : Flag) : Given String → Except Line (List Section)
  | .leftOut => .ok []
  | .value text =>
    match Section.all.find? fun s => s.name = text with
    | some s => .ok [s]
    | none => .error (.usage program (.choice flag.title text (Section.all.map Section.name)))

def Options.set (program : String) (o : Options) (flag : Flag) (given : Given String) :
    Except Line Options :=
  let integer := givenInteger program flag given
  match flag with
  | .help => .error .help
  | .version => .error .version
  | .unroll => do return { o with unroll := some (← integer) }
  | .timeout => do return { o with timeout := some (← integer) }
  | .models => do return { o with models := some (← integer) }
  | .noOptimize => .ok { o with noOptimize := true }
  | .encodeOptimized => .ok { o with encodeOptimized := true }
  | .shows => do
    return { o with sections := o.sections ++ (← givenSections program flag given) }
  | .config => .ok { o with config := some given }
  | .verbose => .ok { o with verbose := o.verbose + 1 }

def Gathered.step (program : String) (g : Gathered) : Event → Except Line Gathered
  | .option flag value => do return { g with options := ← g.options.set program flag value }
  | .name _ text => .ok { g with names := g.names ++ [text] }
  | .extra text => .ok { g with extras := g.extras ++ [text] }
  | .fault f => .error (.usage program f)

def gather (program : String) (roles args : List String) : Except Line Gathered :=
  let ws := words Flag.ofCommand args
  match ambiguity? ws with
  | some (text, options) => .error (.usage program (.ambiguous text options))
  | none =>
    (events Flag.ofCommand roles false ws).foldlM (Gathered.step program) ⟨{}, [], []⟩

/-- A command with what stands behind it; `extras` is what stood in front. -/
def readTask (extras : List String) (name : String) (args : List String) : Line :=
  let finish := fun (roles : List String) (task : List (Given String) → Option Task) =>
    match gather (programName ++ " " ++ name) roles args with
    | .error line => line
    | .ok g =>
      let extras := extras ++ g.extras
      match task g.names with
      | some task =>
        if extras.isEmpty then .run task g.options
        else .usage programName (.unrecognized extras)
      | none => .nothing
  match name with
  | "verify" => finish ["file"] fun
    | [file] => some (.verify file)
    | _ => none
  | "equiv" => finish ["file1", "file2"] fun
    | [file1, file2] => some (.compare file1 file2)
    | _ => none
  | name => .usage programName (.choice "command" name ["verify", "equiv"])

def readWords (extras : List String) : List (Word × String) → Line
  | [] => if extras.isEmpty then .nothing else .usage programName (.unrecognized extras)
  | (.plain name, _) :: rest => readTask extras name (rest.map (·.2))
  | (.dashes, text) :: rest =>
    if rest.isEmpty then readWords (extras ++ [text]) rest else readTask extras text []
  | (.unknown text, _) :: rest => readWords (extras ++ [text]) rest
  | (.ambiguous text options, _) :: _ => .usage programName (.ambiguous text options)
  | (.option flag isLong attached, _) :: rest =>
    match cluster Flag.general flag isLong attached with
    | .error f => .usage programName f
    | .ok (front, last, _) =>
      match front.headD last with
      | .help => .help
      | .version => .version
      | _ => readWords extras rest

def Line.read (args : List String) : Line :=
  let ws := words Flag.general args
  match ambiguity? ws with
  | some (text, options) => .usage programName (.ambiguous text options)
  | none => readWords [] (ws.zip args)

end Assay.Command
