import Assay.Command.Line
import Assay.Disk.SettingsFile
import Assay.Report
import Assay.Stream.Text
import Assay.Value.Writer

/-! Running a command line. It ends in a status: 0 for a good outcome, 1 for a bad one, 2 for
none, and 3 for an error that is told. Records go to the second channel, from a rank on that
the options or the settings say.

The output is the text that is handed to be printed, and what becomes of it is outside: a channel
that encodes strictly may refuse half of a pair. So are a limit on the depth of recursion and the
memory. -/
namespace Assay.Command

structure Ended where
  status : Except Error Nat
  output : String
  errors : String

def line (s : String) : String := s ++ "\n"

/-- Lines up to the first that cannot be written, and the error that stands there. -/
def printed : List (Except Error String) → String × Option Error
  | [] => ("", none)
  | .error e :: _ => ("", some e)
  | .ok s :: rest =>
    let (text, fault) := printed rest
    (line s ++ text, fault)

def graphText (g : Graph) : String := g.toValue.toIndentedJson

def analysisLines (sections : List Section) (title : String) (a : Analysis) :
    List (Except Error String) :=
  let part := fun (s : Section) (head : String) (body : Except Error String) =>
    if sections.contains s then [.ok ("== " ++ head ++ ": " ++ title), body] else []
  part .ast "AST" (a.program.outline "  ") ++
    part .ssa "SSA" a.construction.stream.write ++
    (match a.optimized with
      | none => []
      | some s => part .optimized "Optimized SSA" s.write) ++
    part .cfg "CFG" (.ok (graphText a.graph))

def modelLine (m : Model × Nat) : Except Error String :=
  let value := Value.object m.1
  if value.isTooLong then .error .longWritten
  else .ok ("counterexample " ++ toString (m.2 + 1) ++ ": " ++ value.sortKeys.toJson)

def reportLines (sections : List Section) (r : Report) : List (Except Error String) :=
  ((titled r.analyses).flatMap fun a => analysisLines sections a.1 a.2) ++
    (match r.script with
      | some script => if sections.contains .smt then [.ok "== SMT", .ok script.toText] else []
      | none => []) ++
    [.ok r.message] ++ r.counterexamples.zipIdx.map modelLine

def exitCode : Outcome → Nat
  | .verified | .equivalent => 0
  | .violated | .notEquivalent => 1
  | .inconclusive => 2

def Given.toList {α : Type} : Given α → List α
  | .value a => [a]
  | .leftOut => []

/-- The value of a setting; what was left out counts as an empty list. -/
def Given.setting : Given Int → Value
  | .value n => .int n
  | .leftOut => .list []

def Given.path : Given String → Except Error String
  | .value path => .ok path
  | .leftOut => .error .noPath

def Line.paths (directory : String) : Line → List String
  | .run task options =>
    (match task with
      | .verify file => [file]
      | .compare file1 file2 => [file1, file2]).flatMap Given.toList ++
      match options.config with
      | some path => path.toList
      | none => Disk.candidates (Disk.absolute directory ".")
  | _ => []

def Options.changes (o : Options) : Entries Value :=
  let number := fun (key : String) (n : Option (Given Int)) =>
    n.toList.map fun n => (key, n.setting)
  number "unroll_depth" o.unroll ++ number "solver_timeout_ms" o.timeout ++
    number "max_models" o.models ++
    (if o.noOptimize then [("optimize", .bool false), ("encode_optimized", .bool false)] else []) ++
    (if o.encodeOptimized then [("encode_optimized", .bool true)] else [])

def Options.settings (o : Options) (disk : Disk) : Traced Config := do
  let found ← match o.config with
    | some path => do disk.loadSettings (← Traced.ofExcept path.path)
    | none => disk.nearestSettings "."
  let checked ← Traced.ofExcept (found.settings.update o.changes).checked
  return checked.config

def Options.threshold? (o : Options) : Option Nat :=
  match o.verbose with
  | 0 => none
  | 1 => some Level.info.rank
  | _ => some Level.debug.rank

/-- Reads the files of a task. All are read before any work. -/
def Task.request (disk : Disk) : Task → Except Error Request
  | .verify file => do return .verify (← disk.read (← file.path))
  | .compare file1 file2 => do
    let text1 ← disk.read (← file1.path)
    let text2 ← disk.read (← file2.path)
    return .compare text1 text2

def shownRecords (threshold : Nat) (log : Log) : String :=
  String.join ((log.filter fun r => threshold ≤ r.level.rank).map fun r => line r.line)

/-- How an error ends the run: told, or handed on. -/
def ending (e : Error) : Option String :=
  if e.kind = .parse then some ("parse error: " ++ e.message)
  else if e.kind = .config then some ("config error: " ++ e.message)
  else if e.kind.isAnalysis || e.kind.isDisk then some ("error: " ++ e.message)
  else none

def Ended.ofError (e : Error) (output errors : String) : Ended :=
  match ending e with
  | some message => ⟨.ok 3, output, errors ++ line message⟩
  | none => ⟨.error e, output, errors⟩

def Ended.ofReport (sections : List Section) (r : Report) (errors : String) : Ended :=
  match printed (reportLines sections r) with
  | (text, none) => ⟨.ok (exitCode r.outcome), text, errors⟩
  | (text, some e) => Ended.ofError e text errors

def runTask (disk : Disk) (solver : Config → Solver) (task : Task) (o : Options) : Ended :=
  let (settings, loading) := (o.settings disk).trace
  let loaded := shownRecords (o.threshold?.getD Level.warning.rank) loading.log
  match settings with
  | .error e => .ofError e "" loaded
  | .ok config =>
    let work : Traced Report := do
      let request ← Traced.ofExcept (task.request disk)
      request.run (solver config) config false
    let (result, trace) := work.trace
    let errors := loaded ++ shownRecords (o.threshold?.getD config.threshold) trace.log
    match result with
    | .error e => .ofError e "" errors
    | .ok report => .ofReport o.sections report errors

def helpText : String :=
  "usage: " ++ programName ++ " [-h] [--version] \x7bverify,equiv\x7d ...\n\n" ++
    "  verify file          check that every assert holds\n" ++
    "  equiv file1 file2    check two programs for equivalence\n"

def versionText : String := line (programName ++ " 0.1.0")

def run (disk : Disk) (solver : Config → Solver) (args : List String) : Ended :=
  match Line.read args with
  | .run task options => runTask disk solver task options
  | .nothing => ⟨.ok 3, helpText, ""⟩
  | .help => ⟨.ok 0, helpText, ""⟩
  | .version => ⟨.ok 0, versionText, ""⟩
  | .usage program fault => ⟨.ok 2, "", line (program ++ ": error: " ++ fault.message)⟩

end Assay.Command
