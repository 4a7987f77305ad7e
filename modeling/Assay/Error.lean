import Assay.Text.Quoted
import Assay.Text.Utf8
import Assay.Value.Text
import Assay.Value.Reader

/-! Every way in which an analysis can fail, with its cause. `Error.message` is the wording and
`Error.kind` the class that callers tell apart. -/
namespace Assay

/-- The consumers of a tree or stream that may meet a part they have no rule for. -/
inductive Stage where
  | unroll
  | cfg
  | ssa
  | format
  | rename
  | evaluate
  | optimize
  | encode
  deriving DecidableEq, Repr

def Stage.name : Stage → String
  | .unroll => "unroll"
  | .cfg => "cfg"
  | .ssa => "ssa"
  | .format => "format"
  | .rename => "rename"
  | .evaluate => "evaluate"
  | .optimize => "optimize"
  | .encode => "encode"

/-- Lines that must have a fixed form from their first word on. -/
inductive Form where
  | ifHead
  | elseHead
  | whileHead
  | forHead
  | assertion
  deriving DecidableEq, Repr

def Form.name : Form → String
  | .ifHead => "if statement"
  | .elseHead => "else clause"
  | .whileHead => "while statement"
  | .forHead => "for statement"
  | .assertion => "assert statement"

inductive ParseReason where
  | form (form : Form) (text : String)
  | elseAlone
  | braceAlone
  | semicolon (text : String)
  | statement (text : String)
  | assignment (text : String)
  | expression (text : String)
  | operand
  | block
  deriving DecidableEq, Repr

def ParseReason.quotes : ParseReason → Option String
  | .form _ text => some text
  | .semicolon text => some text
  | .statement text => some text
  | .assignment text => some text
  | .expression text => some text
  | .elseAlone | .braceAlone | .operand | .block => none

def ParseReason.message : ParseReason → String
  | .form f text => "invalid " ++ f.name ++ ": " ++ text
  | .elseAlone => "'else' without a matching 'if'"
  | .braceAlone => "unmatched '\x7d'"
  | .semicolon text => "expected ';' after assignment: " ++ text
  | .statement text => "unrecognized statement: " ++ text
  | .assignment text => "invalid assignment: " ++ text
  | .expression text => "invalid expression: " ++ text
  | .operand => "missing operand"
  | .block => "unterminated block: missing '\x7d'"

inductive SettingFault where
  | notObject
  | unrollDepth (given : Value)
  | timeout (given : Value)
  | maxModels (given : Value)
  | suffix
  | needsOptimize
  | logLevel (given : String)
  | noFile (path : String)
  | badJson (path : String) (cause : JsonCause) (place : String)

def SettingFault.message : SettingFault → String
  | .notObject => "configuration must be a JSON object"
  | .unrollDepth v => "unroll_depth must be a positive integer, got " ++ v.toText
  | .timeout v => "solver_timeout_ms must be a positive integer, got " ++ v.toText
  | .maxModels v => "max_models must be an integer of at least 1, got " ++ v.toText
  | .suffix => "rename_suffix must be non-empty and must not end in a digit"
  | .needsOptimize => "encode_optimized requires optimize"
  | .logLevel s => "unknown log level " ++ Text.quoted s
  | .noFile path => "config file not found: " ++ path
  | .badJson path cause place => path ++ ": invalid JSON: " ++ cause.message ++ ": " ++ place

inductive DiskCause where
  | missing
  | notDirectory
  | isDirectory
  | longName
  /-- Any other, by its number. A file may be there that cannot be opened. -/
  | other (isFile : Bool) (code : Nat) (text : String)
  deriving DecidableEq, Repr

def DiskCause.message : DiskCause → String
  | .missing => "[Errno 2] No such file or directory"
  | .notDirectory => "[Errno 20] Not a directory"
  | .isDirectory => "[Errno 21] Is a directory"
  | .longName => "[Errno 36] File name too long"
  | .other _ code text => "[Errno " ++ toString code ++ "] " ++ text

/-- The class of an error. All but the last nine are errors of the analysis itself. -/
inductive ErrorKind where
  | analysis
  | parse
  | unknownConstruct
  | evaluation
  | encoding
  | mismatch
  | solver
  | contract
  | inProgress
  | config
  | number
  | attribute
  | mistyped
  | missingFile
  | notDirectory
  | isDirectory
  | otherFile
  | encodedText
  | unencodableText
  deriving DecidableEq, Repr

def ErrorKind.isAnalysis : ErrorKind → Bool
  | .analysis | .parse | .unknownConstruct | .evaluation | .encoding | .mismatch | .solver
  | .contract | .inProgress | .config => true
  | _ => false

def ErrorKind.isDisk : ErrorKind → Bool
  | .missingFile | .notDirectory | .isDirectory | .otherFile => true
  | _ => false

inductive Error where
  | parse (line : Int) (reason : ParseReason)
  | unknown (stage : Stage) (kind text : String)
  | zeroDivision (left : Int) (op : String)
  | sorts (symbol known wanted : String)
  | phiOperands (result : String) (count : Nat)
  | outputs (first second : List String)
  | depth (given : Int)
  | settings (fault : SettingFault)
  | noModel
  | busy
  | raised (kind : ErrorKind) (message : String)
  | longRead (digits : Nat)
  | longWritten
  | version (text : String)
  | notText (kind : String)
  | noHeader
  | disk (cause : DiskCause) (path : String)
  | nullByte
  | noPath
  | halves (fault : Text.HalfFault)
  | bytes (fault : Text.Utf8Fault)

def Text.Utf8Cause.message : Text.Utf8Cause → String
  | .start => "invalid start byte"
  | .continuation => "invalid continuation byte"
  | .truncated => "unexpected end of data"

def Text.Utf8Fault.message (f : Text.Utf8Fault) : String :=
  "'utf-8' codec can't decode " ++
    (if f.stop = f.first + 1 then
      "byte 0x" ++ String.ofList (Text.hex 2 f.byte.toNat) ++ " in position " ++ toString f.first
    else "bytes in position " ++ toString f.first ++ "-" ++ toString (f.stop - 1)) ++
    ": " ++ f.cause.message

def Text.HalfFault.message (f : Text.HalfFault) : String :=
  "'utf-8' codec can't encode " ++
    (if f.stop = f.first + 1 then
      "character '\\u" ++ String.ofList (Text.hex 4 f.half) ++ "' in position " ++ toString f.first
    else "characters in position " ++ toString f.first ++ "-" ++ toString (f.stop - 1)) ++
    ": surrogates not allowed"

def sortNames (names : List String) : List String :=
  names.mergeSort fun a b => Text.precedes a.toList b.toList

namespace Error

def kind : Error → ErrorKind
  | .parse .. => .parse
  | .unknown .. => .unknownConstruct
  | .zeroDivision .. => .evaluation
  | .sorts .. | .phiOperands .. => .encoding
  | .outputs .. => .mismatch
  | .depth _ | .settings _ => .config
  | .noModel => .contract
  | .busy => .inProgress
  | .raised kind _ => kind
  | .longRead _ | .longWritten | .version _ | .nullByte => .number
  | .notText _ => .attribute
  | .noHeader | .noPath => .mistyped
  | .disk .missing _ => .missingFile
  | .disk .notDirectory _ => .notDirectory
  | .disk .isDirectory _ => .isDirectory
  | .disk .longName _ | .disk (.other ..) _ => .otherFile
  | .halves _ => .unencodableText
  | .bytes _ => .encodedText

/-- A line number as messages show it: one that needs more than 64 bits shows as -1. -/
def shownLine (line : Int) : Int :=
  if -9223372036854775808 ≤ line ∧ line ≤ 9223372036854775807 then line else -1

def message : Error → String
  | .parse line reason => reason.message ++ " (line " ++ toString (shownLine line) ++ ")"
  | .unknown stage kind text => stage.name ++ ": unknown construct " ++ kind ++ ": " ++ text
  | .zeroDivision left op => toString left ++ " " ++ op ++ " 0"
  | .sorts symbol known wanted =>
    symbol ++ " is used both as " ++ known ++ " and as " ++ wanted
  | .phiOperands result count =>
    "phi " ++ result ++ " has " ++ toString count ++ " operands, only 2 are supported"
  | .outputs first second =>
    "output variables differ: " ++ Text.quotedList (sortNames first) ++ " vs " ++
      Text.quotedList (sortNames second)
  | .depth given => "unroll depth must be at least 1, got " ++ toString given
  | .settings fault => fault.message
  | .noModel => "solver answered sat without a model"
  | .busy => "an analysis is already running"
  | .raised _ message => message
  | .longRead digits =>
    "Exceeds the limit (4300 digits) for integer string conversion: value has " ++
      toString digits ++ " digits; use sys.set_int_max_str_digits() to increase the limit"
  | .longWritten =>
    "Exceeds the limit (4300 digits) for integer string conversion; " ++
      "use sys.set_int_max_str_digits() to increase the limit"
  | .version text =>
    "invalid literal for int() with base 10: " ++
      String.ofList ((Text.quoted text).toList.take 200)
  | .notText kind => "'" ++ kind ++ "' object has no attribute 'upper'"
  | .noHeader => "can only concatenate str (not \"NoneType\") to str"
  | .disk cause path => cause.message ++ ": " ++ Text.quoted path
  | .nullByte => "embedded null byte"
  | .noPath => "expected str, bytes or os.PathLike object, not list"
  | .halves fault => fault.message
  | .bytes fault => fault.message

end Error

def integerText (n : Int) : Except Error String :=
  if Text.isTooLong n then .error .longWritten else .ok (toString n)

def firstFault (faults : List Error) : Except Error Unit :=
  match faults with
  | [] => .ok ()
  | e :: _ => .error e

end Assay
