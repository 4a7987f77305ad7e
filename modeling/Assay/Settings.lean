import Assay.Log
import Assay.Entries
import Assay.Text.Digit
import Assay.Text.Upper

/-! Settings of an analysis. `Settings` holds the values as they were given, `Config` what they
mean once they have been found valid. -/
namespace Assay

structure Settings where
  optimize : Value := .bool true
  encodeOptimized : Value := .bool false
  unrollDepth : Value := .null
  timeout : Value := .int 10000
  maxModels : Value := .int 1
  suffix : Value := .text "_b"
  logLevel : Value := .text "WARNING"

/-- With `encodeOptimized` the simplified stream is encoded. Without a depth a loop is encoded
once, through its phis. The threshold is the least rank of a record that is shown. -/
structure Config where
  optimize : Bool
  encodeOptimized : Bool
  unrollDepth : Option Nat
  timeout : Nat
  maxModels : Nat
  suffix : String
  threshold : Nat
  deriving DecidableEq, Repr

def levelRank? : String → Option Nat
  | "CRITICAL" | "FATAL" => some 50
  | "ERROR" => some 40
  | "WARN" | "WARNING" => some 30
  | "INFO" => some 20
  | "DEBUG" => some 10
  | "NOTSET" => some 0
  | _ => none

namespace Settings

def positive? (v : Value) : Option Nat :=
  match v.int? with
  | some n => if 0 < n then some n.toNat else none
  | none => none

def reject {α : Type} (given : Value) (fault : Value → SettingFault) : Except Error α :=
  .error (if given.isTooLong then .longWritten else .settings (fault given))

def depth (v : Value) : Except Error (Option Nat) :=
  match v with
  | .null => .ok none
  | v =>
    match positive? v with
    | some n => .ok (some n)
    | none => reject v .unrollDepth

def atLeastOne (fault : Value → SettingFault) (v : Value) : Except Error Nat :=
  match positive? v with
  | some n => .ok n
  | none => reject v fault

/-- Symbols end in the digits of a version, so a suffix does not. -/
def suffixText (v : Value) : Except Error String :=
  match v with
  | .text s =>
    match s.toList.getLast? with
    | some c => if Text.isDigit c then .error (.settings .suffix) else .ok s
    | none => .error (.settings .suffix)
  | _ => .error (.settings .suffix)

def threshold (v : Value) : Except Error Nat :=
  match v with
  | .text s =>
    match levelRank? (Text.upper s) with
    | some n => .ok n
    | none => .error (.settings (.logLevel s))
  | v => .error (.notText v.kind)

def check (s : Settings) : Except Error Config := do
  let unrollDepth ← depth s.unrollDepth
  let timeout ← atLeastOne .timeout s.timeout
  let maxModels ← atLeastOne .maxModels s.maxModels
  let suffix ← suffixText s.suffix
  if s.encodeOptimized.isTrue && !s.optimize.isTrue then throw (.settings .needsOptimize)
  let threshold ← threshold s.logLevel
  return ⟨s.optimize.isTrue, s.encodeOptimized.isTrue, unrollDepth, timeout, maxModels, suffix,
    threshold⟩

def set? (s : Settings) (key : String) (v : Value) : Option Settings :=
  match key with
  | "optimize" => some { s with optimize := v }
  | "encode_optimized" => some { s with encodeOptimized := v }
  | "unroll_depth" => some { s with unrollDepth := v }
  | "solver_timeout_ms" => some { s with timeout := v }
  | "max_models" => some { s with maxModels := v }
  | "rename_suffix" => some { s with suffix := v }
  | "log_level" => some { s with logLevel := v }
  | _ => none

def isKey (key : String) : Bool := (set? {} key .null).isSome

def update (s : Settings) (changes : Entries Value) : Settings :=
  changes.foldl (fun s c => (s.set? c.1 c.2).getD s) s

def toValue (s : Settings) : Value :=
  .object [
    ("optimize", s.optimize),
    ("encode_optimized", s.encodeOptimized),
    ("unroll_depth", s.unrollDepth),
    ("solver_timeout_ms", s.timeout),
    ("max_models", s.maxModels),
    ("rename_suffix", s.suffix),
    ("log_level", s.logLevel)]

end Settings

structure Checked where
  settings : Settings
  config : Config

def Settings.checked (s : Settings) : Except Error Checked := do return ⟨s, ← s.check⟩

def Config.default : Config := ⟨true, false, none, 10000, 1, "_b", 30⟩

def Checked.default : Checked := ⟨{}, Config.default⟩

/-- Settings from a value; keys that are none are reported and left out. -/
def Checked.ofValue (v : Value) : Traced Checked := do
  match v with
  | .object entries =>
    let unknown := sortNames ((Entries.keys entries).filter fun k => !Settings.isKey k)
    if !unknown.isEmpty then
      Traced.report .warning .config ("ignoring unknown config keys: " ++ ", ".intercalate unknown)
    Traced.ofExcept (Settings.checked (Settings.update {} entries))
  | _ => throw (.settings .notObject)

end Assay
