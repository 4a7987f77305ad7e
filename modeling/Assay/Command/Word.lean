import Assay.Command.Flag
import Assay.Text.Digit

/-! The words of a command line, sorted into options and others. Long options may be cut short
as long as one option fits, and may carry a value behind an equals sign; short ones may stand
together. Negative numbers and words with a space are no options, and nothing is one behind two
dashes. -/
namespace Assay.Command

inductive Word where
  | plain (text : String)
  | dashes
  | option (flag : Flag) (isLong : Bool) (attached : Option (List Char))
  | unknown (text : String)
  | ambiguous (text : String) (options : List String)
  deriving DecidableEq, Repr

def optionNames (flags : List Flag) : List (String × Flag) :=
  flags.flatMap fun f => f.names.map fun n => (n, f)

def lookup? (flags : List Flag) (name : List Char) : Option Flag :=
  ((optionNames flags).find? fun n => n.1.toList = name).map (·.2)

def splitEquals (cs : List Char) : List Char × Option (List Char) :=
  match cs.dropWhile (· != '=') with
  | [] => (cs, none)
  | _ :: value => (cs.takeWhile (· != '='), some value)

/-- Digits after a dash, perhaps with a point among them that digits follow. A line feed may
come last. -/
def isNegativeNumber (cs : List Char) : Bool :=
  let body := if cs.getLast? = some '\n' then cs.dropLast else cs
  let isDecimal := fun c : Char => (Text.decimalValue? c).isSome
  match body with
  | '-' :: rest =>
    match rest.dropWhile isDecimal with
    | [] => !rest.isEmpty
    | '.' :: fraction => !fraction.isEmpty && fraction.all isDecimal
    | _ => false
  | _ => false

def isLongName (cs : List Char) : Bool := ['-', '-'].isPrefixOf cs

def otherWord (text : String) : Word :=
  if isNegativeNumber text.toList || text.toList.contains ' ' then .plain text else .unknown text

def longWord (flags : List Flag) (text : String) : Word :=
  let (start, attached) := splitEquals text.toList
  match (optionNames flags).filter fun n => start.isPrefixOf n.1.toList with
  | [] => otherWord text
  | [(_, flag)] => .option flag true attached
  | options => .ambiguous text (options.map (·.1))

def shortWord (flags : List Flag) (text : String) : Word :=
  match lookup? flags (text.toList.take 2) with
  | some flag => .option flag false (some (text.toList.drop 2))
  | none => otherWord text

def word (flags : List Flag) (text : String) : Word :=
  let cs := text.toList
  if cs.head? != some '-' then .plain text
  else
    match lookup? flags cs with
    | some flag => .option flag (isLongName cs) none
    | none =>
      if cs.length = 1 then .plain text
      else
        match splitEquals cs with
        | (name, some value) =>
          match lookup? flags name with
          | some flag => .option flag (isLongName name) (some value)
          | none => if isLongName cs then longWord flags text else shortWord flags text
        | (_, none) => if isLongName cs then longWord flags text else shortWord flags text

def words (flags : List Flag) : List String → List Word
  | [] => []
  | "--" :: rest => .dashes :: rest.map .plain
  | text :: rest => word flags text :: words flags rest

/-- A word that fits several options spoils the whole line. -/
def ambiguity? (words : List Word) : Option (String × List String) :=
  words.findSome? fun
    | .ambiguous text options => some (text, options)
    | _ => none

end Assay.Command
