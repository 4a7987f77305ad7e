import Assay.Value.Basic
import Assay.Value.Shortest
import Assay.Text.Quoted

/-! Values written as JSON, in ASCII, on one line or indented by two spaces a level. -/
namespace Assay.Value

def jsonEscape (c : Char) : List Char :=
  let n := Text.code c
  if c = '"' then ['\\', '"']
  else if c = '\\' then ['\\', '\\']
  else if c = '\n' then ['\\', 'n']
  else if c = '\r' then ['\\', 'r']
  else if c = '\t' then ['\\', 't']
  else if n = 12 then ['\\', 'f']
  else if n = 8 then ['\\', 'b']
  else if 32 ≤ n ∧ n < 127 then [c]
  else if n < 0x10000 then ['\\', 'u'] ++ Text.hex 4 n
  else
    let m := n - 0x10000
    ['\\', 'u'] ++ Text.hex 4 (0xD800 + m / 1024) ++ ['\\', 'u'] ++ Text.hex 4 (0xDC00 + m % 1024)

def jsonText (s : String) : String :=
  String.ofList (['"'] ++ s.toList.flatMap jsonEscape ++ ['"'])

def jsonFloat (x : Float) : String :=
  if x.isNaN then "NaN"
  else if x.isInf then (if x < 0 then "-Infinity" else "Infinity")
  else floatText x

/-- Line layout: `newline n` opens a line at level `n`, `comma` separates members. -/
structure JsonLayout where
  newline : Nat → String
  comma : String

def JsonLayout.line : JsonLayout := ⟨fun _ => "", ", "⟩
def JsonLayout.indented : JsonLayout :=
  ⟨fun level => "\n" ++ String.ofList (List.replicate (2 * level) ' '), ","⟩

def enclose (layout : JsonLayout) (level : Nat) (left right : String) : List String → String
  | [] => left ++ right
  | items =>
    left ++ layout.newline (level + 1) ++
      (layout.comma ++ layout.newline (level + 1)).intercalate items ++
      layout.newline level ++ right

mutual

def jsonAt (layout : JsonLayout) (level : Nat) : Value → String
  | .null => "null"
  | .bool b => if b then "true" else "false"
  | .int n => toString n
  | .float x => jsonFloat x
  | .text s => jsonText s
  | .list items => enclose layout level "[" "]" (jsonItems layout (level + 1) items)
  | .object entries =>
    enclose layout level "\x7b" "\x7d" (jsonEntries layout (level + 1) entries)

def jsonItems (layout : JsonLayout) (level : Nat) : List Value → List String
  | [] => []
  | v :: vs => jsonAt layout level v :: jsonItems layout level vs

def jsonEntries (layout : JsonLayout) (level : Nat) : List (String × Value) → List String
  | [] => []
  | (k, v) :: rest =>
    (jsonText k ++ ": " ++ jsonAt layout level v) :: jsonEntries layout level rest

end

mutual

def sortKeys : Value → Value
  | .list items => .list (sortItems items)
  | .object entries => .object ((sortEntries entries).mergeSort fun a b =>
    Text.precedes a.1.toList b.1.toList)
  | v => v

def sortItems : List Value → List Value
  | [] => []
  | v :: vs => v.sortKeys :: sortItems vs

def sortEntries : List (String × Value) → List (String × Value)
  | [] => []
  | (k, v) :: rest => (k, v.sortKeys) :: sortEntries rest

end

def toJson (v : Value) : String := jsonAt .line 0 v
def toIndentedJson (v : Value) : String := jsonAt .indented 0 v

end Assay.Value
