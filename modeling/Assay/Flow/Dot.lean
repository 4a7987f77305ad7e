import Assay.Flow.Graph
import Assay.Expr.Reader

/-! Graphs as DOT text. -/
namespace Assay.Dot

def keywords : List (List Char) :=
  ["node", "edge", "graph", "digraph", "subgraph", "strict"].map String.toList

def isNumber (cs : List Char) : Bool :=
  let body := match cs with
    | '-' :: ds => ds
    | ds => ds
  let whole := body.takeWhile Text.isAsciiDigit
  match body.dropWhile Text.isAsciiDigit with
  | [] => !whole.isEmpty
  | '.' :: fraction => fraction.all Text.isAsciiDigit && !(whole.isEmpty && fraction.isEmpty)
  | _ => false

def isMarkup (cs : List Char) : Bool :=
  2 ≤ cs.length && cs.head? == some '<' && cs.getLast? == some '>'

/-- The text without a line feed at its end, which does not count there. -/
def withoutLineFeed (cs : List Char) : List Char :=
  if cs.getLast? = some '\n' then cs.dropLast else cs

def isBare (cs : List Char) : Bool :=
  (Text.isName (withoutLineFeed cs) || isNumber (withoutLineFeed cs)) &&
    !keywords.contains (cs.map Char.toLower)

/-- A quote gets a backslash unless it has one; `slashes` counts the backslashes just read. -/
def escapeQuotes (slashes : Nat) : List Char → List Char
  | [] => List.replicate slashes '\\'
  | '\\' :: cs => escapeQuotes (slashes + 1) cs
  | c :: cs =>
    let before := if c = '"' then 2 * (slashes / 2) + 1 else slashes
    List.replicate before '\\' ++ c :: escapeQuotes 0 cs

/-- A name or label as DOT has it: bare where it can be, else between quotes. -/
def identifier (s : String) : String :=
  let cs := s.toList
  if isMarkup (withoutLineFeed cs) || isBare cs then s
  else "\"" ++ String.ofList (escapeQuotes 0 cs) ++ "\""

end Assay.Dot

namespace Assay

open Dot

def Graph.decides (g : Graph) (node : Nat) : Bool :=
  g.edges.any fun e => e.source == node && e.arm.isSome

def Graph.shape (g : Graph) (node : Nat) : String :=
  if node = 0 then "ellipse" else if g.decides node then "diamond" else "box"

def Graph.toDot (g : Graph) (name : String) : String :=
  let head := if name.isEmpty then "digraph \x7b" else "digraph " ++ identifier name ++ " \x7b"
  let nodes := g.nodes.map fun n =>
    "\t" ++ toString n.id ++ " [label=" ++ identifier n.label ++ " shape=" ++ g.shape n.id ++ "]"
  let edges := g.edges.map fun e =>
    "\t" ++ toString e.source ++ " -> " ++ toString e.target ++ " [label=" ++
      identifier ((e.arm.map Arm.text).getD "") ++ "]"
  let lines := [head, "\trankdir=TB", "\tnode [fontname=Helvetica fontsize=10]"] ++
    nodes ++ edges ++ ["\x7d"]
  "\n".intercalate lines ++ "\n"

end Assay
