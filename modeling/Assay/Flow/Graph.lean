import Assay.Program.Text

/-! Control-flow graphs. Every statement is a node, numbered in the order of the text; it hangs
below the program's start, a branch or a loop body. The body of a loop leads back to the loop's
node, and no edge marks the exit. -/
namespace Assay

structure Node where
  id : Nat
  label : String
  deriving DecidableEq, Repr

inductive Arm where
  | yes
  | no
  deriving DecidableEq, Repr

def Arm.text : Arm → String
  | .yes => "T"
  | .no => "F"

structure Edge where
  source : Nat
  target : Nat
  arm : Option Arm
  deriving DecidableEq, Repr

structure Graph where
  nodes : List Node
  edges : List Edge
  deriving DecidableEq, Repr

namespace Graph

def empty : Graph := ⟨[], []⟩

def size (g : Graph) : Nat := g.nodes.length

def addNode (g : Graph) (label : String) : Graph := { g with nodes := g.nodes ++ [⟨g.size, label⟩] }

def addEdge (g : Graph) (source target : Nat) (arm : Option Arm) : Graph :=
  { g with edges := g.edges ++ [⟨source, target, arm⟩] }

def hang (g : Graph) (parent : Nat) (label : String) (arm : Option Arm) : Graph :=
  (g.addNode label).addEdge parent g.size arm

end Graph

variable {ω : Type} [Stray ω]

namespace Stmt

mutual

def graph (parent : Nat) (g : Graph) : Stmt ω → Graph
  | .assign a => g.hang parent a.header none
  | .assert c => g.hang parent ((Stmt.assert c).header?.getD "") none
  | .branch c t e =>
    let node := g.size
    let g := g.hang parent ((Stmt.branch c t e).header?.getD "") none
    let g := graphAll (node + 1) (g.hang node "Then" (some .yes)) t
    graphAll g.size (g.hang node "Else" (some .no)) e
  | .whileLoop c b =>
    let node := g.size
    let g := g.hang parent ((Stmt.whileLoop c b).header?.getD "") none
    let g := graphAll (node + 1) (g.hang node "Loop Body" (some .yes)) b
    g.addEdge (node + 1) node none
  | .forLoop i c u b =>
    let node := g.size
    let g := g.hang parent ((Stmt.forLoop i c u b).header?.getD "") none
    let g := graphAll (node + 1) (g.hang node "Loop Body" (some .yes)) b
    (g.hang (node + 1) u.header none).addEdge (node + 1) node none
  | .strayFor m i c u b =>
    let node := g.size
    let g := g.hang parent ((Stmt.strayFor m i c u b).header?.getD "") none
    let g := graphAll (node + 1) (g.hang node "Loop Body" (some .yes)) b
    (graph (node + 1) g u).addEdge (node + 1) node none
  | .stray _ => g

def graphAll (parent : Nat) (g : Graph) : List (Stmt ω) → Graph
  | [] => g
  | s :: rest => graphAll parent (graph parent g s) rest

end

def headerFaults (s : Stmt ω) : List Error := if s.headerTooLong then [.longWritten] else []

mutual

/-- What a graph has no node for, and headers that cannot be written. -/
def graphFaults : Stmt ω → List Error
  | .branch c t e =>
    headerFaults (.branch c t e) ++ graphFaultsAll t ++ graphFaultsAll e
  | .whileLoop c b => headerFaults (.whileLoop c b) ++ graphFaultsAll b
  | .forLoop i c u b =>
    headerFaults (.forLoop i c u b) ++ graphFaultsAll b ++ headerFaults (.assign u)
  | .strayFor m i c u b =>
    headerFaults (.strayFor m i c u b) ++ graphFaultsAll b ++ graphFaults u
  | .assign a => headerFaults (.assign a)
  | .assert c => headerFaults (.assert c)
  | .stray s => [unknownPart .cfg s]

def graphFaultsAll : List (Stmt ω) → List Error
  | [] => []
  | s :: rest => graphFaults s ++ graphFaultsAll rest

end

end Stmt

def Graph.extend (g : Graph) (p : Program ω) : Graph :=
  Stmt.graphAll g.size (g.addNode "Program Start") p

def Program.graph (p : Program ω) : Graph := Graph.empty.extend p

def Graph.add (g : Graph) (p : Program ω) : Except Error Graph := do
  firstFault (Stmt.graphFaultsAll p)
  return g.extend p

def Graph.toValue (g : Graph) : Value :=
  .object [
    ("nodes", .list (g.nodes.map fun n => .object [("id", .int n.id), ("label", .text n.label)])),
    ("edges", .list (g.edges.map fun e => .object (
      [("from", .int e.source), ("to", .int e.target)] ++
        match e.arm with
        | none => []
        | some arm => [("label", .text arm.text)])))]

end Assay
