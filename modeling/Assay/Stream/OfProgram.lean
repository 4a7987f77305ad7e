import Assay.Program.Basic
import Assay.Stream.Basic
import Assay.Stream.Versions
import Assay.Log

/-! Streams of programs. Every write gets a fresh version. Phis join the versions behind a
branch where its arms differ; a loop is taken through once, with a phi for every live name at
its entry and one for every changed name at its exit. -/
namespace Assay

variable {ω : Type}

abbrev Built (ω : Type) := Versions × Stream ω

def Expr.versioned (v : Versions) (e : Expr ω) : Expr ω := e.mapNames v.symbolOf

def Assign.build (v : Versions) (a : Assign ω) : Built ω :=
  let after := (v.touchAll a.value.names).bump a.target
  (after, [.assign (after.symbolOf a.target) (a.value.versioned v)])

def Built.andThen (first : Built ω) (next : Versions → Built ω) : Built ω :=
  let second := next first.1
  (second.1, first.2 ++ second.2)

def joinArms (guard : Expr ω) (afterThen afterElse : Entries Nat) :
    List String → Versions → Built ω
  | [], v => (v, [])
  | name :: names, v =>
    let t := (afterThen.get? name).getD 0
    let e := (afterElse.get? name).getD 0
    if t = e then joinArms guard afterThen afterElse names v
    else
      let bumped := v.bump name
      let more := joinArms guard afterThen afterElse names bumped
      (more.1, .phi (bumped.symbolOf name) [symbol name t, symbol name e] (some guard) :: more.2)

def joinNames (afterThen afterElse : Entries Nat) : List String :=
  afterThen.keys ++ afterElse.keys.filter fun n => !afterThen.has n

def buildBranch (cond : Expr ω) (path : List (Expr ω)) (v : Versions)
    (runThen runElse : List (Expr ω) → Versions → Built ω) : Built ω :=
  let guard := cond.versioned v
  let before := v.touchAll cond.names
  let t := runThen (path ++ [guard]) before
  let e := runElse (path ++ [guard.not]) (t.1.restore before.current)
  let joined := joinArms guard t.1.current e.1.current
    (joinNames t.1.current e.1.current) e.1
  (joined.1, t.2 ++ e.2 ++ joined.2)

/-- The phi at a loop's entry. It has a second operand if the body changes the name. -/
def entryPhi (before : Entries Nat) (entered left : Versions) (name : String) : Instr ω :=
  let entry := symbol name ((before.get? name).getD 0)
  let back := left.version name
  if back = entered.version name then .phi (entered.symbolOf name) [entry] none
  else .phi (entered.symbolOf name) [entry, symbol name back] none

/-- Names that the body leaves alone have the version from before the loop again. -/
def settle (before : Entries Nat) (entered left : Versions) : Versions :=
  before.keys.foldl (fun v name =>
    if left.version name = entered.version name then
      { v with current := v.current.put name ((before.get? name).getD 0) }
    else v) left

def exitPhis (guard : Expr ω) (before : Entries Nat) : Entries Nat → Versions → Built ω
  | [], v => (v, [])
  | (name, n) :: rest, v =>
    let m := (before.get? name).getD 0
    if n = m then exitPhis guard before rest v
    else
      let bumped := v.bump name
      let more := exitPhis guard before rest bumped
      (more.1, .phi (bumped.symbolOf name) [symbol name m, symbol name n] (some guard) :: more.2)

def buildLoop (cond : Expr ω) (path : List (Expr ω)) (v : Versions)
    (run : List (Expr ω) → Versions → Built ω) : Built ω :=
  let guard := cond.versioned v
  let before := (v.touchAll cond.names).current
  let entered := (v.touchAll cond.names).bumpAll before.keys
  let body := run (path ++ [guard]) entered
  let settled := settle before entered body.1
  let exits := exitPhis guard.not before settled.current settled
  (exits.1, before.keys.map (entryPhi before entered body.1) ++ body.2 ++ exits.2)

namespace Stmt

mutual

def build (path : List (Expr ω)) (v : Versions) : Stmt ω → Built ω
  | .assign a => a.build v
  | .assert c => (v.touchAll c.names, [.assert (c.versioned v) path])
  | .branch c t e =>
    buildBranch c path v (fun p v => buildAll p v t) (fun p v => buildAll p v e)
  | .whileLoop c b => buildLoop c path v fun p v => buildAll p v b
  | .forLoop i c u b =>
    (i.build v).andThen fun v =>
      buildLoop c path v fun p v => (buildAll p v b).andThen u.build
  | .strayFor _ i c u b =>
    (build path v i).andThen fun v =>
      buildLoop c path v fun p v => (buildAll p v b).andThen fun v => build p v u
  | .stray _ => (v, [])

def buildAll (path : List (Expr ω)) (v : Versions) : List (Stmt ω) → Built ω
  | [] => (v, [])
  | s :: rest => (build path v s).andThen fun v => buildAll path v rest

end

mutual

def buildFaults [Stray ω] : Stmt ω → List Error
  | .assign a => a.value.unknowns .ssa
  | .assert c => c.unknowns .ssa
  | .branch c t e => c.unknowns .ssa ++ buildFaultsAll t ++ buildFaultsAll e
  | .whileLoop c b => c.unknowns .ssa ++ buildFaultsAll b
  | .forLoop i c u b =>
    i.value.unknowns .ssa ++ c.unknowns .ssa ++ buildFaultsAll b ++ u.value.unknowns .ssa
  | .strayFor _ i c u b =>
    buildFaults i ++ c.unknowns .ssa ++ buildFaultsAll b ++ buildFaults u
  | .stray s => [unknownPart .ssa s]

def buildFaultsAll [Stray ω] : List (Stmt ω) → List Error
  | [] => []
  | s :: rest => buildFaults s ++ buildFaultsAll rest

end

end Stmt

structure Construction (ω : Type) where
  versions : Versions
  stream : Stream ω

namespace Construction

def empty : Construction ω := ⟨.empty, []⟩

def extend (c : Construction ω) (p : Program ω) : Construction ω :=
  let built := Stmt.buildAll [] c.versions p
  ⟨built.1, c.stream ++ built.2⟩

def isTooLong (c : Construction ω) : Bool := c.versions.counters.any fun e => Text.isTooLong e.2

def extended [Stray ω] (c : Construction ω) (p : Program ω) : Except Error (Construction ω) := do
  firstFault (Stmt.buildFaultsAll p)
  if (c.extend p).isTooLong then throw .longWritten
  return c.extend p

def add [Stray ω] (c : Construction ω) (p : Program ω) : Traced (Construction ω) := do
  let c ← Traced.ofExcept (c.extended p)
  Traced.report .debug .ssa ("built " ++ toString c.stream.length ++ " SSA instructions")
  return c

end Construction

def Program.construct (p : Program ω) : Construction ω := Construction.empty.extend p

def Program.stream (p : Program ω) : Stream ω := p.construct.stream

def Program.finalVersions (p : Program ω) : Entries Nat := p.construct.versions.current

end Assay
