import Assay.Session
import Assay.Flow.Dot
import Assay.Stream.Text

/-! The page of the web front end: what a form shows, item by item, and the session that stays
behind it. A session serves as long as the form asks for the same configuration. -/
namespace Assay

namespace Page

structure Inputs where
  mode : Mode
  unrolls : Bool
  depth : Int
  maxModels : Int
  encodeOptimized : Bool
  program : String
  first : String
  second : String
  pressed : Bool

def exampleProgram : String :=
  "x := 3;\nif (x < 5) \x7b\n  y := x + 1;\n\x7d else \x7b\n  y := x - 1;\n\x7d\nassert(y > 0);\n"

def exampleSecond : String := "x := 3;\ny := x + 1;\n"

/-- The form as it is first shown, with its button pressed. -/
def Inputs.initial : Inputs :=
  ⟨.verification, false, 3, 2, false, exampleProgram, exampleProgram, exampleSecond, true⟩

inductive Tab where
  | ast | ssa | optimized | cfg | smt | results
  deriving DecidableEq, Repr

def Tab.name : Tab → String
  | .ast => "AST"
  | .ssa => "SSA"
  | .optimized => "Optimized SSA"
  | .cfg => "CFG"
  | .smt => "SMT"
  | .results => "Results"

inductive Item where
  | title (text : String)
  | widget (label : String)
  | range (label : String) (low high start : Int) (disabled : Bool)
  | subheader (text : String)
  | code (text : String) (language : Option String)
  | chart (dot : String)
  | success (text : String)
  | info (text : String)
  | warning (text : String)
  | error (text : String)
  | write (text : String)
  | model (m : Model)
  | failure (e : Error)

structure Shown where
  tab : Option Tab
  item : Item

inductive Ending where
  | finished
  | stopped
  | failed (e : Error)

structure Service where
  session : Session
  solver : Solver

structure Visit where
  shown : List Shown
  ending : Ending
  service : Option Service
  isNew : Bool

def outside (item : Item) : Shown := ⟨none, item⟩

def plainChar (c : Char) : Char := if c = '\u00a0' || c = '\u200b' then ' ' else c

def plainSpaces (text : String) : String := String.ofList (text.toList.map plainChar)

def settings (f : Inputs) : Settings :=
  { encodeOptimized := .bool f.encodeOptimized
    unrollDepth := if f.unrolls then .int f.depth else .null
    maxModels := .int f.maxModels }

def head (f : Inputs) : List Shown :=
  [ outside (.title "MiniLang Verification & Equivalence"),
    outside (.widget "Mode"),
    outside (.widget "Unroll loops"),
    outside (.range "Unroll depth" 1 10 3 !f.unrolls),
    outside (.range "Counterexamples" 1 5 2 false),
    outside (.widget "Encode optimized SSA") ]

def widgets (f : Inputs) : List Shown :=
  (match f.mode with
    | .verification => [outside (.widget "Program to verify:")]
    | .equivalence => [outside (.widget "Program 1:"), outside (.widget "Program 2:")]) ++
    [outside (.widget "Run")]

def request (f : Inputs) : Request :=
  match f.mode with
  | .verification => .verify (plainSpaces f.program)
  | .equivalence => .compare (plainSpaces f.first) (plainSpaces f.second)

def analysisItems (title : String) (a : Analysis) : List (Except Error Shown) :=
  let part := fun (tab : Tab) (body : Except Error Item) =>
    [.ok (Shown.mk (some tab) (.subheader (tab.name ++ " " ++ title))),
      body.map (Shown.mk (some tab))]
  let code := fun (text : Except Error String) => text.map fun text => Item.code text none
  part .ast (code (a.program.outline "  ")) ++
    part .ssa (code a.construction.stream.write) ++
    part .optimized (code (a.optimized.getD []).write) ++
    part .cfg (.ok (.chart (a.graph.toDot "CFG")))

def scriptItem (r : Report) : Shown :=
  ⟨some .smt, match r.script with
    | some script => .code script.toText (some "lisp")
    | none => .info "No constraint script: the programs were rejected before solving."⟩

def resultItems (r : Report) : List Shown :=
  let items : List Item :=
    if r.outcome.isGood then [.success ("✅ " ++ r.message)]
    else if r.outcome = .inconclusive then [.warning r.message]
    else
      let label := match r.mode with
        | .verification => " counterexamples:"
        | .equivalence => " distinguishing inputs:"
      .error ("❌ " ++ r.message) ::
        if r.counterexamples.isEmpty then []
        else .write (toString r.counterexamples.length ++ label) :: r.counterexamples.map .model
  items.map fun item => ⟨some .results, item⟩

def reportItems (r : Report) : List (Except Error Shown) :=
  ((titled r.analyses).flatMap fun a => analysisItems a.1 a.2) ++
    (scriptItem r :: resultItems r).map .ok

def showAll : List (Except Error Shown) → List Shown × Ending
  | [] => ([], .finished)
  | .error e :: _ => ([], .failed e)
  | .ok item :: rest =>
    let (shown, ending) := showAll rest
    (item :: shown, ending)

/-- How an error of the analysis is shown; others end the visit. -/
def errorItems (e : Error) : List Shown × Ending :=
  match e with
  | .parse line reason =>
    ([outside (.error ("Parse error on line " ++ toString line ++ ": " ++ reason.message))],
      .stopped)
  | e =>
    if e.kind = .inProgress then ([outside (.warning "An analysis is already running.")], .stopped)
    else if e.kind.isAnalysis then ([outside (.failure e)], .stopped)
    else ([], .failed e)

def resultOf (result : Except Error Report) : List Shown × Ending :=
  match result with
  | .error e => errorItems e
  | .ok report => showAll (reportItems report)

def answer (service : Service) (f : Inputs) : Service × List Shown × Ending :=
  match (service.session.serve service.solver (request f)).trace.1 with
  | .error e => (service, errorItems e)
  | .ok (session, result) => ({ service with session := session }, resultOf result)

/-- The stored service if it fits the configuration, else a new one. -/
def choose (stored : Option Service) (config : Config) (solver : Solver) : Service × Bool :=
  match stored with
  | some service =>
    if service.session.config = config then (service, false)
    else (⟨.idle config, solver⟩, true)
  | none => (⟨.idle config, solver⟩, true)

def visit (stored : Option Service) (solver : Solver) (f : Inputs) : Visit :=
  match (settings f).check with
  | .error e => ⟨head f, .failed e, stored, false⟩
  | .ok config =>
    let (service, isNew) := choose stored config solver
    let (service, shown, ending) :=
      if f.pressed then answer service f else (service, [], .finished)
    ⟨head f ++ widgets f ++ shown, ending, some service, isNew⟩

end Page

end Assay
