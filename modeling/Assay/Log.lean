import Assay.Error

/-! What an analysis reports while it runs. A traced computation collects records in order and
may end in an error; the records up to that point stay. -/
namespace Assay

inductive Level where
  | debug
  | info
  | warning
  | error
  deriving DecidableEq, Repr

def Level.name : Level → String
  | .debug => "DEBUG"
  | .info => "INFO"
  | .warning => "WARNING"
  | .error => "ERROR"

def Level.rank : Level → Nat
  | .debug => 10
  | .info => 20
  | .warning => 30
  | .error => 40

inductive Reporter where
  | parser
  | ssa
  | optimizer
  | encoder
  | config
  | pipeline
  | session
  deriving DecidableEq, Repr

def Reporter.name : Reporter → String
  | .parser => "minilang_verify.parser"
  | .ssa => "minilang_verify.ssa"
  | .optimizer => "minilang_verify.optimizer"
  | .encoder => "minilang_verify.smt_encoder"
  | .config => "minilang_verify.config"
  | .pipeline => "minilang_verify.pipeline"
  | .session => "minilang_verify.session"

structure Record where
  level : Level
  reporter : Reporter
  message : String
  deriving DecidableEq, Repr

def Record.line (r : Record) : String :=
  r.level.name ++ " " ++ r.reporter.name ++ ": " ++ r.message

abbrev Log := List Record

structure Trace where
  log : Log
  asked : Nat

def Trace.empty : Trace := ⟨[], 0⟩

abbrev Traced := ExceptT Error (StateM Trace)

namespace Traced

def report (level : Level) (reporter : Reporter) (message : String) : Traced Unit :=
  modify fun t => { t with log := t.log ++ [⟨level, reporter, message⟩] }

def countQuestion : Traced Unit := modify fun t => { t with asked := t.asked + 1 }

def ofExcept {α : Type} (r : Except Error α) : Traced α := ExceptT.mk (pure r)

/-- The result of a computation, an error included, without ending the run. -/
def capture {α : Type} (work : Traced α) : Traced (Except Error α) :=
  tryCatch (Except.ok <$> work) fun e => pure (.error e)

def trace {α : Type} (t : Traced α) : Except Error α × Trace :=
  Id.run (StateT.run (ExceptT.run t) Trace.empty)

end Traced

end Assay
