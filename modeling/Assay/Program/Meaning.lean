import Assay.Program.Basic
import Assay.Valuation

/-! Runs of programs. An assertion does not stop a run; the run collects the values of the
conditions that it meets, in order. A bound limits the rounds of a loop each time the loop is
entered, and the run goes on behind the loop once they are used up. -/
namespace Assay

/-- The valuation after a run, and the values of the asserted conditions. -/
abbrev Ran := Valuation × List Int

def Ran.andThen (r : Ran) (next : Valuation → Ran) : Ran :=
  ((next r.1).1, r.2 ++ (next r.1).2)

def rounds (cond : Expr Empty) (body : Valuation → Ran) : Nat → Valuation → Ran
  | 0, v => (v, [])
  | n + 1, v => if cond.holds v then (body v).andThen (rounds cond body n) else (v, [])

def Assign.run (a : Assign Empty) (v : Valuation) : Valuation := v.set a.target (a.value.eval v)

namespace Stmt

mutual

def run (bound : Nat) : Stmt Empty → Valuation → Ran
  | .assign a, v => (a.run v, [])
  | .assert c, v => (v, [c.eval v])
  | .branch c t e, v => if c.holds v then runAll bound t v else runAll bound e v
  | .whileLoop c b, v => rounds c (runAll bound b) bound v
  | .forLoop i c u b, v =>
    rounds c (fun v => (runAll bound b v).andThen fun v => (u.run v, [])) bound (i.run v)

def runAll (bound : Nat) : List (Stmt Empty) → Valuation → Ran
  | [], v => (v, [])
  | s :: rest, v => (run bound s v).andThen (runAll bound rest)

end

end Stmt

def Program.run (bound : Nat) (p : Program Empty) (v : Valuation) : Ran := Stmt.runAll bound p v

def Program.fails (bound : Nat) (p : Program Empty) (v : Valuation) : Bool :=
  (p.run bound v).2.contains 0

end Assay
