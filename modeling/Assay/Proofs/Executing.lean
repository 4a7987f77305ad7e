import Assay.Program.Meaning
import Mathlib.Logic.Relation

/-! Executions, one step after the other. A loop that was entered stays among what is left to do,
with the rounds that this entry has begun, and nothing bounds their number. An execution can be
looked at after any number of steps, whether it comes to an end or not. As long as no entry begins
more rounds than a bound allows, it does what the run with that bound does. -/
namespace Assay

/-- Something to do: a statement, or an entered loop with the rounds begun. -/
inductive Task where
  | stmt (s : Stmt Empty)
  | loop (cond : Expr Empty) (body : List (Stmt Empty)) (begun : Nat)

/-- What is left to do, the values of the names, and the values of the conditions asserted so
far. -/
structure Execution where
  left : List Task
  values : Valuation
  seen : List Int

def Task.begun : Task → Nat
  | .stmt _ => 0
  | .loop _ _ n => n

def Task.begin (rest : List Task) (v : Valuation) (seen : List Int) : Task → Execution
  | .stmt (.assign a) => ⟨rest, a.run v, seen⟩
  | .stmt (.assert c) => ⟨rest, v, seen ++ [c.eval v]⟩
  | .stmt (.branch c t e) => ⟨(if c.holds v then t else e).map .stmt ++ rest, v, seen⟩
  | .stmt (.whileLoop c b) => ⟨.loop c b 0 :: rest, v, seen⟩
  | .stmt (.forLoop i c u b) => ⟨.loop c (b ++ [.assign u]) 0 :: rest, i.run v, seen⟩
  | .loop c b n =>
    if c.holds v then ⟨b.map .stmt ++ .loop c b (n + 1) :: rest, v, seen⟩ else ⟨rest, v, seen⟩

namespace Execution

def step (e : Execution) : Option Execution :=
  match e.left with
  | [] => none
  | task :: rest => some (task.begin rest e.values e.seen)

def Within (most : Nat) (e : Execution) : Prop := ∀ t ∈ e.left, t.begun ≤ most

instance (most : Nat) (e : Execution) : Decidable (e.Within most) :=
  inferInstanceAs (Decidable (∀ t ∈ e.left, t.begun ≤ most))

def Reaches : Execution → Execution → Prop := Relation.ReflTransGen fun a b => a.step = some b

def ReachesWithin (most : Nat) : Execution → Execution → Prop :=
  Relation.ReflTransGen fun a b => a.step = some b ∧ b.Within most

def advance : Nat → Execution → Execution
  | 0, e => e
  | n + 1, e =>
    match e.step with
    | none => e
    | some next => advance n next

theorem reaches_advance (n : Nat) (e : Execution) : e.Reaches (advance n e) := by
  induction n generalizing e with
  | zero => exact .refl
  | succ n ih =>
    unfold advance
    split
    · exact .refl
    · rename_i next stepped
      exact .head stepped (ih next)

theorem reachesWithin_advance {most : Nat} (n : Nat) (e : Execution)
    (within : ∀ k ≤ n, (advance k e).Within most) : e.ReachesWithin most (advance n e) := by
  induction n generalizing e with
  | zero => exact .refl
  | succ n ih =>
    unfold advance
    split
    · exact .refl
    · rename_i next stepped
      have later : ∀ k ≤ n, (advance k next).Within most := by
        intro k le
        have whole := within (k + 1) (by omega)
        rwa [advance, stepped] at whole
      exact .head ⟨stepped, later 0 (Nat.zero_le n)⟩ (ih next later)

end Execution

namespace Program

def start (p : Program Empty) (input : Valuation) : Execution := ⟨p.map .stmt, input, []⟩

/-- The execution ends, with no entry of a loop taking more rounds than `most`. -/
def Finishes (most : Nat) (p : Program Empty) (input : Valuation) (r : Ran) : Prop :=
  (p.start input).ReachesWithin most ⟨[], r.1, r.2⟩

def CanFail (p : Program Empty) (input : Valuation) : Prop :=
  ∃ e, (p.start input).Reaches e ∧ 0 ∈ e.seen

/-- An asserted condition was false before any entry of a loop began more rounds than `most`. -/
def CanFailWithin (most : Nat) (p : Program Empty) (input : Valuation) : Prop :=
  ∃ e, (p.start input).ReachesWithin most e ∧ 0 ∈ e.seen

end Program

theorem Ran.andThen_assoc (r : Ran) (f g : Valuation → Ran) :
    (r.andThen f).andThen g = r.andThen fun v => (f v).andThen g := by
  simp [andThen]

theorem Ran.nil_andThen (v : Valuation) (f : Valuation → Ran) : Ran.andThen (v, []) f = f v := rfl

@[simp] theorem Ran.andThen_nil (r : Ran) : (r.andThen fun v => (v, [])) = r := by
  simp [andThen]

theorem Stmt.runAll_append (bound : Nat) (s t : List (Stmt Empty)) (v : Valuation) :
    runAll bound (s ++ t) v = (runAll bound s v).andThen (runAll bound t) := by
  induction s generalizing v with
  | nil => rw [List.nil_append, runAll, Ran.nil_andThen]
  | cons first s ih =>
    rw [List.cons_append, runAll, runAll, Ran.andThen_assoc]
    congr 1
    funext w
    exact ih w

theorem Stmt.runAll_snoc_assign (bound : Nat) (b : List (Stmt Empty)) (u : Assign Empty) :
    runAll bound (b ++ [.assign u]) =
      fun v => (runAll bound b v).andThen fun w => (u.run w, []) := by
  funext v
  rw [runAll_append]
  rfl

theorem rounds_skipped {cond : Expr Empty} {v : Valuation} (off : cond.holds v = false)
    (body : Valuation → Ran) (n : Nat) : rounds cond body n v = (v, []) := by
  cases n with
  | zero => rfl
  | succ n => simp [rounds, off]

def Task.run (bound : Nat) : Task → Valuation → Ran
  | .stmt s => s.run bound
  | .loop c b n => rounds c (Stmt.runAll bound b) (bound - n)

def Task.runAll (bound : Nat) : List Task → Valuation → Ran
  | [], v => (v, [])
  | t :: rest, v => (t.run bound v).andThen (Task.runAll bound rest)

theorem Task.runAll_stmts (bound : Nat) (p : List (Stmt Empty)) (rest : List Task)
    (v : Valuation) :
    Task.runAll bound (p.map .stmt ++ rest) v =
      (Stmt.runAll bound p v).andThen (Task.runAll bound rest) := by
  induction p generalizing v with
  | nil => rw [List.map_nil, List.nil_append, Stmt.runAll, Ran.nil_andThen]
  | cons s p ih =>
    rw [List.map_cons, List.cons_append, Task.runAll, Stmt.runAll, Ran.andThen_assoc]
    congr 1
    funext w
    exact ih w

namespace Execution

def outcome (bound : Nat) (e : Execution) : Ran :=
  Ran.andThen (e.values, e.seen) (Task.runAll bound e.left)

theorem outcome_start (bound : Nat) (p : Program Empty) (input : Valuation) :
    (p.start input).outcome bound = p.run bound input := by
  have whole := Task.runAll_stmts bound p [] input
  rw [List.append_nil] at whole
  unfold outcome Program.start
  rw [Ran.nil_andThen, whole]
  exact Ran.andThen_nil _

/-- A task that is begun keeps its outcome, unless a loop begins a round past the bound. -/
theorem outcome_begin (bound : Nat) (task : Task) (rest : List Task) (v : Valuation)
    (seen : List Int) (within : (task.begin rest v seen).Within bound) :
    (task.begin rest v seen).outcome bound = outcome bound ⟨task :: rest, v, seen⟩ := by
  have unfolded : outcome bound ⟨task :: rest, v, seen⟩ =
      Ran.andThen (v, seen) fun w => (task.run bound w).andThen (Task.runAll bound rest) := rfl
  rw [unfolded]
  cases task with
  | loop c b n =>
    simp only [Task.begin] at within ⊢
    cases chosen : c.holds v with
    | true =>
      rw [chosen, if_pos rfl] at within
      -- the round just begun is one of those left
      have begun : n + 1 ≤ bound := within (.loop c b (n + 1)) (by simp)
      have left : bound - n = (bound - (n + 1)) + 1 := by omega
      simp only [if_true, outcome, Task.runAll_stmts, Ran.andThen, left, rounds, chosen,
        Task.runAll, Task.run, List.append_assoc]
    | false => simp [outcome, Ran.andThen, Task.run, rounds_skipped chosen]
  | stmt s =>
    unfold Task.run
    match s with
    | .assign a => simp [Task.begin, outcome, Ran.andThen, Stmt.run]
    | .assert c => simp [Task.begin, outcome, Ran.andThen, Stmt.run]
    | .branch c t e =>
      cases chosen : c.holds v with
      | true => simp [Task.begin, outcome, Ran.andThen, Stmt.run, chosen, Task.runAll_stmts]
      | false => simp [Task.begin, outcome, Ran.andThen, Stmt.run, chosen, Task.runAll_stmts]
    | .whileLoop c b => simp [Task.begin, outcome, Ran.andThen, Stmt.run, Task.runAll, Task.run]
    | .forLoop i c u b =>
      simp [Task.begin, outcome, Ran.andThen, Stmt.run, Task.runAll, Task.run,
        Stmt.runAll_snoc_assign]

theorem outcome_step {bound : Nat} {a b : Execution} (stepped : a.step = some b)
    (within : b.Within bound) : b.outcome bound = a.outcome bound := by
  obtain ⟨left, v, seen⟩ := a
  cases left with
  | nil => contradiction
  | cons task rest =>
    obtain rfl : task.begin rest v seen = b := Option.some.inj stepped
    exact outcome_begin bound task rest v seen within

theorem outcome_reached {bound : Nat} {a b : Execution} (reaches : a.ReachesWithin bound b) :
    b.outcome bound = a.outcome bound := by
  induction reaches with
  | refl => rfl
  | tail _ last ih => exact (outcome_step last.1 last.2).trans ih

end Execution

namespace Program

theorem Finishes.run_eq {bound : Nat} {p : Program Empty} {input : Valuation} {r : Ran}
    (finishes : p.Finishes bound input r) : p.run bound input = r := by
  have same := Execution.outcome_reached finishes
  rw [Execution.outcome_start] at same
  rw [← same]
  exact Ran.andThen_nil r

theorem CanFailWithin.fails {bound : Nat} {p : Program Empty} {input : Valuation}
    (fails : p.CanFailWithin bound input) : 0 ∈ (p.run bound input).2 := by
  obtain ⟨e, reaches, zero⟩ := fails
  rw [← Execution.outcome_start, ← Execution.outcome_reached reaches]
  exact List.mem_append_left _ zero

end Program

end Assay
