import Assay.Proofs.Executing
import Assay.Proofs.Simulation
import Assay.Program.Unroll

/-! Unrolling. The unrolled program has no loops and runs as the program does where every entry of
a loop is cut off after `depth` rounds: the copies of the body stand one inside the other, and an
inner loop was unrolled before it is copied. Executions that need no more rounds are not cut off. -/
namespace Assay

namespace Stmt

theorem runAll_nest (bound : Nat) (cond : Expr Empty) (body : List (Stmt Empty)) (depth : Nat) :
    runAll bound (nest cond body depth) = rounds cond (runAll bound body) depth := by
  induction depth with
  | zero => rfl
  | succ depth ih =>
    funext v
    rw [nest, runAll, run, rounds]
    cases cond.holds v with
    | true => simp only [if_true, runAll_append, ih, runAll, Ran.andThen_nil]
    | false => simp [runAll]

mutual

theorem runAll_unroll (bound depth : Nat) (s : Stmt Empty) :
    runAll bound (unroll depth s) = run depth s := by
  match s with
  | .assign a =>
    funext v
    simp only [unroll, runAll, run, Ran.andThen_nil]
  | .assert c =>
    funext v
    simp only [unroll, runAll, run, Ran.andThen_nil]
  | .branch c t e =>
    funext v
    simp only [unroll, runAll, run, Ran.andThen_nil, runAll_unrollAll bound depth t,
      runAll_unrollAll bound depth e]
  | .whileLoop c b =>
    funext v
    rw [unroll, runAll_nest, runAll_unrollAll bound depth b, run]
  | .forLoop i c u b =>
    funext v
    rw [unroll, runAll, run, Ran.nil_andThen, runAll_nest, runAll_snoc_assign,
      runAll_unrollAll bound depth b, run]

theorem runAll_unrollAll (bound depth : Nat) (p : List (Stmt Empty)) :
    runAll bound (unrollAll depth p) = runAll depth p := by
  match p with
  | [] =>
    funext v
    simp only [unrollAll, runAll]
  | s :: rest =>
    funext v
    rw [unrollAll, runAll_append, runAll_unroll bound depth s, runAll_unrollAll bound depth rest,
      runAll]

end

theorem loopFreeAll_append (s t : List (Stmt Empty)) :
    loopFreeAll (s ++ t) = (loopFreeAll s && loopFreeAll t) := by
  induction s with
  | nil => simp [loopFreeAll]
  | cons first s ih => rw [List.cons_append, loopFreeAll, loopFreeAll, ih, Bool.and_assoc]

theorem loopFreeAll_nest (cond : Expr Empty) {body : List (Stmt Empty)}
    (flat : loopFreeAll body = true) (depth : Nat) : loopFreeAll (nest cond body depth) = true := by
  induction depth with
  | zero => rfl
  | succ depth ih => simp [nest, loopFreeAll, loopFree, loopFreeAll_append, flat, ih]

mutual

theorem loopFreeAll_unroll (depth : Nat) (s : Stmt Empty) :
    loopFreeAll (unroll depth s) = true := by
  match s with
  | .assign a => rfl
  | .assert c => rfl
  | .branch c t e =>
    simp [unroll, loopFreeAll, loopFree, loopFreeAll_unrollAll depth t,
      loopFreeAll_unrollAll depth e]
  | .whileLoop c b => exact loopFreeAll_nest c (loopFreeAll_unrollAll depth b) depth
  | .forLoop i c u b =>
    have body : loopFreeAll (unrollAll depth b ++ [.assign u]) = true := by
      rw [loopFreeAll_append, loopFreeAll_unrollAll depth b]
      rfl
    exact loopFreeAll_nest c body depth

theorem loopFreeAll_unrollAll (depth : Nat) (p : List (Stmt Empty)) :
    loopFreeAll (unrollAll depth p) = true := by
  match p with
  | [] => rfl
  | s :: rest =>
    rw [unrollAll, loopFreeAll_append, loopFreeAll_unroll depth s,
      loopFreeAll_unrollAll depth rest]
    rfl

end

mutual

theorem unrollFaults_eq_nil (s : Stmt Empty) : unrollFaults s = [] := by
  match s with
  | .assign a => rfl
  | .assert c => rfl
  | .branch c t e =>
    rw [unrollFaults, unrollFaultsAll_eq_nil t, unrollFaultsAll_eq_nil e]
    rfl
  | .whileLoop c b => exact unrollFaultsAll_eq_nil b
  | .forLoop i c u b => exact unrollFaultsAll_eq_nil b

theorem unrollFaultsAll_eq_nil (p : List (Stmt Empty)) : unrollFaultsAll p = [] := by
  match p with
  | [] => rfl
  | s :: rest =>
    rw [unrollFaultsAll, unrollFaults_eq_nil s, unrollFaultsAll_eq_nil rest]
    rfl

end

end Stmt

namespace Execution

variable {most : Nat}

theorem within_stmts (p : List (Stmt Empty)) {rest : List Task} {v : Valuation} {seen : List Int}
    (within : Within most ⟨rest, v, seen⟩) : Within most ⟨p.map .stmt ++ rest, v, seen⟩ := by
  intro t member
  rcases List.mem_append.mp member with stands | stands
  · obtain ⟨s, -, rfl⟩ := List.mem_map.mp stands
    exact Nat.zero_le most
  · exact within t stands

mutual

theorem performs (bound : Nat) (s : Stmt Empty) (flat : Stmt.loopFree s = true)
    (rest : List Task) (v : Valuation) (seen : List Int) (within : Within most ⟨rest, v, seen⟩) :
    ReachesWithin most ⟨.stmt s :: rest, v, seen⟩
      ⟨rest, (Stmt.run bound s v).1, seen ++ (Stmt.run bound s v).2⟩ := by
  match s with
  | .assign a =>
    refine .single ⟨?_, within⟩
    simp [step, Task.begin, Stmt.run]
  | .assert c =>
    refine .single ⟨?_, within⟩
    simp [step, Task.begin, Stmt.run]
  | .branch c t e =>
    unfold Stmt.loopFree at flat
    obtain ⟨flatThen, flatElse⟩ := Bool.and_eq_true_iff.mp flat
    have first : step ⟨.stmt (.branch c t e) :: rest, v, seen⟩ =
        some ⟨(if c.holds v then t else e).map .stmt ++ rest, v, seen⟩ := rfl
    refine .head ⟨first, within_stmts _ within⟩ ?_
    rw [Stmt.run]
    cases c.holds v with
    | true => exact performsAll bound t flatThen rest v seen within
    | false => exact performsAll bound e flatElse rest v seen within

theorem performsAll (bound : Nat) (p : List (Stmt Empty)) (flat : Stmt.loopFreeAll p = true)
    (rest : List Task) (v : Valuation) (seen : List Int) (within : Within most ⟨rest, v, seen⟩) :
    ReachesWithin most ⟨p.map .stmt ++ rest, v, seen⟩
      ⟨rest, (Stmt.runAll bound p v).1, seen ++ (Stmt.runAll bound p v).2⟩ := by
  match p with
  | [] =>
    simp only [List.map_nil, List.nil_append, Stmt.runAll, List.append_nil]
    exact .refl
  | s :: p =>
    unfold Stmt.loopFreeAll at flat
    obtain ⟨head, tail⟩ := Bool.and_eq_true_iff.mp flat
    have first := performs bound s head _ v seen (within_stmts p within)
    have later := performsAll bound p tail rest (Stmt.run bound s v).1
      (seen ++ (Stmt.run bound s v).2) within
    rw [Stmt.runAll, Ran.andThen, ← List.append_assoc]
    exact first.trans later

end

end Execution

theorem Program.LoopFree.finishes {p : Program Empty} (flat : p.LoopFree) (bound : Nat)
    (input : Valuation) : p.Finishes 0 input (p.run bound input) := by
  have nothing : Execution.Within 0 ⟨[], input, []⟩ := nofun
  have performed := Execution.performsAll bound p flat [] input [] nothing
  rwa [List.append_nil] at performed

/-- Unrolling gives a program without loops that finishes as the run with bounded loops does. An
execution of the program in which no entry of a loop takes more rounds than the depth ends in the
same way as that of the unrolled program. -/
theorem unrolled_runs_bounded_loops (p : Program Empty) (depth : Nat) (positive : 1 ≤ depth) :
    ∃ q, p.unroll depth = .ok q ∧ q.LoopFree ∧ ∀ input,
      q.Finishes 0 input (p.run depth input) ∧
      (∀ bound, q.run bound input = p.run depth input) ∧
      ∀ r, p.Finishes depth input r → q.Finishes 0 input r := by
  have flat : (p.unrolled depth).LoopFree := Stmt.loopFreeAll_unrollAll depth p
  have runs : ∀ bound input, (p.unrolled depth).run bound input = p.run depth input :=
    fun bound input => congrFun (Stmt.runAll_unrollAll bound depth p) input
  refine ⟨p.unrolled depth, ?_, flat, fun input => ⟨?_, fun bound => runs bound input, ?_⟩⟩
  · have enough : ¬ (depth : Int) < 1 := by omega
    unfold Program.unroll
    rw [if_neg enough, Stmt.unrollFaultsAll_eq_nil]
    rfl
  · rw [← runs 0 input]
    exact flat.finishes 0 input
  · intro r finishes
    rw [← finishes.run_eq, ← runs 0 input]
    exact flat.finishes 0 input

/-- A loop that adds up the numbers below two, with a loop inside that is entered anew in every
round. -/
def nestedCount : Program Empty :=
  [.forLoop ⟨"i", .lit 0⟩ (.binary (.compare .lt) (.var "i") (.lit 2))
    ⟨"i", .binary (.compute .add) (.var "i") (.lit 1)⟩
    [.assign ⟨"j", .var "i"⟩,
      .whileLoop (.var "j")
        [.assign ⟨"s", .binary (.compute .add) (.var "s") (.lit 1)⟩,
          .assign ⟨"j", .binary (.compute .sub) (.var "j") (.lit 1)⟩]],
    .assert (.binary (.compare .eq) (.var "s") (.lit 1))]

theorem unrolled_runs_bounded_loops_nestedCount :
    ∃ q r input, nestedCount.unroll 2 = .ok q ∧ nestedCount.Finishes 2 input r ∧
      q.Finishes 0 input r ∧ r.2 = [1] := by
  obtain ⟨q, unrolls, -, runs⟩ := unrolled_runs_bounded_loops nestedCount 2 (by decide)
  let input : Valuation := ⟨fun _ => 0, fun _ _ => 0, fun _ => 0⟩
  let last := Execution.advance 20 (nestedCount.start input)
  have within : ∀ k ≤ 20, (Execution.advance k (nestedCount.start input)).Within 2 := by decide
  have finishes : nestedCount.Finishes 2 input (last.values, last.seen) :=
    Execution.reachesWithin_advance 20 (nestedCount.start input) within
  exact ⟨q, _, input, unrolls, finishes, (runs input).2.2 _ finishes, by decide⟩

end Assay
