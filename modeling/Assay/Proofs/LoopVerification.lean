import Assay.Proofs.Tracing
import Assay.Proofs.Unrolling

/-! The script of a program with loops. It is about traversals: it has a model if and only if some
traversal fails an assertion. Executions in which no loop takes a second round are traversals, so
their failures are found, as they are in the program unrolled once. Later rounds of a loop begin
with values that no traversal need have, and a failure there can be missed. -/
namespace Assay

open Smt

namespace Program

theorem traced (p : Program Empty) :
    Built.Traces .empty [] (p.construct.versions, p.stream) (Stmt.targetsAll p) p.Traverses :=
  Stmt.buildAll_traces [] .empty p Versions.sound_empty (fun _ member => nomatch member)
    fun _ => Iff.rfl

theorem traversal_of_solution (p : Program Empty) {sorts : Sorts} {m input : Valuation}
    (sorted : p.stream.Sorted sorts) (solves : p.stream.Solves sorts m)
    (mirrors : Mirrors sorts m (fun _ => 0) input) :
    ∃ r, p.Traverses input r ∧ Built.Ends sorts m (p.construct.versions, p.stream) r :=
  p.traced.follows sorts m input solves sorted mirrors fun _ member => nomatch member

theorem solution_of_traversal (p : Program Empty) {sorts : Sorts} {input : Valuation} {r : Ran}
    (sorted : p.stream.Sorted sorts) (goes : p.Traverses input r) :
    ∃ m, Mirrors sorts m (fun _ => 0) input ∧
      Built.Ends sorts m (p.construct.versions, p.stream) r := by
  have start := Mirrors.stems sorts input
  obtain ⟨m, keeps, ends⟩ := p.traced.realized sorts _ input r sorted start
    (fun _ member => nomatch member) goes
  exact ⟨m, keeps.mirrors (fun _ => Nat.zero_le _) start, ends⟩

theorem satisfiable_iff_traversal {p : Program Empty} {script : Script Empty}
    (encodes : p.stream.encoded = .ok script) :
    script.Satisfiable ↔ ∃ input r, p.Traverses input r ∧ 0 ∈ r.2 := by
  have encoded := Stream.encoded_spec encodes
  constructor
  · rintro ⟨m, models⟩
    obtain ⟨solves, fails⟩ := (encoded.models m).mp models
    obtain ⟨r, goes, ends⟩ := p.traversal_of_solution encoded.sorted solves (Mirrors.inputs _ m)
    exact ⟨_, r, goes, Classical.byContradiction fun clean => fails (ends.passes.mpr clean)⟩
  · rintro ⟨input, r, goes, zero⟩
    obtain ⟨m, -, ends⟩ := p.solution_of_traversal encoded.sorted goes
    exact ⟨m, (encoded.models m).mpr ⟨ends.solves, fun passes => ends.passes.mp passes zero⟩⟩

theorem satisfiable_of_run {p : Program Empty} {script : Script Empty}
    (encodes : p.stream.encoded = .ok script) {input : Valuation}
    (zero : 0 ∈ (p.run 1 input).2) : script.Satisfiable :=
  (satisfiable_iff_traversal encodes).mpr
    ⟨input, p.run 1 input, Stmt.traversesAll_run [] p input, zero⟩

theorem satisfiable_unrolled_once {p : Program Empty} {flat : Script Empty}
    (encodes : (p.unrolled 1).stream.encoded = .ok flat) :
    flat.Satisfiable ↔ ∃ input, 0 ∈ (p.run 1 input).2 := by
  have runs : ∀ input r, (p.unrolled 1).Traverses input r ↔ r = p.run 1 input := by
    intro input r
    have course := Stmt.traversesAll_loopFree 0 [] _ (Stmt.loopFreeAll_unrollAll 1 p)
    rw [Stmt.runAll_unrollAll] at course
    exact iff_of_eq (congrFun (congrFun course input) r)
  rw [satisfiable_iff_traversal encodes]
  constructor
  · rintro ⟨input, r, goes, zero⟩
    rw [(runs input r).mp goes] at zero
    exact ⟨input, zero⟩
  · rintro ⟨input, zero⟩
    exact ⟨input, _, (runs input _).mpr rfl, zero⟩

end Program

/-- The script of a program has a model if and only if some traversal fails an assertion. A failure
that comes before any entry of a loop begins a second round gives a model; that there is no model
speaks for all executions just where each failing one has a failing traversal beside it. -/
theorem script_models_failing_traversals (p : Program Empty) (script : Script Empty)
    (encodes : p.stream.encoded = .ok script) :
    (script.Satisfiable ↔ ∃ input r, p.Traverses input r ∧ 0 ∈ r.2) ∧
      (¬ script.Satisfiable → ∀ input, ¬ p.CanFailWithin 1 input) ∧
      ((¬ script.Satisfiable → ∀ input, ¬ p.CanFail input) ↔
        ∀ input, p.CanFail input → ∃ start r, p.Traverses start r ∧ 0 ∈ r.2) := by
  have traversals := Program.satisfiable_iff_traversal encodes
  refine ⟨traversals, ?_, ?_, ?_⟩
  · intro unsatisfiable input fails
    exact unsatisfiable (Program.satisfiable_of_run encodes fails.fails)
  · intro sound input fails
    refine traversals.mp (Classical.byContradiction fun unsatisfiable => ?_)
    exact sound unsatisfiable input fails
  · intro covered unsatisfiable input fails
    exact unsatisfiable (traversals.mpr (covered input fails))

/-- Counts up to a limit and asserts that the count stays below another. -/
def countUpTo (limit below : Int) : Program Empty :=
  [.assign ⟨"x", .lit 0⟩,
    .whileLoop (.binary (.compare .lt) (.var "x") (.lit limit))
      [.assign ⟨"x", .binary (.compute .add) (.var "x") (.lit 1)⟩],
    .assert (.binary (.compare .lt) (.var "x") (.lit below))]

theorem script_models_failing_traversals_countUpTo :
    ∃ script, (countUpTo 1 1).stream.encoded = .ok script ∧ script.Satisfiable := by
  obtain ⟨script, encodes⟩ := exists_ok (x := (countUpTo 1 1).stream.encoded) (by decide +kernel)
  let input : Valuation := ⟨fun _ => 0, fun _ _ => 0, fun _ => 0⟩
  let start := (countUpTo 1 1).start input
  have within : ∀ k ≤ 6, (Execution.advance k start).Within 1 := by decide
  have fails : (countUpTo 1 1).CanFailWithin 1 input :=
    ⟨_, Execution.reachesWithin_advance 6 start within, by decide⟩
  refine ⟨script, encodes, Classical.byContradiction fun unsatisfiable => ?_⟩
  exact (script_models_failing_traversals _ script encodes).2.1 unsatisfiable input fails

/-- A traversal of a counting loop leaves it with one, since the round cannot begin with the value
it ends with. -/
theorem countUpTo_traversal {limit below : Int} (positive : 0 < limit) {input : Valuation} {r : Ran}
    (goes : (countUpTo limit below).Traverses input r) :
    r.1.int "x" = 1 ∧ r.2 = [if 1 < below then 1 else 0] := by
  unfold countUpTo Program.Traverses at goes
  simp only [Stmt.traversesAll, Stmt.traverses] at goes
  obtain ⟨_, _, rfl, ⟨a, _, loop, ⟨_, _, rfl, rfl, rfl⟩, rfl⟩, rfl⟩ := goes
  have entered : Expr.holds (Assign.run ⟨"x", .lit 0⟩ input)
      (.binary (.compare .lt) (.var "x") (.lit limit)) = true := by
    simp [Expr.holds, Expr.eval, Assign.run, truth, Comparison.holds, positive]
  rw [passage, if_pos entered] at loop
  obtain ⟨w, carried, _, _, rfl, rfl, rfl⟩ := loop
  have begins : w.int "x" = 0 := by
    rcases carried.int "x" with fresh | ⟨-, -, back⟩
    · simpa [Assign.run, Expr.eval] using fresh
    · have counted : (Assign.run ⟨"x", .binary (.compute .add) (.var "x") (.lit 1)⟩ w).int "x" =
          w.int "x" + 1 := by
        simp [Assign.run, Expr.eval, Valuation.compute, Arithmetic.eval?]
      have same := back.trans counted
      omega
  simp [Assign.run, Expr.eval, Valuation.compute, Arithmetic.eval?, begins, truth, Comparison.holds]

/-- The second round of a loop can fail an assertion although the script has no model. -/
theorem second_round_not_covered :
    ∃ script, (countUpTo 2 2).stream.encoded = .ok script ∧ ¬ script.Satisfiable ∧
      ∃ input, (countUpTo 2 2).CanFail input := by
  obtain ⟨script, encodes⟩ := exists_ok (x := (countUpTo 2 2).stream.encoded) (by decide +kernel)
  refine ⟨script, encodes, ?_, ?_⟩
  · rw [Program.satisfiable_iff_traversal encodes]
    rintro ⟨input, r, goes, zero⟩
    rw [(countUpTo_traversal (by decide) goes).2] at zero
    simp at zero
  · let input : Valuation := ⟨fun _ => 0, fun _ _ => 0, fun _ => 0⟩
    exact ⟨input, _, Execution.reaches_advance 8 ((countUpTo 2 2).start input), by decide⟩

/-- A failure in the program unrolled once is a failure of the program where no loop takes a second
round, and the script of the program finds it. -/
theorem once_unrolled_failure_found (p q : Program Empty) (unrolls : p.unroll 1 = .ok q)
    (script flat : Script Empty) (encodes : p.stream.encoded = .ok script)
    (flatEncodes : q.stream.encoded = .ok flat) :
    (flat.Satisfiable → script.Satisfiable) ∧
      (flat.Satisfiable ↔ ∃ input, 0 ∈ (p.run 1 input).2) ∧
      ∀ input, p.CanFailWithin 1 input → flat.Satisfiable ∧ script.Satisfiable := by
  have unrolled : p.unrolled 1 = q := by
    unfold Program.unroll at unrolls
    rw [Stmt.unrollFaultsAll_eq_nil] at unrolls
    exact Except.ok.inj unrolls
  subst unrolled
  have runs := Program.satisfiable_unrolled_once flatEncodes
  have found : flat.Satisfiable → script.Satisfiable := by
    intro satisfiable
    obtain ⟨input, zero⟩ := runs.mp satisfiable
    exact Program.satisfiable_of_run encodes zero
  refine ⟨found, runs, fun input fails => ?_⟩
  have satisfiable := runs.mpr ⟨input, fails.fails⟩
  exact ⟨satisfiable, found satisfiable⟩

theorem once_unrolled_failure_found_countUpTo :
    ∃ q script flat, (countUpTo 1 1).unroll 1 = .ok q ∧
      (countUpTo 1 1).stream.encoded = .ok script ∧ q.stream.encoded = .ok flat ∧
      flat.Satisfiable ∧ script.Satisfiable := by
  obtain ⟨script, encodes⟩ := exists_ok (x := (countUpTo 1 1).stream.encoded) (by decide +kernel)
  obtain ⟨flat, flatEncodes⟩ := exists_ok (x := ((countUpTo 1 1).unrolled 1).stream.encoded)
    (by decide +kernel)
  obtain ⟨found, runs, -⟩ := once_unrolled_failure_found _ _ rfl script flat encodes flatEncodes
  have satisfiable := runs.mpr ⟨⟨fun _ => 0, fun _ _ => 0, fun _ => 0⟩, by decide⟩
  exact ⟨_, script, flat, rfl, encodes, flatEncodes, satisfiable, found satisfiable⟩

end Assay
