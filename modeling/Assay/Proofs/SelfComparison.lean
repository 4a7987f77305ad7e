import Assay.Proofs.Copying
import Assay.Proofs.Equivalence
import Assay.Proofs.LastDefinitions
import Assay.Proofs.LoopVerification

/-! Comparing programs with loops. A model of the comparison is a pair of traversals from one input
that pass all assertions and leave different outputs. The two copies of a program choose the values
that their rounds begin with on their own, so a program can be told apart from itself; it is not
where its passing traversals from one input leave the same outputs. -/
namespace Assay

open Smt

namespace Program

variable {p q : Program Empty} {sorts sorts' : Sorts} {m n : Valuation} {r s : Ran}

theorem traversals_of_joint (sorted : p.stream.Sorted sorts) (sorted' : q.stream.Sorted sorts')
    (joint : JointSolution p.stream q.stream sorts sorts' m n) :
    ∃ input r s, p.Traverses input r ∧ q.Traverses input s ∧ 0 ∉ r.2 ∧ 0 ∉ s.2 ∧
      Built.Ends sorts m (p.construct.versions, p.stream) r ∧
      Built.Ends sorts' n (q.construct.versions, q.stream) s := by
  obtain ⟨start, start'⟩ := joint.mirrors_common
  obtain ⟨r, goes, ends⟩ := p.traversal_of_solution sorted joint.first start
  obtain ⟨s, goes', ends'⟩ := q.traversal_of_solution sorted' joint.second start'
  exact ⟨_, r, s, goes, goes', ends.passes.mp joint.firstPasses,
    ends'.passes.mp joint.secondPasses, ends, ends'⟩

theorem joint_of_traversals (sorted : p.stream.Sorted sorts) (sorted' : q.stream.Sorted sorts')
    {input : Valuation} (goes : p.Traverses input r) (goes' : q.Traverses input s)
    (passes : 0 ∉ r.2) (passes' : 0 ∉ s.2) :
    ∃ m n, JointSolution p.stream q.stream sorts sorts' m n ∧
      Built.Ends sorts m (p.construct.versions, p.stream) r ∧
      Built.Ends sorts' n (q.construct.versions, q.stream) s := by
  obtain ⟨m, start, ends⟩ := p.solution_of_traversal sorted goes
  obtain ⟨n, start', ends'⟩ := q.solution_of_traversal sorted' goes'
  exact ⟨m, n, .of_mirrors start start' ends.solves ends'.solves (ends.passes.mpr passes)
    (ends'.passes.mpr passes'), ends, ends'⟩

theorem output_value (sorted : p.stream.Sorted sorts)
    (ends : Built.Ends sorts m (p.construct.versions, p.stream) r) {x : String}
    (target : x ∈ Stmt.targetsAll p) :
    ∃ y, Stream.last? x p.stream = some y ∧ m.int y = r.1.int x := by
  obtain ⟨y, last, copy⟩ := p.last_copies target
  have int := p.typed.final sorts sorted x target
  exact ⟨y, last, (copy.int_eq sorted ends.solves int).2.trans (ends.final.value x .int int)⟩

theorem outputsDiffer_iff_ends (sorted : p.stream.Sorted sorts) (sorted' : q.stream.Sorted sorts')
    (same : ∀ x, x ∈ Stmt.targetsAll p ↔ x ∈ Stmt.targetsAll q)
    (ends : Built.Ends sorts m (p.construct.versions, p.stream) r)
    (ends' : Built.Ends sorts' n (q.construct.versions, q.stream) s) :
    OutputsDiffer p.stream q.stream m n ↔ ∃ x ∈ Stmt.targetsAll p, r.1.int x ≠ s.1.int x := by
  constructor
  · rintro ⟨x, y, z, assigns, last, last', differ⟩
    have target : x ∈ Stmt.targetsAll p := (p.typed.assigned x).mp assigns
    obtain ⟨y', found, value⟩ := output_value sorted ends target
    obtain ⟨z', found', value'⟩ := output_value sorted' ends' ((same x).mp target)
    obtain rfl := Option.some.inj (last.symm.trans found)
    obtain rfl := Option.some.inj (last'.symm.trans found')
    rw [value, value'] at differ
    exact ⟨x, target, differ⟩
  · rintro ⟨x, target, differ⟩
    obtain ⟨y, last, value⟩ := output_value sorted ends target
    obtain ⟨z, last', value'⟩ := output_value sorted' ends' ((same x).mp target)
    rw [← value, ← value'] at differ
    exact ⟨x, y, z, (p.typed.assigned x).mpr target, last, last', differ⟩

theorem comparison_satisfiable_iff (regular : p.stream.Regular) (regular' : q.stream.Regular)
    {suffix : String} (apart : Separates suffix) {result : Comparing Empty}
    (ok : compareStreams p.stream q.stream suffix = .ok result) :
    result.script.Satisfiable ↔ ∃ input r s, p.Traverses input r ∧ q.Traverses input s ∧
      0 ∉ r.2 ∧ 0 ∉ s.2 ∧ ∃ x ∈ Stmt.targetsAll p, r.1.int x ≠ s.1.int x := by
  obtain ⟨names, compared, -⟩ := regular.compares regular' apart ok
  have same : ∀ x, x ∈ Stmt.targetsAll p ↔ x ∈ Stmt.targetsAll q := fun x =>
    (p.typed.assigned x).symm.trans ((names x).trans (q.typed.assigned x))
  rw [regular.compare_satisfiable regular' apart ok]
  constructor
  · rintro ⟨m, n, joint, differ⟩
    obtain ⟨input, r, s, goes, goes', passes, passes', ends, ends'⟩ :=
      traversals_of_joint compared.sorted compared.sorted' joint
    exact ⟨input, r, s, goes, goes', passes, passes',
      (outputsDiffer_iff_ends compared.sorted compared.sorted' same ends ends').mp differ⟩
  · rintro ⟨input, r, s, goes, goes', passes, passes', differ⟩
    obtain ⟨m, n, joint, ends, ends'⟩ :=
      joint_of_traversals compared.sorted compared.sorted' goes goes' passes passes'
    exact ⟨m, n, joint,
      (outputsDiffer_iff_ends compared.sorted compared.sorted' same ends ends').mpr differ⟩

end Program

/-- The comparison of a program with itself is built where its script is. It has no model if and
only if passing traversals from one input leave every assigned name with the same value; without
loops this is always so. -/
theorem self_comparison_unsatisfiable_iff (p : Program Empty) (c : Construction Empty)
    (built : Construction.empty.extended p = .ok c) (script : Script Empty)
    (encodes : c.stream.encoded = .ok script) (suffix : String) (apart : Separates suffix) :
    ∃ result, compareStreams c.stream c.stream suffix = .ok result ∧
      (¬ result.script.Satisfiable ↔ ∀ input r s, p.Traverses input r → p.Traverses input s →
        0 ∉ r.2 → 0 ∉ s.2 → ∀ x ∈ Stmt.targetsAll p, r.1.int x = s.1.int x) ∧
      (p.LoopFree → ¬ result.script.Satisfiable) := by
  obtain ⟨rfl, regular⟩ := Program.regular_of_extended built
  obtain ⟨result, compares⟩ := regular.self_compares apart encodes
  have models := Program.comparison_satisfiable_iff regular regular apart compares
  refine ⟨result, compares, ⟨?_, ?_⟩, ?_⟩
  · intro unsatisfiable input r s goes goes' passes passes' x target
    refine Classical.byContradiction fun differ => unsatisfiable (models.mpr ?_)
    exact ⟨input, r, s, goes, goes', passes, passes', x, target, differ⟩
  · intro equal satisfiable
    obtain ⟨input, r, s, goes, goes', passes, passes', x, target, differ⟩ := models.mp satisfiable
    exact differ (equal input r s goes goes' passes passes' x target)
  · intro flat satisfiable
    obtain ⟨input, r, s, goes, goes', -, -, x, -, differ⟩ := models.mp satisfiable
    unfold Program.Traverses at goes goes'
    rw [Stmt.traversesAll_loopFree 0 [] p flat] at goes goes'
    exact differ (by rw [goes, goes'])

theorem self_comparison_unsatisfiable_iff_countUpTo :
    ∃ c script result, Construction.empty.extended (countUpTo 2 2) = .ok c ∧
      c.stream.encoded = .ok script ∧ Separates "_b" ∧
      compareStreams c.stream c.stream "_b" = .ok result ∧ ¬ result.script.Satisfiable := by
  obtain ⟨c, built⟩ := exists_ok (x := Construction.empty.extended (countUpTo 2 2))
    (by decide +kernel)
  have same := (Program.regular_of_extended built).1
  obtain ⟨script, encodes⟩ := exists_ok (x := c.stream.encoded) (by
    rw [same]
    decide +kernel)
  have apart : Separates "_b" := ⟨'b', by decide⟩
  obtain ⟨result, compares, equal, -⟩ :=
    self_comparison_unsatisfiable_iff (countUpTo 2 2) c built script encodes "_b" apart
  refine ⟨c, script, result, built, encodes, apart, compares, equal.mpr ?_⟩
  intro input r s goes goes' _ _ x target
  obtain rfl : x = "x" := by simpa [countUpTo, Stmt.targetsAll, Stmt.targets] using target
  rw [(countUpTo_traversal (by decide) goes).1, (countUpTo_traversal (by decide) goes').1]

/-- Keeps the value that another name had before the round. -/
def lagging : Program Empty :=
  [.assign ⟨"x", .lit 0⟩,
    .whileLoop (.binary (.compare .lt) (.var "x") (.lit 1))
      [.assign ⟨"y", .var "x"⟩, .assign ⟨"x", .lit 1⟩]]

/-- The round may begin with the value from before the loop or with the one it ends with. -/
theorem lagging_traversal (input : Valuation) {n : Int} (choice : n = 0 ∨ n = 1) :
    ∃ r, lagging.Traverses input r ∧ r.1.int "y" = n ∧ r.2 = [] := by
  let v := Assign.run ⟨"x", .lit 0⟩ input
  let w := v.set "x" n
  let after := Assign.run ⟨"x", .lit 1⟩ (Assign.run ⟨"y", .var "x"⟩ w)
  refine ⟨(after, []), ?_, ?_, rfl⟩
  · have entered : Expr.holds v (.binary (.compare .lt) (.var "x") (.lit 1)) = true := by
      simp [v, Expr.holds, Expr.eval, Assign.run, truth, Comparison.holds]
    have carried : Carried ["x", "x"] ["y", "x"] v w after := by
      refine ⟨rfl, rfl, fun z => ?_⟩
      by_cases same : z = "x"
      · subst same
        rcases choice with rfl | rfl
        · left
          simp [v, w, Assign.run, Expr.eval]
        · right
          simp [w, after, Assign.run, Expr.eval]
      · left
        simp [w, same]
    unfold lagging Program.Traverses
    simp only [Stmt.traversesAll, Stmt.traverses]
    refine ⟨(v, []), (after, []), rfl, ⟨(after, []), (after, []), ?_, rfl, rfl⟩, rfl⟩
    rw [passage, if_pos entered]
    exact ⟨w, carried, _, _, rfl, ⟨_, _, rfl, rfl, rfl⟩, rfl⟩
  · simp [after, w, Assign.run, Expr.eval]

/-- A program with a loop can be told apart from itself. -/
theorem lagging_differs_from_itself :
    ∃ c script result, Construction.empty.extended lagging = .ok c ∧
      c.stream.encoded = .ok script ∧ compareStreams c.stream c.stream "_b" = .ok result ∧
      result.script.Satisfiable := by
  obtain ⟨c, built⟩ := exists_ok (x := Construction.empty.extended lagging) (by decide +kernel)
  obtain ⟨same, regular⟩ := Program.regular_of_extended built
  obtain ⟨script, encodes⟩ := exists_ok (x := c.stream.encoded) (by
    rw [same]
    decide +kernel)
  have apart : Separates "_b" := ⟨'b', by decide⟩
  subst same
  obtain ⟨result, compares⟩ := regular.self_compares apart encodes
  refine ⟨_, script, result, built, encodes, compares, ?_⟩
  rw [Program.comparison_satisfiable_iff regular regular apart compares]
  let input : Valuation := ⟨fun _ => 0, fun _ _ => 0, fun _ => 0⟩
  obtain ⟨r, goes, zero, passes⟩ := lagging_traversal input (.inl rfl)
  obtain ⟨s, goes', one, passes'⟩ := lagging_traversal input (.inr rfl)
  refine ⟨input, r, s, goes, goes', by simp [passes], by simp [passes'], "y", by decide, ?_⟩
  rw [zero, one]
  decide

end Assay
