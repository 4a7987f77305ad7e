import Assay.Proofs.Comparing
import Assay.Proofs.Regularity

/-! Comparing two programs without loops. Solutions of their streams that agree on the inputs are
runs from one input, and the output symbols have the final values of the runs. -/
namespace Assay

open Smt

namespace JointSolution

variable {s t : Stream Empty} {sorts sorts' : Sorts} {m n : Valuation}

theorem mirrors_common (joint : JointSolution s t sorts sorts' m n) :
    Mirrors sorts m (fun _ => 0) (commonInput sorts m n) ∧
      Mirrors sorts' n (fun _ => 0) (commonInput sorts m n) := by
  refine ⟨⟨rfl, fun x k declared => commonInput_first declared m n⟩, joint.byZero.symm, ?_⟩
  exact fun x k declared => commonInput_second fun both => joint.tied x k both declared

theorem of_mirrors {input : Valuation} (start : Mirrors sorts m (fun _ => 0) input)
    (start' : Mirrors sorts' n (fun _ => 0) input) (solves : s.Solves sorts m)
    (solves' : t.Solves sorts' n) (passes : s.Passes m) (passes' : t.Passes n) :
    JointSolution s t sorts sorts' m n := by
  refine ⟨start.byZero.trans start'.byZero.symm, solves, solves', passes, passes', ?_⟩
  intro x k declared declared'
  exact (start.value x k declared).trans (start'.value x k declared').symm

end JointSolution

namespace Program

variable {p q : Program Empty} {sorts sorts' : Sorts} {m n : Valuation}

theorem runs_of_joint (flat : p.LoopFree) (flat' : q.LoopFree) (bound : Nat)
    (sorted : p.stream.Sorted sorts) (sorted' : q.stream.Sorted sorts')
    (joint : JointSolution p.stream q.stream sorts sorts' m n) :
    ∃ input, p.fails bound input = false ∧ q.fails bound input = false ∧
      Mirrors sorts m p.construct.versions.version (p.run bound input).1 ∧
      Mirrors sorts' n q.construct.versions.version (q.run bound input).1 := by
  obtain ⟨start, start'⟩ := joint.mirrors_common
  obtain ⟨final, passes⟩ := p.stream_follows flat bound sorted joint.first start
  obtain ⟨final', passes'⟩ := q.stream_follows flat' bound sorted' joint.second start'
  exact ⟨_, passes.mp joint.firstPasses, passes'.mp joint.secondPasses, final, final'⟩

theorem joint_of_runs (flat : p.LoopFree) (flat' : q.LoopFree) (bound : Nat)
    (sorted : p.stream.Sorted sorts) (sorted' : q.stream.Sorted sorts') {input : Valuation}
    (passes : p.fails bound input = false) (passes' : q.fails bound input = false) :
    ∃ m n, JointSolution p.stream q.stream sorts sorts' m n ∧
      Mirrors sorts m p.construct.versions.version (p.run bound input).1 ∧
      Mirrors sorts' n q.construct.versions.version (q.run bound input).1 := by
  obtain ⟨m, start, solves⟩ := p.stream_solvable sorts input
  obtain ⟨n, start', solves'⟩ := q.stream_solvable sorts' input
  obtain ⟨final, clean⟩ := p.stream_follows flat bound sorted solves start
  obtain ⟨final', clean'⟩ := q.stream_follows flat' bound sorted' solves' start'
  exact ⟨m, n, .of_mirrors start start' solves solves' (clean.mpr passes) (clean'.mpr passes'),
    final, final'⟩

theorem outputsDiffer_iff (flat : p.LoopFree) (flat' : q.LoopFree)
    (sorted : p.stream.Sorted sorts) (sorted' : q.stream.Sorted sorts')
    (same : ∀ x, x ∈ Stmt.targetsAll p ↔ x ∈ Stmt.targetsAll q) {v w : Valuation}
    (final : Mirrors sorts m p.construct.versions.version v)
    (final' : Mirrors sorts' n q.construct.versions.version w) :
    OutputsDiffer p.stream q.stream m n ↔ ∃ x ∈ Stmt.targetsAll p, v.int x ≠ w.int x := by
  have values : ∀ x ∈ Stmt.targetsAll p,
      m.int (p.construct.versions.symbolOf x) = v.int x ∧
        n.int (q.construct.versions.symbolOf x) = w.int x := by
    intro x target
    exact ⟨final.value x .int (p.typed.final sorts sorted x target),
      final'.value x .int (q.typed.final sorts' sorted' x ((same x).mp target))⟩
  constructor
  · rintro ⟨x, y, z, assigns, last, last', differ⟩
    have target : x ∈ Stmt.targetsAll p := (p.typed.assigned x).mp assigns
    rw [p.last_stream flat target] at last
    rw [q.last_stream flat' ((same x).mp target)] at last'
    cases last
    cases last'
    rw [(values x target).1, (values x target).2] at differ
    exact ⟨x, target, differ⟩
  · rintro ⟨x, target, differ⟩
    refine ⟨x, _, _, (p.typed.assigned x).mpr target, p.last_stream flat target,
      q.last_stream flat' ((same x).mp target), ?_⟩
    rwa [(values x target).1, (values x target).2]

end Program

/-- Programs without loops that assign different names are not compared. Otherwise the script has
a model if and only if some input passes all assertions of both and leaves an assigned name with
different values. -/
theorem comparison_models_distinguishing_inputs (p q : Program Empty) (flat : p.LoopFree)
    (flat' : q.LoopFree) (c d : Construction Empty)
    (built : Construction.empty.extended p = .ok c) (built' : Construction.empty.extended q = .ok d)
    (suffix : String) (apart : Separates suffix) (bound : Nat) :
    (Refused c.stream d.stream suffix ↔
      ¬ ∀ x, x ∈ Stmt.targetsAll p ↔ x ∈ Stmt.targetsAll q) ∧
    ∀ result, compareStreams c.stream d.stream suffix = .ok result →
      (result.script.Satisfiable ↔ ∃ input, p.fails bound input = false ∧
        q.fails bound input = false ∧
          ∃ x ∈ Stmt.targetsAll p, (p.run bound input).1.int x ≠ (q.run bound input).1.int x) := by
  obtain ⟨rfl, regular⟩ := Program.regular_of_extended built
  obtain ⟨rfl, regular'⟩ := Program.regular_of_extended built'
  have assigned : ∀ x, (p.stream.Assigns x ↔ q.stream.Assigns x) ↔
      (x ∈ Stmt.targetsAll p ↔ x ∈ Stmt.targetsAll q) := fun x =>
    iff_congr (p.typed.assigned x) (q.typed.assigned x)
  refine ⟨(regular.compare_refuses regular' suffix).trans (not_congr (forall_congr' assigned)), ?_⟩
  intro result compares
  obtain ⟨names, compared, -⟩ := regular.compares regular' apart compares
  have same := fun x => (assigned x).mp (names x)
  rw [regular.compare_satisfiable regular' apart compares]
  constructor
  · rintro ⟨m, n, joint, differ⟩
    obtain ⟨input, passes, passes', final, final'⟩ :=
      Program.runs_of_joint flat flat' bound compared.sorted compared.sorted' joint
    exact ⟨input, passes, passes', (Program.outputsDiffer_iff flat flat' compared.sorted
      compared.sorted' same final final').mp differ⟩
  · rintro ⟨input, passes, passes', differ⟩
    obtain ⟨m, n, joint, final, final'⟩ :=
      Program.joint_of_runs flat flat' bound compared.sorted compared.sorted' passes passes'
    exact ⟨m, n, joint, (Program.outputsDiffer_iff flat flat' compared.sorted compared.sorted'
      same final final').mpr differ⟩

theorem comparison_models_distinguishing_inputs_halfAssigned :
    let other : Program Empty := [.assign ⟨"y", .lit 2⟩]
    ∃ c d result, Construction.empty.extended halfAssigned = .ok c ∧
      Construction.empty.extended other = .ok d ∧ Separates "_b" ∧
      compareStreams c.stream d.stream "_b" = .ok result ∧ result.script.Satisfiable := by
  intro other
  obtain ⟨c, built⟩ := exists_ok (x := Construction.empty.extended halfAssigned)
    (by decide +kernel)
  obtain ⟨d, built'⟩ := exists_ok (x := Construction.empty.extended other)
    (by decide +kernel)
  have apart : Separates "_b" := ⟨'b', by decide⟩
  have first := (Program.regular_of_extended built).1
  have second := (Program.regular_of_extended built').1
  obtain ⟨result, compares⟩ := exists_ok (x := compareStreams c.stream d.stream "_b") (by
    rw [first, second]
    decide +kernel)
  refine ⟨c, d, result, built, built', apart, compares, ?_⟩
  refine ((comparison_models_distinguishing_inputs halfAssigned other rfl rfl c d built built'
    "_b" apart 0).2 result compares).mpr ?_
  exact ⟨⟨fun _ => 1, fun _ _ => 0, fun _ => 0⟩, by decide, by decide, "y", by decide, by decide⟩

end Assay
