import Assay.Proofs.Simulation
import Assay.Proofs.Solutions

/-! The script of a program without loops. A model of it is an input on which the program fails
an assertion, with the values that the run computes; every failing input gives a model. -/
namespace Assay

open Smt

theorem Mirrors.stems (sorts : Sorts) (input : Valuation) :
    Mirrors sorts (input.along stem) (fun _ => 0) input := by
  refine ⟨rfl, fun x s _ => ?_⟩
  rw [SameValue.along, stem_symbol]
  exact SameValue.refl input x s

namespace Program

theorem numbered (p : Program Empty) :
    Numbered (fun _ => 0) p.stream p.construct.versions.count := p.construct_fits.numbered

theorem stream_solvable (p : Program Empty) (sorts : Sorts) (input : Valuation) :
    ∃ m, Mirrors sorts m (fun _ => 0) input ∧ p.stream.Solves sorts m := by
  obtain ⟨m, keeps, solves⟩ := p.numbered.solvable sorts (input.along stem)
  refine ⟨m, ⟨keeps.byZero.symm, fun x s declared => ?_⟩, solves⟩
  have start := (Mirrors.stems sorts input).value x s declared
  exact (keeps.value (symbol x 0) s ⟨x, 0, rfl, Nat.le_refl 0⟩).symm.trans start

theorem stream_follows (p : Program Empty) (flat : p.LoopFree) (bound : Nat) {sorts : Sorts}
    {m input : Valuation} (sorted : p.stream.Sorted sorts) (solves : p.stream.Solves sorts m)
    (mirrors : Mirrors sorts m (fun _ => 0) input) :
    Mirrors sorts m p.construct.versions.version (p.run bound input).1 ∧
      (p.stream.Passes m ↔ p.fails bound input = false) := by
  have simulates := Stmt.buildAll_simulates bound [] .empty p flat Versions.sound_empty
    fun _ member => nomatch member
  obtain ⟨final, passes⟩ := simulates.follows sorts m input solves sorted mirrors
    fun _ member => nomatch member
  refine ⟨final, passes.trans ?_⟩
  simp [fails, run]

end Program

theorem Mirrors.inputs (sorts : Sorts) (m : Valuation) :
    Mirrors sorts m (fun _ => 0) (m.along fun x => symbol x 0) :=
  ⟨rfl, fun x s _ => (SameValue.along.mpr (SameValue.refl m (symbol x 0) s)).symm⟩

/-- The script of a program without loops has a model if and only if some input makes the program
fail an assertion, and the inputs of every model do. -/
theorem script_models_failing_inputs (p : Program Empty) (flat : p.LoopFree) (script : Script Empty)
    (encodes : p.stream.encoded = .ok script) (bound : Nat) :
    (script.Satisfiable ↔ ∃ input, p.fails bound input = true) ∧
      ∀ m, script.Models m → p.fails bound (m.along fun x => symbol x 0) = true := by
  have encoded := Stream.encoded_spec encodes
  have failing : ∀ m, script.Models m → p.fails bound (m.along fun x => symbol x 0) = true := by
    intro m models
    obtain ⟨solves, fails⟩ := (encoded.models m).mp models
    have passes := (p.stream_follows flat bound encoded.sorted solves (Mirrors.inputs _ m)).2
    exact (Bool.not_eq_false _).mp fun clean => fails (passes.mpr clean)
  refine ⟨⟨?_, ?_⟩, failing⟩
  · rintro ⟨m, models⟩
    exact ⟨_, failing m models⟩
  · rintro ⟨input, fails⟩
    obtain ⟨m, mirrors, solves⟩ := p.stream_solvable script.sorts input
    have passes := (p.stream_follows flat bound encoded.sorted solves mirrors).2
    refine ⟨m, (encoded.models m).mpr ⟨solves, fun clean => ?_⟩⟩
    rw [passes.mp clean] at fails
    contradiction

def halfAssigned : Program Empty :=
  [.branch (.var "x") [.assign ⟨"y", .lit 1⟩] [],
    .assert (.binary (.compare .eq) (.var "y") (.lit 1))]

theorem script_models_failing_inputs_halfAssigned :
    ∃ script, halfAssigned.stream.encoded = .ok script ∧ halfAssigned.LoopFree ∧
      script.Satisfiable := by
  obtain ⟨script, encodes⟩ := exists_ok (x := halfAssigned.stream.encoded) (by decide +kernel)
  refine ⟨script, encodes, rfl, ?_⟩
  apply (script_models_failing_inputs halfAssigned rfl script encodes 0).1.mpr
  exact ⟨⟨fun _ => 0, fun _ _ => 0, fun _ => 0⟩, by decide⟩

end Assay
