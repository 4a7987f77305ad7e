import Assay.Proofs.Equivalence
import Assay.Proofs.Simplifying

/-! Comparing simplified streams. Simplification drops an assignment that nothing in its stream
reads, also where it was the output of the program, and a comparison then looks at the definitions
that are left: it tells apart only programs that differ there. -/
namespace Assay

open Smt

namespace Stream

variable {s t : Stream Empty} {sorts sorts' : Sorts}

def keeps (s : Stream Empty) (i : Instr Empty) : Bool := !i.isDead s.live

theorem simplified_eq (s : Stream Empty) :
    s.simplified = (s.filter s.keeps).map (Instr.fold (constants s)) := by
  unfold simplified withoutDead
  rw [folded, List.filter_map]
  refine congrArg _ (congrArg (s.filter ·) (funext fun i => ?_))
  cases i with
  | assign x e | assert c path | phi r xs g => rfl
  | stray part => exact part.elim

theorem last?_simplified (s : Stream Empty) (x : String) :
    last? x s.simplified = last? x (s.filter s.keeps) := by
  rw [simplified_eq]
  induction s.filter s.keeps with
  | nil => rfl
  | cons i kept ih =>
    rw [List.map_cons, last?, last?, ih, Instr.defined?_fold]

theorem assigns_simplified {x : String} :
    s.simplified.Assigns x ↔ Assigns (s.filter s.keeps) x := by
  rw [simplified_eq]
  constructor
  · rintro ⟨y, e, member, name⟩
    obtain ⟨i, kept, same⟩ := List.mem_map.mp member
    cases i with
    | assign z f =>
      cases same
      exact ⟨y, f, kept, name⟩
    | assert | phi => contradiction
    | stray part => exact part.elim
  · rintro ⟨y, e, member, name⟩
    exact ⟨y, _, List.mem_map_of_mem member, name⟩

theorem defined_left {y : String} (single : s.SingleAssignment) (defines : Defines s.simplified y) :
    y ∈ s.live ∨ ∀ e, .assign y e ∉ s := by
  obtain ⟨j, member, defined⟩ := defines
  obtain ⟨i, origin, rfl, alive⟩ := mem_simplified.mp member
  rw [Instr.defined?_fold] at defined
  cases i with
  | assign x e =>
    cases defined
    exact .inl (by simpa [Instr.isDead, Instr.fold] using alive)
  | phi r xs guard =>
    cases defined
    exact .inr (single.unassigned_phi origin)
  | assert c path => contradiction
  | stray part => exact part.elim

theorem Narrowed.defined_int (narrowed : Narrowed s sorts sorts') {y : String}
    (defines : Defines s.simplified y) (int : sorts y = some .int) : sorts' y = some .int := by
  obtain ⟨j, member, defined⟩ := defines
  obtain ⟨i, origin, rfl, -⟩ := mem_simplified.mp member
  rw [Instr.defined?_fold] at defined
  cases i with
  | assign x e =>
    cases defined
    exact (narrowed.left _ member).target
  | phi r xs guard =>
    cases defined
    obtain ⟨declared, declared', same | ⟨array, -⟩⟩ := narrowed.phi_sorts origin
    · rw [declared', same, ← declared, int]
    · rw [array, int] at declared
      exact nomatch declared
  | assert c path => contradiction
  | stray part => exact part.elim

theorem Regular.uniform (regular : s.Regular) (v : Valuation) : s.Uniform (v.along stem) := by
  intro r xs guard member a operand k
  refine SameValue.along.mpr (SameValue.along.mpr ?_).symm
  rw [regular.names r xs guard member a operand]
  exact SameValue.refl v _ k

theorem Regular.unassigned_zero (regular : s.Regular) (x : String) (e : Expr Empty) :
    .assign (symbol x 0) e ∉ s :=
  fun member => regular.positive _ member x rfl

end Stream

def startValues (sorts : Sorts) (m n : Valuation) : Valuation := (commonInput sorts m n).along stem

theorem startValues_zero (sorts : Sorts) (m n : Valuation) (x : String) (k : VarSort Empty) :
    SameValue (startValues sorts m n) (symbol x 0) (commonInput sorts m n) x k := by
  apply SameValue.along.mpr
  rw [stem_symbol]
  exact SameValue.refl _ x k

namespace JointSolution

variable {s t : Stream Empty} {sorts₁ sorts₂ : Sorts} {m n : Valuation}

theorem starts (joint : JointSolution s t sorts₁ sorts₂ m n) (x : String) (k : VarSort Empty) :
    SameValue (m.within sorts₁ (startValues sorts₁ m n)) (symbol x 0)
      (n.within sorts₂ (startValues sorts₁ m n)) (symbol x 0) k := by
  have start := startValues_zero sorts₁ m n x k
  have first : SameValue (m.within sorts₁ (startValues sorts₁ m n)) (symbol x 0)
      (commonInput sorts₁ m n) x k := by
    by_cases declared : sorts₁ (symbol x 0) = some k
    · exact (m.within_declared declared _).trans (commonInput_first declared m n)
    · exact (m.within_undeclared declared _).trans start
  have second : SameValue (n.within sorts₂ (startValues sorts₁ m n)) (symbol x 0)
      (commonInput sorts₁ m n) x k := by
    by_cases declared : sorts₂ (symbol x 0) = some k
    · exact (n.within_declared declared _).trans
        (commonInput_second fun both => joint.tied x k both declared)
    · exact (n.within_undeclared declared _).trans start
  exact first.trans second.symm

variable {left₁ left₂ : Sorts}

theorem simplified (regular : s.Regular) (regular' : t.Regular)
    (narrowed : s.Narrowed sorts₁ left₁) (narrowed' : t.Narrowed sorts₂ left₂)
    (joint : JointSolution s t sorts₁ sorts₂ m n) :
    ∃ m' n', JointSolution s.simplified t.simplified left₁ left₂ m' n' ∧
      (∀ y, sorts₁ y = some .int → m'.int y = m.int y) ∧
      ∀ z, sorts₂ z = some .int → n'.int z = n.int z := by
  obtain ⟨solves, passes⟩ := narrowed.forward (regular.uniform (commonInput sorts₁ m n)) joint.first
  obtain ⟨solves', passes'⟩ :=
    narrowed'.forward (regular'.uniform (commonInput sorts₁ m n)) joint.second
  refine ⟨m.within sorts₁ (startValues sorts₁ m n), n.within sorts₂ (startValues sorts₁ m n),
    ⟨joint.byZero, solves, solves', passes.mpr joint.firstPasses, passes'.mpr joint.secondPasses,
      fun x k _ _ => joint.starts x k⟩, ?_, ?_⟩
  · intro y int
    exact m.within_declared int _
  · intro z int
    exact n.within_declared int _

theorem of_simplified (regular : s.Regular) (regular' : t.Regular) (single : s.SingleAssignment)
    (single' : t.SingleAssignment) (narrowed : s.Narrowed sorts₁ left₁)
    (narrowed' : t.Narrowed sorts₂ left₂)
    (joint : JointSolution s.simplified t.simplified left₁ left₂ m n) :
    ∃ m' n', JointSolution s t sorts₁ sorts₂ m' n' ∧
      (∀ y, s.simplified.Defines y → left₁ y = some .int → m'.int y = m.int y) ∧
      ∀ z, t.simplified.Defines z → left₂ z = some .int → n'.int z = n.int z := by
  obtain ⟨solves, passes⟩ :=
    narrowed.backward single (regular.uniform (commonInput left₁ m n)) joint.first
  obtain ⟨solves', passes'⟩ :=
    narrowed'.backward single' (regular'.uniform (commonInput left₁ m n)) joint.second
  refine ⟨s.revalue (m.within left₁ (startValues left₁ m n)),
    t.revalue (n.within left₂ (startValues left₁ m n)), ⟨joint.byZero, solves, solves',
      passes.mp joint.firstPasses, passes'.mp joint.secondPasses, ?_⟩, ?_, ?_⟩
  · intro x k _ _
    have first := Stream.revalue_same (m.within left₁ (startValues left₁ m n))
      (.inr (regular.unassigned_zero x)) k
    have second := Stream.revalue_same (n.within left₂ (startValues left₁ m n))
      (.inr (regular'.unassigned_zero x)) k
    exact first.trans ((joint.starts x k).trans second.symm)
  · intro y defines int
    exact (Stream.revalue_same _ (Stream.defined_left single defines) .int).trans
      (m.within_declared int _)
  · intro z defines int
    exact (Stream.revalue_same _ (Stream.defined_left single' defines) .int).trans
      (n.within_declared int _)

end JointSolution

namespace Program

variable {p q : Program Empty} {suffix : String} {raw opt : Comparing Empty}

theorem last_left_int (p : Program Empty) {sorts : Sorts} (sorted : p.stream.Sorted sorts)
    {x y : String} (assigns : p.stream.simplified.Assigns x)
    (last : Stream.last? x p.stream.simplified = some y) : sorts y = some .int := by
  rw [Stream.last?_simplified] at last
  refine p.typed.last sorts sorted p.stream.keeps ?_ x y (Stream.assigns_simplified.mp assigns) last
  intro i _ other
  cases i with
  | assign => contradiction
  | assert | phi => rfl
  | stray part => exact part.elim

/-- What is left of two streams is told apart by solutions of the streams themselves that differ
where a definition is left last. -/
theorem simplified_satisfiable (regular : p.stream.Regular) (regular' : q.stream.Regular)
    (apart : Separates suffix) (compares : compareStreams p.stream q.stream suffix = .ok raw)
    (left : compareStreams p.stream.simplified q.stream.simplified suffix = .ok opt) :
    opt.script.Satisfiable ↔ ∃ m n, JointSolution p.stream q.stream raw.script.sorts
      (fun x => raw.script.sorts (x ++ suffix)) m n ∧
        OutputsDiffer p.stream.simplified q.stream.simplified m n := by
  obtain ⟨-, compared, -⟩ := regular.compares regular' apart compares
  obtain ⟨names, compared', -⟩ := regular.simplified.compares regular'.simplified apart left
  have narrowed := Stream.Narrowed.of_arrays compared.sorted compared'.sorted compared.arrays
    compared'.arrays
  have narrowed' := Stream.Narrowed.of_arrays compared.sorted' compared'.sorted' compared.arrays'
    compared'.arrays'
  have ints : ∀ x y, p.stream.simplified.Assigns x →
      Stream.last? x p.stream.simplified = some y → raw.script.sorts y = some .int :=
    fun x y => p.last_left_int compared.sorted
  have ints' : ∀ x z, p.stream.simplified.Assigns x →
      Stream.last? x q.stream.simplified = some z → raw.script.sorts (z ++ suffix) = some .int :=
    fun x z assigns => q.last_left_int compared.sorted' ((names x).mp assigns)
  rw [regular.simplified.compare_satisfiable regular'.simplified apart left]
  constructor
  -- what is left last of an output is an integer on both sides, so its value is carried
  · rintro ⟨m, n, joint, x, y, z, assigns, last, last', differ⟩
    obtain ⟨m', n', whole, first, second⟩ := joint.of_simplified regular regular' p.numbered.nodup
      q.numbered.nodup narrowed narrowed'
    have defines := (Stream.defines_of_last? last).2
    have defines' := (Stream.defines_of_last? last').2
    refine ⟨m', n', whole, x, y, z, assigns, last, last', ?_⟩
    rwa [first y defines (narrowed.defined_int defines (ints x y assigns last)),
      second z defines' (narrowed'.defined_int defines' (ints' x z assigns last'))]
  · rintro ⟨m, n, joint, x, y, z, assigns, last, last', differ⟩
    obtain ⟨m', n', rest, first, second⟩ := joint.simplified regular regular' narrowed narrowed'
    refine ⟨m', n', rest, x, y, z, assigns, last, last', ?_⟩
    rwa [first y (ints x y assigns last), second z (ints' x z assigns last')]

end Program

/-- Simplification does not change what a comparison answers. -/
structure SameAnswer (s t : Stream Empty) (suffix : String) : Prop where
  refused : Refused s.simplified t.simplified suffix ↔ Refused s t suffix
  satisfiable : ∀ raw opt, compareStreams s t suffix = .ok raw →
    compareStreams s.simplified t.simplified suffix = .ok opt →
      (opt.script.Satisfiable ↔ raw.script.Satisfiable)

/-- What is defined last for an assigned name is left, and so is some assignment of it. -/
def Stream.KeepsOutputs (s : Stream Empty) : Prop :=
  ∀ x, s.Assigns x → s.simplified.Assigns x ∧ last? x s.simplified = last? x s

theorem Stream.KeepsOutputs.assigns_iff {s : Stream Empty} (keeps : s.KeepsOutputs) (x : String) :
    s.simplified.Assigns x ↔ s.Assigns x :=
  ⟨fun left => (assigns_simplified.mp left).of_filter, fun assigns => (keeps x assigns).1⟩

theorem outputsDiffer_simplified {s t : Stream Empty} (keeps : s.KeepsOutputs)
    (keeps' : t.KeepsOutputs) (same : ∀ x, s.Assigns x ↔ t.Assigns x) (m n : Valuation) :
    OutputsDiffer s.simplified t.simplified m n ↔ OutputsDiffer s t m n := by
  refine exists_congr fun x => exists_congr fun y => exists_congr fun z => ?_
  rw [keeps.assigns_iff]
  refine and_congr_right fun assigns => ?_
  rw [(keeps x assigns).2, (keeps' x ((same x).mp assigns)).2]

theorem Program.sameAnswer_of_keepsOutputs {p q : Program Empty} {suffix : String}
    (regular : p.stream.Regular) (regular' : q.stream.Regular) (apart : Separates suffix)
    (keeps : p.stream.KeepsOutputs) (keeps' : q.stream.KeepsOutputs) :
    SameAnswer p.stream q.stream suffix where
  refused := by
    rw [regular.simplified.compare_refuses regular'.simplified, regular.compare_refuses regular']
    exact not_congr (forall_congr' fun x => iff_congr (keeps.assigns_iff x) (keeps'.assigns_iff x))
  satisfiable := by
    intro raw opt compares left
    obtain ⟨same, -⟩ := regular.compares regular' apart compares
    rw [simplified_satisfiable regular regular' apart compares left,
      regular.compare_satisfiable regular' apart compares]
    refine exists_congr fun m => exists_congr fun n => and_congr_right fun _ => ?_
    exact outputsDiffer_simplified keeps keeps' same m n

/-- Comparing what is left of two streams answers as comparing the streams does if and only if the
names still assigned are the same on both sides where the assigned names are, and some solutions
differ in an output that is left where some differ in an output. It does so for all programs whose
outputs are left. -/
theorem simplified_comparison_agrees_iff (p q : Program Empty) (c d : Construction Empty)
    (built : Construction.empty.extended p = .ok c) (built' : Construction.empty.extended q = .ok d)
    (suffix : String) (apart : Separates suffix) :
    (SameAnswer c.stream d.stream suffix ↔
      ((∀ x, c.stream.simplified.Assigns x ↔ d.stream.simplified.Assigns x) ↔
        ∀ x, x ∈ Stmt.targetsAll p ↔ x ∈ Stmt.targetsAll q) ∧
      ∀ raw opt, compareStreams c.stream d.stream suffix = .ok raw →
        compareStreams c.stream.simplified d.stream.simplified suffix = .ok opt →
        ((∃ m n, JointSolution c.stream d.stream raw.script.sorts
            (fun x => raw.script.sorts (x ++ suffix)) m n ∧
              OutputsDiffer c.stream.simplified d.stream.simplified m n) ↔
          ∃ m n, JointSolution c.stream d.stream raw.script.sorts
            (fun x => raw.script.sorts (x ++ suffix)) m n ∧
              OutputsDiffer c.stream d.stream m n)) ∧
    (c.stream.KeepsOutputs → d.stream.KeepsOutputs → SameAnswer c.stream d.stream suffix) := by
  obtain ⟨rfl, regular⟩ := Program.regular_of_extended built
  obtain ⟨rfl, regular'⟩ := Program.regular_of_extended built'
  refine ⟨?_, Program.sameAnswer_of_keepsOutputs regular regular' apart⟩
  have names : (Refused p.stream.simplified q.stream.simplified suffix ↔
      Refused p.stream q.stream suffix) ↔
      ((∀ x, p.stream.simplified.Assigns x ↔ q.stream.simplified.Assigns x) ↔
        ∀ x, x ∈ Stmt.targetsAll p ↔ x ∈ Stmt.targetsAll q) := by
    rw [regular.simplified.compare_refuses regular'.simplified, regular.compare_refuses regular',
      not_iff_not]
    exact iff_congr Iff.rfl
      (forall_congr' fun x => iff_congr (p.typed.assigned x) (q.typed.assigned x))
  constructor
  · intro same
    refine ⟨names.mp same.refused, fun raw opt compares left => ?_⟩
    have answer := same.satisfiable raw opt compares left
    rwa [Program.simplified_satisfiable regular regular' apart compares left,
      regular.compare_satisfiable regular' apart compares] at answer
  · rintro ⟨agree, observed⟩
    refine ⟨names.mpr agree, fun raw opt compares left => ?_⟩
    have answer := observed raw opt compares left
    rwa [Program.simplified_satisfiable regular regular' apart compares left,
      regular.compare_satisfiable regular' apart compares]

theorem simplified_comparison_agrees_iff_halfAssigned :
    let other : Program Empty := [.assign ⟨"y", .var "x"⟩, .assert (.var "y")]
    ∃ c d, Construction.empty.extended halfAssigned = .ok c ∧
      Construction.empty.extended other = .ok d ∧ Separates "_b" ∧ c.stream.KeepsOutputs ∧
      d.stream.KeepsOutputs ∧ SameAnswer c.stream d.stream "_b" := by
  intro other
  obtain ⟨c, built⟩ := exists_ok (x := Construction.empty.extended halfAssigned)
    (by decide +kernel)
  obtain ⟨d, built'⟩ := exists_ok (x := Construction.empty.extended other) (by decide +kernel)
  have apart : Separates "_b" := ⟨'b', by decide⟩
  have first := (Program.regular_of_extended built).1
  have second := (Program.regular_of_extended built').1
  have keeps : c.stream.KeepsOutputs := by
    intro x assigns
    rw [first] at assigns ⊢
    have target : x ∈ ["y"] := (halfAssigned.typed.assigned x).mp assigns
    obtain rfl := List.mem_singleton.mp target
    exact ⟨⟨"y_1", .lit 1, by decide +kernel, by decide +kernel⟩, by decide +kernel⟩
  have keeps' : d.stream.KeepsOutputs := by
    intro x assigns
    rw [second] at assigns ⊢
    have target : x ∈ ["y"] := (other.typed.assigned x).mp assigns
    obtain rfl := List.mem_singleton.mp target
    exact ⟨⟨"y_1", .var "x_0", by decide +kernel, by decide +kernel⟩, by decide +kernel⟩
  exact ⟨c, d, built, built', apart, keeps, keeps',
    (simplified_comparison_agrees_iff halfAssigned other c d built built' "_b" apart).2 keeps keeps'⟩

/-- Nothing reads the outputs of these two programs, so nothing of them is left to compare. -/
theorem dropped_outputs_not_told_apart :
    let one : Program Empty := [.assign ⟨"x", .lit 1⟩]
    let two : Program Empty := [.assign ⟨"x", .lit 2⟩]
    ∃ raw opt, compareStreams one.stream two.stream "_b" = .ok raw ∧
      compareStreams one.stream.simplified two.stream.simplified "_b" = .ok opt ∧
      raw.script.Satisfiable ∧ ¬ opt.script.Satisfiable := by
  intro one two
  obtain ⟨raw, compares⟩ := exists_ok (x := compareStreams one.stream two.stream "_b")
    (by decide +kernel)
  obtain ⟨opt, left⟩ := exists_ok
    (x := compareStreams one.stream.simplified two.stream.simplified "_b") (by decide +kernel)
  obtain ⟨c, built⟩ := exists_ok (x := Construction.empty.extended one) (by decide +kernel)
  obtain ⟨d, built'⟩ := exists_ok (x := Construction.empty.extended two) (by decide +kernel)
  have apart : Separates "_b" := ⟨'b', by decide⟩
  have regular := (Program.regular_of_extended built).2
  have regular' := (Program.regular_of_extended built').2
  refine ⟨raw, opt, compares, left, ?_, ?_⟩
  · let zeros : Valuation := ⟨fun _ => 0, fun _ _ => 0, fun _ => 0⟩
    have flat : one.LoopFree := rfl
    have flat' : two.LoopFree := rfl
    have passes : one.fails 0 zeros = false := by decide
    have passes' : two.fails 0 zeros = false := by decide
    obtain ⟨-, compared, -⟩ := regular.compares regular' apart compares
    obtain ⟨m, n, joint, final, final'⟩ := Program.joint_of_runs flat flat' 0 compared.sorted
      compared.sorted' passes passes'
    refine (regular.compare_satisfiable regular' apart compares).mpr ⟨m, n, joint, ?_⟩
    exact (Program.outputsDiffer_iff flat flat' compared.sorted compared.sorted'
      (fun x => Iff.rfl) final final').mpr ⟨"x", by decide, by decide⟩
  · intro satisfiable
    obtain ⟨m, n, -, x, y, z, ⟨u, e, member, -⟩, -⟩ :=
      (regular.simplified.compare_satisfiable regular'.simplified apart left).mp satisfiable
    have none : one.stream.simplified = [] := by decide +kernel
    rw [none] at member
    exact absurd member List.not_mem_nil

end Assay
