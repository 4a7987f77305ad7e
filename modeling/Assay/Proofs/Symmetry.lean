import Assay.Program.Text
import Assay.Proofs.Consistency
import Assay.Proofs.SelfComparison

/-! Comparing in either order. Whether a comparison goes through, and which inputs it ties, can be
read off the uses of each stream alone. Its models are pairs of traversals from one input that end
differently. All of this is the same from both sides. -/
namespace Assay

open Smt

/-! Streams of programs whose literals can be written. -/

def Built.Short (built : Built Empty) : Prop := ∀ i ∈ built.2, ∀ e ∈ i.exprs, e.isTooLong = false

theorem Built.Short.andThen {first : Built Empty} {next : Versions → Built Empty}
    (head : first.Short) (tail : (next first.1).Short) : (first.andThen next).Short := by
  intro i member
  rcases List.mem_append.mp member with early | late
  · exact head i early
  · exact tail i late

theorem Assign.build_short {a : Assign Empty} (short : a.value.isTooLong = false) (v : Versions) :
    (a.build v).Short := by
  intro i member e part
  obtain rfl := List.mem_singleton.mp member
  obtain rfl := List.mem_singleton.mp part
  exact (a.value.isTooLong_mapNames _).trans short

section

variable {c : Expr Empty} {path : List (Expr Empty)}

theorem short_guarded {guard : Expr Empty} (known : ∀ g ∈ path, g.isTooLong = false)
    (short : guard.isTooLong = false) : ∀ g ∈ path ++ [guard], g.isTooLong = false := by
  intro g member
  rcases List.mem_append.mp member with outer | inner
  · exact known g outer
  · obtain rfl := List.mem_singleton.mp inner
    exact short

theorem buildBranch_short (short : c.isTooLong = false) (known : ∀ g ∈ path, g.isTooLong = false)
    (v : Versions) {runThen runElse : List (Expr Empty) → Versions → Built Empty}
    (inThen : ∀ path v, (∀ g ∈ path, g.isTooLong = false) → (runThen path v).Short)
    (inElse : ∀ path v, (∀ g ∈ path, g.isTooLong = false) → (runElse path v).Short) :
    (buildBranch c path v runThen runElse).Short := by
  have guard : (c.versioned v).isTooLong = false := (c.isTooLong_mapNames _).trans short
  intro i member
  rcases List.mem_append.mp member with arms | joins
  · rcases List.mem_append.mp arms with first | second
    · exact inThen _ _ (short_guarded known guard) i first
    · have negated : (c.versioned v).not.isTooLong = false := guard
      exact inElse _ _ (short_guarded known negated) i second
  · obtain ⟨x, -, n, k, l, rfl⟩ := joinArms_phi joins
    exact List.forall_mem_singleton.mpr guard

theorem buildLoop_short (short : c.isTooLong = false) (known : ∀ g ∈ path, g.isTooLong = false)
    (v : Versions) {run : List (Expr Empty) → Versions → Built Empty}
    (inside : ∀ path v, (∀ g ∈ path, g.isTooLong = false) → (run path v).Short) :
    (buildLoop c path v run).Short := by
  have guard : (c.versioned v).isTooLong = false := (c.isTooLong_mapNames _).trans short
  intro i member
  rcases List.mem_append.mp member with early | exits
  · rcases List.mem_append.mp early with entries | body
    · obtain ⟨x, -, rfl⟩ := List.mem_map.mp entries
      obtain ⟨xs, same⟩ := entryPhi_eq_phi _ _ _ x
      rw [same]
      exact fun e none => nomatch none
    · exact inside _ _ (short_guarded known guard) i body
  · obtain ⟨x, -, n, k, l, rfl⟩ := exitPhis_phi exits
    exact List.forall_mem_singleton.mpr guard

end

namespace Stmt

mutual

theorem build_short {path : List (Expr Empty)} (known : ∀ g ∈ path, g.isTooLong = false)
    (v : Versions) (s : Stmt Empty) (short : s.isTooLong = false) : (build path v s).Short := by
  match s with
  | .assign a =>
    unfold build
    unfold isTooLong at short
    exact a.build_short short v
  | .assert c =>
    unfold build
    unfold isTooLong at short
    refine List.forall_mem_singleton.mpr (List.forall_mem_cons.mpr ⟨?_, known⟩)
    exact (c.isTooLong_mapNames _).trans short
  | .branch c t e =>
    unfold build
    simp only [isTooLong, Bool.or_eq_false_iff] at short
    exact buildBranch_short short.1.1 known v (fun _ v known => buildAll_short known v t short.1.2)
      fun _ v known => buildAll_short known v e short.2
  | .whileLoop c b =>
    unfold build
    simp only [isTooLong, Bool.or_eq_false_iff] at short
    exact buildLoop_short short.1 known v fun _ v known => buildAll_short known v b short.2
  | .forLoop i c u b =>
    unfold build
    simp only [isTooLong, Bool.or_eq_false_iff] at short
    obtain ⟨⟨⟨first, cond⟩, last⟩, body⟩ := short
    exact .andThen (i.build_short first v) (buildLoop_short cond known _ fun _ v known =>
      .andThen (buildAll_short known v b body) (u.build_short last _))
  | .strayFor mark .. => exact mark.elim
  | .stray part => exact part.elim

theorem buildAll_short {path : List (Expr Empty)} (known : ∀ g ∈ path, g.isTooLong = false)
    (v : Versions) (p : List (Stmt Empty)) (short : anyTooLong p = false) :
    (buildAll path v p).Short := by
  match p with
  | [] =>
    unfold buildAll
    exact fun i none => nomatch none
  | s :: rest =>
    unfold buildAll
    simp only [anyTooLong, Bool.or_eq_false_iff] at short
    exact .andThen (build_short known v s short.1) (buildAll_short known _ rest short.2)

end

end Stmt

theorem Program.plain {p : Program Empty} (short : Stmt.anyTooLong p = false) : p.stream.Plain :=
  ⟨p.numbered.operands,
    Stmt.buildAll_short (fun _ none => absurd none List.not_mem_nil) .empty p short⟩

/-! What a comparison of streams depends on. -/

def Conflicting (s t : Stream Empty) (suffix : String) : Prop :=
  ∃ fault, compareStreams s t suffix = .error fault ∧ fault.kind = .encoding

theorem Stream.Plain.fault_kind {s : Stream Empty} {fault : Error} (plain : s.Plain)
    (raised : s.Fault fault) : fault.kind = .encoding := by
  cases raised with
  | conflict => rfl
  | long member part long => exact nomatch (plain.short _ member _ part).symm.trans long
  | operands => rfl

theorem tieInputs_shared (suffix : String) (inputs ties : Entries String)
    (state : Script Empty × List String) (x : String) :
    x ∈ (ties.foldl (tieInput suffix inputs) state).2 ↔ x ∈ state.2 ∨
      ∃ y z k, (x, y) ∈ ties ∧ inputs.get? x = some z ∧
        commonSort? state.1.declarations y (z ++ suffix) = some k := by
  induction ties generalizing state with
  | nil => simp
  | cons tie ties ih =>
    obtain ⟨w, y⟩ := tie
    rw [List.foldl_cons, ih]
    rcases tieInput_cases suffix inputs state w y with ⟨idle, apart⟩ | ⟨z, k, found, sort, tied⟩
    · rw [idle]
      refine or_congr_right ⟨?_, ?_⟩
      · rintro ⟨a, b, l, later, rest⟩
        exact ⟨a, b, l, List.mem_cons_of_mem _ later, rest⟩
      · rintro ⟨a, b, l, member, read, common⟩
        rcases List.mem_cons.mp member with here | later
        · cases here
          exact nomatch (apart b read).symm.trans common
        · exact ⟨a, b, l, later, read, common⟩
    · rw [tied]
      change x ∈ state.2 ++ [w] ∨ _ ↔ _
      rw [List.mem_append, List.mem_singleton, or_assoc]
      refine or_congr_right ⟨?_, ?_⟩
      · rintro (rfl | ⟨a, b, l, later, rest⟩)
        · exact ⟨y, z, k, List.mem_cons_self .., found, sort⟩
        · exact ⟨a, b, l, List.mem_cons_of_mem _ later, rest⟩
      · rintro ⟨a, b, l, member, rest⟩
        rcases List.mem_cons.mp member with here | later
        · cases here
          exact .inl rfl
        · exact .inr ⟨a, b, l, later, rest⟩

theorem Stream.Sorted.uses {s : Stream Empty} {sorts : Sorts} (sorted : s.Sorted sorts)
    (arrays : ∀ r xs guard, .phi r xs guard ∈ s → (sorts r = some .array ↔ r ∈ s.arrays))
    {u : String × VarSort Empty} (used : u ∈ s.uses) : sorts u.1 = some u.2 := by
  obtain ⟨i, member, used⟩ := List.mem_flatMap.mp used
  refine sorted i member u ?_
  rwa [Instr.uses_congr fun r xs guard same => ?_]
  subst same
  have declared := (sorted _ member).phi (List.mem_cons_self ..)
  have array := arrays r xs guard member
  rw [declared, Option.some.injEq] at array
  unfold sortIn
  cases sort : sorts.of r with
  | int =>
    rw [sort] at array
    simp [← array]
  | array =>
    rw [sort] at array
    simp [← array]
  | stray part => exact part.elim

namespace Stream.Regular

variable {s t : Stream Empty} {suffix : String}

theorem sort_eq_iff_use (regular : s.Regular) (sorts : Sorts) {y : String} {k : VarSort Empty}
    (uses : ∀ u ∈ s.uses, sorts u.1 = some u.2)
    (read : sorts y = some k → y ∈ readSymbols s) : sorts y = some k ↔ (y, k) ∈ s.uses := by
  refine ⟨fun declared => ?_, uses (y, k)⟩
  obtain ⟨i, member, l, used⟩ := regular.use_of_read (sortIn s.arrays) (read declared)
  have stands : (y, l) ∈ s.uses := List.mem_flatMap.mpr ⟨i, member, used⟩
  obtain rfl := Option.some.inj ((uses _ stands).symm.trans declared)
  exact stands

theorem compared_sorts (regular : s.Regular) (regular' : t.Regular) (apart : Separates suffix)
    {sorts : Sorts} (compared : Compared s t suffix sorts) (x : String) (k : VarSort Empty) :
    (sorts (symbol x 0) = some k ↔ (symbol x 0, k) ∈ s.uses) ∧
      (sorts (symbol x 0 ++ suffix) = some k ↔ (symbol x 0, k) ∈ t.uses) := by
  constructor
  · exact regular.sort_eq_iff_use sorts (fun _ => compared.sorted.uses compared.arrays)
      (regular.first_read apart compared)
  · exact regular'.sort_eq_iff_use (fun y => sorts (y ++ suffix))
      (fun _ => compared.sorted'.uses compared.arrays')
      (regular.second_read regular' apart compared)

/-- The inputs that a comparison ties are those that both streams use at one sort. -/
theorem mem_shared_iff (regular : s.Regular) (regular' : t.Regular) (apart : Separates suffix)
    {result : Comparing Empty} (ok : compareStreams s t suffix = .ok result) (x : String) :
    x ∈ result.shared ↔ ∃ k, (symbol x 0, k) ∈ s.uses ∧ (symbol x 0, k) ∈ t.uses := by
  obtain ⟨o, outputs, -⟩ := regular.outputs
  obtain ⟨o', outputs', -⟩ := regular'.outputs
  obtain ⟨i, inputs, single, found⟩ := regular.inputs
  obtain ⟨i', inputs', -, found'⟩ := regular'.inputs
  rw [compareStreams_eq outputs outputs' inputs inputs'] at ok
  split at ok
  · rcases work : Encoding.on .empty (pairWork s t suffix) with ⟨fault | done, e⟩
    · rw [work] at ok
      contradiction
    · rw [work] at ok
      cases ok
      obtain ⟨compared, -⟩ := pairWork_spec apart regular work
      have sorts := regular.compared_sorts regular' apart compared x
      change x ∈ (i.foldl (tieInput suffix i') _).2 ↔ _
      rw [tieInputs_shared, (assumed_spec _ _).1, or_iff_right List.not_mem_nil]
      constructor
      · rintro ⟨y, z, k, member, read', common⟩
        obtain ⟨rfl, read⟩ := (found x y).mp (Entries.get?_of_mem single member)
        obtain ⟨rfl, -⟩ := (found' x z).mp read'
        rcases commonSort?_eq_some.mp common with ⟨none, -⟩ | ⟨first, second⟩
        · obtain ⟨k, declared⟩ := regular.read_declared compared.sorted read
          exact nomatch none.symm.trans declared
        · exact ⟨k, (sorts k).1.mp first, (sorts k).2.mp second⟩
      · rintro ⟨k, use, use'⟩
        have first := (sorts k).1.mpr use
        have second := (sorts k).2.mpr use'
        have read := regular.first_read apart compared first
        have read' := regular.second_read regular' apart compared second
        exact ⟨_, _, k, Entries.mem_of_get? ((found x _).mpr ⟨rfl, read⟩),
          (found' x _).mpr ⟨rfl, read'⟩, commonSort?_eq_some.mpr (.inr ⟨first, second⟩)⟩
  · contradiction

theorem compare_outcome (regular : s.Regular) (regular' : t.Regular) (plain : s.Plain)
    (plain' : t.Plain) (apart : Separates suffix) (names : ∀ x, s.Assigns x ↔ t.Assigns x) :
    (s.Consistent ∧ t.Consistent → ∃ result, compareStreams s t suffix = .ok result) ∧
      (¬ (s.Consistent ∧ t.Consistent) → Conflicting s t suffix) := by
  obtain ⟨o, outputs, distinct, keys, -⟩ := regular.outputs
  obtain ⟨o', outputs', distinct', keys', -⟩ := regular'.outputs
  obtain ⟨i, inputs, -⟩ := regular.inputs
  obtain ⟨i', inputs', -⟩ := regular'.inputs
  have agree : sameNames o o' = true := (sameNames_iff distinct distinct').mpr fun x =>
    (keys x).trans ((names x).trans (keys' x).symm)
  unfold Conflicting
  rw [← Encoding.pairWork_succeeds_iff apart regular plain plain',
    compareStreams_eq outputs outputs' inputs inputs', if_pos agree]
  rcases work : Encoding.on .empty (pairWork s t suffix) with ⟨fault | done, e⟩
  · refine ⟨?_, fun _ => ⟨fault, rfl, ?_⟩⟩
    · rintro ⟨u, e', succeeds⟩
      exact nomatch work.symm.trans succeeds
    · rcases (pairWork_faults s t suffix).fault work with first | second
      · exact plain.fault_kind first
      · exact (plain'.renamed suffix).fault_kind second
  · exact ⟨fun _ => ⟨_, rfl⟩, fun fails => absurd ⟨done, e, work⟩ fails⟩

theorem consistent_of_compares (regular : s.Regular) (regular' : t.Regular) (plain : s.Plain)
    (plain' : t.Plain) (apart : Separates suffix) {result : Comparing Empty}
    (ok : compareStreams s t suffix = .ok result) : s.Consistent ∧ t.Consistent := by
  refine Classical.not_not.mp fun conflict => ?_
  obtain ⟨fault, raised, -⟩ := (regular.compare_outcome regular' plain plain' apart
    (regular.compares regular' apart ok).1).2 conflict
  exact nomatch raised.symm.trans ok

theorem conflicting_iff (regular : s.Regular) (regular' : t.Regular) (plain : s.Plain)
    (plain' : t.Plain) (apart : Separates suffix) :
    Conflicting s t suffix ↔
      (∀ x, s.Assigns x ↔ t.Assigns x) ∧ ¬ (s.Consistent ∧ t.Consistent) := by
  constructor
  · rintro ⟨fault, raised, kind⟩
    have names : ∀ x, s.Assigns x ↔ t.Assigns x := by
      refine Classical.not_not.mp fun differ => ?_
      obtain ⟨other, refused, mismatch⟩ := (regular.compare_refuses regular' suffix).mpr differ
      obtain rfl := Except.error.inj (raised.symm.trans refused)
      exact nomatch kind.symm.trans mismatch
    refine ⟨names, fun consistent => ?_⟩
    obtain ⟨result, ok⟩ :=
      (regular.compare_outcome regular' plain plain' apart names).1 consistent
    exact nomatch raised.symm.trans ok
  · rintro ⟨names, conflict⟩
    exact (regular.compare_outcome regular' plain plain' apart names).2 conflict

end Stream.Regular

theorem Program.comparison_satisfiable_comm {p q : Program Empty} (regular : p.stream.Regular)
    (regular' : q.stream.Regular) {suffix : String} (apart : Separates suffix)
    {forth back : Comparing Empty} (ok : compareStreams p.stream q.stream suffix = .ok forth)
    (ok' : compareStreams q.stream p.stream suffix = .ok back) :
    forth.script.Satisfiable ↔ back.script.Satisfiable := by
  have same : ∀ x, x ∈ Stmt.targetsAll p ↔ x ∈ Stmt.targetsAll q := fun x =>
    (p.typed.assigned x).symm.trans
      (((regular.compares regular' apart ok).1 x).trans (q.typed.assigned x))
  rw [comparison_satisfiable_iff regular regular' apart ok,
    comparison_satisfiable_iff regular' regular apart ok']
  constructor
  · rintro ⟨input, r, s, goes, goes', passes, passes', x, target, differ⟩
    exact ⟨input, s, r, goes', goes, passes', passes, x, (same x).mp target, differ.symm⟩
  · rintro ⟨input, s, r, goes', goes, passes', passes, x, target, differ⟩
    exact ⟨input, r, s, goes, goes', passes, passes', x, (same x).mpr target, differ.symm⟩

/-- The order of two programs does not matter for their comparison: neither for whether it is
refused or meets a symbol used at two sorts, nor for the inputs it ties, nor for whether its script
has a model. -/
theorem comparison_symmetric (p q : Program Empty) (short : Stmt.anyTooLong p = false)
    (short' : Stmt.anyTooLong q = false) (c d : Construction Empty)
    (built : Construction.empty.extended p = .ok c) (built' : Construction.empty.extended q = .ok d)
    (suffix : String) (apart : Separates suffix) :
    (Refused c.stream d.stream suffix ↔ Refused d.stream c.stream suffix) ∧
    (Conflicting c.stream d.stream suffix ↔ Conflicting d.stream c.stream suffix) ∧
    ∀ forth, compareStreams c.stream d.stream suffix = .ok forth →
      ∃ back, compareStreams d.stream c.stream suffix = .ok back ∧
        (forth.script.Satisfiable ↔ back.script.Satisfiable) ∧
        ∀ x, x ∈ forth.shared ↔ x ∈ back.shared := by
  obtain ⟨rfl, regular⟩ := Program.regular_of_extended built
  obtain ⟨rfl, regular'⟩ := Program.regular_of_extended built'
  have plain := Program.plain short
  have plain' := Program.plain short'
  have turned : (∀ x, p.stream.Assigns x ↔ q.stream.Assigns x) ↔
      ∀ x, q.stream.Assigns x ↔ p.stream.Assigns x := forall_congr' fun x => Iff.comm
  refine ⟨?_, ?_, fun forth ok => ?_⟩
  · exact (regular.compare_refuses regular' suffix).trans
      ((not_congr turned).trans (regular'.compare_refuses regular suffix).symm)
  · exact (regular.conflicting_iff regular' plain plain' apart).trans
      ((and_congr turned (not_congr And.comm)).trans
        (regular'.conflicting_iff regular plain' plain apart).symm)
  · have names := (regular.compares regular' apart ok).1
    have consistent := regular.consistent_of_compares regular' plain plain' apart ok
    obtain ⟨back, ok'⟩ := (regular'.compare_outcome regular plain' plain apart
      (turned.mp names)).1 consistent.symm
    refine ⟨back, ok', ?_, fun x => ?_⟩
    · exact Program.comparison_satisfiable_comm regular regular' apart ok ok'
    · rw [regular.mem_shared_iff regular' apart ok, regular'.mem_shared_iff regular apart ok']
      exact exists_congr fun k => And.comm

def countUpToInput : Program Empty :=
  [.assign ⟨"x", .lit 0⟩,
    .whileLoop (.binary (.compare .lt) (.var "x") (.var "n"))
      [.assign ⟨"x", .binary (.compute .add) (.var "x") (.lit 1)⟩]]

theorem comparison_symmetric_countUpToInput :
    let other : Program Empty := [.assign ⟨"x", .var "n"⟩]
    ∃ c d forth back, Construction.empty.extended countUpToInput = .ok c ∧
      Construction.empty.extended other = .ok d ∧ Separates "_b" ∧
      compareStreams c.stream d.stream "_b" = .ok forth ∧
      compareStreams d.stream c.stream "_b" = .ok back ∧
      (forth.script.Satisfiable ↔ back.script.Satisfiable) ∧ "n" ∈ back.shared := by
  intro other
  obtain ⟨c, built⟩ := exists_ok (x := Construction.empty.extended countUpToInput)
    (by decide +kernel)
  obtain ⟨d, built'⟩ := exists_ok (x := Construction.empty.extended other) (by decide +kernel)
  have apart : Separates "_b" := ⟨'b', by decide⟩
  have first := (Program.regular_of_extended built).1
  have second := (Program.regular_of_extended built').1
  obtain ⟨forth, ok⟩ := exists_ok (x := compareStreams c.stream d.stream "_b") (by
    rw [first, second]
    decide +kernel)
  have shared : ((compareStreams c.stream d.stream "_b").toOption.map Comparing.shared) =
      some ["n"] := by
    rw [first, second]
    decide +kernel
  rw [ok] at shared
  obtain ⟨back, ok', models, ties⟩ := (comparison_symmetric countUpToInput other (by decide +kernel)
    (by decide +kernel) c d built built' "_b" apart).2.2 forth ok
  refine ⟨c, d, forth, back, built, built', apart, ok, ok', models, (ties "n").mp ?_⟩
  rw [Option.some.inj shared]
  exact List.mem_singleton_self _

end Assay
