import Assay.Proofs.ArraySorts
import Assay.Proofs.ProgramNames
import Assay.Proofs.SexpValues

/-! Scripts are closed and well sorted, and their text means what they do. Every assertion in the
script of a program that was read is the text of one expression, which is true or false under every
valuation and true exactly where the assertion holds. -/
namespace Assay

open Smt

/-! Terms, formulas and assertions. -/

def Smt.VarSort.kind : VarSort Empty → Sexp.Kind
  | .int => .int
  | .array => .array

def Sorts.kinds (sorts : Sorts) (x : String) : Option Sexp.Kind := (sorts x).map VarSort.kind

namespace Smt

mutual

def Term.uses : Term Empty → List (String × VarSort Empty)
  | .numeral _ => []
  | .symbol s => [(s, .int)]
  | .select a i => (a, .array) :: i.uses
  | .neg t => t.uses
  | .add l r | .sub l r | .mul l r | .div l r => l.uses ++ r.uses
  | .ite c t e => c.uses ++ (t.uses ++ e.uses)

def Formula.uses : Formula Empty → List (String × VarSort Empty)
  | .true | .false => []
  | .compare _ l r => l.uses ++ r.uses
  | .not f => f.uses

end

def Condition.uses (c : Condition Empty) : List (String × VarSort Empty) :=
  c.cond.uses ++ c.path.flatMap Formula.uses

def Assertion.uses : Assertion Empty → List (String × VarSort Empty)
  | .define s t => (s, .int) :: t.uses
  | .copy sort a b | .tie sort a b => [(a, sort), (b, sort)]
  | .choose sort s g a b => g.uses ++ [(s, sort), (a, sort), (b, sort)]
  | .either sort s a b => [(s, sort), (a, sort), (b, sort)]
  | .assume c => c.uses
  | .violated cs => cs.flatMap Condition.uses
  | .differ ps => ps.flatMap fun p => [(p.1, .int), (p.2, .int)]

end Smt

def Sorts.Declare (sorts : Sorts) (uses : List (String × VarSort Empty)) : Prop :=
  ∀ u ∈ uses, Sexp.IsSymbol u.1 ∧ sorts u.1 = some u.2

section

variable {sorts : Sorts} {v : Valuation}

open Sexp

theorem Sorts.declare_append {us vs : List (String × VarSort Empty)} :
    sorts.Declare (us ++ vs) ↔ sorts.Declare us ∧ sorts.Declare vs :=
  List.forall_mem_append

theorem Sorts.declare_cons {u : String × VarSort Empty} {us : List (String × VarSort Empty)} :
    sorts.Declare (u :: us) ↔ (IsSymbol u.1 ∧ sorts u.1 = some u.2) ∧ sorts.Declare us :=
  List.forall_mem_cons

theorem Sorts.declare_pair {u w : String × VarSort Empty} :
    sorts.Declare [u, w] ↔
      (IsSymbol u.1 ∧ sorts u.1 = some u.2) ∧ IsSymbol w.1 ∧ sorts w.1 = some w.2 := by
  rw [declare_cons]
  exact and_congr_right fun _ => List.forall_mem_singleton

theorem denotes_declared {x : String} {k : VarSort Empty}
    (declared : IsSymbol x ∧ sorts x = some k) :
    Denotes sorts.kinds v (.atom x) (.ofSymbol v x k.kind) :=
  denotes_symbol v declared.1 (congrArg (Option.map VarSort.kind) declared.2)

theorem operate_relation (v : Valuation) (op : Comparison) (m n : Int) :
    operate v (relation op) [.int m, .int n] = .bool (op.holds m n) := by
  cases op with
  | eq | ne =>
    simp only [relation, operate, Comparison.holds, Datum.bool.injEq]
    rw [Bool.eq_iff_iff]
    simp
  | le | ge | lt | gt => simp [relation, operate, Comparison.holds, Datum.toInt]

mutual

theorem Smt.Term.denotes (v : Valuation) (t : Term Empty) (declared : sorts.Declare t.uses) :
    Denotes sorts.kinds v t.sexp (.int (t.eval v)) := by
  match t with
  | .numeral n => exact denotes_numeral _ v n
  | .symbol s => exact denotes_declared (Sorts.declare_cons.mp declared).1
  | .select a i =>
    obtain ⟨array, rest⟩ := Sorts.declare_cons.mp declared
    exact denotes_binary (denotes_declared array) (i.denotes v rest) rfl rfl
  | .neg t => exact denotes_unary (t.denotes v declared) rfl rfl
  | .add l r | .sub l r | .mul l r | .div l r =>
    obtain ⟨left, right⟩ := Sorts.declare_append.mp declared
    exact denotes_binary (l.denotes v left) (r.denotes v right) rfl rfl
  | .ite c t e =>
    obtain ⟨cond, rest⟩ := Sorts.declare_append.mp declared
    obtain ⟨yes, no⟩ := Sorts.declare_append.mp rest
    rw [Term.eval, apply_ite Datum.int]
    exact denotes_ite (c.denotes v cond) (t.denotes v yes) (e.denotes v no) rfl

theorem Smt.Formula.denotes (v : Valuation) (f : Formula Empty) (declared : sorts.Declare f.uses) :
    Denotes sorts.kinds v f.sexp (.bool (f.eval v)) := by
  match f with
  | .true => exact denotes_truth _ v true
  | .false => exact denotes_truth _ v false
  | .compare op l r =>
    obtain ⟨left, right⟩ := Sorts.declare_append.mp declared
    refine denotes_binary (k := .bool) (l.denotes v left) (r.denotes v right) ?_
      (operate_relation v op _ _)
    cases op <;> rfl
  | .not f => exact denotes_unary (f.denotes v declared) rfl rfl

end

section

variable {α : Type} {declared : String → Option Kind} {print : α → Sexp} {truth : α → Bool}
  {xs : List α}

theorem denotes_conjunction
    (each : ∀ x ∈ xs, Denotes declared v (print x) (.bool (truth x))) :
    Denotes declared v (.conjunction (xs.map print)) (.bool (xs.all truth)) := by
  match xs with
  | [] => exact denotes_truth _ v true
  | [x] =>
    rw [List.all_cons, List.all_nil, Bool.and_true]
    exact each x (List.mem_singleton_self x)
  | x :: y :: rest =>
    have data : List.Forall₂ (Denotes declared v) ((x :: y :: rest).map print)
        ((x :: y :: rest).map fun x => .bool (truth x)) := by
      rw [List.forall₂_map_left_iff, List.forall₂_map_right_iff, List.forall₂_same]
      exact each
    have taken : result? "and" (((x :: y :: rest).map fun x => Datum.bool (truth x)).map
        Datum.kind) = some .bool := by
      simp [result?, takes, Datum.kind]
    have whole := denotes_app data taken
    simp only [operate, List.map_map, List.all_map] at whole
    exact whole

theorem denotes_refuted (each : ∀ x ∈ xs, Denotes declared v (print x) (.bool (truth x))) :
    Denotes declared v (refuted (xs.map print)) (.bool (!xs.all truth)) := by
  unfold refuted
  split
  · rename_i empty
    obtain rfl : xs = [] := by simpa using empty
    exact denotes_truth _ v false
  · exact denotes_unary (denotes_conjunction each) rfl rfl

end

theorem Smt.Condition.denotes (v : Valuation) (c : Condition Empty)
    (declared : sorts.Declare c.uses) : Denotes sorts.kinds v c.sexp (.bool (c.eval v)) := by
  obtain ⟨goal, path⟩ := Sorts.declare_append.mp declared
  have holds := c.cond.denotes v goal
  have known : ∀ f ∈ c.path, Denotes sorts.kinds v f.sexp (.bool (f.eval v)) := fun f member =>
    f.denotes v fun u used => path u (List.mem_flatMap.mpr ⟨f, member, used⟩)
  unfold sexp eval
  split
  · rename_i empty
    rw [List.isEmpty_iff.mp empty]
    exact holds
  · exact denotes_binary (denotes_conjunction known) holds rfl rfl

theorem agrees_iff (v : Valuation) (k : VarSort Empty) (a b : String) :
    Agrees v k a b ↔ Datum.ofSymbol v a k.kind = .ofSymbol v b k.kind := by
  cases k with
  | int => exact Datum.int.injEq .. ▸ Iff.rfl
  | array => exact Datum.array.injEq .. ▸ Iff.rfl
  | stray part => exact part.elim

section

open Classical

theorem denotes_equation {k : VarSort Empty} {a b : String} (v : Valuation)
    (first : IsSymbol a ∧ sorts a = some k) (second : IsSymbol b ∧ sorts b = some k) :
    Denotes sorts.kinds v (equation a b) (.bool (Agrees v k a b)) := by
  have same : (Datum.ofSymbol v a k.kind).kind = (Datum.ofSymbol v b k.kind).kind := by
    rw [Datum.kind_ofSymbol, Datum.kind_ofSymbol]
  have equal := denotes_equal (denotes_declared (v := v) first) (denotes_declared second) same
  exact equal.of_iff (decide_eq_true_iff.trans (agrees_iff v k a b).symm)

/-- A printed assertion is true exactly where the assertion holds. -/
theorem Smt.Assertion.denotes (v : Valuation) (a : Assertion Empty)
    (declared : sorts.Declare a.uses) : Denotes sorts.kinds v a.sexp (.bool (a.Holds v)) := by
  cases a with
  | define s t =>
    obtain ⟨target, rest⟩ := Sorts.declare_cons.mp declared
    have equal := denotes_equal (denotes_declared target) (t.denotes v rest) rfl
    exact equal.of_iff (decide_eq_true_iff.trans (Datum.int.injEq .. ▸ Iff.rfl))
  | copy k s a | tie k s a =>
    obtain ⟨first, second⟩ := Sorts.declare_pair.mp declared
    exact denotes_equation v first second
  | choose k s g a b =>
    simp only [uses, Sorts.declare_append, Sorts.declare_cons] at declared
    obtain ⟨guard, target, first, second, -⟩ := declared
    have operand := denotes_ite (g.denotes v guard) (denotes_declared first)
      (denotes_declared second) (by simp only [Datum.kind_ofSymbol])
    rw [← apply_ite fun x => Datum.ofSymbol v x k.kind] at operand
    have equal := denotes_equal (denotes_declared target) operand
      (by simp only [Datum.kind_ofSymbol])
    exact equal.of_iff (decide_eq_true_iff.trans (agrees_iff v k s _).symm)
  | either k s a b =>
    simp only [uses, Sorts.declare_cons] at declared
    obtain ⟨target, first, second, -⟩ := declared
    have one : Denotes sorts.kinds v (.app "or" [equation s a, equation s b]) _ :=
      denotes_binary (denotes_equation v target first) (denotes_equation v target second) rfl rfl
    exact one.of_iff (by simp [Holds, Datum.toBool])
  | assume c => exact (c.denotes v declared).of_iff Iff.rfl
  | violated cs =>
    have each : ∀ c ∈ cs, Denotes sorts.kinds v c.sexp (.bool (c.eval v)) := fun c member =>
      c.denotes v fun u used => declared u (List.mem_flatMap.mpr ⟨c, member, used⟩)
    exact (denotes_refuted each).of_iff (by simp [Holds])
  | differ ps =>
    have each : ∀ p ∈ ps, Denotes sorts.kinds v (equation p.1 p.2)
        (.bool (Agrees v .int p.1 p.2)) := by
      intro p member
      have pair : sorts.Declare [(p.1, .int), (p.2, .int)] := fun u used =>
        declared u (List.mem_flatMap.mpr ⟨p, member, used⟩)
      obtain ⟨first, second⟩ := Sorts.declare_pair.mp pair
      exact denotes_equation v first second
    exact (denotes_refuted each).of_iff (by simp [Holds]; rfl)
  | stray part => exact part.elim

end

theorem Smt.Assertion.sorted (a : Assertion Empty) (declared : sorts.Declare a.uses) :
    a.sexp.Spelled ∧ a.sexp.sort? sorts.kinds = some .bool := by
  -- neither depends on the valuation, so any will do
  have denotes := a.denotes ⟨fun _ => 0, fun _ _ => 0, fun _ => 0⟩ declared
  exact ⟨denotes.spelled, denotes.sort⟩

end

/-! What instructions become uses the symbols that they do. -/

theorem uses_compute (op : Arithmetic) (l r : Term Empty) :
    (compute op l r).uses ⊆ l.uses ++ r.uses := by
  intro u used
  cases op <;> simp only [compute, quotient, zero, Term.uses, Formula.uses, List.mem_append,
    List.append_nil] at used ⊢ <;> tauto

theorem uses_nonzero (t : Term Empty) : (Formula.compare .ne t zero).uses = t.uses :=
  List.append_nil _

theorem uses_truth (f : Formula Empty) : (Term.ite f one zero).uses = f.uses :=
  List.append_nil _

theorem Expr.uses_encoded (e : Expr Empty) :
    e.term.uses ⊆ e.uses ∧ e.formula.uses ⊆ e.uses := by
  induction e with
  | lit n =>
    constructor
    · unfold term ofInt
      split <;> exact List.nil_subset _
    · unfold formula
      split <;> exact List.nil_subset _
  | var x =>
    rw [formula, uses_nonzero]
    exact ⟨List.Subset.refl _, List.Subset.refl _⟩
  | read a i ih =>
    have value : (Term.select a i.term).uses ⊆ (read a i).uses := List.cons_subset_cons _ ih.1
    rw [formula, uses_nonzero]
    exact ⟨value, value⟩
  | binary op l r left right =>
    have both : (binary op l r).uses = l.uses ++ r.uses := List.filterMap_append
    have parts : l.term.uses ++ r.term.uses ⊆ l.uses ++ r.uses :=
      List.append_subset.mpr ⟨List.subset_append_of_subset_left _ left.1,
        List.subset_append_of_subset_right _ right.1⟩
    rw [both]
    cases op with
    | compare c =>
      rw [term, uses_truth]
      exact ⟨parts, parts⟩
    | compute op =>
      rw [formula, uses_nonzero]
      have value := List.Subset.trans (uses_compute op l.term r.term) parts
      exact ⟨value, value⟩
    | other mark text => exact mark.elim
  | unary op e ih =>
    cases op with
    | not =>
      rw [term, uses_truth]
      exact ⟨ih.2, ih.2⟩
    | other mark text => exact mark.elim
  | stray part => exact part.elim

namespace Instr

variable {sort : String → VarSort Empty} {i : Instr Empty}

theorem uses_constraint {a : Assertion Empty} (constraint : i.constraint? sort = some a) :
    a.uses ⊆ i.uses sort := by
  unfold constraint? at constraint
  split at constraint
  · cases constraint
    rename_i x e
    intro u used
    rcases List.mem_cons.mp used with rfl | value
    · exact List.mem_append_right _ (List.mem_singleton_self _)
    · exact List.mem_append_left _ (e.uses_encoded.1 value)
  · cases constraint
    exact List.Subset.refl _
  · cases constraint
    exact List.Subset.refl _
  · cases constraint
    rename_i r a b g
    intro u used
    rcases List.mem_append.mp used with cond | joined
    · exact List.mem_append_right _ (g.uses_encoded.2 cond)
    · exact List.mem_append_left _ joined
  · contradiction

theorem uses_condition {c : Condition Empty} (condition : i.condition? = some c) :
    c.uses ⊆ i.uses sort := by
  cases i with
  | assert cond path =>
    cases condition
    refine List.append_subset.mpr
      ⟨List.subset_append_of_subset_left _ cond.uses_encoded.2, fun u used => ?_⟩
    obtain ⟨f, inside, used⟩ := List.mem_flatMap.mp used
    obtain ⟨g, guard, rfl⟩ := List.mem_map.mp inside
    exact List.mem_append_right _ (List.mem_flatMap.mpr ⟨g, guard, g.uses_encoded.2 used⟩)
  | assign x e | phi r xs guard => contradiction
  | stray part => exact part.elim

end Instr

namespace Stream

variable {s : Stream Empty} {script : Script Empty}

/-- What encoding leaves behind: no symbol is declared twice, and the assertions are those of the
instructions, with the question behind them and their symbols at their sorts. -/
theorem encoded_text (ok : s.encoded = .ok script) :
    script.declarations.keys.Nodup ∧ ∃ sort,
      script.assertions = (s.added sort).assertions ++ [.violated (s.added sort).conditions] ∧
      ∀ u ∈ (s.added sort).uses, script.sorts u.1 = some u.2 := by
  unfold encoded at ok
  split at ok
  · contradiction
  · rename_i u e run
    cases ok
    have extension := Encoding.define_extends (u := u) run
    refine ⟨extension.distinct List.nodup_nil, sortIn (addNames [] s.arrays), ?_, extension.used⟩
    rw [Script.add, extension.assertions, extension.conditions]
    rfl

end Stream

/-- A script that declares each symbol of a stream once and nothing else, and whose assertions are
expressions over these symbols that are true or false: all of them are true exactly under the models
of the script. -/
structure Smt.Script.ClosedOver (script : Script Empty) (s : Stream Empty) : Prop where
  sorted : ∀ text ∈ script.assertionTexts, ∃ e, Sexp.read? text = some e ∧
    e.sort? script.sorts.kinds = some .bool ∧
      ∀ word ∈ e.words, word ∈ Sexp.operators ∨ (Sexp.constant? word).isSome ∨
        word ∈ script.declarations.keys
  means : ∀ v, script.Models v ↔ ∀ text ∈ script.assertionTexts, ∃ e, Sexp.read? text = some e ∧
    e.eval? script.sorts.kinds v = some (.bool true)
  symbols : ∀ x ∈ script.declarations.keys, Sexp.IsSymbol x
  distinct : script.declarations.keys.Nodup
  declared : ∀ x, x ∈ script.declarations.keys ↔ x ∈ s.mentions

namespace Stream

variable {s : Stream Empty} {script : Script Empty}

theorem Encoded.mem_keys (encoded : s.Encoded script) (guards : ∀ i ∈ s, i.GuardsPick)
    (x : String) : x ∈ script.declarations.keys ↔ x ∈ s.mentions := by
  rw [Entries.mem_keys, Option.ne_none_iff_exists']
  constructor
  · rintro ⟨k, found⟩
    exact encoded.only x k found
  · intro stands
    exact ⟨_, (encoded.sorts_iff guards x _).mpr ⟨stands, rfl⟩⟩

structure Writable (s : Stream Empty) : Prop where
  guards : ∀ i ∈ s, i.GuardsPick
  symbols : ∀ x ∈ s.mentions, Sexp.IsSymbol x

theorem Writable.simplified (writable : s.Writable) : s.simplified.Writable :=
  ⟨guardsPick_simplified writable.guards, fun x stands =>
    writable.symbols x (mentions_simplified stands)⟩

theorem Writable.declare (writable : s.Writable) {sort : String → VarSort Empty} {sorts : Sorts}
    (used : ∀ u ∈ (s.added sort).uses, sorts u.1 = some u.2) {i : Instr Empty} (stands : i ∈ s) :
    sorts.Declare (i.uses sort) := by
  intro u use
  constructor
  · exact writable.symbols _ (mem_mentions stands (Instr.mem_mentions_of_mem_uses use))
  · exact used u (List.mem_flatMap.mpr ⟨i, stands, use⟩)

theorem Writable.declares_constraints (writable : s.Writable) {sort : String → VarSort Empty}
    {sorts : Sorts} (used : ∀ u ∈ (s.added sort).uses, sorts u.1 = some u.2) :
    ∀ a ∈ (s.added sort).assertions, sorts.Declare a.uses := by
  intro a member u use
  obtain ⟨i, stands, constraint⟩ := List.mem_filterMap.mp member
  exact writable.declare used stands u (Instr.uses_constraint constraint use)

theorem Writable.declares_conditions (writable : s.Writable) {sort : String → VarSort Empty}
    {sorts : Sorts} (used : ∀ u ∈ (s.added sort).uses, sorts u.1 = some u.2) :
    ∀ c ∈ (s.added sort).conditions, sorts.Declare c.uses := by
  intro c member u use
  obtain ⟨i, stands, condition⟩ := List.mem_filterMap.mp member
  exact writable.declare used stands u (Instr.uses_condition condition use)

theorem Writable.declares (writable : s.Writable) (ok : s.encoded = .ok script) :
    ∀ a ∈ script.assertions, script.sorts.Declare a.uses := by
  obtain ⟨-, sort, assertions, used⟩ := encoded_text ok
  rw [assertions, List.forall_mem_append]
  constructor
  · exact writable.declares_constraints used
  · refine List.forall_mem_singleton.mpr fun u use => ?_
    obtain ⟨c, inside, use⟩ := List.mem_flatMap.mp use
    exact writable.declares_conditions used c inside u use

end Stream

namespace Smt.Script

variable {script : Script Empty}

/-- The printed assertions mean what the script does once its symbols are declared. -/
theorem models_iff_texts (declared : ∀ a ∈ script.assertions, script.sorts.Declare a.uses)
    (v : Valuation) :
    script.Models v ↔ ∀ text ∈ script.assertionTexts, ∃ e, Sexp.read? text = some e ∧
      e.eval? script.sorts.kinds v = some (.bool true) := by
  have each : ∀ a ∈ script.assertions, a.Holds v ↔ ∃ e, Sexp.read? a.sexp.toText = some e ∧
      e.eval? script.sorts.kinds v = some (.bool true) := by
    intro a asserted
    have denotes := a.denotes v (declared a asserted)
    rw [Sexp.read?_toText denotes.spelled]
    simp [denotes.value]
  rw [assertionTexts, List.forall_mem_map]
  exact forall₂_congr each

end Smt.Script

namespace Stream

variable {s : Stream Empty} {script : Script Empty}

theorem Writable.closedOver (writable : s.Writable) (ok : s.encoded = .ok script) :
    script.ClosedOver s := by
  have keys := (encoded_spec ok).mem_keys writable.guards
  have declared := writable.declares ok
  refine ⟨fun text member => ?_, Script.models_iff_texts declared,
    fun x member => writable.symbols x ((keys x).mp member), (encoded_text ok).1, keys⟩
  obtain ⟨a, asserted, rfl⟩ := List.mem_map.mp member
  obtain ⟨spelled, sort⟩ := a.sorted (declared a asserted)
  refine ⟨a.sexp, Sexp.read?_toText spelled, sort, fun word stands => ?_⟩
  rcases Sexp.accounted_of_sort? sort word stands with operator | constant | found
  · exact .inl operator
  · exact .inr (.inl constant)
  · refine .inr (.inr (Entries.mem_keys.mpr fun absent => ?_))
    simp [Sorts.kinds, Script.sorts, absent] at found

end Stream

theorem Program.writable {text : List Char} {p : Program Empty}
    (reads : readProgram text = .ok p) : p.stream.Writable := by
  refine ⟨fun i member => p.numbered.guardsPick member, fun y stands => ?_⟩
  obtain ⟨x, n, rfl, name⟩ := p.mentions_version (readBlock_names reads) y stands
  exact Sexp.isSymbol_version name n

/-- The script of a program that was read, from its stream as it is built or after any number of
simplifications, is closed and well sorted, and its text means what the script does. -/
theorem script_closed_over_stream {text : List Char} {p : Program Empty}
    (reads : readProgram text = .ok p) (n : Nat) {script : Script Empty}
    (ok : Stream.encoded (Stream.simplified^[n] p.stream) = .ok script) :
    script.ClosedOver (Stream.simplified^[n] p.stream) := by
  have writable : Stream.Writable (Stream.simplified^[n] p.stream) := by
    clear ok
    induction n with
    | zero => exact Program.writable reads
    | succ n ih =>
      rw [Function.iterate_succ_apply']
      exact ih.simplified
  exact writable.closedOver ok

/-- A loop over an array that is met in the loop's condition first, with a negative divisor, a
negation that is counted with and an assertion under a path. -/
def halveWhileOdd : String :=
  "while (a[i] % 2 != 0) \x7b\n  i := i / -3 + !i;\n  assert(i >= 0);\n\x7d\n"

theorem script_closed_over_stream_halveWhileOdd :
    ∃ p script, readProgram halveWhileOdd.toList = .ok p ∧
      Stream.encoded (Stream.simplified^[1] p.stream) = .ok script ∧
      script.ClosedOver (Stream.simplified^[1] p.stream) := by
  obtain ⟨script, ok⟩ := exists_ok (x := do
      let p : Program Empty ← readProgram halveWhileOdd.toList
      Stream.encoded (Stream.simplified^[1] p.stream)) (by decide +kernel)
  obtain ⟨p, reads, ok⟩ := bind_eq_ok.mp ok
  exact ⟨p, script, reads, ok, script_closed_over_stream reads 1 ok⟩

end Assay
