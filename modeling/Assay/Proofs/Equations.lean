import Assay.Proofs.Encoding
import Assay.Proofs.Terms

/-! Streams as systems of equations. An assignment equates its target with a value, a phi its
result with an operand; the assertions of the program are the conditions on a solution. The script
of a stream has as models exactly the solutions that fail a condition. -/
namespace Assay

open Smt

theorem exists_ok {α : Type} {x : Except Error α} (ok : x.toBool = true) : ∃ a, x = .ok a := by
  cases x with
  | error e => contradiction
  | ok a => exact ⟨a, rfl⟩

abbrev Sorts := String → Option (VarSort Empty)

def Sorts.of (sorts : Sorts) (x : String) : VarSort Empty := (sorts x).getD .int

def Smt.Script.sorts (script : Script Empty) : Sorts := fun x => script.declarations.get? x

namespace Instr

def Holds (sorts : Sorts) (v : Valuation) : Instr Empty → Prop
  | .assign x e => v.int x = e.eval v
  | .phi r [a] _ => Agrees v (sorts.of r) r a
  | .phi r [a, b] none => Agrees v (sorts.of r) r a ∨ Agrees v (sorts.of r) r b
  | .phi r [a, b] (some g) => Agrees v (sorts.of r) r (if g.holds v then a else b)
  | _ => True

def Passes (v : Valuation) : Instr Empty → Prop
  | .assert c path => (∀ g ∈ path, g.holds v = true) → c.holds v = true
  | _ => True

def Sorted (sorts : Sorts) (i : Instr Empty) : Prop := ∀ u ∈ i.uses sorts.of, sorts u.1 = some u.2

def mentions (i : Instr Empty) : List String := i.defined?.toList ++ i.reads

end Instr

namespace Stream

def Solves (sorts : Sorts) (v : Valuation) (s : Stream Empty) : Prop := ∀ i ∈ s, i.Holds sorts v

def Passes (v : Valuation) (s : Stream Empty) : Prop := ∀ i ∈ s, i.Passes v

def Sorted (sorts : Sorts) (s : Stream Empty) : Prop := ∀ i ∈ s, i.Sorted sorts

def mentions (s : Stream Empty) : List String := s.flatMap Instr.mentions

end Stream

theorem Expr.mem_names_of_mem_uses {e : Expr Empty} {u : String × VarSort Empty}
    (used : u ∈ e.uses) : u.1 ∈ e.names := by
  obtain ⟨leaf, stands, use⟩ := List.mem_filterMap.mp used
  refine List.mem_filterMap.mpr ⟨leaf, stands, ?_⟩
  cases leaf with
  | number | stray => contradiction
  | name x | array x =>
    cases use
    rfl

theorem Expr.exists_use_of_mem_names {e : Expr Empty} {x : String} (named : x ∈ e.names) :
    ∃ k, (x, k) ∈ e.uses := by
  obtain ⟨leaf, stands, name⟩ := List.mem_filterMap.mp named
  cases leaf with
  | number | stray => contradiction
  | name y =>
    cases name
    exact ⟨.int, List.mem_filterMap.mpr ⟨_, stands, rfl⟩⟩
  | array y =>
    cases name
    exact ⟨.array, List.mem_filterMap.mpr ⟨_, stands, rfl⟩⟩

namespace Instr

theorem holds_constraint (sorts : Sorts) (v : Valuation) (i : Instr Empty) :
    (∀ a ∈ i.constraint? sorts.of, a.Holds v) ↔ i.Holds sorts v := by
  unfold constraint? Holds
  split <;> simp [Assertion.Holds, Expr.term_eval, Expr.formula_eval]

theorem passes_condition (v : Valuation) (i : Instr Empty) :
    (∀ c ∈ i.condition?, c.eval v = true) ↔ i.Passes v := by
  cases i with
  | assert c path =>
    have values : (path.map Expr.formula).all (Formula.eval v) = path.all (Expr.holds v) := by
      rw [List.all_map]
      exact congrArg path.all (funext fun g => Expr.formula_eval v g)
    simp only [condition?, Passes, Option.mem_def, Option.some.injEq, forall_eq', Condition.eval,
      Bool.or_eq_true, Bool.not_eq_true', values, Expr.formula_eval]
    constructor
    · rintro (blocked | holds) reached
      · rw [List.all_eq_true.mpr reached] at blocked
        contradiction
      · exact holds
    · intro passes
      cases reached : path.all (Expr.holds v) with
      | false => exact .inl rfl
      | true => exact .inr (passes (List.all_eq_true.mp reached))
  | assign x e | phi r xs g => simp [condition?, Passes]
  | stray part => exact part.elim

theorem uses_congr {f g : String → VarSort Empty} {i : Instr Empty}
    (same : ∀ r xs guard, i = .phi r xs guard → f r = g r) : i.uses f = i.uses g := by
  unfold uses
  split
  · rfl
  · rfl
  · rw [same _ _ _ rfl]
  · rw [same _ _ _ rfl]

theorem constraint?_congr {f g : String → VarSort Empty} {i : Instr Empty}
    (same : ∀ r xs guard, i = .phi r xs guard → f r = g r) :
    i.constraint? f = i.constraint? g := by
  unfold constraint?
  split
  · rfl
  · rw [same _ _ _ rfl]
  · rw [same _ _ _ rfl]
  · rw [same _ _ _ rfl]
  · rfl

theorem mem_uses_phi (sort : String → VarSort Empty) (r : String) (xs : List String)
    (guard : Option (Expr Empty)) {x : String} (member : x ∈ r :: xs) :
    (x, sort r) ∈ (Instr.phi r xs guard).uses sort := by
  unfold uses
  split
  · rename_i same
    cases same
  · rename_i same
    cases same
  · rename_i same
    cases same
    rcases List.mem_cons.mp member with rfl | member
    · simp
    · rcases List.mem_cons.mp member with rfl | member
      · simp
      · obtain rfl := List.mem_singleton.mp member
        simp
  · rename_i same
    cases same
    exact List.mem_map_of_mem (f := fun x => (x, sort r)) member

theorem Sorted.target {sorts : Sorts} {x : String} {e : Expr Empty}
    (sorted : (Instr.assign x e).Sorted sorts) : sorts x = some .int :=
  sorted (x, .int) (List.mem_append_right _ (List.mem_singleton_self _))

theorem Sorted.phi {sorts : Sorts} {r : String} {xs : List String} {guard : Option (Expr Empty)}
    (sorted : (Instr.phi r xs guard).Sorted sorts) {x : String} (member : x ∈ r :: xs) :
    sorts x = some (sorts.of r) :=
  sorted _ (mem_uses_phi sorts.of r xs guard member)

theorem Sorted.operand {sorts : Sorts} {r a : String} {xs : List String}
    {guard : Option (Expr Empty)} (sorted : (Instr.phi r xs guard).Sorted sorts)
    (member : a ∈ xs) : sorts a = sorts r :=
  (sorted.phi (List.mem_cons_of_mem _ member)).trans (sorted.phi (List.mem_cons_self ..)).symm

theorem Sorted.mono {sorts sorts' : Sorts} {i : Instr Empty} (sorted : i.Sorted sorts)
    (kept : ∀ x s, sorts x = some s → sorts' x = some s) :
    i.Sorted sorts' ∧ ∀ v, i.Holds sorts' v ↔ i.Holds sorts v := by
  have same : ∀ r xs guard, i = .phi r xs guard → sorts'.of r = sorts.of r := by
    rintro r xs guard rfl
    have declared := kept _ _ (sorted.phi (List.mem_cons_self ..))
    simp [Sorts.of, declared]
  constructor
  · intro u member
    rw [uses_congr same] at member
    exact kept _ _ (sorted u member)
  · intro v
    rw [← holds_constraint, ← holds_constraint, constraint?_congr same]

/-- What an instruction uses: the symbols of its expressions, the target of an assignment as an
integer, and the symbols of a phi at one sort. -/
theorem uses_cases {sort : String → VarSort Empty} {i : Instr Empty} {u : String × VarSort Empty}
    (used : u ∈ i.uses sort) :
    (∃ e ∈ i.exprs, u ∈ e.uses) ∨ (∃ x e, i = .assign x e ∧ u = (x, .int)) ∨
      ∃ r xs guard, i = .phi r xs guard ∧ ∃ x ∈ r :: xs, u = (x, sort r) := by
  cases i with
  | assign x e =>
    rcases List.mem_append.mp used with read | target
    · exact .inl ⟨e, List.mem_singleton_self e, read⟩
    · exact .inr (.inl ⟨x, e, rfl, List.mem_singleton.mp target⟩)
  | assert c path =>
    rcases List.mem_append.mp used with read | read
    · exact .inl ⟨c, List.mem_cons_self .., read⟩
    · obtain ⟨g, inside, read⟩ := List.mem_flatMap.mp read
      exact .inl ⟨g, List.mem_cons_of_mem _ inside, read⟩
  | phi r xs guard =>
    have joined : u ∈ (r :: xs).map (fun x => (x, sort r)) → ∃ x ∈ r :: xs, u = (x, sort r) := by
      intro member
      obtain ⟨x, stands, rfl⟩ := List.mem_map.mp member
      exact ⟨x, stands, rfl⟩
    unfold uses at used
    split at used
    · rename_i same
      cases same
    · rename_i same
      cases same
    · rename_i same
      cases same
      rcases List.mem_append.mp used with used | read
      · exact .inr (.inr ⟨_, _, _, rfl, joined used⟩)
      · exact .inl ⟨_, List.mem_singleton_self _, read⟩
    · rename_i same
      cases same
      exact .inr (.inr ⟨_, _, _, rfl, joined used⟩)
  | stray part => exact part.elim

theorem mem_mentions_expr {i : Instr Empty} {e : Expr Empty} (part : e ∈ i.exprs) {x : String}
    (named : x ∈ e.names) : x ∈ i.mentions :=
  List.mem_append_right _ (List.mem_append_right _ (List.mem_flatMap.mpr ⟨e, part, named⟩))

theorem mem_mentions_phi {r x : String} {xs : List String} {guard : Option (Expr Empty)}
    (joined : x ∈ r :: xs) : x ∈ (Instr.phi r xs guard).mentions := by
  rcases List.mem_cons.mp joined with rfl | operand
  · exact List.mem_append_left _ (List.mem_singleton_self x)
  · exact List.mem_append_right _ (List.mem_append_left _ operand)

theorem mem_mentions_of_mem_uses {sort : String → VarSort Empty} {i : Instr Empty}
    {u : String × VarSort Empty} (member : u ∈ i.uses sort) : u.1 ∈ i.mentions := by
  rcases uses_cases member with
    ⟨e, part, used⟩ | ⟨x, e, rfl, rfl⟩ | ⟨r, xs, guard, rfl, x, joined, rfl⟩
  · exact mem_mentions_expr part (Expr.mem_names_of_mem_uses used)
  · exact List.mem_append_left _ (List.mem_singleton_self x)
  · exact mem_mentions_phi joined

/-- A guard stands only where it picks one of two operands. -/
def GuardsPick (i : Instr Empty) : Prop :=
  ∀ r xs g, i = .phi r xs (some g) → ∃ a b, xs = [a, b]

theorem GuardsPick.mem_uses {i : Instr Empty} (guards : i.GuardsPick) (sort : String → VarSort Empty)
    {e : Expr Empty} (part : e ∈ i.exprs) {u : String × VarSort Empty} (used : u ∈ e.uses) :
    u ∈ i.uses sort := by
  cases i with
  | assign x f =>
    obtain rfl := List.mem_singleton.mp part
    exact List.mem_append_left _ used
  | assert c path =>
    rcases List.mem_cons.mp part with rfl | part
    · exact List.mem_append_left _ used
    · exact List.mem_append_right _ (List.mem_flatMap.mpr ⟨e, part, used⟩)
  | phi r xs guard =>
    obtain rfl := Option.mem_toList.mp part
    obtain ⟨a, b, rfl⟩ := guards r xs e rfl
    exact List.mem_append_right _ used
  | stray mark => exact mark.elim

theorem GuardsPick.exists_use {i : Instr Empty} (guards : i.GuardsPick)
    (sort : String → VarSort Empty) {x : String} (stands : x ∈ i.mentions) :
    ∃ k, (x, k) ∈ i.uses sort := by
  rcases List.mem_append.mp stands with defined | read
  · cases i with
    | assign y e =>
      obtain rfl := List.mem_singleton.mp defined
      exact ⟨.int, List.mem_append_right _ (List.mem_singleton_self _)⟩
    | phi r xs guard =>
      obtain rfl := List.mem_singleton.mp defined
      exact ⟨sort x, mem_uses_phi sort x xs guard (List.mem_cons_self ..)⟩
    | assert c path => exact absurd defined List.not_mem_nil
    | stray part => exact part.elim
  · rcases List.mem_append.mp read with operand | named
    · cases i with
      | phi r xs guard =>
        exact ⟨sort r, mem_uses_phi sort r xs guard (List.mem_cons_of_mem _ operand)⟩
      | assign y e | assert c path => exact absurd operand List.not_mem_nil
      | stray part => exact part.elim
    · obtain ⟨e, part, named⟩ := List.mem_flatMap.mp named
      obtain ⟨k, used⟩ := Expr.exists_use_of_mem_names named
      exact ⟨k, guards.mem_uses sort part used⟩

end Instr

namespace Stream

theorem Sorted.mono {sorts sorts' : Sorts} {s : Stream Empty} (sorted : s.Sorted sorts)
    (kept : ∀ x t, sorts x = some t → sorts' x = some t) :
    s.Sorted sorts' ∧ ∀ v, s.Solves sorts' v ↔ s.Solves sorts v := by
  refine ⟨fun i member => ((sorted i member).mono kept).1, fun v => ?_⟩
  constructor
  · intro solves i member
    exact (((sorted i member).mono kept).2 v).mp (solves i member)
  · intro solves i member
    exact (((sorted i member).mono kept).2 v).mpr (solves i member)

/-- An encoder that was extended by a stream: all symbols have their sorts, a phi the one that the
known arrays give, and the new assertions are the equations of the stream. -/
theorem extended {e e' : Encoder Empty} {arrays : List String} {s : Stream Empty}
    (extension : Extends e e' (added (sortIn arrays) s)) :
    s.Sorted e'.sort? ∧
    (∀ r xs guard, .phi r xs guard ∈ s → e'.sort? r = some (sortIn arrays r)) ∧
    (∀ x t, e'.sort? x = some t → e.sort? x = some t ∨ x ∈ s.mentions) ∧
    ∀ v, (∀ a ∈ s.filterMap (Instr.constraint? (sortIn arrays)), a.Holds v) ↔
      s.Solves e'.sort? v := by
  have uses : ∀ i ∈ s, ∀ u ∈ i.uses (sortIn arrays), e'.sort? u.1 = some u.2 := fun i member u used =>
    extension.used u (List.mem_flatMap.mpr ⟨i, member, used⟩)
  have phis : ∀ r xs guard, .phi r xs guard ∈ s → e'.sort? r = some (sortIn arrays r) :=
    fun r xs guard member =>
      uses _ member _ (Instr.mem_uses_phi _ r xs guard (List.mem_cons_self ..))
  have same : ∀ i ∈ s, ∀ r xs guard, i = .phi r xs guard → Sorts.of e'.sort? r = sortIn arrays r := by
    rintro i member r xs guard rfl
    simp [Sorts.of, phis r xs guard member]
  refine ⟨?_, phis, ?_, ?_⟩
  · intro i member u used
    rw [Instr.uses_congr (same i member)] at used
    exact uses i member u used
  · intro x t declared
    rcases extension.only x t declared with old | new
    · exact .inl old
    · obtain ⟨i, member, used⟩ := List.mem_flatMap.mp new
      exact .inr (List.mem_flatMap.mpr ⟨i, member, Instr.mem_mentions_of_mem_uses used⟩)
  · intro v
    constructor
    · intro holds i member
      rw [← Instr.holds_constraint, Instr.constraint?_congr (same i member)]
      exact fun a ha => holds a (List.mem_filterMap.mpr ⟨i, member, ha⟩)
    · intro solves a member
      obtain ⟨i, stands, ha⟩ := List.mem_filterMap.mp member
      have holds := solves i stands
      rw [← Instr.holds_constraint, Instr.constraint?_congr (same i stands)] at holds
      exact holds a ha

theorem passes_conditions (v : Valuation) (s : Stream Empty) :
    (∀ c ∈ s.filterMap Instr.condition?, c.eval v = true) ↔ s.Passes v := by
  constructor
  · intro conditions i member
    rw [← Instr.passes_condition]
    exact fun c hc => conditions c (List.mem_filterMap.mpr ⟨i, member, hc⟩)
  · intro passes c member
    obtain ⟨i, stands, hc⟩ := List.mem_filterMap.mp member
    exact (Instr.passes_condition v i).mpr (passes i stands) c hc

theorem mem_addNames {x : String} {known names : List String} :
    x ∈ addNames known names ↔ x ∈ known ∨ x ∈ names := by
  induction names generalizing known with
  | nil => simp [addNames]
  | cons n names ih =>
    change x ∈ addNames (if known.contains n then known else known ++ [n]) names ↔ _
    rw [ih]
    by_cases there : known.contains n = true
    · have member : n ∈ known := List.contains_iff_mem.mp there
      rw [if_pos there, List.mem_cons]
      constructor
      · rintro (old | new)
        · exact .inl old
        · exact .inr (.inr new)
      · rintro (old | rfl | new)
        · exact .inl old
        · exact .inl member
        · exact .inr new
    · rw [if_neg there, List.mem_append, List.mem_singleton, List.mem_cons, or_assoc]

def joinGroup (known g : List String) : List String :=
  if g.any known.contains then addNames known g else known

theorem spread_cons (g : List String) (groups : List (List String)) (known : List String) :
    spread (g :: groups) known = spread groups (joinGroup known g) := rfl

theorem mem_joinGroup {x : String} {known g : List String} :
    x ∈ joinGroup known g ↔ x ∈ known ∨ x ∈ g ∧ ∃ y ∈ g, y ∈ known := by
  have touches : g.any known.contains = true ↔ ∃ y ∈ g, y ∈ known := by
    simp only [List.any_eq_true, List.contains_iff_mem]
  unfold joinGroup
  split
  · rename_i touched
    rw [mem_addNames, and_iff_left (touches.mp touched)]
  · rename_i apart
    exact (or_iff_left fun joins => apart (touches.mpr joins.2)).symm

end Stream

theorem Smt.Script.models_add {m : Valuation} {script : Script Empty} {a : Assertion Empty} :
    (script.add a).Models m ↔ script.Models m ∧ a.Holds m := by
  simp only [Models, add, List.mem_append, List.mem_singleton, or_imp, forall_and, forall_eq]

namespace Stream

/-- What holds of the script of a stream. -/
structure Encoded (s : Stream Empty) (script : Script Empty) : Prop where
  sorted : s.Sorted script.sorts
  arrays : ∀ r xs guard, .phi r xs guard ∈ s → (script.sorts r = some .array ↔ r ∈ s.arrays)
  only : ∀ x t, script.sorts x = some t → x ∈ s.mentions
  models : ∀ v, script.Models v ↔ s.Solves script.sorts v ∧ ¬ s.Passes v

theorem encoded_spec {s : Stream Empty} {script : Script Empty} (ok : s.encoded = .ok script) :
    Encoded s script := by
  unfold encoded at ok
  split at ok
  · contradiction
  · rename_i u e run
    cases ok
    have extension := Encoding.define_extends (u := u) run
    obtain ⟨sorted, phis, only, equations⟩ := extended extension
    refine ⟨sorted, ?_, ?_, ?_⟩
    · intro r xs guard member
      have found : (e.script.add (.violated e.conditions)).sorts r = _ := phis r xs guard member
      rw [found]
      simp [sortIn, mem_addNames, Encoder.empty]
    · intro x t declared
      rcases only x t declared with old | new
      · exact absurd old (by simp [Encoder.sort?, Encoder.empty, Script.empty])
      · exact new
    · intro v
      have assertions : e.script.assertions = s.filterMap _ := extension.assertions
      have conditions : e.conditions = s.filterMap Instr.condition? := extension.conditions
      rw [Script.models_add]
      apply and_congr
      · unfold Script.Models
        rw [assertions]
        exact equations v
      · rw [conditions, ← passes_conditions]
        simp only [Assertion.Holds, Classical.not_forall, Bool.not_eq_true, exists_prop]

end Stream

end Assay
