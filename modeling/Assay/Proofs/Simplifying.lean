import Assay.Proofs.Folding
import Assay.Proofs.Verification
import Mathlib.Logic.Function.Iterate

/-! Simplification keeps the answer. A solution of a stream is carried to what is left of it, and
back. Dropping an assignment may take an index away, and with it the reason why phis join arrays:
a symbol that was an array can be left as an integer. Where the sorts differ, the values are those
of a valuation that is the same on all symbols which a phi joins. -/
namespace Assay

open Smt

def Instr.value? (x : String) : Instr Empty → Option (Expr Empty)
  | .assign y e => if y = x then some e else none
  | _ => none

namespace Stream

theorem passes_simplified {s : Stream Empty} {m m' : Valuation}
    (same : ∀ c path, .assert c path ∈ s → ∀ e ∈ c :: path,
      (e.fold (constants s)).holds m' = e.holds m) : s.simplified.Passes m' ↔ s.Passes m := by
  constructor
  · intro passes i member
    cases i with
    | assert c path =>
      have values := same c path member
      have folded := passes _ (assert_mem_simplified member)
      intro reached
      rw [← values c (List.mem_cons_self ..)]
      apply folded
      intro g stands
      obtain ⟨h, inside, rfl⟩ := List.mem_map.mp stands
      rw [values h (List.mem_cons_of_mem _ inside)]
      exact reached h inside
    | assign x e | phi r xs g => trivial
    | stray part => exact part.elim
  · intro passes j member
    obtain ⟨i, origin, rfl, -⟩ := mem_simplified.mp member
    cases i with
    | assert c path =>
      have values := same c path origin
      intro reached
      rw [values c (List.mem_cons_self ..)]
      apply passes _ origin
      intro g stands
      rw [← values g (List.mem_cons_of_mem _ stands)]
      exact reached _ (List.mem_map_of_mem stands)
    | assign x e | phi r xs g => trivial
    | stray part => exact part.elim

def SingleAssignment (s : Stream Empty) : Prop := (s.filterMap Instr.defined?).Nodup

theorem SingleAssignment.unique {s : Stream Empty} (single : s.SingleAssignment)
    {i j : Instr Empty} (hi : i ∈ s) (hj : j ∈ s) {x : String} (first : i.defined? = some x)
    (second : j.defined? = some x) : i = j := by
  induction s with
  | nil => contradiction
  | cons k s ih =>
    have alone : ∀ {l : Instr Empty}, l ∈ s → l.defined? = some x → k.defined? ≠ some x := by
      intro l member defines head
      unfold SingleAssignment at single
      rw [List.filterMap_cons_some head] at single
      exact (List.nodup_cons.mp single).1 (List.mem_filterMap.mpr ⟨l, member, defines⟩)
    have rest : SingleAssignment s :=
      List.Nodup.sublist ((List.sublist_cons_self k s).filterMap _) single
    rcases List.mem_cons.mp hi with rfl | inside
    · rcases List.mem_cons.mp hj with rfl | later
      · rfl
      · exact absurd first (alone later second)
    · rcases List.mem_cons.mp hj with rfl | later
      · exact absurd second (alone inside first)
      · exact ih rest inside later

theorem SingleAssignment.simplified {s : Stream Empty} (single : s.SingleAssignment) :
    s.simplified.SingleAssignment := by
  have same : (folded s).filterMap Instr.defined? = s.filterMap Instr.defined? := by
    unfold folded
    rw [List.filterMap_map]
    exact congrArg (s.filterMap ·) (funext fun i => Instr.defined?_fold _ i)
  refine List.Nodup.sublist ?_ single
  rw [← same]
  exact List.filter_sublist.filterMap _

theorem SingleAssignment.unassigned_phi {s : Stream Empty} (single : s.SingleAssignment)
    {r : String} {xs : List String} {guard : Option (Expr Empty)} (member : .phi r xs guard ∈ s)
    (e : Expr Empty) : .assign r e ∉ s :=
  fun assigned => nomatch single.unique member assigned rfl rfl

/-- Gives the symbols that nothing reads the values of their assignments. -/
def revalue (s : Stream Empty) (v : Valuation) : Valuation :=
  { v with
    int := fun x =>
      if x ∈ s.live then v.int x
      else
        match s.findSome? (Instr.value? x) with
        | some e => (e.fold (constants s)).eval v
        | none => v.int x }

theorem revalue_same {s : Stream Empty} (v : Valuation) {x : String}
    (kept : x ∈ s.live ∨ ∀ e, .assign x e ∉ s) (k : VarSort Empty) :
    SameValue (s.revalue v) x v x k := by
  have int : (s.revalue v).int x = v.int x := by
    rcases kept with alive | unassigned
    · simp [revalue, alive]
    · have none : s.findSome? (Instr.value? x) = none := by
        refine List.findSome?_eq_none_iff.mpr fun i member => ?_
        cases i with
        | assign y e =>
          have ne : y ≠ x := by
            rintro rfl
            exact unassigned e member
          simp [Instr.value?, ne]
        | assert c path | phi r xs g => rfl
        | stray part => exact part.elim
      simp only [revalue, none, ite_self]
  cases k with
  | int => exact int
  | array => rfl
  | stray part => exact part.elim

theorem revalue_dropped {s : Stream Empty} (single : s.SingleAssignment) (v : Valuation)
    {x : String} {e : Expr Empty} (member : .assign x e ∈ s) (dead : x ∉ s.live) :
    (s.revalue v).int x = (e.fold (constants s)).eval (s.revalue v) := by
  have found : s.findSome? (Instr.value? x) = some e := by
    cases search : s.findSome? (Instr.value? x) with
    | none =>
      have missed := List.findSome?_eq_none_iff.mp search _ member
      simp [Instr.value?] at missed
    | some f =>
      obtain ⟨i, stands, value⟩ := List.exists_of_findSome?_eq_some search
      cases i with
      | assign y g =>
        simp only [Instr.value?] at value
        split at value
        · rename_i same
          subst same
          cases value
          exact congrArg some (Instr.assign.inj (single.unique stands member rfl rfl)).2
        · contradiction
      | assert c path | phi r xs g => contradiction
      | stray part => exact part.elim
  have value : (s.revalue v).int x = (e.fold (constants s)).eval v := by
    simp only [revalue, found, if_neg dead]
  have byZero : v.byZero = (s.revalue v).byZero := rfl
  rw [value]
  refine Expr.eval_congr byZero _ fun u used => ?_
  have alive := use_live member (List.mem_singleton_self _) used
  exact (revalue_same v (.inl alive) u.2).symm

/-- Sorts of a stream and of what is left of it. Arrays that are left were arrays. -/
structure Narrowed (s : Stream Empty) (sorts sorts' : Sorts) : Prop where
  sorted : s.Sorted sorts
  left : s.simplified.Sorted sorts'
  arrays : ∀ r xs guard, .phi r xs guard ∈ s → sorts' r = some .array → sorts r = some .array

def Uniform (s : Stream Empty) (d : Valuation) : Prop :=
  ∀ r xs guard, .phi r xs guard ∈ s → ∀ a ∈ xs, ∀ k, SameValue d r d a k

namespace Narrowed

variable {s : Stream Empty} {sorts sorts' : Sorts} {m m' d : Valuation}

theorem of_arrays (sorted : s.Sorted sorts) (left : s.simplified.Sorted sorts')
    (arrays : ∀ r xs guard, .phi r xs guard ∈ s → (sorts r = some .array ↔ r ∈ s.arrays))
    (arrays' : ∀ r xs guard, .phi r xs guard ∈ s.simplified →
      (sorts' r = some .array ↔ r ∈ s.simplified.arrays)) : Narrowed s sorts sorts' := by
  refine ⟨sorted, left, fun r xs guard member array => ?_⟩
  have remains := (arrays' r xs _ (phi_mem_simplified member)).mp array
  exact (arrays r xs guard member).mpr (arrays_simplified remains)

theorem phi_sorts (narrowed : Narrowed s sorts sorts') {r : String} {xs : List String}
    {guard : Option (Expr Empty)} (member : .phi r xs guard ∈ s) :
    sorts r = some (sorts.of r) ∧ sorts' r = some (sorts'.of r) ∧
      (sorts'.of r = sorts.of r ∨ sorts.of r = .array ∧ sorts'.of r = .int) := by
  have declared := (narrowed.sorted _ member).phi (List.mem_cons_self ..)
  have declared' := (narrowed.left _ (phi_mem_simplified member)).phi (List.mem_cons_self ..)
  refine ⟨declared, declared', ?_⟩
  have arrays := narrowed.arrays r xs guard member
  rw [declared, declared'] at arrays
  cases sort : sorts.of r with
  | int =>
    cases sort' : sorts'.of r with
    | int => exact .inl rfl
    | array => simp [sort, sort'] at arrays
    | stray part => exact part.elim
  | array =>
    cases sort' : sorts'.of r with
    | int => exact .inr ⟨rfl, rfl⟩
    | array => exact .inl rfl
    | stray part => exact part.elim
  | stray part => exact part.elim

theorem forward (narrowed : Narrowed s sorts sorts') (uniform : s.Uniform d)
    (solves : s.Solves sorts m) :
    s.simplified.Solves sorts' (m.within sorts d) ∧
      (s.simplified.Passes (m.within sorts d) ↔ s.Passes m) := by
  have respects := solves.respects
  have byZero : (m.within sorts d).byZero = m.byZero := rfl
  have same : ∀ {i : Instr Empty}, i ∈ s → ∀ e : Expr Empty, (∀ u ∈ e.uses, u ∈ i.uses sorts.of) →
      ∀ u ∈ (e.fold (constants s)).uses, SameValue (m.within sorts d) u.1 m u.1 u.2 := by
    intro i member e uses u used
    exact m.within_declared (narrowed.sorted i member u (uses u (e.uses_fold _ used))) d
  constructor
  · intro j member
    obtain ⟨i, origin, rfl, -⟩ := mem_simplified.mp member
    have holds := solves i origin
    cases i with
    | assign x e =>
      have target : (m.within sorts d).int x = m.int x :=
        m.within_declared (narrowed.sorted _ origin).target d
      have value := Expr.fold_congr respects byZero e (same origin e fun u => List.mem_append_left _)
      exact target.trans (holds.trans value.symm)
    | assert c path => trivial
    | phi r xs guard =>
      apply Instr.holds_phi holds
      · rintro a b rfl
        cases guard with
        | none => rfl
        | some g =>
          exact congrArg some (Expr.fold_holds_congr respects byZero g
            (same origin g fun u => List.mem_append_right _)).symm
      · intro a operand agrees
        obtain ⟨declared, -, kept | ⟨array, int⟩⟩ := narrowed.phi_sorts origin
        · have declared' := (narrowed.sorted _ origin).phi (List.mem_cons_of_mem _ operand)
          rw [kept]
          exact SameValue.iff_agrees.mp ((m.within_declared declared d).trans
            ((SameValue.iff_agrees.mpr agrees).trans (m.within_declared declared' d).symm))
        -- arrays of which integers are left have the uniform value
        · have other : sorts r ≠ some .int := by simp [declared, array]
          have other' : sorts a ≠ some .int := by
            rwa [(narrowed.sorted _ origin).operand operand]
          rw [int]
          exact SameValue.iff_agrees.mp ((m.within_undeclared other d).trans
            ((uniform r xs guard origin a operand .int).trans (m.within_undeclared other' d).symm))
    | stray part => exact part.elim
  · refine passes_simplified fun c path member e stands =>
      Expr.fold_holds_congr respects byZero e (same member e fun u used => ?_)
    rcases List.mem_cons.mp stands with rfl | stands
    · exact List.mem_append_left _ used
    · exact List.mem_append_right _ (List.mem_flatMap.mpr ⟨e, stands, used⟩)

/-- From a solution of what is left to one of the stream. Dropped assignments give values to
symbols that nothing reads. -/
theorem backward (narrowed : Narrowed s sorts sorts') (single : s.SingleAssignment)
    (uniform : s.Uniform d) (solves : s.simplified.Solves sorts' m') :
    s.Solves sorts (s.revalue (m'.within sorts' d)) ∧
      (s.simplified.Passes m' ↔ s.Passes (s.revalue (m'.within sorts' d))) := by
  have reads : ∀ x ∈ s.live, ∀ k, sorts' x = some k →
      SameValue (s.revalue (m'.within sorts' d)) x m' x k := by
    intro x alive k declared
    exact (revalue_same _ (.inl alive) k).trans (m'.within_declared declared d)
  -- a constant that was dropped has its value from `revalue`, any other from what is left
  have respects : Respects (constants s) (s.revalue (m'.within sorts' d)) := by
    intro x n found
    have member := mem_constants found
    by_cases alive : x ∈ s.live
    · have left := assign_mem_simplified member alive
      exact Eq.trans (reads x alive .int (narrowed.left _ left).target) (solves _ left)
    · exact revalue_dropped single _ member alive
  have byZero : m'.byZero = (s.revalue (m'.within sorts' d)).byZero := rfl
  have same : ∀ {i : Instr Empty}, i ∈ s → (i.fold (constants s)) ∈ s.simplified →
      ∀ e ∈ i.exprs, (∀ u ∈ (e.fold (constants s)).uses, u ∈ (i.fold (constants s)).uses sorts'.of) →
      ∀ u ∈ (e.fold (constants s)).uses,
        SameValue m' u.1 (s.revalue (m'.within sorts' d)) u.1 u.2 := by
    intro i member left e part uses u used
    exact (reads u.1 (use_live member part used) u.2 (narrowed.left _ left u (uses u used))).symm
  constructor
  · intro i member
    cases i with
    | assign x e =>
      by_cases alive : x ∈ s.live
      · have left := assign_mem_simplified member alive
        have target := reads x alive .int (narrowed.left _ left).target
        have value := Expr.fold_congr respects byZero e
          (same member left e (List.mem_singleton_self _) fun u => List.mem_append_left _)
        exact Eq.trans target ((solves _ left).trans value)
      · exact (revalue_dropped single _ member alive).trans (Expr.fold_eval respects e)
    | assert c path => trivial
    | phi r xs guard =>
      have left := phi_mem_simplified member
      have result := revalue_same (m'.within sorts' d) (.inr (single.unassigned_phi member))
      apply Instr.holds_phi (solves _ left)
      · rintro a b rfl
        cases guard with
        | none => rfl
        | some g =>
          exact congrArg some (Expr.fold_holds_congr respects byZero g
            (same member left g (List.mem_singleton_self _) fun u => List.mem_append_right _))
      · intro a operand agrees
        have alive := operand_live member operand
        have operands := revalue_same (m'.within sorts' d) (.inl alive)
        obtain ⟨-, declared, kept | ⟨array, int⟩⟩ := narrowed.phi_sorts member
        · have declared' := (narrowed.left _ left).phi (List.mem_cons_of_mem _ operand)
          rw [← kept]
          exact SameValue.iff_agrees.mp ((result _).trans ((m'.within_declared declared d).trans
            ((SameValue.iff_agrees.mpr agrees).trans (reads a alive _ declared').symm)))
        · have other : sorts' r ≠ some .array := by simp [declared, int]
          have other' : sorts' a ≠ some .array := by
            rwa [(narrowed.left _ left).operand operand]
          rw [array]
          exact SameValue.iff_agrees.mp ((result _).trans ((m'.within_undeclared other d).trans
            ((uniform r xs guard member a operand .array).trans
              ((operands _).trans (m'.within_undeclared other' d)).symm)))
    | stray part => exact part.elim
  · refine passes_simplified fun c path member e stands => Expr.fold_holds_congr respects byZero e
      (same member (assert_mem_simplified member) e stands fun u used => ?_)
    rcases List.mem_cons.mp stands with rfl | stands
    · exact List.mem_append_left _ used
    · exact List.mem_append_right _ (List.mem_flatMap.mpr ⟨_, List.mem_map_of_mem stands, used⟩)

end Narrowed

theorem singleAssignment_iterate (p : Program Empty) (n : Nat) :
    (Stream.simplified^[n] p.stream).SingleAssignment := by
  have step : ∀ (n : Nat) (s : Stream Empty), s.SingleAssignment →
      (Stream.simplified^[n] s).SingleAssignment := by
    intro n
    induction n with
    | zero => exact fun s single => single
    | succ n ih => exact fun s single => ih _ single.simplified
  exact step n _ p.numbered.nodup

end Stream

/-- One round of simplification keeps the answer of every stream with single assignment; the
streams of programs are of that kind, after any number of rounds. -/
theorem simplified_keeps_answer :
    (∀ (p : Program Empty) (n : Nat),
      (Stream.simplified^[n] p.stream).SingleAssignment) ∧
    ∀ (s : Stream Empty) (script script' : Script Empty), s.SingleAssignment →
      s.encoded = .ok script → s.simplified.encoded = .ok script' →
      (script.Satisfiable ↔ script'.Satisfiable) := by
  refine ⟨Stream.singleAssignment_iterate, fun s script script' single encodes encodes' => ?_⟩
  have encoded := Stream.encoded_spec encodes
  have encoded' := Stream.encoded_spec encodes'
  have narrowed := Stream.Narrowed.of_arrays encoded.sorted encoded'.sorted encoded.arrays
    encoded'.arrays
  have uniform : s.Uniform ⟨fun _ => 0, fun _ _ => 0, fun _ => 0⟩ := by
    rintro r xs guard - a - (_ | _ | part)
    · rfl
    · rfl
    · exact part.elim
  constructor
  · rintro ⟨m, models⟩
    obtain ⟨solves, fails⟩ := (encoded.models m).mp models
    obtain ⟨left, passes⟩ := narrowed.forward uniform solves
    exact ⟨_, (encoded'.models _).mpr ⟨left, fun clean => fails (passes.mp clean)⟩⟩
  · rintro ⟨m', models⟩
    obtain ⟨solves, fails⟩ := (encoded'.models m').mp models
    obtain ⟨whole, passes⟩ := narrowed.backward single uniform solves
    exact ⟨_, (encoded.models _).mpr ⟨whole, fun clean => fails (passes.mpr clean)⟩⟩

/-- The array is indexed by a dropped assignment only, so the phi at the loop's entry is left with
integers. -/
def droppedIndex : Program Empty :=
  [.assign ⟨"x", .read "a" (.lit 0)⟩, .assign ⟨"x", .var "i"⟩,
    .whileLoop (.var "i") [.assign ⟨"y", .var "x"⟩], .assert (.var "y")]

theorem simplified_keeps_answer_droppedIndex :
    ∃ script script', droppedIndex.stream.encoded = .ok script ∧
      droppedIndex.stream.simplified.encoded = .ok script' ∧
      (script.Satisfiable ↔ script'.Satisfiable) := by
  obtain ⟨script, encodes⟩ := exists_ok (x := droppedIndex.stream.encoded) (by decide +kernel)
  obtain ⟨script', encodes'⟩ :=
    exists_ok (x := droppedIndex.stream.simplified.encoded) (by decide +kernel)
  exact ⟨script, script', encodes, encodes', simplified_keeps_answer.2 _ script script'
    (simplified_keeps_answer.1 droppedIndex 0) encodes encodes'⟩

end Assay
