import Assay.Proofs.Consistency

/-! Values found operation by operation. Carrying out the operations of an expression from its
leaves on ends in the value that its term has, and its formula is true where that value is not zero,
unless some divisor is zero on the way. -/
namespace Assay

open Smt

namespace Expr

/-- The value that the operations of an expression end in; a negation gives 1 or 0. -/
def carryOut (v : Valuation) : Expr Empty → Except Error Int
  | .lit n => .ok n
  | .var x => .ok (v.int x)
  | .read a i => do return v.array a (← i.carryOut v)
  | .binary op l r => do op.eval (← l.carryOut v) (← r.carryOut v)
  | .unary .not e => do return truth ((← e.carryOut v) = 0)

def DivisorsNonzero (v : Valuation) (e : Expr Empty) : Prop :=
  ∀ op l r, .binary (.compute op) l r ∈ e.nodes → op = .div ∨ op = .mod → r.carryOut v ≠ .ok 0

theorem mem_nodes_self (e : Expr Empty) : e ∈ e.nodes := by
  cases e <;> simp [nodes]

theorem DivisorsNonzero.part {v : Valuation} {e part : Expr Empty} (nonzero : e.DivisorsNonzero v)
    (inside : part.nodes ⊆ e.nodes) : part.DivisorsNonzero v :=
  fun op l r member => nonzero op l r (inside member)

end Expr

theorem BinaryOp.eval_compute (v : Valuation) {op : Arithmetic} {l r : Int}
    (nonzero : op = .div ∨ op = .mod → r ≠ 0) :
    (BinaryOp.compute op : BinaryOp Empty).eval l r = .ok (v.compute op l r) := by
  unfold BinaryOp.eval Valuation.compute
  cases op with
  | add | sub | mul => rfl
  | div | mod => simp [Arithmetic.eval?, nonzero]

theorem Expr.carryOut_eq {v : Valuation} (e : Expr Empty) (nonzero : e.DivisorsNonzero v) :
    e.carryOut v = .ok (e.eval v) := by
  induction e with
  | lit n => rfl
  | var x => rfl
  | read a i ih =>
    have index := ih (nonzero.part fun _ => List.mem_cons_of_mem _)
    simp only [carryOut, index, eval]
    rfl
  | binary op l r left right =>
    have first := left (nonzero.part fun _ member =>
      List.mem_cons_of_mem _ (List.mem_append_left _ member))
    have second := right (nonzero.part fun _ member =>
      List.mem_cons_of_mem _ (List.mem_append_right _ member))
    unfold carryOut
    rw [first, second]
    cases op with
    | compare c => rfl
    | compute op =>
      refine BinaryOp.eval_compute v fun divides zero => ?_
      exact nonzero op l r (mem_nodes_self _) divides (second.trans (congrArg Except.ok zero))
    | other mark text => exact mark.elim
  | unary op e ih =>
    have operand := ih (nonzero.part fun _ => List.mem_cons_of_mem _)
    cases op with
    | not =>
      simp only [carryOut, operand, eval]
      rfl
    | other mark text => exact mark.elim
  | stray part => exact part.elim

/-- Where no divisor is zero, the operations of an expression have a result. It is the value of the
term that the expression is encoded as, and the formula that it is encoded as is true if and only if
the result is not zero. Both are found unless a number is too long or a symbol is used at two
sorts. -/
theorem encoded_value_carried_out (v : Valuation) (e : Expr Empty) (nonzero : e.DivisorsNonzero v) :
    ∃ n, e.carryOut v = .ok n ∧
      (∀ start t after, Encoding.on start (Encoding.term e) = (.ok t, after) → t.eval v = n) ∧
      (∀ start f after, Encoding.on start (Encoding.formula e) = (.ok f, after) →
        (f.eval v = true ↔ n ≠ 0)) ∧
      ∀ start : Encoder Empty, e.isTooLong = false → start.Admits e.uses →
        (∃ t after, Encoding.on start (Encoding.term e) = (.ok t, after)) ∧
          ∃ f after, Encoding.on start (Encoding.formula e) = (.ok f, after) := by
  refine ⟨e.eval v, e.carryOut_eq nonzero, fun start t after encodes => ?_,
    fun start f after encodes => ?_, fun start short admits => ?_⟩
  · rw [(Encoding.term_extends encodes).1]
    exact e.term_eval v
  · rw [(Encoding.formula_extends encodes).1, e.formula_eval v]
    exact bne_iff_ne
  · exact ⟨Encoding.succeeds_term short admits, Encoding.succeeds_formula short admits⟩

/-- A remainder of a negative number, in a comparison under a negation, indexes an array. -/
def negatedRemainder : Expr Empty :=
  .binary (.compute .div)
    (.read "a" (.unary .not (.binary (.compare .eq)
      (.binary (.compute .mod) (.var "x") (.lit (-3))) (.lit 1))))
    (.binary (.compute .sub) (.var "x") (.lit 5))

theorem encoded_value_carried_out_negatedRemainder :
    let v : Valuation := ⟨fun _ => -7, fun _ i => 75 - 100 * i, fun _ => 0⟩
    negatedRemainder.DivisorsNonzero v ∧ negatedRemainder.carryOut v = .ok 2 ∧
      ∃ t after, Encoding.on .empty (Encoding.term negatedRemainder) = (.ok t, after) ∧
        t.eval v = 2 := by
  intro v
  have nonzero : negatedRemainder.DivisorsNonzero v := by
    intro op l r member divides zero
    simp only [negatedRemainder, Expr.nodes, List.cons_append, List.nil_append, List.mem_cons,
      Expr.binary.injEq, BinaryOp.compute.injEq, reduceCtorEq, false_and, false_or, or_false,
      List.not_mem_nil] at member
    rcases member with ⟨rfl, rfl, rfl⟩ | ⟨rfl, rfl, rfl⟩ | ⟨rfl, rfl, rfl⟩
    · exact absurd (Except.ok.inj zero) (by decide)
    · exact absurd (Except.ok.inj zero) (by decide)
    · exact absurd divides (by decide)
  have value : negatedRemainder.carryOut v = .ok 2 := rfl
  obtain ⟨n, same, term, -, found⟩ := encoded_value_carried_out v negatedRemainder nonzero
  obtain rfl := Except.ok.inj (same.symm.trans value)
  have admits : Encoder.empty.Admits negatedRemainder.uses :=
    ⟨fun x => if x = "a" then some .array else some .int, nofun, by
      simp [negatedRemainder, Expr.uses, Expr.leaves, Expr.Leaf.use?]⟩
  obtain ⟨t, after, encodes⟩ := (found .empty (by decide +kernel) admits).1
  exact ⟨nonzero, value, t, after, encodes, term _ t after encodes⟩

end Assay
