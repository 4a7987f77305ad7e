import Assay.Smt.Encoder
import Assay.Smt.Meaning

/-! An expression and the term or formula it becomes have one value under every valuation. The
truncated quotient is rebuilt from a division that leaves no negative remainder, so the sign of
the dividend decides which of the two is taken. -/
namespace Assay

open Smt

@[simp] theorem ofInt_eval (v : Valuation) (n : Int) : (ofInt n : Term Empty).eval v = n := by
  unfold ofInt
  split <;> simp only [Term.eval] <;> omega

theorem truth_ne_zero (b : Bool) : (truth b != 0) = b := by cases b <;> rfl

theorem quotient_eval (v : Valuation) (l r : Term Empty) :
    (quotient l r).eval v = v.compute .div (l.eval v) (r.eval v) := by
  have sign : Formula.eval v (.compare .ge l zero) = decide (0 ≤ l.eval v) := by
    simp [Formula.eval, Comparison.holds, zero, Term.eval]
  simp only [quotient, Term.eval, sign, Valuation.compute, Arithmetic.eval?, divide]
  by_cases zeroDivisor : r.eval v = 0
  · by_cases nonneg : 0 ≤ l.eval v <;> simp [zeroDivisor, nonneg, Valuation.quotientByZero]
  · by_cases nonneg : 0 ≤ l.eval v
    · simp [zeroDivisor, nonneg, Int.tdiv_eq_ediv_of_nonneg nonneg]
    · have opposite : 0 ≤ -l.eval v := by omega
      have moved : (l.eval v).tdiv (r.eval v) = -(-l.eval v / r.eval v) := by
        rw [← Int.tdiv_eq_ediv_of_nonneg opposite, Int.neg_tdiv, Int.neg_neg]
      simp [zeroDivisor, nonneg, moved]

theorem compute_eval (v : Valuation) (op : Arithmetic) (l r : Term Empty) :
    (Smt.compute op l r).eval v = v.compute op (l.eval v) (r.eval v) := by
  cases op with
  | add | sub | mul => simp [Smt.compute, Term.eval, Valuation.compute, Arithmetic.eval?]
  | div => exact quotient_eval v l r
  | mod =>
    simp only [Smt.compute, Term.eval, quotient_eval, Valuation.compute, Arithmetic.eval?]
    by_cases zeroDivisor : r.eval v = 0
    · simp [zeroDivisor]
    · simp [zeroDivisor, Int.tmod_def]

mutual

theorem Expr.term_eval (v : Valuation) : (e : Expr Empty) → e.term.eval v = e.eval v
  | .lit n => ofInt_eval v n
  | .var x => by simp only [Expr.term, Term.eval, Expr.eval]
  | .read a i => by simp only [Expr.term, Term.eval, Expr.eval, Expr.term_eval v i]
  | .binary (.compare c) l r => by
    simp only [Expr.term, Term.eval, Formula.eval, Expr.eval, Expr.term_eval v l,
      Expr.term_eval v r, one, zero, truth]
    rfl
  | .binary (.compute op) l r => by
    simp only [Expr.term, compute_eval, Expr.eval, Expr.term_eval v l, Expr.term_eval v r]
  | .unary .not e => by
    simp only [Expr.term, Term.eval, Formula.eval, Expr.eval, Expr.formula_eval v e, one, zero,
      truth, Expr.holds]
    by_cases false_ : e.eval v = 0 <;> simp [false_]

theorem Expr.formula_eval (v : Valuation) : (e : Expr Empty) → e.formula.eval v = e.holds v
  | .lit n => by
    simp only [Expr.formula, Expr.holds, Expr.eval]
    by_cases false_ : n = 0 <;> simp [false_, Formula.eval]
  | .var x => by
    simp [Expr.formula, Formula.eval, Term.eval, zero, Comparison.holds, Expr.holds, Expr.eval]
  | .read a i => by
    simp [Expr.formula, Formula.eval, Term.eval, zero, Comparison.holds, Expr.holds, Expr.eval,
      Expr.term_eval v i]
  | .binary (.compare c) l r => by
    simp only [Expr.formula, Formula.eval, Expr.holds, Expr.eval, Expr.term_eval v l,
      Expr.term_eval v r, truth_ne_zero]
  | .binary (.compute op) l r => by
    simp [Expr.formula, Formula.eval, compute_eval, Term.eval, zero, Comparison.holds, Expr.holds,
      Expr.eval, Expr.term_eval v l, Expr.term_eval v r]
  | .unary .not e => by
    simp only [Expr.formula, Formula.eval, Expr.holds, Expr.eval, Expr.formula_eval v e,
      truth_ne_zero]
    by_cases false_ : e.eval v = 0 <;> simp [false_]

end

end Assay
