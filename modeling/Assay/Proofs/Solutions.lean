import Assay.Proofs.Numbering
import Assay.Proofs.Values

/-! Every numbered stream has a solution from every start. Definitions take new versions, so the
values can be given from the front to the back; the entry of a loop takes its first operand. -/
namespace Assay

open Smt

def Valuation.copy (v : Valuation) (r a : String) : Valuation :=
  { v with
    int := fun x => if x = r then v.int a else v.int x
    array := fun x => if x = r then v.array a else v.array x }

structure KeepsKnown (c : Counts) (v w : Valuation) : Prop where
  byZero : v.byZero = w.byZero
  value : ∀ y s, Known c y → SameValue v y w y s

namespace KeepsKnown

variable {c : Counts} {u v w : Valuation}

theorem trans {c' : Counts} (grows : ∀ x, c x ≤ c' x) (first : KeepsKnown c u v)
    (second : KeepsKnown c' v w) : KeepsKnown c u w :=
  ⟨first.byZero.trans second.byZero,
    fun y s known => (first.value y s known).trans (second.value y s (known.mono grows))⟩

theorem set (v : Valuation) (x : String) (n : Int) :
    KeepsKnown c v (v.set (symbol x (c x + 1)) n) := by
  refine ⟨rfl, fun y s known => ?_⟩
  have ne : y ≠ symbol x (c x + 1) := by
    rintro rfl
    exact not_known_next c x known
  cases s with
  | int => simp [SameValue, ne]
  | array => rfl
  | stray part => exact part.elim

theorem copy (v : Valuation) (x a : String) :
    KeepsKnown c v (v.copy (symbol x (c x + 1)) a) := by
  refine ⟨rfl, fun y s known => ?_⟩
  have ne : y ≠ symbol x (c x + 1) := by
    rintro rfl
    exact not_known_next c x known
  cases s with
  | int | array => simp [SameValue, Valuation.copy, ne]
  | stray part => exact part.elim

theorem eval (keeps : KeepsKnown c v w) {e : Expr Empty} (reads : e.Reads c) :
    e.eval v = e.eval w := by
  apply Expr.eval_congr keeps.byZero
  intro u member
  apply keeps.value
  apply reads
  exact Expr.mem_names_of_mem_uses member

theorem known_next (c : Counts) (x : String) : Known (c.bump x) (symbol x (c x + 1)) :=
  ⟨x, c x + 1, rfl, by simp⟩

theorem agrees_copy {a x : String} (known : Known c a)
    (keeps : KeepsKnown (c.bump x) (v.copy (symbol x (c x + 1)) a) w) (s : VarSort Empty) :
    Agrees w s (symbol x (c x + 1)) a := by
  have result := keeps.value _ s (known_next c x)
  have operand := keeps.value a s (known.mono (Counts.le_bump c x))
  have same : SameValue (v.copy (symbol x (c x + 1)) a) (symbol x (c x + 1))
      (v.copy (symbol x (c x + 1)) a) a s := by
    cases s with
    | int | array => simp [SameValue, Valuation.copy]
    | stray part => exact part.elim
  exact SameValue.iff_agrees.mp (result.symm.trans (same.trans operand))

end KeepsKnown

/-- Every start extends to a solution, whatever the sorts. -/
theorem Numbered.solvable {c c' : Counts} {s : Stream Empty} (numbered : Numbered c s c')
    (sorts : Sorts) (v : Valuation) : ∃ w, KeepsKnown c v w ∧ Stream.Solves sorts w s := by
  have cons : ∀ {i : Instr Empty} {s : Stream Empty} {w : Valuation}, i.Holds sorts w →
      Stream.Solves sorts w s → Stream.Solves sorts w (i :: s) := by
    intro i s w head tail j member
    rcases List.mem_cons.mp member with rfl | member
    · exact head
    · exact tail j member
  induction numbered generalizing v with
  | nil => exact ⟨v, ⟨rfl, fun y s _ => SameValue.refl v y s⟩, fun i member => nomatch member⟩
  | assert _ _ _ ih =>
    obtain ⟨w, keeps, solves⟩ := ih v
    exact ⟨w, keeps, cons trivial solves⟩
  | @assign c c' s x e reads _ ih =>
    obtain ⟨w, keeps, solves⟩ := ih (v.set (symbol x (c x + 1)) (e.eval v))
    have total := (KeepsKnown.set v x (e.eval v)).trans (Counts.le_bump c x) keeps
    refine ⟨w, total, cons ?_ solves⟩
    have target := keeps.value _ .int (KeepsKnown.known_next c x)
    have value := total.eval reads
    simp only [SameValue, Valuation.int_set, if_true] at target
    exact target.symm.trans value
  | @copy c c' s x n low _ ih =>
    obtain ⟨w, keeps, solves⟩ := ih (v.copy (symbol x (c x + 1)) (symbol x n))
    have total := (KeepsKnown.copy v x (symbol x n)).trans (Counts.le_bump c x) keeps
    exact ⟨w, total, cons (KeepsKnown.agrees_copy ⟨x, n, rfl, low⟩ keeps _) solves⟩
  | @entry c c' s x n k low _ _ _ ih =>
    -- the second operand is defined later, so the phi takes the first
    obtain ⟨w, keeps, solves⟩ := ih (v.copy (symbol x (c x + 1)) (symbol x n))
    have total := (KeepsKnown.copy v x (symbol x n)).trans (Counts.le_bump c x) keeps
    exact ⟨w, total, cons (.inl (KeepsKnown.agrees_copy ⟨x, n, rfl, low⟩ keeps _)) solves⟩
  | @join c c' s x n k g low high _ reads _ ih =>
    have known : Known c (if g.holds v then symbol x n else symbol x k) := by
      split
      · exact ⟨x, n, rfl, low⟩
      · exact ⟨x, k, rfl, high⟩
    obtain ⟨w, keeps, solves⟩ :=
      ih (v.copy (symbol x (c x + 1)) (if g.holds v then symbol x n else symbol x k))
    have total := (KeepsKnown.copy v x _).trans (Counts.le_bump c x) keeps
    refine ⟨w, total, cons ?_ solves⟩
    have guard : g.holds w = g.holds v := by
      unfold Expr.holds
      rw [total.eval reads]
    simp only [Instr.Holds, guard]
    exact KeepsKnown.agrees_copy known keeps _

end Assay
