import Assay.Proofs.Equations
import Assay.Stream.Rename

/-! Which values an expression or an instruction depends on. Only the symbols that it uses count,
each at the sort it is used at, and renaming the symbols is the same as reading their values under
the new names. -/
namespace Assay

open Smt

def Valuation.along (v : Valuation) (f : String → String) : Valuation :=
  ⟨fun x => v.int (f x), fun a => v.array (f a), v.byZero⟩

def SameValue (v : Valuation) (x : String) (w : Valuation) (y : String) : VarSort Empty → Prop
  | .int => v.int x = w.int y
  | .array => v.array x = w.array y

namespace SameValue

variable {u v w : Valuation} {x y z : String} {s : VarSort Empty}

theorem refl (v : Valuation) (x : String) (s : VarSort Empty) : SameValue v x v x s := by
  cases s with
  | int | array => rfl
  | stray part => exact part.elim

theorem symm (same : SameValue v x w y s) : SameValue w y v x s := by
  cases s with
  | int | array => exact Eq.symm same
  | stray part => exact part.elim

theorem trans (first : SameValue u x v y s) (second : SameValue v y w z s) :
    SameValue u x w z s := by
  cases s with
  | int | array => exact Eq.trans first second
  | stray part => exact part.elim

theorem iff_agrees : SameValue v x v y s ↔ Agrees v s x y := by
  cases s with
  | int | array => exact Iff.rfl
  | stray part => exact part.elim

theorem along {f : String → String} : SameValue (v.along f) x w y s ↔ SameValue v (f x) w y s := by
  cases s with
  | int | array => exact Iff.rfl
  | stray part => exact part.elim

end SameValue

/-- A valuation where symbols are declared, and another one elsewhere. -/
def Valuation.within (v : Valuation) (sorts : Sorts) (w : Valuation) : Valuation where
  int x :=
    match sorts x with
    | some .int => v.int x
    | _ => w.int x
  array x :=
    match sorts x with
    | some .array => v.array x
    | _ => w.array x
  byZero := v.byZero

theorem Valuation.within_declared {sorts : Sorts} {x : String} {s : VarSort Empty}
    (declared : sorts x = some s) (v w : Valuation) : SameValue (v.within sorts w) x v x s := by
  cases s with
  | int | array => simp only [SameValue, within, declared]
  | stray part => exact part.elim

theorem Valuation.within_undeclared {sorts : Sorts} {x : String} {s : VarSort Empty}
    (undeclared : sorts x ≠ some s) (v w : Valuation) : SameValue (v.within sorts w) x w x s := by
  cases s with
  | int | array => simp only [SameValue, within]
  | stray part => exact part.elim

namespace Expr

theorem eval_mapNames (v : Valuation) (f : String → String) (e : Expr Empty) :
    (e.mapNames f).eval v = e.eval (v.along f) := by
  induction e with
  | lit n => rfl
  | var x => rfl
  | read a i ih => simp [mapNames, eval, ih, Valuation.along]
  | binary op l r left right =>
    cases op with
    | compare c => simp [mapNames, eval, left, right]
    | compute op =>
      have same : v.compute op = (v.along f).compute op := rfl
      simp [mapNames, eval, left, right, same]
    | other mark text => exact mark.elim
  | unary op e ih =>
    cases op with
    | not => simp [mapNames, eval, ih]
    | other mark text => exact mark.elim
  | stray part => exact part.elim

theorem uses_mapNames (f : String → String) (e : Expr Empty) :
    (e.mapNames f).uses = e.uses.map fun u => (f u.1, u.2) := by
  induction e with
  | lit n => rfl
  | var x => rfl
  | read a i ih => simpa [uses, mapNames, leaves, Leaf.use?] using ih
  | binary op l r left right =>
    simp only [uses, mapNames, leaves, List.filterMap_append, List.map_append] at left right ⊢
    rw [left, right]
  | unary op e ih => simpa only [uses, mapNames, leaves] using ih
  | stray part => exact part.elim

theorem eval_congr {v w : Valuation} (byZero : v.byZero = w.byZero) (e : Expr Empty)
    (same : ∀ u ∈ e.uses, SameValue v u.1 w u.1 u.2) : e.eval v = e.eval w := by
  induction e with
  | lit n => rfl
  | var x => exact same (x, .int) (List.mem_singleton_self _)
  | read a i ih =>
    have array : v.array a = w.array a := same (a, .array) (by simp [uses, leaves, Leaf.use?])
    have index := ih fun u member => same u (by
      simp only [uses, leaves, List.filterMap_cons, Leaf.use?]
      exact List.mem_cons_of_mem _ member)
    simp only [eval, array, index]
  | binary op l r left right =>
    have first := left fun u member => same u (by
      simp only [uses, leaves, List.filterMap_append]
      exact List.mem_append_left _ member)
    have second := right fun u member => same u (by
      simp only [uses, leaves, List.filterMap_append]
      exact List.mem_append_right _ member)
    cases op with
    | compare c => simp only [eval, first, second]
    | compute op =>
      have compute : v.compute op = w.compute op := by
        funext a b
        simp only [Valuation.compute, Valuation.quotientByZero, byZero]
      simp only [eval, first, second, compute]
    | other mark text => exact mark.elim
  | unary op e ih =>
    cases op with
    | not => simp only [eval, ih same]
    | other mark text => exact mark.elim
  | stray part => exact part.elim

theorem holds_mapNames (v : Valuation) (f : String → String) (e : Expr Empty) :
    (e.mapNames f).holds v = e.holds (v.along f) := by
  unfold holds
  rw [eval_mapNames]

theorem holds_congr {v w : Valuation} (byZero : v.byZero = w.byZero) (e : Expr Empty)
    (same : ∀ u ∈ e.uses, SameValue v u.1 w u.1 u.2) : e.holds v = e.holds w := by
  unfold holds
  rw [eval_congr byZero e same]

theorem holds_not (v : Valuation) (e : Expr Empty) : e.not.holds v = !e.holds v := by
  simp only [not, holds, eval, truth_ne_zero]
  by_cases zero : e.eval v = 0 <;> simp [zero]

end Expr

namespace Instr

variable {sorts : Sorts} {v w : Valuation} {i : Instr Empty}

/-- The equation of a phi depends on the value of its guard and on which operands agree with the
result; the guard counts only where there are two operands. -/
theorem holds_phi {sorts' : Sorts} {r : String} {xs : List String}
    {guard guard' : Option (Expr Empty)} (holds : (Instr.phi r xs guard).Holds sorts v)
    (guards : ∀ a b, xs = [a, b] → guard.map (Expr.holds v) = guard'.map (Expr.holds w))
    (agrees : ∀ a ∈ xs, Agrees v (sorts.of r) r a → Agrees w (sorts'.of r) r a) :
    (Instr.phi r xs guard').Holds sorts' w := by
  match xs with
  | [] => exact trivial
  | [a] => exact agrees a (List.mem_singleton_self _) holds
  | [a, b] =>
    have same := guards a b rfl
    have first := agrees a (by simp)
    have second := agrees b (by simp)
    match guard, guard' with
    | none, none => exact holds.imp first second
    | none, some h => contradiction
    | some g, none => contradiction
    | some g, some h =>
      have value : g.holds v = h.holds w := Option.some.inj same
      simp only [Holds, value] at holds ⊢
      cases chosen : h.holds w with
      | true =>
        rw [chosen] at holds
        exact first holds
      | false =>
        rw [chosen] at holds
        exact second holds
  | _ :: _ :: _ :: _ => exact trivial

theorem holds_congr (byZero : v.byZero = w.byZero)
    (same : ∀ u ∈ i.uses sorts.of, SameValue v u.1 w u.1 u.2) (holds : i.Holds sorts v) :
    i.Holds sorts w := by
  cases i with
  | assign x e =>
    have target : v.int x = w.int x := same (x, .int) (by simp [uses])
    have value := Expr.eval_congr byZero e fun u member => same u (List.mem_append_left _ member)
    exact target.symm.trans (holds.trans value)
  | assert c path => trivial
  | phi r xs guard =>
    apply holds_phi holds
    · rintro a b rfl
      cases guard with
      | none => rfl
      | some g =>
        exact congrArg some (Expr.holds_congr byZero g fun u member =>
          same u (List.mem_append_right _ member))
    · intro a member agrees
      have result := same _ (mem_uses_phi sorts.of r xs guard (List.mem_cons_self ..))
      have operand := same _ (mem_uses_phi sorts.of r xs guard (List.mem_cons_of_mem _ member))
      exact SameValue.iff_agrees.mp
        (result.symm.trans ((SameValue.iff_agrees.mpr agrees).trans operand))
  | stray part => exact part.elim

theorem passes_congr (byZero : v.byZero = w.byZero)
    (same : ∀ u ∈ i.uses sorts.of, SameValue v u.1 w u.1 u.2) (passes : i.Passes v) :
    i.Passes w := by
  cases i with
  | assert c path =>
    have cond : c.holds v = c.holds w := Expr.holds_congr byZero c fun u member =>
      same u (List.mem_append_left _ member)
    have guards : ∀ g ∈ path, g.holds v = g.holds w := fun g stands =>
      Expr.holds_congr byZero g fun u member =>
        same u (List.mem_append_right _ (List.mem_flatMap.mpr ⟨g, stands, member⟩))
    intro reached
    rw [← cond]
    exact passes fun g stands => (guards g stands).trans (reached g stands)
  | assign x e | phi r xs g => trivial
  | stray part => exact part.elim

theorem uses_mapNames (sort : String → VarSort Empty) (f : String → String) (i : Instr Empty) :
    (i.mapNames f).uses sort = (i.uses fun x => sort (f x)).map fun u => (f u.1, u.2) := by
  cases i with
  | assign x e => simp [mapNames, uses, Expr.uses_mapNames]
  | assert c path => simp [mapNames, uses, Expr.uses_mapNames, List.flatMap_map, List.map_flatMap]
  | phi r xs guard =>
    rcases xs with _ | ⟨a, _ | ⟨b, _ | ⟨c, rest⟩⟩⟩ <;> cases guard <;>
      simp [mapNames, uses, Expr.uses_mapNames]
  | stray part => exact part.elim

theorem holds_mapNames (sorts : Sorts) (v : Valuation) (f : String → String) (i : Instr Empty) :
    (i.mapNames f).Holds sorts v ↔ i.Holds (fun x => sorts (f x)) (v.along f) := by
  have agrees : ∀ s a b, Agrees v s (f a) (f b) ↔ Agrees (v.along f) s a b := by
    intro s a b
    cases s with
    | int | array => exact Iff.rfl
    | stray part => exact part.elim
  cases i with
  | assign x e => simp [mapNames, Holds, Expr.eval_mapNames, Valuation.along]
  | assert c path => exact Iff.rfl
  | phi r xs guard =>
    rcases xs with _ | ⟨a, _ | ⟨b, _ | ⟨c, rest⟩⟩⟩ <;> cases guard with
    | none => simp [mapNames, Holds, Sorts.of, agrees]
    | some g =>
      simp only [mapNames, Holds, Sorts.of, agrees, List.map_cons, List.map_nil, Option.map_some,
        Expr.holds_mapNames, ← apply_ite f]
  | stray part => exact part.elim

theorem passes_mapNames (v : Valuation) (f : String → String) (i : Instr Empty) :
    (i.mapNames f).Passes v ↔ i.Passes (v.along f) := by
  cases i with
  | assert c path => simp [mapNames, Passes, Expr.holds_mapNames]
  | assign x e | phi r xs g => exact Iff.rfl
  | stray part => exact part.elim

end Instr

namespace Stream

variable {sorts : Sorts} {v : Valuation} {s t : Stream Empty}

theorem solves_append :
    Solves sorts v (s ++ t) ↔ Solves sorts v s ∧ Solves sorts v t := by
  simp only [Solves, List.mem_append, or_imp, forall_and]

theorem passes_append : Passes v (s ++ t) ↔ Passes v s ∧ Passes v t := by
  simp only [Passes, List.mem_append, or_imp, forall_and]

theorem sorted_append : Sorted sorts (s ++ t) ↔ Sorted sorts s ∧ Sorted sorts t := by
  simp only [Sorted, List.mem_append, or_imp, forall_and]

theorem solves_renamed (suffix : String) :
    Solves sorts v (renamed suffix s) ↔
      Solves (fun x => sorts (x ++ suffix)) (v.along (· ++ suffix)) s := by
  simp only [Solves, renamed, List.forall_mem_map, Instr.holds_mapNames]

theorem passes_renamed (suffix : String) :
    Passes v (renamed suffix s) ↔ Passes (v.along (· ++ suffix)) s := by
  simp only [Passes, renamed, List.forall_mem_map, Instr.passes_mapNames]

theorem sorted_renamed (suffix : String) :
    Sorted sorts (renamed suffix s) ↔ Sorted (fun x => sorts (x ++ suffix)) s := by
  have each : ∀ i : Instr Empty, (i.mapNames (· ++ suffix)).Sorted sorts ↔
      i.Sorted fun x => sorts (x ++ suffix) := by
    intro i
    unfold Instr.Sorted
    rw [Instr.uses_mapNames, List.forall_mem_map]
    exact Iff.rfl
  simp only [Sorted, renamed, List.forall_mem_map, each]

end Stream

end Assay
