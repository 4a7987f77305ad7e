import Assay.Proofs.Values
import Assay.Stream.Simplify

/-! Folding keeps values. Where the known constants have their values, an expression and its folded
form have one value, and the folded form uses no symbol that the expression does not use. What is
left of a stream is folded instruction by instruction, without the assignments that nothing reads. -/
namespace Assay

open Smt

def Respects (known : Entries Int) (v : Valuation) : Prop :=
  ∀ x n, known.get? x = some n → v.int x = n

namespace Expr

theorem foldBinary_eval (v : Valuation) (op : BinaryOp Empty) (l r : Expr Empty) :
    (foldBinary op l r).eval v = (binary op l r).eval v := by
  unfold foldBinary
  split
  · rename_i a b
    cases op with
    | compare c => rfl
    | compute op =>
      simp only [BinaryOp.eval]
      cases value : op.eval? a b with
      | none => rfl
      | some n => simp [eval, Valuation.compute, value]
    | other mark text => exact mark.elim
  · rfl

theorem fold_eval {known : Entries Int} {v : Valuation} (respects : Respects known v)
    (e : Expr Empty) : (e.fold known).eval v = e.eval v := by
  induction e with
  | lit n => rfl
  | var x =>
    unfold fold
    split
    · rename_i n found
      exact (respects x n found).symm
    · rfl
  | read a i ih => simp only [fold, eval, ih]
  | binary op l r left right =>
    rw [fold, foldBinary_eval]
    cases op with
    | compare c => simp only [eval, left, right]
    | compute op => simp only [eval, left, right]
    | other mark text => exact mark.elim
  | unary op e ih =>
    cases op with
    | not => simp only [fold, eval, ih]
    | other mark text => exact mark.elim
  | stray part => exact part.elim

theorem fold_congr {known : Entries Int} {v w : Valuation} (respects : Respects known w)
    (byZero : v.byZero = w.byZero) (e : Expr Empty)
    (same : ∀ u ∈ (e.fold known).uses, SameValue v u.1 w u.1 u.2) :
    (e.fold known).eval v = e.eval w :=
  (eval_congr byZero _ same).trans (fold_eval respects e)

theorem fold_holds_congr {known : Entries Int} {v w : Valuation} (respects : Respects known w)
    (byZero : v.byZero = w.byZero) (e : Expr Empty)
    (same : ∀ u ∈ (e.fold known).uses, SameValue v u.1 w u.1 u.2) :
    (e.fold known).holds v = e.holds w := by
  unfold holds
  rw [fold_congr respects byZero e same]

theorem uses_foldBinary (op : BinaryOp Empty) (l r : Expr Empty) :
    (foldBinary op l r).uses = l.uses ++ r.uses := by
  unfold foldBinary
  split
  · rename_i a b
    cases op.eval a b with
    | error e => rfl
    | ok n => rfl
  · simp [uses, leaves]

theorem uses_fold (known : Entries Int) (e : Expr Empty) {u : String × VarSort Empty}
    (used : u ∈ (e.fold known).uses) : u ∈ e.uses := by
  induction e with
  | lit n => exact used
  | var x =>
    unfold fold at used
    split at used
    · contradiction
    · exact used
  | read a i ih =>
    simp only [fold, uses, leaves, List.filterMap_cons, Leaf.use?] at used ⊢
    rcases List.mem_cons.mp used with head | inner
    · exact head ▸ List.mem_cons_self ..
    · exact List.mem_cons_of_mem _ (ih inner)
  | binary op l r left right =>
    rw [fold, uses_foldBinary] at used
    simp only [uses, leaves, List.filterMap_append]
    rcases List.mem_append.mp used with used | used
    · exact List.mem_append_left _ (left used)
    · exact List.mem_append_right _ (right used)
  | unary op e ih => exact ih used
  | stray part => exact part.elim

theorem mem_indexed {e : Expr Empty} {a : String} : a ∈ e.indexed ↔ (a, .array) ∈ e.uses := by
  unfold indexed uses
  simp only [List.mem_filterMap]
  constructor
  · rintro ⟨leaf, stands, found⟩
    cases leaf with
    | array b =>
      cases found
      exact ⟨_, stands, rfl⟩
    | number | name | stray => contradiction
  · rintro ⟨leaf, stands, found⟩
    cases leaf with
    | array b =>
      cases found
      exact ⟨_, stands, rfl⟩
    | number | name | stray => simp [Leaf.use?] at found

end Expr

namespace Instr

@[simp] theorem defined?_fold (known : Entries Int) (i : Instr Empty) :
    (i.fold known).defined? = i.defined? := by
  cases i <;> rfl

theorem exprs_fold (known : Entries Int) (i : Instr Empty) :
    (i.fold known).exprs = i.exprs.map (Expr.fold known) := by
  cases i with
  | assign x e | assert c path => rfl
  | phi r xs guard => cases guard <;> rfl
  | stray part => exact part.elim

theorem foldNotes_eq (known : Entries Int) (i : Instr Empty) :
    i.foldNotes known = i.exprs.flatMap (Expr.foldNotes known) := by
  cases i with
  | assign | assert | phi => rfl
  | stray part => exact part.elim

end Instr

namespace Stream

variable {s : Stream Empty}

theorem mem_constants {x : String} {n : Int} (found : (constants s).get? x = some n) :
    .assign x (.lit n) ∈ s := by
  have step : ∀ (cs : List (String × Int)) (m : Entries Int),
      (cs.foldl (fun m c => m.put c.1 c.2) m).get? x = some n →
      (x, n) ∈ cs ∨ m.get? x = some n := by
    intro cs
    induction cs with
    | nil => exact fun m found => .inr found
    | cons c cs ih =>
      intro m found
      rcases ih _ found with later | now
      · exact .inl (List.mem_cons_of_mem _ later)
      · rw [Entries.get?_put] at now
        split at now
        · rename_i same
          cases now
          subst same
          exact .inl (List.mem_cons_self ..)
        · exact .inr now
  rcases step _ _ found with member | start
  · obtain ⟨i, stands, constant⟩ := List.mem_filterMap.mp member
    unfold Instr.constant? at constant
    split at constant
    · cases constant
      exact stands
    · contradiction
  · contradiction

theorem Solves.respects {sorts : Sorts} {v : Valuation} (solves : s.Solves sorts v) :
    Respects (constants s) v := by
  intro x n found
  exact solves _ (mem_constants found)

def live (s : Stream Empty) : List String := readSymbols (folded s)

theorem mem_simplified {j : Instr Empty} : j ∈ s.simplified ↔
    ∃ i ∈ s, i.fold (constants s) = j ∧ j.isDead s.live = false := by
  unfold simplified withoutDead live folded
  simp only [List.mem_filter, List.mem_map, Bool.not_eq_true']
  constructor
  · rintro ⟨⟨i, member, same⟩, alive⟩
    exact ⟨i, member, same, alive⟩
  · rintro ⟨i, member, same, alive⟩
    exact ⟨⟨i, member, same⟩, alive⟩

theorem phi_mem_simplified {r : String} {xs : List String} {guard : Option (Expr Empty)}
    (member : .phi r xs guard ∈ s) :
    .phi r xs (guard.map (Expr.fold (constants s))) ∈ s.simplified :=
  mem_simplified.mpr ⟨_, member, rfl, rfl⟩

theorem assert_mem_simplified {c : Expr Empty} {path : List (Expr Empty)}
    (member : .assert c path ∈ s) :
    (Instr.assert c path).fold (constants s) ∈ s.simplified :=
  mem_simplified.mpr ⟨_, member, rfl, rfl⟩

theorem assign_mem_simplified {x : String} {e : Expr Empty} (member : .assign x e ∈ s)
    (alive : x ∈ s.live) : .assign x (e.fold (constants s)) ∈ s.simplified := by
  refine mem_simplified.mpr ⟨_, member, rfl, ?_⟩
  simp [Instr.isDead, alive]

theorem mem_live {i : Instr Empty} (member : i ∈ s) {x : String}
    (reads : x ∈ (i.fold (constants s)).reads) : x ∈ s.live :=
  List.mem_flatMap.mpr ⟨_, List.mem_map_of_mem member, reads⟩

theorem operand_live {r a : String} {xs : List String} {guard : Option (Expr Empty)}
    (member : .phi r xs guard ∈ s) (operand : a ∈ xs) : a ∈ s.live :=
  mem_live member (List.mem_append_left _ operand)

theorem use_live {i : Instr Empty} (member : i ∈ s) {e : Expr Empty} (part : e ∈ i.exprs)
    {u : String × VarSort Empty} (used : u ∈ (e.fold (constants s)).uses) : u.1 ∈ s.live := by
  refine mem_live member (List.mem_append_right _ (List.mem_flatMap.mpr
    ⟨e.fold (constants s), ?_, Expr.mem_names_of_mem_uses used⟩))
  rw [Instr.exprs_fold]
  exact List.mem_map_of_mem part

/-! The arrays of what is left are arrays of the stream. -/

theorem phiGroups_simplified : phiGroups s.simplified = phiGroups s := by
  unfold simplified withoutDead phiGroups
  rw [List.filterMap_filter]
  unfold folded
  rw [List.filterMap_map]
  congr 1
  funext i
  cases i with
  | assign x e => simp [Instr.fold, Instr.isDead]
  | assert c path => rfl
  | phi r xs g => rfl
  | stray part => exact part.elim

theorem indexed_simplified {a : String} (member : a ∈ indexedSymbols s.simplified) :
    a ∈ indexedSymbols s := by
  simp only [indexedSymbols, mem_addNames, List.not_mem_nil, false_or, List.mem_flatMap] at member ⊢
  obtain ⟨j, stands, e, part, indexed⟩ := member
  obtain ⟨i, origin, rfl, -⟩ := mem_simplified.mp stands
  rw [Instr.exprs_fold] at part
  obtain ⟨f, inside, rfl⟩ := List.mem_map.mp part
  exact ⟨i, origin, f, inside, Expr.mem_indexed.mpr (f.uses_fold _ (Expr.mem_indexed.mp indexed))⟩

theorem mem_spread_mono {groups : List (List String)} {known more : List String}
    (sub : known ⊆ more) : spread groups known ⊆ spread groups more := by
  induction groups generalizing known more with
  | nil => exact sub
  | cons g groups ih =>
    rw [spread_cons, spread_cons]
    have step : joinGroup known g ⊆ joinGroup more g := by
      intro x member
      rcases mem_joinGroup.mp member with old | ⟨new, y, inside, seen⟩
      · exact mem_joinGroup.mpr (.inl (sub old))
      · exact mem_joinGroup.mpr (.inr ⟨new, y, inside, sub seen⟩)
    exact ih step

theorem arrays_simplified {a : String} (member : a ∈ arrays s.simplified) : a ∈ arrays s := by
  have close : ∀ (n : Nat) (groups : List (List String)) {known more : List String},
      known ⊆ more → closeOver groups n known ⊆ closeOver groups n more := by
    intro n groups
    induction n with
    | zero => exact fun sub => sub
    | succ n ih => exact fun sub => ih (mem_spread_mono sub)
  unfold arrays at member ⊢
  rw [phiGroups_simplified] at member
  exact close _ _ (fun _ => indexed_simplified) member

end Stream

end Assay
