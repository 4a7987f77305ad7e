import Assay.Proofs.Executing
import Assay.Proofs.Simulation

/-! Traversals: what the stream of a program says about it. A loop is gone through once at most. The
round that stands for all rounds may begin with values from its own end: each name that the body
assigns, if it was met before the body, has the value it had at the entry of the loop or the one it
has when the round is over. A run whose loops end after one round is a traversal. -/
namespace Assay

/-- What can come out of a piece of program, for each valuation in front of it. -/
abbrev Course := Valuation → Ran → Prop

def Course.andThen (first next : Course) : Course := fun v r =>
  ∃ a b, first v a ∧ next a.1 b ∧ r = (b.1, a.2 ++ b.2)

/-- The values `w` at the beginning of a round, where the loop was entered with `v` and the round
ends with `after`. -/
structure Carried (met targets : List String) (v w after : Valuation) : Prop where
  byZero : w.byZero = v.byZero
  array : w.array = v.array
  int : ∀ x, w.int x = v.int x ∨ x ∈ met ∧ x ∈ targets ∧ w.int x = after.int x

def passage (cond : Expr Empty) (met targets : List String) (body : Course) : Course := fun v r =>
  if cond.holds v then ∃ w, Carried met targets v w r.1 ∧ body w r else r = (v, [])

namespace Stmt

mutual

/-- The names met behind a statement. Names that only the first arm of a branch reads are forgotten
behind the branch. -/
def met (known : List String) : Stmt Empty → List String
  | .assign a => known ++ a.value.names ++ [a.target]
  | .assert c => known ++ c.names
  | .branch c t e => metAll (known ++ c.names) e ++ targetsAll t
  | .whileLoop c b => metAll (known ++ c.names) b
  | .forLoop i c u b =>
    metAll (known ++ i.value.names ++ [i.target] ++ c.names) b ++ u.value.names ++ [u.target]

def metAll (known : List String) : List (Stmt Empty) → List String
  | [] => known
  | s :: rest => metAll (met known s) rest

end

mutual

def traverses (known : List String) : Stmt Empty → Course
  | .assign a => fun v r => r = (a.run v, [])
  | .assert c => fun v r => r = (v, [c.eval v])
  | .branch c t e => fun v r =>
    if c.holds v then traversesAll (known ++ c.names) t v r
    else traversesAll (known ++ c.names) e v r
  | .whileLoop c b =>
    passage c (known ++ c.names) (targetsAll b) (traversesAll (known ++ c.names) b)
  | .forLoop i c u b =>
    let met := known ++ i.value.names ++ [i.target] ++ c.names
    Course.andThen (fun v r => r = (i.run v, []))
      (passage c met (targetsAll b ++ [u.target])
        (Course.andThen (traversesAll met b) fun v r => r = (u.run v, [])))

def traversesAll (known : List String) : List (Stmt Empty) → Course
  | [] => fun v r => r = (v, [])
  | s :: rest => Course.andThen (traverses known s) (traversesAll (met known s) rest)

end

end Stmt

def Program.Traverses (p : Program Empty) : Course := Stmt.traversesAll [] p

theorem Carried.refl (met targets : List String) (v after : Valuation) :
    Carried met targets v v after := ⟨rfl, rfl, fun _ => .inl rfl⟩

theorem Carried.eq_of_no_targets {met : List String} {v w after : Valuation}
    (carried : Carried met [] v w after) : w = v := by
  obtain ⟨int, array, byZero⟩ := w
  have ints : int = v.int := funext fun x => (carried.int x).resolve_right fun h => nomatch h.2.1
  have arrays : array = v.array := carried.array
  have quotients : byZero = v.byZero := carried.byZero
  rw [ints, arrays, quotients]

theorem Course.andThen_det {f g : Valuation → Ran} :
    Course.andThen (fun v r => r = f v) (fun v r => r = g v) =
      fun v r => r = (f v).andThen g := by
  funext v r
  refine propext ⟨?_, ?_⟩
  · rintro ⟨a, b, rfl, rfl, rfl⟩
    rfl
  · rintro rfl
    exact ⟨_, _, rfl, rfl, rfl⟩

theorem passage_once {cond : Expr Empty} {met targets : List String} {course : Course}
    {body : Valuation → Ran} (goes : ∀ v, course v (body v)) (v : Valuation) :
    passage cond met targets course v (rounds cond body 1 v) := by
  unfold passage
  cases chosen : cond.holds v with
  | true =>
    have once : rounds cond body 1 v = body v := by simp [rounds, chosen, Ran.andThen]
    rw [if_pos rfl, once]
    exact ⟨v, .refl _ _ v _, goes v⟩
  | false => exact rounds_skipped chosen body 1

theorem passage_idle {cond : Expr Empty} {met : List String} {body : Course}
    (idle : ∀ v r, body v r ↔ r = (v, [])) (v : Valuation) (r : Ran) :
    passage cond met [] body v r ↔ r = (v, []) := by
  unfold passage
  simp only [idle]
  split
  · constructor
    · rintro ⟨w, carried, rfl⟩
      rw [carried.eq_of_no_targets]
    · rintro rfl
      exact ⟨v, .refl _ _ _ _, rfl⟩
  · exact Iff.rfl

namespace Stmt

mutual

theorem traverses_run (known : List String) (s : Stmt Empty) (v : Valuation) :
    traverses known s v (run 1 s v) := by
  match s with
  | .assign a => rw [run, traverses]
  | .assert c => rw [run, traverses]
  | .branch c t e =>
    unfold run traverses
    cases c.holds v with
    | true => exact traversesAll_run _ t v
    | false => exact traversesAll_run _ e v
  | .whileLoop c b =>
    unfold run traverses
    exact passage_once (traversesAll_run _ b) v
  | .forLoop i c u b =>
    unfold run traverses
    refine ⟨_, _, rfl, passage_once (fun w => ?_) (i.run v), rfl⟩
    exact ⟨_, _, traversesAll_run _ b w, rfl, rfl⟩

theorem traversesAll_run (known : List String) (p : List (Stmt Empty)) (v : Valuation) :
    traversesAll known p v (runAll 1 p v) := by
  match p with
  | [] => rw [runAll, traversesAll]
  | s :: rest =>
    unfold runAll traversesAll
    exact ⟨_, _, traverses_run known s v, traversesAll_run _ rest _, rfl⟩

end

mutual

theorem traverses_loopFree (bound : Nat) (known : List String) (s : Stmt Empty)
    (flat : loopFree s = true) : traverses known s = fun v r => r = run bound s v := by
  match s with
  | .assign a =>
    funext v r
    rw [traverses, run]
  | .assert c =>
    funext v r
    rw [traverses, run]
  | .branch c t e =>
    unfold loopFree at flat
    obtain ⟨flatThen, flatElse⟩ := Bool.and_eq_true_iff.mp flat
    funext v r
    rw [traverses, run, traversesAll_loopFree bound _ t flatThen,
      traversesAll_loopFree bound _ e flatElse]
    dsimp only
    cases c.holds v <;> rfl

theorem traversesAll_loopFree (bound : Nat) (known : List String) (p : List (Stmt Empty))
    (flat : loopFreeAll p = true) : traversesAll known p = fun v r => r = runAll bound p v := by
  match p with
  | [] =>
    funext v r
    rw [traversesAll, runAll]
  | s :: rest =>
    unfold loopFreeAll at flat
    obtain ⟨head, tail⟩ := Bool.and_eq_true_iff.mp flat
    rw [traversesAll, traverses_loopFree bound known s head,
      traversesAll_loopFree bound _ rest tail, Course.andThen_det]
    funext v r
    rw [runAll]

end

end Stmt

end Assay
