import Assay.Smt.Encoder
import Assay.Smt.Meaning

/-! What encoding leaves behind. Each piece of work that ends well adds a fixed list of assertions
and conditions and declares exactly the symbols it uses, each with the sort it is used at; pieces
add up along a stream. -/
namespace Assay

open Smt

namespace Encoding

/-- The work ends well with a result and leaves an encoder. -/
def Yields {α : Type} (work : Encoding Empty α) (e : Encoder Empty) (a : α) (e' : Encoder Empty) :
    Prop :=
  Encoding.on e work = (.ok a, e')

theorem on_bind {α β : Type} (work : Encoding Empty α) (next : α → Encoding Empty β)
    (e : Encoder Empty) :
    Encoding.on e (work >>= next) =
      match Encoding.on e work with
      | (.ok a, e') => Encoding.on e' (next a)
      | (.error fault, e') => (.error fault, e') := by
  change ExceptT.bind work next e = match work e with
    | (.ok a, e') => next a e'
    | (.error fault, e') => (.error fault, e')
  rcases h : work e with ⟨fault | a, e'⟩ <;>
    simp only [ExceptT.bind, ExceptT.mk, bind, StateT.bind, h] <;> rfl

theorem yields_bind {α β : Type} {work : Encoding Empty α} {next : α → Encoding Empty β}
    {e e'' : Encoder Empty} {b : β} :
    Yields (work >>= next) e b e'' ↔ ∃ a e', Yields work e a e' ∧ Yields (next a) e' b e'' := by
  unfold Yields
  rw [on_bind]
  rcases Encoding.on e work with ⟨fault | a, e'⟩
  · simp
  · constructor
    · intro h
      exact ⟨a, e', rfl, h⟩
    · rintro ⟨a', e₁, first, second⟩
      cases first
      exact second

theorem yields_pure {α : Type} {a b : α} {e e' : Encoder Empty} :
    Yields (pure a) e b e' ↔ a = b ∧ e = e' := by
  constructor
  · intro h
    cases h
    exact ⟨rfl, rfl⟩
  · rintro ⟨rfl, rfl⟩
    rfl

theorem not_yields_throw {α : Type} {fault : Error} {e e' : Encoder Empty} {a : α} :
    ¬ Yields (throw fault) e a e' := by
  intro h
  cases h

theorem yields_modify {f : Encoder Empty → Encoder Empty} {e e' : Encoder Empty} {u : Unit} :
    Yields (modify f) e u e' ↔ e' = f e := by
  constructor
  · intro h
    cases h
    rfl
  · rintro rfl
    rfl

theorem yields_get {e e' s : Encoder Empty} : Yields get e s e' ↔ s = e ∧ e' = e := by
  constructor
  · intro h
    cases h
    exact ⟨rfl, rfl⟩
  · rintro ⟨rfl, rfl⟩
    rfl

theorem yields_ofExcept {α : Type} {r : Except Error α} {e e' : Encoder Empty} {a : α} :
    Yields (ofExcept r) e a e' ↔ r = .ok a ∧ e' = e := by
  constructor
  · intro h
    obtain ⟨result, state⟩ := Prod.mk.inj h
    exact ⟨result, state.symm⟩
  · rintro ⟨rfl, rfl⟩
    rfl

end Encoding

def Encoder.sort? (e : Encoder Empty) (x : String) : Option (VarSort Empty) :=
  e.script.declarations.get? x

/-- What a piece of work adds: assertions, conditions, and uses of symbols at a sort. -/
structure Added where
  assertions : List (Assertion Empty)
  conditions : List (Condition Empty)
  uses : List (String × VarSort Empty)

/-- The encoder `e'` is `e` with the addition. A symbol keeps the sort it has, all uses agree with
the declared sorts, nothing else is declared, and nothing twice. -/
structure Extends (e e' : Encoder Empty) (added : Added) : Prop where
  assertions : e'.script.assertions = e.script.assertions ++ added.assertions
  conditions : e'.conditions = e.conditions ++ added.conditions
  arrays : e'.arrays = e.arrays
  kept : ∀ x s, e.sort? x = some s → e'.sort? x = some s
  used : ∀ u ∈ added.uses, e'.sort? u.1 = some u.2
  only : ∀ x s, e'.sort? x = some s → e.sort? x = some s ∨ (x, s) ∈ added.uses
  distinct : e.script.declarations.keys.Nodup → e'.script.declarations.keys.Nodup

def Added.nothing : Added := ⟨[], [], []⟩

def Added.append (a b : Added) : Added :=
  ⟨a.assertions ++ b.assertions, a.conditions ++ b.conditions, a.uses ++ b.uses⟩

theorem Extends.refl (e : Encoder Empty) : Extends e e .nothing where
  assertions := (List.append_nil _).symm
  conditions := (List.append_nil _).symm
  arrays := rfl
  kept := fun _ _ h => h
  used := fun _ h => absurd h (by simp [Added.nothing])
  only := fun _ _ h => .inl h
  distinct := id

theorem Extends.trans {e e' e'' : Encoder Empty} {a b : Added} (first : Extends e e' a)
    (second : Extends e' e'' b) : Extends e e'' (a.append b) where
  assertions := by
    rw [second.assertions, first.assertions, List.append_assoc]
    rfl
  conditions := by
    rw [second.conditions, first.conditions, List.append_assoc]
    rfl
  arrays := second.arrays.trans first.arrays
  kept := fun x s h => second.kept x s (first.kept x s h)
  used := by
    intro u member
    rcases List.mem_append.mp member with member | member
    · exact second.kept _ _ (first.used u member)
    · exact second.used u member
  only := by
    intro x s declared
    rcases second.only x s declared with old | new
    · rcases first.only x s old with old | new
      · exact .inl old
      · exact .inr (List.mem_append_left _ new)
    · exact .inr (List.mem_append_right _ new)
  distinct := fun single => second.distinct (first.distinct single)

theorem VarSort.text_inj {s t : VarSort Empty} (same : s.text = t.text) : s = t := by
  cases s with
  | stray part => exact part.elim
  | int =>
    cases t with
    | stray part => exact part.elim
    | int => rfl
    | array => exact absurd same (by simp [VarSort.text])
  | array =>
    cases t with
    | stray part => exact part.elim
    | int => exact absurd same (by simp [VarSort.text])
    | array => rfl

namespace Encoding

theorem declare_extends {x : String} {s : VarSort Empty} {e e' : Encoder Empty} {u : Unit}
    (done : Yields (declare x s) e u e') : Extends e e' ⟨[], [], [(x, s)]⟩ := by
  simp only [declare, yields_bind, yields_get] at done
  obtain ⟨_, _, ⟨rfl, rfl⟩, done⟩ := done
  split at done
  · rename_i absent
    simp only [modifyScript, yields_modify] at done
    subst done
    refine ⟨by simp, by simp, rfl, ?_, ?_, ?_, Entries.nodup_keys_put x s _⟩
    · intro y t declared
      have other : x ≠ y := by
        rintro rfl
        exact absurd (absent.symm.trans declared) (by simp)
      simpa [Encoder.sort?, other] using declared
    · intro use member
      obtain rfl : use = (x, s) := by simpa using member
      simp [Encoder.sort?]
    · intro y t declared
      by_cases same : x = y
      · subst same
        right
        have : s = t := by simpa [Encoder.sort?] using declared
        simp [this]
      · left
        simpa [Encoder.sort?, same] using declared
  · rename_i known found
    split at done
    · exact absurd done not_yields_throw
    · rename_i same
      simp only [yields_pure] at done
      obtain ⟨-, rfl⟩ := done
      have sorts : known = s := VarSort.text_inj (by simpa using same)
      refine ⟨by simp, by simp, rfl, fun _ _ h => h, ?_, fun _ _ h => .inl h, id⟩
      intro use member
      obtain rfl : use = (x, s) := by simpa using member
      exact sorts ▸ found

end Encoding

def Expr.Leaf.use? : Expr.Leaf Empty → Option (String × VarSort Empty)
  | .name x => some (x, .int)
  | .array a => some (a, .array)
  | _ => none

def Expr.uses (e : Expr Empty) : List (String × VarSort Empty) := e.leaves.filterMap Leaf.use?

def Demand.use? : Demand Empty → Option (String × VarSort Empty)
  | .declare x s => some (x, s)
  | _ => none

mutual

theorem Expr.termDemands_uses : (e : Expr Empty) → e.termDemands.filterMap Demand.use? = e.uses
  | .lit n => by
    unfold Expr.termDemands
    split <;> rfl
  | .var x => rfl
  | .read a i => by
    simp [Expr.termDemands, Expr.uses, Expr.leaves, Expr.Leaf.use?, Demand.use?]
    exact Expr.termDemands_uses i
  | .binary (.compare c) l r => by
    simp only [Expr.termDemands, List.filterMap_append, Expr.termDemands_uses l,
      Expr.termDemands_uses r, Expr.uses, Expr.leaves]
  | .binary (.compute op) l r => by
    have extra : (if needsNonlinear op l r then [Demand.nonlinear] else []).filterMap
        Demand.use? = [] := by split <;> rfl
    simp only [Expr.termDemands, List.filterMap_append, Expr.termDemands_uses l,
      Expr.termDemands_uses r, extra, Expr.uses, Expr.leaves, List.append_nil]
  | .unary .not e => by
    simp only [Expr.termDemands, Expr.formulaDemands_uses e, Expr.uses, Expr.leaves]

theorem Expr.formulaDemands_uses :
    (e : Expr Empty) → e.formulaDemands.filterMap Demand.use? = e.uses
  | .lit n => rfl
  | .var x => rfl
  | .read a i => by
    simp [Expr.formulaDemands, Expr.uses, Expr.leaves, Expr.Leaf.use?, Demand.use?]
    exact Expr.termDemands_uses i
  | .binary (.compare c) l r => by
    simp only [Expr.formulaDemands, List.filterMap_append, Expr.termDemands_uses l,
      Expr.termDemands_uses r, Expr.uses, Expr.leaves]
  | .binary (.compute op) l r => by
    have extra : (if needsNonlinear op l r then [Demand.nonlinear] else []).filterMap
        Demand.use? = [] := by split <;> rfl
    simp only [Expr.formulaDemands, List.filterMap_append, Expr.termDemands_uses l,
      Expr.termDemands_uses r, extra, Expr.uses, Expr.leaves, List.append_nil]
  | .unary .not e => by
    simp only [Expr.formulaDemands, Expr.formulaDemands_uses e, Expr.uses, Expr.leaves]

end

namespace Encoding

theorem meet_extends {d : Demand Empty} {e e' : Encoder Empty} {u : Unit}
    (done : Yields (meet d) e u e') : Extends e e' ⟨[], [], d.use?.toList⟩ := by
  cases d with
  | declare x s => exact declare_extends done
  | nonlinear =>
    simp only [meet, modifyScript, yields_modify] at done
    subst done
    exact ⟨by simp, by simp, rfl, fun _ _ h => h, by simp [Demand.use?], fun _ _ h => .inl h, id⟩
  | fault err => exact absurd done not_yields_throw

theorem meetAll_extends {ds : List (Demand Empty)} {e e' : Encoder Empty} {u : Unit}
    (done : Yields (ds.forM meet) e u e') :
    Extends e e' ⟨[], [], ds.filterMap Demand.use?⟩ := by
  induction ds generalizing e with
  | nil =>
    obtain ⟨-, rfl⟩ := yields_pure.mp done
    exact Extends.refl e
  | cons d ds ih =>
    obtain ⟨_, e₁, first, rest⟩ := yields_bind.mp done
    have both := (meet_extends first).trans (ih rest)
    cases used : d.use? <;> simpa [Added.append, used] using both

theorem term_extends {x : Expr Empty} {t : Term Empty} {e e' : Encoder Empty}
    (done : Yields (term x) e t e') : t = x.term ∧ Extends e e' ⟨[], [], x.uses⟩ := by
  obtain ⟨_, e₁, demands, result⟩ := yields_bind.mp done
  obtain ⟨rfl, rfl⟩ := yields_pure.mp result
  exact ⟨rfl, Expr.termDemands_uses x ▸ meetAll_extends demands⟩

theorem formula_extends {x : Expr Empty} {f : Formula Empty} {e e' : Encoder Empty}
    (done : Yields (formula x) e f e') : f = x.formula ∧ Extends e e' ⟨[], [], x.uses⟩ := by
  obtain ⟨_, e₁, demands, result⟩ := yields_bind.mp done
  obtain ⟨rfl, rfl⟩ := yields_pure.mp result
  exact ⟨rfl, Expr.formulaDemands_uses x ▸ meetAll_extends demands⟩

theorem formulas_extends {xs : List (Expr Empty)} {fs : List (Formula Empty)}
    {e e' : Encoder Empty} (done : Yields (xs.mapM formula) e fs e') :
    fs = xs.map Expr.formula ∧ Extends e e' ⟨[], [], xs.flatMap Expr.uses⟩ := by
  induction xs generalizing e fs with
  | nil =>
    rw [List.mapM_nil] at done
    obtain ⟨rfl, rfl⟩ := yields_pure.mp done
    exact ⟨rfl, Extends.refl e⟩
  | cons x xs ih =>
    rw [List.mapM_cons] at done
    obtain ⟨f, e₁, first, rest⟩ := yields_bind.mp done
    obtain ⟨fs', e₂, tail, result⟩ := yields_bind.mp rest
    obtain ⟨rfl, rfl⟩ := yields_pure.mp result
    obtain ⟨rfl, head⟩ := formula_extends first
    obtain ⟨rfl, others⟩ := ih tail
    exact ⟨rfl, by simpa [Added.append] using head.trans others⟩

theorem declareAll_extends {xs : List String} {s : VarSort Empty} {e e' : Encoder Empty} {u : Unit}
    (done : Yields (xs.forM fun x => declare x s) e u e') :
    Extends e e' ⟨[], [], xs.map fun x => (x, s)⟩ := by
  induction xs generalizing e with
  | nil =>
    obtain ⟨-, rfl⟩ := yields_pure.mp done
    exact Extends.refl e
  | cons x xs ih =>
    obtain ⟨_, e₁, first, rest⟩ := yields_bind.mp done
    simpa [Added.append] using (declare_extends first).trans (ih rest)

theorem add_extends {a : Assertion Empty} {e e' : Encoder Empty} {u : Unit}
    (done : Yields (add a) e u e') : Extends e e' ⟨[a], [], []⟩ := by
  simp only [add, modifyScript, yields_modify] at done
  subst done
  exact ⟨rfl, by simp, rfl, fun _ _ h => h, by simp, fun _ _ h => .inl h, id⟩

end Encoding

def sortIn (arrays : List String) (x : String) : VarSort Empty :=
  if arrays.contains x then .array else .int

namespace Instr

def constraint? (sort : String → VarSort Empty) : Instr Empty → Option (Assertion Empty)
  | .assign x e => some (.define x e.term)
  | .phi r [a] _ => some (.copy (sort r) r a)
  | .phi r [a, b] none => some (.either (sort r) r a b)
  | .phi r [a, b] (some g) => some (.choose (sort r) r g.formula a b)
  | _ => none

def condition? : Instr Empty → Option (Condition Empty)
  | .assert c path => some ⟨c.formula, path.map Expr.formula⟩
  | _ => none

/-- The symbols of an instruction with their sorts. The guard of a phi is used only where it
chooses between two operands. -/
def uses (sort : String → VarSort Empty) : Instr Empty → List (String × VarSort Empty)
  | .assign x e => e.uses ++ [(x, .int)]
  | .assert c path => c.uses ++ path.flatMap Expr.uses
  | .phi r [a, b] (some g) => [(r, sort r), (a, sort r), (b, sort r)] ++ g.uses
  | .phi r xs _ => (r :: xs).map fun x => (x, sort r)

def added (sort : String → VarSort Empty) (i : Instr Empty) : Added :=
  ⟨(i.constraint? sort).toList, i.condition?.toList, i.uses sort⟩

end Instr

def Stream.added (sort : String → VarSort Empty) (s : Stream Empty) : Added :=
  ⟨s.filterMap (Instr.constraint? sort), s.filterMap Instr.condition?,
    s.flatMap (Instr.uses sort)⟩

namespace Encoding

theorem phi_extends {r : String} {xs : List String} {g : Option (Expr Empty)}
    {e e' : Encoder Empty} {u : Unit} (done : Yields (phi r xs g) e u e') :
    Extends e e' ((Instr.phi r xs g).added (sortIn e.arrays)) := by
  obtain ⟨s, e₀, got, rest⟩ := yields_bind.mp done
  obtain ⟨hs, he⟩ := yields_get.mp got
  subst s e₀
  obtain ⟨_, e₁, result, rest⟩ := yields_bind.mp rest
  obtain ⟨_, e₂, operands, rest⟩ := yields_bind.mp rest
  have fold : (if e.arrays.contains r then VarSort.array else .int) = sortIn e.arrays r := rfl
  simp only [fold] at result operands rest
  have declared := (declare_extends result).trans (declareAll_extends operands)
  split at rest
  · simpa [Instr.added, Instr.constraint?, Instr.condition?, Instr.uses, Added.append] using
      declared.trans (add_extends rest)
  · simpa [Instr.added, Instr.constraint?, Instr.condition?, Instr.uses, Added.append] using
      declared.trans (add_extends rest)
  · obtain ⟨f, e₃, encoded, rest⟩ := yields_bind.mp rest
    obtain ⟨rfl, guard⟩ := formula_extends encoded
    simpa [Instr.added, Instr.constraint?, Instr.condition?, Instr.uses, Added.append] using
      (declared.trans guard).trans (add_extends rest)
  · exact absurd rest not_yields_throw

theorem instruction_extends {i : Instr Empty} {e e' : Encoder Empty} {u : Unit}
    (done : Yields (instruction i) e u e') : Extends e e' (i.added (sortIn e.arrays)) := by
  cases i with
  | assign x value =>
    obtain ⟨t, e₁, encoded, rest⟩ := yields_bind.mp done
    obtain ⟨_, e₂, declared, rest⟩ := yields_bind.mp rest
    obtain ⟨rfl, uses⟩ := term_extends encoded
    simpa [Instr.added, Instr.constraint?, Instr.condition?, Instr.uses, Added.append] using
      (uses.trans (declare_extends declared)).trans (add_extends rest)
  | assert c path =>
    obtain ⟨f, e₁, encoded, rest⟩ := yields_bind.mp done
    obtain ⟨fs, e₂, encodedPath, rest⟩ := yields_bind.mp rest
    obtain ⟨rfl, head⟩ := formula_extends encoded
    obtain ⟨rfl, tail⟩ := formulas_extends encodedPath
    have state := yields_modify.mp rest
    subst state
    have both := head.trans tail
    exact ⟨both.assertions, by simp [both.conditions, Instr.added, Instr.condition?, Added.append],
      both.arrays, both.kept, both.used, both.only, both.distinct⟩
  | phi r xs g => exact phi_extends done
  | stray part => exact part.elim

theorem instructions_extends {s : Stream Empty} {e e' : Encoder Empty} {u : Unit}
    (done : Yields (s.forM instruction) e u e') :
    Extends e e' (Stream.added (sortIn e.arrays) s) := by
  induction s generalizing e with
  | nil =>
    obtain ⟨-, rfl⟩ := yields_pure.mp done
    exact Extends.refl e
  | cons i s ih =>
    obtain ⟨_, e₁, first, rest⟩ := yields_bind.mp done
    have head := instruction_extends first
    have tail := ih rest
    rw [head.arrays] at tail
    have both := head.trans tail
    cases constraint : i.constraint? (sortIn e.arrays) <;> cases condition : i.condition? <;>
      simpa [Stream.added, Instr.added, Added.append, constraint, condition] using both

end Encoding

namespace Stream

theorem no_strays (s : Stream Empty) (stage : Stage) : s.flatMap (Instr.strays stage) = [] := by
  refine List.flatMap_eq_nil_iff.mpr fun i _ => ?_
  cases i with
  | stray part => exact part.elim
  | assign x e | assert c path | phi r xs g => rfl

theorem checkedArrays_eq (s : Stream Empty) : checkedArrays s = .ok (arrays s) := by
  unfold checkedArrays
  rw [no_strays]
  rfl

end Stream

namespace Encoding

theorem define_eq (s : Stream Empty) : define s = (do
    modify fun e => { e with arrays := Stream.addNames e.arrays (Stream.arrays s) }
    s.forM instruction) := by
  unfold define
  rw [s.checkedArrays_eq]
  rfl

theorem define_extends {s : Stream Empty} {e e' : Encoder Empty} {u : Unit}
    (done : Yields (define s) e u e') :
    Extends { e with arrays := Stream.addNames e.arrays (Stream.arrays s) } e'
      (Stream.added (sortIn (Stream.addNames e.arrays (Stream.arrays s))) s) := by
  obtain ⟨arrays, e₁, found, rest⟩ := yields_bind.mp done
  obtain ⟨_, e₂, known, rest⟩ := yields_bind.mp rest
  obtain ⟨checked, same⟩ := yields_ofExcept.mp found
  subst same
  have state := yields_modify.mp known
  subst state
  rw [s.checkedArrays_eq] at checked
  cases checked
  exact instructions_extends rest

end Encoding

end Assay
