import Assay.Proofs.Comparing

/-! When encoding ends well. Declaring symbols one after the other goes through exactly where some
assignment of sorts has every symbol at the sorts that it is used at, whatever the order of the
uses. So a stream is encoded if and only if its uses are consistent, and two streams are encoded
side by side if and only if each of them is. -/
namespace Assay

open Smt

/-- What is declared and the uses to come fit one assignment of sorts. -/
def Encoder.Admits (e : Encoder Empty) (uses : List (String × VarSort Empty)) : Prop :=
  ∃ sorts : Sorts, (∀ x k, e.sort? x = some k → sorts x = some k) ∧ ∀ u ∈ uses, sorts u.1 = some u.2

theorem Extends.admits {e e' : Encoder Empty} {added : Added} (extension : Extends e e' added)
    {later : List (String × VarSort Empty)} :
    e.Admits (added.uses ++ later) ↔ e'.Admits later := by
  constructor
  · rintro ⟨sorts, kept, used⟩
    refine ⟨sorts, fun x k declared => ?_, fun u member => used u (List.mem_append_right _ member)⟩
    rcases extension.only x k declared with old | new
    · exact kept x k old
    · exact used (x, k) (List.mem_append_left _ new)
  · rintro ⟨sorts, kept, used⟩
    refine ⟨sorts, fun x k declared => kept x k (extension.kept x k declared), fun u member => ?_⟩
    rcases List.mem_append.mp member with first | second
    · exact kept _ _ (extension.used u first)
    · exact used u second

theorem Encoder.Admits.first {e : Encoder Empty} {uses later : List (String × VarSort Empty)}
    (admits : e.Admits (uses ++ later)) : e.Admits uses := by
  obtain ⟨sorts, kept, used⟩ := admits
  exact ⟨sorts, kept, fun u member => used u (List.mem_append_left _ member)⟩

namespace Encoding

variable {α β : Type} {e : Encoder Empty}

def Succeeds (work : Encoding Empty α) (e : Encoder Empty) : Prop := ∃ a e', Yields work e a e'

theorem succeeds_pure (a : α) : Succeeds (pure a) e := ⟨a, e, yields_pure.mpr ⟨rfl, rfl⟩⟩

theorem succeeds_modify (f : Encoder Empty → Encoder Empty) : Succeeds (modify f) e :=
  ⟨(), f e, yields_modify.mpr rfl⟩

theorem succeeds_bind {work : Encoding Empty α} {next : α → Encoding Empty β}
    (first : Succeeds work e) (later : ∀ a e', Yields work e a e' → Succeeds (next a) e') :
    Succeeds (work >>= next) e := by
  obtain ⟨a, e', done⟩ := first
  obtain ⟨b, e'', rest⟩ := later a e' done
  exact ⟨b, e'', yields_bind.mpr ⟨a, e', done, rest⟩⟩

theorem succeeds_get {next : Encoder Empty → Encoding Empty α} (later : Succeeds (next e) e) :
    Succeeds (get >>= next) e := by
  refine succeeds_bind ⟨e, e, yields_get.mpr ⟨rfl, rfl⟩⟩ fun _ _ got => ?_
  obtain ⟨rfl, rfl⟩ := yields_get.mp got
  exact later

theorem succeeds_declare {x : String} {k : VarSort Empty} (admits : e.Admits [(x, k)]) :
    Succeeds (declare x k) e := by
  obtain ⟨sorts, kept, used⟩ := admits
  refine succeeds_get ?_
  split
  · exact succeeds_modify _
  · rename_i known found
    have same : some known = some k :=
      (kept x known found).symm.trans (used (x, k) (List.mem_singleton_self _))
    cases same
    simpa using succeeds_pure ()

theorem succeeds_meet {ds : List (Demand Empty)} (clean : ∀ fault, .fault fault ∉ ds)
    (admits : e.Admits (ds.filterMap Demand.use?)) : Succeeds (ds.forM meet) e := by
  induction ds generalizing e with
  | nil => exact succeeds_pure ()
  | cons d ds ih =>
    have uses : (d :: ds).filterMap Demand.use? = d.use?.toList ++ ds.filterMap Demand.use? := by
      cases used : d.use? <;> simp [used]
    rw [uses] at admits
    refine succeeds_bind ?_ fun _ e' done =>
      ih (fun fault member => clean fault (List.mem_cons_of_mem _ member))
        ((meet_extends done).admits.mp admits)
    cases d with
    | declare x k => exact succeeds_declare admits.first
    | nonlinear => exact succeeds_modify _
    | fault err => exact absurd (List.mem_cons_self ..) (clean err)

theorem succeeds_declareAll {xs : List String} {k : VarSort Empty}
    (admits : e.Admits (xs.map fun x => (x, k))) : Succeeds (xs.forM fun x => declare x k) e := by
  induction xs generalizing e with
  | nil => exact succeeds_pure ()
  | cons x xs ih =>
    have head : e.Admits ([(x, k)] ++ xs.map fun x => (x, k)) := admits
    exact succeeds_bind (succeeds_declare head.first)
      fun _ e' done => ih ((declare_extends done).admits.mp head)

theorem succeeds_term {x : Expr Empty} (short : x.isTooLong = false) (admits : e.Admits x.uses) :
    Succeeds (term x) e := by
  refine succeeds_bind (succeeds_meet (fun fault member => ?_) ?_) fun _ _ _ => succeeds_pure _
  · exact absurd ((x.demand_faults fault).1 member).2 (by simp [short])
  · rwa [Expr.termDemands_uses]

theorem succeeds_formula {x : Expr Empty} (short : x.isTooLong = false)
    (admits : e.Admits x.uses) : Succeeds (formula x) e := by
  refine succeeds_bind (succeeds_meet (fun fault member => ?_) ?_) fun _ _ _ => succeeds_pure _
  · exact absurd ((x.demand_faults fault).2 member).2 (by simp [short])
  · rwa [Expr.formulaDemands_uses]

theorem succeeds_formulas {xs : List (Expr Empty)} (short : ∀ x ∈ xs, x.isTooLong = false)
    (admits : e.Admits (xs.flatMap Expr.uses)) : Succeeds (xs.mapM formula) e := by
  induction xs generalizing e with
  | nil => exact succeeds_pure []
  | cons x xs ih =>
    rw [List.mapM_cons]
    refine succeeds_bind (succeeds_formula (short x (List.mem_cons_self ..)) admits.first)
      fun _ e' done => ?_
    refine succeeds_bind (ih (fun y member => short y (List.mem_cons_of_mem _ member))
      ((formula_extends done).2.admits.mp admits)) fun _ _ _ => succeeds_pure _

theorem succeeds_joined {r : String} {xs : List String} {k : VarSort Empty}
    (later : List (String × VarSort Empty)) {next : Encoding Empty α}
    (admits : e.Admits ([(r, k)] ++ (xs.map (fun x => (x, k)) ++ later)))
    (rest : ∀ e', e'.Admits later → Succeeds next e') :
    Succeeds (do declare r k; xs.forM fun x => declare x k; next) e := by
  refine succeeds_bind (succeeds_declare admits.first) fun _ e₁ declared => ?_
  have joined := (declare_extends declared).admits.mp admits
  exact succeeds_bind (succeeds_declareAll joined.first) fun _ e₂ operands =>
    rest e₂ ((declareAll_extends operands).admits.mp joined)

theorem succeeds_phi {r : String} {xs : List String} {guard : Option (Expr Empty)}
    (operands : xs.length = 1 ∨ xs.length = 2) (short : ∀ g ∈ guard, g.isTooLong = false)
    (admits : e.Admits ((Instr.phi r xs guard).uses (sortIn e.arrays))) :
    Succeeds (phi r xs guard) e := by
  refine succeeds_get ?_
  match xs, guard with
  | [a], _ => exact succeeds_joined [] admits fun _ _ => succeeds_modify _
  | [a, b], none => exact succeeds_joined [] admits fun _ _ => succeeds_modify _
  | [a, b], some g =>
    refine succeeds_joined g.uses admits fun e' guarded => ?_
    exact succeeds_bind (succeeds_formula (short g rfl) guarded) fun _ _ _ => succeeds_modify _
  | [], _ | _ :: _ :: _ :: _, _ => simp at operands

theorem succeeds_instruction {i : Instr Empty}
    (operands : ∀ r xs guard, i = .phi r xs guard → xs.length = 1 ∨ xs.length = 2)
    (short : ∀ x ∈ i.exprs, x.isTooLong = false)
    (admits : e.Admits (i.uses (sortIn e.arrays))) : Succeeds (instruction i) e := by
  cases i with
  | assign x value =>
    refine succeeds_bind (succeeds_term (short value (List.mem_singleton_self _)) admits.first)
      fun _ e₁ done => ?_
    refine succeeds_bind (succeeds_declare ((term_extends done).2.admits.mp admits))
      fun _ _ _ => succeeds_modify _
  | assert c path =>
    refine succeeds_bind (succeeds_formula (short c (List.mem_cons_self ..)) admits.first)
      fun _ e₁ done => ?_
    refine succeeds_bind (succeeds_formulas
      (fun g member => short g (List.mem_cons_of_mem _ member))
      ((formula_extends done).2.admits.mp admits)) fun _ _ _ => succeeds_modify _
  | phi r xs guard =>
    exact succeeds_phi (operands r xs guard rfl) (fun g member => short g (by
      simpa [Instr.exprs] using member)) admits
  | stray part => exact part.elim

end Encoding

theorem Expr.isTooLong_mapNames (f : String → String) (e : Expr Empty) :
    (e.mapNames f).isTooLong = e.isTooLong := by
  induction e with
  | lit n => rfl
  | var x => rfl
  | read a i ih => exact ih
  | binary op l r left right => simp only [mapNames, isTooLong_binary, left, right]
  | unary op e ih => exact ih
  | stray part => exact part.elim

namespace Stream

/-- The form of a stream that only the sorts of its symbols can keep from being encoded. -/
structure Plain (s : Stream Empty) : Prop where
  operands : ∀ r xs guard, .phi r xs guard ∈ s → xs.length = 1 ∨ xs.length = 2
  short : ∀ i ∈ s, ∀ e ∈ i.exprs, e.isTooLong = false

theorem Plain.tail {i : Instr Empty} {s : Stream Empty} (plain : Plain (i :: s)) : s.Plain :=
  ⟨fun r xs guard member => plain.operands r xs guard (List.mem_cons_of_mem _ member),
    fun j member => plain.short j (List.mem_cons_of_mem _ member)⟩

theorem Plain.renamed {s : Stream Empty} (plain : s.Plain) (suffix : String) :
    (s.renamed suffix).Plain := by
  refine ⟨fun r xs guard member => ?_, fun j member x part => ?_⟩
  · obtain ⟨r', xs', guard', origin, rfl⟩ := phi_of_renamed member
    simpa using plain.operands r' xs' guard' origin
  · obtain ⟨i, origin, rfl⟩ := List.mem_map.mp member
    rw [Instr.exprs_mapNames] at part
    obtain ⟨y, inside, rfl⟩ := List.mem_map.mp part
    rw [Expr.isTooLong_mapNames]
    exact plain.short i origin y inside

def uses (s : Stream Empty) : List (String × VarSort Empty) :=
  s.flatMap (Instr.uses (sortIn s.arrays))

def Consistent (s : Stream Empty) : Prop := ∃ sorts : Sorts, ∀ u ∈ s.uses, sorts u.1 = some u.2

theorem sortIn_congr {known more : List String} {x y : String} (same : x ∈ known ↔ y ∈ more) :
    sortIn known x = sortIn more y := by
  unfold sortIn
  simp only [List.contains_iff_mem, same]

end Stream

namespace Encoding

variable {s t : Stream Empty} {e : Encoder Empty}

theorem succeeds_instructions (plain : s.Plain)
    (admits : e.Admits (s.flatMap (Instr.uses (sortIn e.arrays)))) :
    Succeeds (s.forM instruction) e := by
  induction s generalizing e with
  | nil => exact succeeds_pure ()
  | cons i s ih =>
    refine succeeds_bind (succeeds_instruction ?_ ?_ admits.first) fun _ e' done => ?_
    · exact fun r xs guard same => plain.operands r xs guard (same ▸ List.mem_cons_self ..)
    · exact plain.short i (List.mem_cons_self ..)
    · have extension := instruction_extends done
      refine ih plain.tail ?_
      rw [extension.arrays]
      exact extension.admits.mp admits

/-- A stream is added to an encoder exactly where its uses fit what is declared. -/
theorem define_succeeds_iff (plain : s.Plain) {uses : List (String × VarSort Empty)}
    (same : s.flatMap (Instr.uses (sortIn (Stream.addNames e.arrays s.arrays))) = uses) :
    Succeeds (define s) e ↔ e.Admits uses := by
  subst same
  constructor
  · rintro ⟨u, e', done⟩
    have nothing : e'.Admits [] := ⟨e'.sort?, fun _ _ kept => kept, fun _ member => nomatch member⟩
    exact Encoder.Admits.first ((define_extends done).admits.mpr nothing)
  · rintro ⟨sorts, kept, used⟩
    refine succeeds_bind ⟨_, e, yields_ofExcept.mpr ⟨s.checkedArrays_eq, rfl⟩⟩
      fun arrays _ found => ?_
    obtain ⟨checked, rfl⟩ := yields_ofExcept.mp found
    rw [s.checkedArrays_eq] at checked
    cases checked
    refine succeeds_bind (succeeds_modify _) fun _ _ known => ?_
    rw [yields_modify.mp known]
    exact succeeds_instructions plain ⟨sorts, kept, used⟩

theorem define_empty_iff (plain : s.Plain) : Succeeds (define s) .empty ↔ s.Consistent := by
  have uses : s.flatMap (Instr.uses (sortIn (Stream.addNames [] s.arrays))) = s.uses := by
    refine congrArg s.flatMap (funext fun i => Instr.uses_congr fun r _ _ _ => ?_)
    exact Stream.sortIn_congr (by simp [Stream.mem_addNames])
  refine (define_succeeds_iff (e := .empty) plain uses).trans ?_
  constructor
  · rintro ⟨sorts, -, used⟩
    exact ⟨sorts, used⟩
  · rintro ⟨sorts, used⟩
    exact ⟨sorts, fun _ _ declared => (nomatch declared), used⟩

/-- Behind a stream the renamed one is added exactly where it could be added alone. -/
theorem define_renamed_iff {suffix : String} (apart : Separates suffix) (regular : s.Regular)
    (plain : t.Plain) {u : Unit} (done : Yields (define s) .empty u e) :
    Succeeds (define (t.renamed suffix)) e ↔ t.Consistent := by
  have extension := define_extends done
  obtain ⟨-, -, only, -⟩ := Stream.extended extension
  have fresh : ∀ x, x ++ suffix ∉ s.mentions := by
    intro x stands
    obtain ⟨y, n, same, -⟩ := regular.symbols _ stands
    exact symbol_ne_append apart y x n same.symm
  have arrays : ∀ x, x ++ suffix ∈ Stream.addNames e.arrays (t.renamed suffix).arrays ↔
      x ∈ t.arrays := by
    intro x
    rw [extension.arrays, Stream.mem_addNames, Stream.mem_arrays_renamed, Stream.mem_addNames]
    refine or_iff_right fun known => fresh x (Stream.arrays_mentioned ?_)
    exact known.resolve_left List.not_mem_nil
  have uses : (t.renamed suffix).flatMap
      (Instr.uses (sortIn (Stream.addNames e.arrays (t.renamed suffix).arrays))) =
        t.uses.map fun u => (u.1 ++ suffix, u.2) := by
    rw [Stream.uses, List.map_flatMap]
    refine (List.flatMap_map ..).trans (congrArg t.flatMap (funext fun i => ?_))
    rw [Instr.uses_mapNames]
    exact congrArg _ (Instr.uses_congr fun r _ _ _ => Stream.sortIn_congr (arrays r))
  rw [define_succeeds_iff (plain.renamed suffix) uses]
  constructor
  · rintro ⟨sorts, -, used⟩
    exact ⟨fun x => sorts (x ++ suffix), fun u member => used _ (List.mem_map_of_mem member)⟩
  · rintro ⟨sorts, used⟩
    classical
    -- the sorts of the copy under the renamed symbols, beside what is declared
    refine ⟨fun y => if h : ∃ x, y = x ++ suffix then sorts h.choose else e.sort? y, ?_, ?_⟩
    · intro y k declared
      have other : ¬ ∃ x, y = x ++ suffix := by
        rintro ⟨x, rfl⟩
        rcases only _ k declared with old | new
        · exact nomatch old
        · exact fresh x new
      exact (dif_neg other).trans declared
    · intro u member
      obtain ⟨w, stands, rfl⟩ := List.mem_map.mp member
      have copied : ∃ x, w.1 ++ suffix = x ++ suffix := ⟨w.1, rfl⟩
      have back : copied.choose = w.1 := (append_suffix_inj.mp copied.choose_spec).symm
      refine (dif_pos copied).trans ?_
      rw [back]
      exact used w stands

theorem pairWork_succeeds_iff {suffix : String} (apart : Separates suffix) (regular : s.Regular)
    (plain : s.Plain) (plain' : t.Plain) :
    Succeeds (pairWork s t suffix) .empty ↔ s.Consistent ∧ t.Consistent := by
  have second : ∀ (e : Encoder Empty), Succeeds (do
      define (← ofExcept (Stream.rename suffix t))) e ↔ Succeeds (define (t.renamed suffix)) e := by
    intro e
    unfold ofExcept
    rw [t.rename_eq suffix]
    exact Iff.rfl
  rw [← define_empty_iff plain]
  constructor
  · rintro ⟨u, e₂, done⟩
    obtain ⟨v, e₁, first, rest⟩ := yields_bind.mp done
    exact ⟨⟨v, e₁, first⟩,
      (define_renamed_iff apart regular plain' first).mp ((second e₁).mp ⟨u, e₂, rest⟩)⟩
  · rintro ⟨first, consistent⟩
    exact succeeds_bind first fun v e₁ done =>
      (second e₁).mpr ((define_renamed_iff apart regular plain' done).mpr consistent)

end Encoding

end Assay
