import Assay.Proofs.Faults
import Assay.Proofs.Renaming
import Assay.Smt.Equivalence
import Mathlib.Data.List.Perm.Subperm

/-! The script that compares two streams. Its models are pairs of solutions, one for each stream,
that pass all assertions, agree on the inputs which both streams read at one sort, and differ in
an output. The comparison is refused where the streams do not assign the same names. -/
namespace Assay

open Smt

/-- Solutions of two streams that pass and agree on their common inputs. -/
structure JointSolution (s t : Stream Empty) (sorts sorts' : Sorts) (m n : Valuation) : Prop where
  byZero : m.byZero = n.byZero
  first : s.Solves sorts m
  second : t.Solves sorts' n
  firstPasses : s.Passes m
  secondPasses : t.Passes n
  tied : ∀ x k, sorts (symbol x 0) = some k → sorts' (symbol x 0) = some k →
    SameValue m (symbol x 0) n (symbol x 0) k

def commonInput (sorts : Sorts) (m n : Valuation) : Valuation :=
  (m.within sorts n).along fun x => symbol x 0

theorem commonInput_first {sorts : Sorts} {x : String} {k : VarSort Empty}
    (declared : sorts (symbol x 0) = some k) (m n : Valuation) :
    SameValue m (symbol x 0) (commonInput sorts m n) x k := by
  refine (SameValue.along.mpr ?_).symm
  exact Valuation.within_declared declared m n

theorem commonInput_second {sorts : Sorts} {m n : Valuation} {x : String} {k : VarSort Empty}
    (tied : sorts (symbol x 0) = some k → SameValue m (symbol x 0) n (symbol x 0) k) :
    SameValue n (symbol x 0) (commonInput sorts m n) x k := by
  by_cases declared : sorts (symbol x 0) = some k
  · exact (tied declared).symm.trans (commonInput_first declared m n)
  · refine (SameValue.along.mpr ?_).symm
    exact Valuation.within_undeclared declared m n

/-- Some name has different values at its last definitions. -/
def OutputsDiffer (s t : Stream Empty) (m n : Valuation) : Prop :=
  ∃ x y z, s.Assigns x ∧ Stream.last? x s = some y ∧ Stream.last? x t = some z ∧ m.int y ≠ n.int z

def Refused (s t : Stream Empty) (suffix : String) : Prop :=
  ∃ fault, compareStreams s t suffix = .error fault ∧ fault.kind = .mismatch

theorem sameNames_iff {first second : Entries String} (distinct : first.keys.Nodup)
    (distinct' : second.keys.Nodup) :
    sameNames first second = true ↔ ∀ x, x ∈ first.keys ↔ x ∈ second.keys := by
  have lengths : ∀ e : Entries String, e.length = e.keys.length := by
    intro e
    simp [Entries.keys]
  have has : ∀ x, second.has x = true ↔ x ∈ second.keys := by
    intro x
    rw [Entries.mem_keys, Entries.has, Option.isSome_iff_ne_none]
  unfold sameNames
  rw [Bool.and_eq_true, beq_iff_eq, List.all_eq_true, lengths, lengths]
  constructor
  · rintro ⟨long, all⟩
    have sub : first.keys ⊆ second.keys := by
      intro x member
      obtain ⟨e, stands, rfl⟩ := List.mem_map.mp member
      exact (has _).mp (all e stands)
    have perm := (List.subperm_of_subset distinct sub).perm_of_length_le (by omega)
    exact fun x => perm.mem_iff
  · intro same
    have perm : first.keys.Perm second.keys :=
      (List.perm_ext_iff_of_nodup distinct distinct').mpr same
    refine ⟨perm.length_eq, fun e stands => (has _).mpr ?_⟩
    exact (same e.1).mp (List.mem_map_of_mem (f := fun e => e.1) stands)

theorem commonSort?_eq_some {declarations : Entries (VarSort Empty)} {a b : String}
    {k : VarSort Empty} : commonSort? declarations a b = some k ↔
      (declarations.get? a = none ∧ declarations.get? b = none ∧ k = .int) ∨
        (declarations.get? a = some k ∧ declarations.get? b = some k) := by
  unfold commonSort?
  cases first : declarations.get? a with
  | none =>
    cases second : declarations.get? b with
    | none => simp [eq_comm]
    | some t => simp
  | some s =>
    cases second : declarations.get? b with
    | none => simp
    | some t =>
      by_cases same : s.text = t.text
      · have := VarSort.text_inj same
        subst this
        simp
      · have ne : s ≠ t := fun h => same (congrArg VarSort.text h)
        simp only [if_neg same, reduceCtorEq, false_iff]
        rintro (⟨h, -⟩ | ⟨left, right⟩)
        · exact nomatch h
        · exact ne (Option.some.inj (left.trans right.symm))

theorem tieInput_cases (suffix : String) (inputs : Entries String)
    (state : Script Empty × List String) (x y : String) :
    (tieInput suffix inputs state (x, y) = state ∧ ∀ z, inputs.get? x = some z →
      commonSort? state.1.declarations y (z ++ suffix) = none) ∨
    ∃ z k, inputs.get? x = some z ∧ commonSort? state.1.declarations y (z ++ suffix) = some k ∧
      tieInput suffix inputs state (x, y) =
        (state.1.add (.tie k y (z ++ suffix)), state.2 ++ [x]) := by
  cases found : inputs.get? x with
  | none => exact .inl ⟨by simp only [tieInput, found], fun z none => nomatch none⟩
  | some z =>
    cases sort : commonSort? state.1.declarations y (z ++ suffix) with
    | none =>
      refine .inl ⟨by simp only [tieInput, found, sort], fun w same => ?_⟩
      cases same
      exact sort
    | some k => exact .inr ⟨z, k, rfl, sort, by simp only [tieInput, found, sort]⟩

theorem tieInputs_spec (suffix : String) (inputs : Entries String) (ties : Entries String)
    (state : Script Empty × List String) :
    (ties.foldl (tieInput suffix inputs) state).1.declarations = state.1.declarations ∧
    ∀ m, (ties.foldl (tieInput suffix inputs) state).1.Models m ↔ state.1.Models m ∧
      ∀ x y, (x, y) ∈ ties → ∀ z, inputs.get? x = some z → ∀ k,
        commonSort? state.1.declarations y (z ++ suffix) = some k → Agrees m k y (z ++ suffix) := by
  induction ties generalizing state with
  | nil => exact ⟨rfl, fun m => by simp⟩
  | cons tie ties ih =>
    obtain ⟨x, y⟩ := tie
    obtain ⟨same, models⟩ := ih (tieInput suffix inputs state (x, y))
    have step : (tieInput suffix inputs state (x, y)).1.declarations = state.1.declarations ∧
        ∀ m, (tieInput suffix inputs state (x, y)).1.Models m ↔ state.1.Models m ∧
          ∀ z, inputs.get? x = some z → ∀ k,
            commonSort? state.1.declarations y (z ++ suffix) = some k →
              Agrees m k y (z ++ suffix) := by
      rcases tieInput_cases suffix inputs state x y with ⟨idle, apart⟩ | ⟨z, k, found, sort, ties⟩
      · rw [idle]
        refine ⟨rfl, fun m => (and_iff_left fun z found k sort => ?_).symm⟩
        exact nomatch (apart z found).symm.trans sort
      · rw [ties]
        refine ⟨rfl, fun m => ?_⟩
        rw [Script.models_add]
        simp only [found, Option.some.injEq, forall_eq', sort]
        rfl
    obtain ⟨stepSame, stepModels⟩ := step
    rw [List.foldl_cons]
    refine ⟨same.trans stepSame, fun m => ?_⟩
    rw [models, stepModels, stepSame, and_assoc]
    refine and_congr_right fun _ => ?_
    constructor
    · rintro ⟨here, later⟩ a b member
      rcases List.mem_cons.mp member with first | rest
      · cases first
        exact here
      · exact later a b rest
    · intro all
      exact ⟨all x y (List.mem_cons_self ..), fun a b rest =>
        all a b (List.mem_cons_of_mem _ rest)⟩

theorem assumed_spec (conditions : List (Condition Empty)) (script : Script Empty) :
    (conditions.foldl (fun s c => s.add (.assume c)) script).declarations = script.declarations ∧
    ∀ m, (conditions.foldl (fun s c => s.add (.assume c)) script).Models m ↔
      script.Models m ∧ ∀ c ∈ conditions, c.eval m = true := by
  induction conditions generalizing script with
  | nil => exact ⟨rfl, fun m => by simp⟩
  | cons c conditions ih =>
    obtain ⟨same, models⟩ := ih (script.add (.assume c))
    refine ⟨same, fun m => ?_⟩
    rw [List.foldl_cons, models, Script.models_add, List.forall_mem_cons, and_assoc]
    rfl

theorem Stream.rename_eq (suffix : String) (s : Stream Empty) :
    s.rename suffix = .ok (s.renamed suffix) := by
  have none : s.flatMap (Instr.unknowns .rename) = [] := by
    refine List.flatMap_eq_nil_iff.mpr fun i _ => ?_
    cases i with
    | stray part => exact part.elim
    | assign x e | assert c path | phi r xs g =>
      exact List.flatMap_eq_nil_iff.mpr fun e _ => e.unknowns_eq_nil .rename
  unfold rename
  rw [none]
  rfl

def pairWork (s t : Stream Empty) (suffix : String) : Encoding Empty Unit := do
  Encoding.define s
  Encoding.define (← Encoding.ofExcept (Stream.rename suffix t))

theorem pairWork_yields {s t : Stream Empty} {suffix : String} {u : Unit} {e : Encoder Empty} :
    Encoding.Yields (pairWork s t suffix) .empty u e ↔ ∃ e₁,
      Encoding.Yields (Encoding.define s) .empty () e₁ ∧
        Encoding.Yields (Encoding.define (t.renamed suffix)) e₁ u e := by
  constructor
  · intro done
    obtain ⟨_, e₁, first, rest⟩ := Encoding.yields_bind.mp done
    obtain ⟨renamed, e₂, found, second⟩ := Encoding.yields_bind.mp rest
    obtain ⟨same, rfl⟩ := Encoding.yields_ofExcept.mp found
    rw [Stream.rename_eq] at same
    cases same
    exact ⟨e₂, first, second⟩
  · rintro ⟨e₁, first, second⟩
    exact Encoding.yields_bind.mpr ⟨(), e₁, first, Encoding.yields_bind.mpr
      ⟨_, e₁, Encoding.yields_ofExcept.mpr ⟨t.rename_eq suffix, rfl⟩, second⟩⟩

theorem pairWork_faults (s t : Stream Empty) (suffix : String) :
    FailsOnly (fun fault => s.Fault fault ∨ (t.renamed suffix).Fault fault)
      (pairWork s t suffix) := by
  refine failsOnly_bind (ends_mono (Encoding.failsOnly_define s) (fun _ => .inl) fun _ => id)
    fun _ => ?_
  unfold Encoding.ofExcept
  rw [t.rename_eq suffix]
  exact ends_mono (Encoding.failsOnly_define _) (fun _ => .inr) fun _ => id

theorem compareStreams_eq {s t : Stream Empty} {suffix : String} {o o' i i' : Entries String}
    (outputs : s.outputs = .ok o) (outputs' : t.outputs = .ok o') (inputs : s.inputs = .ok i)
    (inputs' : t.inputs = .ok i') :
    compareStreams s t suffix =
      if sameNames o o' then
        match Encoding.on .empty (pairWork s t suffix) with
        | (.error fault, _) => .error fault
        | (.ok _, e) =>
          let assumed := e.conditions.foldl (fun s c => s.add (.assume c)) e.script
          let tied := i.foldl (tieInput suffix i') (assumed, [])
          let pairs := outputPairs suffix o o'
          .ok ⟨tied.1.add (.differ (pairs.map fun p => (p.first, p.second))), pairs, tied.2⟩
      else .error (.outputs o.keys o'.keys) := by
  unfold compareStreams
  rw [outputs, outputs', inputs, inputs']
  by_cases same : sameNames o o' = true
  · rw [if_pos same]
    simp only [bind, Except.bind, same, Bool.not_true, Bool.false_eq_true, if_false, pure,
      Except.pure]
    have work : (ExceptT.bind (Encoding.define s) fun _ =>
        ExceptT.bind (Encoding.ofExcept (Stream.rename suffix t)) fun renamed =>
          Encoding.define renamed) = pairWork s t suffix := rfl
    rw [work]
    rcases Encoding.on .empty (pairWork s t suffix) with ⟨fault | done, e⟩ <;> rfl
  · simp [bind, Except.bind, same, throw, throwThe, MonadExceptOf.throw]

structure Compared (s t : Stream Empty) (suffix : String) (sorts : Sorts) : Prop where
  sorted : s.Sorted sorts
  sorted' : t.Sorted fun x => sorts (x ++ suffix)
  arrays : ∀ r xs guard, .phi r xs guard ∈ s → (sorts r = some .array ↔ r ∈ s.arrays)
  arrays' : ∀ r xs guard, .phi r xs guard ∈ t →
    (sorts (r ++ suffix) = some .array ↔ r ∈ t.arrays)
  only : ∀ y k, sorts y = some k → y ∈ s.mentions ∨ ∃ z ∈ t.mentions, y = z ++ suffix

theorem pairWork_spec {s t : Stream Empty} {suffix : String} {u : Unit} {e : Encoder Empty}
    (apart : Separates suffix) (regular : s.Regular)
    (done : Encoding.Yields (pairWork s t suffix) .empty u e) :
    Compared s t suffix e.script.sorts ∧
    (∀ m, e.script.Models m ↔ s.Solves e.script.sorts m ∧
      t.Solves (fun x => e.script.sorts (x ++ suffix)) (m.along (· ++ suffix))) ∧
    ∀ m, (∀ c ∈ e.conditions, c.eval m = true) ↔ s.Passes m ∧ t.Passes (m.along (· ++ suffix)) := by
  obtain ⟨e₂, first, second⟩ := pairWork_yields.mp done
  have extension := Encoding.define_extends first
  have extension' := Encoding.define_extends second
  obtain ⟨sorted, phis, only, equations⟩ := Stream.extended extension
  obtain ⟨sorted', phis', only', equations'⟩ := Stream.extended extension'
  obtain ⟨whole, solves⟩ := sorted.mono extension'.kept
  have plain : ∀ x, x ++ suffix ∉ s.arrays := by
    intro x array
    obtain ⟨y, n, same, -⟩ := regular.symbols _ (Stream.arrays_mentioned array)
    exact symbol_ne_append apart y x n same.symm
  have known : e₂.arrays = Stream.addNames [] s.arrays := extension.arrays
  refine ⟨⟨whole, (Stream.sorted_renamed suffix).mp sorted', ?_, ?_, ?_⟩, ?_, ?_⟩
  · intro r xs guard member
    have found : e.sort? r = some (sortIn _ r) := extension'.kept _ _ (phis r xs guard member)
    change e.sort? r = some .array ↔ _
    rw [found]
    simp [sortIn, Stream.mem_addNames, Encoder.empty]
  · intro r xs guard member
    have renamed : (Instr.phi r xs guard).mapNames (· ++ suffix) ∈ t.renamed suffix :=
      List.mem_map_of_mem member
    have found := phis' _ _ _ renamed
    change e.sort? (r ++ suffix) = some .array ↔ _
    rw [found]
    simp [sortIn, Stream.mem_addNames, known, plain, Stream.mem_arrays_renamed]
  · intro y k declared
    rcases only' y k declared with old | new
    · rcases only y k old with none | mentioned
      · exact absurd none (by simp [Encoder.sort?, Encoder.empty, Script.empty])
      · exact .inl mentioned
    · exact .inr (Stream.mem_mentions_renamed.mp new)
  · intro m
    have assertions : e.script.assertions = _ := extension'.assertions
    have earlier : e₂.script.assertions = s.filterMap _ := extension.assertions
    unfold Script.Models
    rw [assertions]
    simp only [List.mem_append, or_imp, forall_and]
    apply and_congr
    · change (∀ a ∈ e₂.script.assertions, a.Holds m) ↔ _
      rw [earlier]
      exact (equations m).trans (solves m).symm
    · exact (equations' m).trans (Stream.solves_renamed suffix)
  · intro m
    have conditions : e.conditions = _ := extension'.conditions
    have earlier : e₂.conditions = s.filterMap Instr.condition? := extension.conditions
    rw [conditions]
    simp only [List.mem_append, or_imp, forall_and]
    apply and_congr
    · change (∀ c ∈ e₂.conditions, c.eval m = true) ↔ _
      rw [earlier]
      exact Stream.passes_conditions m s
    · exact (Stream.passes_conditions m _).trans (Stream.passes_renamed suffix)

namespace Stream.Regular

variable {s t : Stream Empty}

theorem compare_refuses (regular : s.Regular) (regular' : t.Regular) (suffix : String) :
    Refused s t suffix ↔ ¬ ∀ x, s.Assigns x ↔ t.Assigns x := by
  unfold Refused
  obtain ⟨o, outputs, distinct, names, -⟩ := regular.outputs
  obtain ⟨o', outputs', distinct', names', -⟩ := regular'.outputs
  obtain ⟨i, inputs, -⟩ := regular.inputs
  obtain ⟨i', inputs', -⟩ := regular'.inputs
  have same : sameNames o o' = true ↔ ∀ x, s.Assigns x ↔ t.Assigns x := by
    rw [sameNames_iff distinct distinct']
    exact forall_congr' fun x => iff_congr (names x) (names' x)
  rw [compareStreams_eq outputs outputs' inputs inputs', ← same]
  by_cases agree : sameNames o o' = true
  · rw [if_pos agree]
    refine iff_of_false ?_ (not_not_intro agree)
    rintro ⟨fault, raised, kind⟩
    rcases result : Encoding.on .empty (pairWork s t suffix) with ⟨early | done, e⟩
    · rw [result] at raised
      cases raised
      rcases (pairWork_faults s t suffix).fault result with first | second
      · exact first.no_mismatch kind
      · exact second.no_mismatch kind
    · rw [result] at raised
      exact nomatch raised
  · rw [if_neg agree]
    exact iff_of_true ⟨_, rfl, rfl⟩ agree

theorem reads_of_zero (regular : s.Regular) {x : String} (stands : symbol x 0 ∈ s.mentions) :
    symbol x 0 ∈ readSymbols s := by
  obtain ⟨i, member, stands⟩ := List.mem_flatMap.mp stands
  rcases List.mem_append.mp stands with defined | read
  · exact absurd (Option.mem_toList.mp defined) (regular.positive i member x)
  · exact List.mem_flatMap.mpr ⟨i, member, read⟩

theorem guardsPick (regular : s.Regular) : ∀ i ∈ s, i.GuardsPick :=
  fun _ member r xs g same => regular.guards r xs g (same ▸ member)

theorem use_of_read (regular : s.Regular) (sort : String → VarSort Empty) {y : String}
    (read : y ∈ readSymbols s) : ∃ i ∈ s, ∃ k, (y, k) ∈ i.uses sort := by
  obtain ⟨i, member, read⟩ := List.mem_flatMap.mp read
  exact ⟨i, member, (regular.guardsPick i member).exists_use sort (List.mem_append_right _ read)⟩

theorem read_declared (regular : s.Regular) {sorts : Sorts} (sorted : s.Sorted sorts) {y : String}
    (read : y ∈ readSymbols s) : ∃ k, sorts y = some k := by
  obtain ⟨i, member, k, used⟩ := regular.use_of_read (Sorts.of sorts) read
  exact ⟨k, sorted i member (y, k) used⟩

theorem first_read (regular : s.Regular) {suffix : String} (apart : Separates suffix)
    {sorts : Sorts} (compared : Compared s t suffix sorts) {x : String} {k : VarSort Empty}
    (declared : sorts (symbol x 0) = some k) : symbol x 0 ∈ readSymbols s := by
  rcases compared.only _ _ declared with plain | ⟨z, -, same⟩
  · exact regular.reads_of_zero plain
  · exact absurd same (symbol_ne_append apart x z 0)

theorem second_read (regular : s.Regular) (regular' : t.Regular) {suffix : String}
    (apart : Separates suffix) {sorts : Sorts} (compared : Compared s t suffix sorts) {x : String}
    {k : VarSort Empty} (declared : sorts (symbol x 0 ++ suffix) = some k) :
    symbol x 0 ∈ readSymbols t := by
  rcases compared.only _ _ declared with plain | ⟨z, stands, same⟩
  · obtain ⟨y, n, same, -⟩ := regular.symbols _ plain
    exact absurd same.symm (symbol_ne_append apart y _ n)
  · obtain rfl := append_suffix_inj.mp same
    exact regular'.reads_of_zero stands

theorem ties_iff (regular : s.Regular) (regular' : t.Regular) {suffix : String}
    (apart : Separates suffix) {declarations : Entries (VarSort Empty)}
    (compared : Compared s t suffix fun x => declarations.get? x) {i i' : Entries String}
    (single : i.keys.Nodup)
    (found : ∀ x y, i.get? x = some y ↔ y = symbol x 0 ∧ y ∈ readSymbols s)
    (found' : ∀ x y, i'.get? x = some y ↔ y = symbol x 0 ∧ y ∈ readSymbols t) (m : Valuation) :
    (∀ x y, (x, y) ∈ i → ∀ z, i'.get? x = some z → ∀ k,
      commonSort? declarations y (z ++ suffix) = some k → Agrees m k y (z ++ suffix)) ↔
    ∀ x k, declarations.get? (symbol x 0) = some k →
      declarations.get? (symbol x 0 ++ suffix) = some k →
      SameValue m (symbol x 0) (m.along (· ++ suffix)) (symbol x 0) k := by
  have tie : ∀ x k, SameValue m (symbol x 0) (m.along (· ++ suffix)) (symbol x 0) k ↔
      Agrees m k (symbol x 0) (symbol x 0 ++ suffix) := by
    intro x k
    cases k with
    | int | array => exact Iff.rfl
    | stray part => exact part.elim
  constructor
  · intro ties x k first second
    have read := regular.first_read apart compared first
    have read' := regular.second_read regular' apart compared second
    exact (tie x k).mpr (ties x _ (Entries.mem_of_get? ((found x _).mpr ⟨rfl, read⟩)) _
      ((found' x _).mpr ⟨rfl, read'⟩) k (commonSort?_eq_some.mpr (.inr ⟨first, second⟩)))
  · intro tied x y member z read' k common
    obtain ⟨rfl, read⟩ := (found x y).mp (Entries.get?_of_mem single member)
    obtain ⟨rfl, -⟩ := (found' x z).mp read'
    rcases commonSort?_eq_some.mp common with ⟨none, -⟩ | ⟨first, second⟩
    · obtain ⟨k, declared⟩ := regular.read_declared compared.sorted read
      exact nomatch none.symm.trans declared
    · exact (tie x k).mp (tied x k first second)

theorem differ_iff {suffix : String} {o o' : Entries String} (distinct : o'.keys.Nodup)
    (entries : ∀ x y, (x, y) ∈ o ↔ s.Assigns x ∧ last? x s = some y)
    (entries' : ∀ x y, (x, y) ∈ o' ↔ t.Assigns x ∧ last? x t = some y)
    (same : ∀ x, s.Assigns x ↔ t.Assigns x) (m : Valuation) :
    (Assertion.differ ((outputPairs suffix o o').map fun p => (p.first, p.second))).Holds m ↔
      OutputsDiffer s t m (m.along (· ++ suffix)) := by
  have second : ∀ x z, t.Assigns x → last? x t = some z → o'.get? x = some z := fun x z assigns last =>
    Entries.get?_of_mem distinct ((entries' x z).mpr ⟨assigns, last⟩)
  unfold outputPairs
  simp only [Assertion.Holds, List.map_map, List.mem_map]
  constructor
  · rintro ⟨_, ⟨⟨x, y⟩, member, rfl⟩, differ⟩
    obtain ⟨assigns, last⟩ := (entries x y).mp member
    obtain ⟨y', e, stands, name⟩ := (same x).mp assigns
    obtain ⟨z, last'⟩ := last?_of_defined stands rfl name
    refine ⟨x, y, z, assigns, last, last', ?_⟩
    simpa [second x z ((same x).mp assigns) last', Valuation.along] using differ
  · rintro ⟨x, y, z, assigns, last, last', differ⟩
    refine ⟨_, ⟨(x, y), (entries x y).mpr ⟨assigns, last⟩, rfl⟩, ?_⟩
    simpa [second x z ((same x).mp assigns) last', Valuation.along] using differ

/-- The script of a comparison has as models the pairs of solutions that differ in an output. -/
theorem compares (regular : s.Regular) (regular' : t.Regular) {suffix : String}
    (apart : Separates suffix) {result : Comparing Empty}
    (ok : compareStreams s t suffix = .ok result) :
    (∀ x, s.Assigns x ↔ t.Assigns x) ∧ Compared s t suffix result.script.sorts ∧
    ∀ m, result.script.Models m ↔
      JointSolution s t result.script.sorts (fun x => result.script.sorts (x ++ suffix)) m
        (m.along (· ++ suffix)) ∧ OutputsDiffer s t m (m.along (· ++ suffix)) := by
  obtain ⟨o, outputs, distinct, names, entries⟩ := regular.outputs
  obtain ⟨o', outputs', distinct', names', entries'⟩ := regular'.outputs
  obtain ⟨i, inputs, single, found⟩ := regular.inputs
  obtain ⟨i', inputs', -, found'⟩ := regular'.inputs
  rw [compareStreams_eq outputs outputs' inputs inputs'] at ok
  by_cases agree : sameNames o o' = true
  · rw [if_pos agree] at ok
    have same : ∀ x, s.Assigns x ↔ t.Assigns x := fun x =>
      (names x).symm.trans (((sameNames_iff distinct distinct').mp agree x).trans (names' x))
    rcases work : Encoding.on .empty (pairWork s t suffix) with ⟨fault | done, e⟩
    · rw [work] at ok
      contradiction
    · rw [work] at ok
      cases ok
      obtain ⟨compared, models, conditions⟩ := pairWork_spec apart regular work
      obtain ⟨assumedSorts, assumedModels⟩ := assumed_spec e.conditions e.script
      obtain ⟨tiedSorts, tiedModels⟩ := tieInputs_spec suffix i' i
        (e.conditions.foldl (fun s c => s.add (.assume c)) e.script, [])
      have declared := tiedSorts.trans assumedSorts
      have sorts : ∀ a, ((i.foldl (tieInput suffix i')
          (e.conditions.foldl (fun s c => s.add (.assume c)) e.script, [])).1.add a).sorts =
            e.script.sorts := by
        intro a
        funext x
        exact congrArg (fun d => Entries.get? x d) declared
      refine ⟨same, by rwa [sorts], fun m => ?_⟩
      have ties := regular.ties_iff regular' apart compared single found found' m
      rw [sorts, Script.models_add, tiedModels, assumedModels, assumedSorts, models, conditions,
        ties, differ_iff distinct' entries entries' same]
      refine and_congr_left fun _ => ?_
      constructor
      · rintro ⟨⟨⟨first, second⟩, passes, passes'⟩, tied⟩
        exact ⟨rfl, first, second, passes, passes', tied⟩
      · intro joint
        exact ⟨⟨⟨joint.first, joint.second⟩, joint.firstPasses, joint.secondPasses⟩, joint.tied⟩
  · rw [if_neg agree] at ok
    contradiction

theorem compare_satisfiable (regular : s.Regular) (regular' : t.Regular) {suffix : String}
    (apart : Separates suffix) {result : Comparing Empty}
    (ok : compareStreams s t suffix = .ok result) :
    result.script.Satisfiable ↔ ∃ m n, JointSolution s t result.script.sorts
      (fun x => result.script.sorts (x ++ suffix)) m n ∧ OutputsDiffer s t m n := by
  obtain ⟨-, compared, models⟩ := regular.compares regular' apart ok
  constructor
  · rintro ⟨m, satisfied⟩
    exact ⟨m, _, (models m).mp satisfied⟩
  · rintro ⟨m, n, joint, x, y, z, assigns, last, last', differ⟩
    -- one valuation for both, the second under the renamed symbols
    obtain ⟨w, byZero, renamed, kept⟩ := Valuation.exists_beside m n joint.byZero suffix
    have plain : ∀ y ∈ s.mentions, ∀ k, SameValue m y w y k := by
      intro y stands k
      obtain ⟨x, n, rfl, -⟩ := regular.symbols y stands
      exact kept _ k fun z => symbol_ne_append apart x z n
    have uses : ∀ i ∈ s, ∀ u ∈ i.uses (Sorts.of result.script.sorts), SameValue m u.1 w u.1 u.2 :=
      fun i member u used =>
        plain u.1 (mem_mentions member (Instr.mem_mentions_of_mem_uses used)) u.2
    refine ⟨w, (models w).mpr ?_⟩
    rw [renamed]
    refine ⟨⟨byZero.trans joint.byZero, ?_, joint.second, ?_, joint.secondPasses, ?_⟩, ?_⟩
    · intro i member
      exact Instr.holds_congr byZero.symm (uses i member) (joint.first i member)
    · intro i member
      exact Instr.passes_congr byZero.symm (uses i member) (joint.firstPasses i member)
    · intro x k first second
      have start : SameValue m (symbol x 0) w (symbol x 0) k :=
        kept _ k fun z => symbol_ne_append apart x z 0
      exact start.symm.trans (joint.tied x k first second)
    · obtain ⟨-, i, member, defines⟩ := last?_mem last
      have same : m.int y = w.int y := plain y (mem_mentions member (by
        simp [Instr.mentions, defines])) .int
      exact ⟨x, y, z, assigns, last, last', same ▸ differ⟩

end Stream.Regular

end Assay
