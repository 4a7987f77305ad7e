import Assay.Proofs.Symmetry
import Mathlib.Data.Finset.Card
import Mathlib.Order.Bounds.Basic

/-! Which symbols are arrays. The rounds of spreading along the phis end in the least set that has
every indexed symbol and of each phi all symbols or none. Encoding is refused exactly where a symbol
of that set is used as an integer; otherwise it declares the set as arrays and the rest as integers.
The set does not depend on the order of the instructions, so neither does any of this. -/
namespace Assay

open Smt

namespace Stream

/-! Rounds of spreading. -/

section Rounds

variable {groups : List (List String)} {known : List String}

def AllOrNone (groups : List (List String)) (names : Set String) : Prop :=
  ∀ g ∈ groups, ∀ x ∈ g, x ∈ names → ∀ y ∈ g, y ∈ names

theorem subset_spread : known ⊆ spread groups known := by
  induction groups generalizing known with
  | nil => exact fun x member => member
  | cons g groups ih => exact fun x member => ih (mem_joinGroup.mpr (.inl member))

theorem subset_closeOver {n : Nat} : known ⊆ closeOver groups n known := by
  induction n generalizing known with
  | zero => exact fun x member => member
  | succ n ih => exact fun x member => ih (subset_spread member)

theorem spread_fills {g : List String} (group : g ∈ groups) {x : String} (inside : x ∈ g)
    (member : x ∈ known) : g ⊆ spread groups known := by
  induction groups generalizing known with
  | nil => exact absurd group List.not_mem_nil
  | cons h groups ih =>
    rw [spread_cons]
    rcases List.mem_cons.mp group with rfl | group
    · intro y stands
      apply subset_spread
      exact mem_joinGroup.mpr (.inr ⟨stands, x, inside, member⟩)
    · exact ih group (mem_joinGroup.mpr (.inl member))

theorem AllOrNone.spread {names : Set String} (whole : AllOrNone groups names)
    (sub : ∀ x ∈ known, x ∈ names) : ∀ x ∈ spread groups known, x ∈ names := by
  induction groups generalizing known with
  | nil => exact sub
  | cons g groups ih =>
    apply ih fun h group => whole h (List.mem_cons_of_mem _ group)
    intro x member
    rcases mem_joinGroup.mp member with old | ⟨new, y, inside, seen⟩
    · exact sub x old
    · exact whole g (List.mem_cons_self ..) y inside (sub y seen) x new

theorem AllOrNone.closeOver {names : Set String} (whole : AllOrNone groups names) {n : Nat}
    (sub : ∀ x ∈ known, x ∈ names) : ∀ x ∈ closeOver groups n known, x ∈ names := by
  induction n generalizing known with
  | zero => exact sub
  | succ n ih => exact ih (whole.spread sub)

def unfilled (groups : List (List String)) (known : List String) : Finset (List String) :=
  groups.toFinset.filter fun g => ¬ g ⊆ known

theorem mem_unfilled {g : List String} : g ∈ unfilled groups known ↔ g ∈ groups ∧ ¬ g ⊆ known := by
  simp [unfilled]

theorem unfilled_spread (unfinished : ¬ AllOrNone groups {x | x ∈ known}) :
    (unfilled groups (spread groups known)).card < (unfilled groups known).card := by
  simp only [AllOrNone, not_forall] at unfinished
  obtain ⟨g, group, x, inside, member, y, stands, missing⟩ := unfinished
  apply Finset.card_lt_card
  refine (Finset.ssubset_iff_of_subset ?_).mpr ⟨g, ?_, ?_⟩
  · intro h left
    obtain ⟨group, gap⟩ := mem_unfilled.mp left
    exact mem_unfilled.mpr ⟨group, fun filled => gap fun x stands => subset_spread (filled stands)⟩
  · exact mem_unfilled.mpr ⟨group, fun filled => missing (filled stands)⟩
  · exact fun left => (mem_unfilled.mp left).2 (spread_fills group inside member)

/-- As many rounds as there are groups left to fill are enough. -/
theorem allOrNone_closeOver {n : Nat} (enough : (unfilled groups known).card ≤ n) :
    AllOrNone groups {x | x ∈ closeOver groups n known} := by
  induction n generalizing known with
  | zero =>
    intro g group x _ _ y stands
    have filled : g ⊆ known := by
      by_contra gap
      have left : g ∈ unfilled groups known := mem_unfilled.mpr ⟨group, gap⟩
      rw [Finset.card_eq_zero.mp (Nat.le_zero.mp enough)] at left
      exact absurd left (Finset.notMem_empty g)
    exact filled stands
  | succ n ih =>
    by_cases done : AllOrNone groups {x | x ∈ known}
    · have same : {x | x ∈ closeOver groups (n + 1) known} = {x | x ∈ known} :=
        Set.Subset.antisymm (done.closeOver fun x member => member) fun x => (subset_closeOver ·)
      rw [same]
      exact done
    · exact ih (Nat.le_of_lt_succ (Nat.lt_of_lt_of_le (unfilled_spread done) enough))

end Rounds

end Stream

theorem Expr.mem_indexed_iff_read {e : Expr Empty} {a : String} :
    a ∈ e.indexed ↔ ∃ i, .read a i ∈ e.nodes := by
  unfold indexed
  induction e with
  | lit n => simp [leaves, nodes]
  | var x => simp [leaves, nodes]
  | read b i ih =>
    simp only [leaves, List.filterMap_cons, List.mem_cons, ih, nodes, read.injEq]
    constructor
    · rintro (rfl | ⟨j, inside⟩)
      · exact ⟨i, .inl ⟨rfl, rfl⟩⟩
      · exact ⟨j, .inr inside⟩
    · rintro ⟨j, ⟨rfl, -⟩ | inside⟩
      · exact .inl rfl
      · exact .inr ⟨j, inside⟩
  | binary op l r left right =>
    simp only [leaves, List.filterMap_append, List.mem_append, left, right, nodes, List.mem_cons,
      reduceCtorEq, false_or, exists_or]
  | unary op e ih => simp only [leaves, ih, nodes, List.mem_cons, reduceCtorEq, false_or]
  | stray part => exact part.elim

theorem Expr.mem_uses_int {e : Expr Empty} {x : String} :
    (x, .int) ∈ e.uses ↔ .var x ∈ e.nodes := by
  unfold uses
  induction e with
  | lit n => simp [leaves, nodes, Leaf.use?]
  | var y => simp [leaves, nodes, Leaf.use?]
  | read b i ih => simp [leaves, nodes, Leaf.use?, ih]
  | binary op l r left right =>
    simp only [leaves, List.filterMap_append, List.mem_append, left, right, nodes, List.mem_cons,
      reduceCtorEq, false_or]
  | unary op e ih => simp only [leaves, ih, nodes, List.mem_cons, reduceCtorEq, false_or]
  | stray part => exact part.elim

namespace Stream

/-- A set of symbols that has every indexed one, and all symbols of a phi or none of them. -/
structure ClosedArrays (s : Stream Empty) (names : Set String) : Prop where
  indexed : ∀ i ∈ s, ∀ e ∈ i.exprs, ∀ a j, .read a j ∈ e.nodes → a ∈ names
  joined : ∀ r xs guard, .phi r xs guard ∈ s → ∀ x ∈ r :: xs, x ∈ names → ∀ y ∈ r :: xs, y ∈ names

/-- Some array is the target of an assignment or is read as an integer. -/
def Misuses (s : Stream Empty) (arrays : Set String) : Prop :=
  ∃ x ∈ arrays, (∃ e, .assign x e ∈ s) ∨ ∃ i ∈ s, ∃ e ∈ i.exprs, .var x ∈ e.nodes

variable {s t : Stream Empty}

theorem mem_phiGroups {g : List String} :
    g ∈ phiGroups s ↔ ∃ r xs guard, .phi r xs guard ∈ s ∧ g = r :: xs := by
  unfold phiGroups
  rw [List.mem_filterMap]
  constructor
  · rintro ⟨i, member, found⟩
    cases i with
    | phi r xs guard => exact ⟨r, xs, guard, member, (Option.some.inj found).symm⟩
    | assign | assert | stray => contradiction
  · rintro ⟨r, xs, guard, member, rfl⟩
    exact ⟨_, member, rfl⟩

theorem mem_indexedSymbols {a : String} :
    a ∈ indexedSymbols s ↔ ∃ i ∈ s, ∃ e ∈ i.exprs, ∃ j, .read a j ∈ e.nodes := by
  simp only [indexedSymbols, mem_addNames, List.not_mem_nil, false_or, List.mem_flatMap,
    Expr.mem_indexed_iff_read]

theorem closedArrays_iff {names : Set String} :
    s.ClosedArrays names ↔ (∀ a ∈ indexedSymbols s, a ∈ names) ∧ AllOrNone (phiGroups s) names := by
  constructor
  · intro closed
    refine ⟨fun a member => ?_, fun g group => ?_⟩
    · obtain ⟨i, member, e, part, j, stands⟩ := mem_indexedSymbols.mp member
      exact closed.indexed i member e part a j stands
    · obtain ⟨r, xs, guard, member, rfl⟩ := mem_phiGroups.mp group
      exact closed.joined r xs guard member
  · rintro ⟨indexed, whole⟩
    refine ⟨fun i member e part a j stands => ?_, fun r xs guard member => ?_⟩
    · exact indexed a (mem_indexedSymbols.mpr ⟨i, member, e, part, j, stands⟩)
    · exact whole _ (mem_phiGroups.mpr ⟨r, xs, guard, member, rfl⟩)

theorem isLeast_arrays (s : Stream Empty) :
    IsLeast {names | s.ClosedArrays names} {x | x ∈ s.arrays} := by
  constructor
  · refine closedArrays_iff.mpr ⟨fun a member => subset_closeOver member, ?_⟩
    apply allOrNone_closeOver
    calc (unfilled (phiGroups s) (indexedSymbols s)).card
        ≤ (phiGroups s).toFinset.card := Finset.card_filter_le _ _
      _ ≤ (phiGroups s).length := List.toFinset_card_le _
  · intro names closed x member
    obtain ⟨indexed, whole⟩ := closedArrays_iff.mp closed
    exact whole.closeOver indexed x member

theorem ClosedArrays.perm {names : Set String} (closed : s.ClosedArrays names) (perm : s.Perm t) :
    t.ClosedArrays names :=
  ⟨fun i member => closed.indexed i (perm.mem_iff.mpr member),
    fun r xs guard member => closed.joined r xs guard (perm.mem_iff.mpr member)⟩

theorem Plain.perm (plain : s.Plain) (perm : s.Perm t) : t.Plain :=
  ⟨fun r xs guard member => plain.operands r xs guard (perm.mem_iff.mpr member),
    fun i member => plain.short i (perm.mem_iff.mpr member)⟩

theorem misuses_perm (perm : s.Perm t) {names : Set String} :
    s.Misuses names ↔ t.Misuses names := by
  simp only [Misuses, perm.mem_iff]

theorem arrays_perm (perm : s.Perm t) : {x | x ∈ s.arrays} = {x | x ∈ t.arrays} := by
  have closed : {names | s.ClosedArrays names} = {names | t.ClosedArrays names} :=
    Set.ext fun names => ⟨fun closed => closed.perm perm, fun closed => closed.perm perm.symm⟩
  exact s.isLeast_arrays.unique (closed ▸ t.isLeast_arrays)

theorem sortIn_eq_array {arrays : List String} {x : String} :
    sortIn arrays x = .array ↔ x ∈ arrays := by
  simp [sortIn]

theorem sortIn_eq_int {arrays : List String} {x : String} :
    sortIn arrays x = .int ↔ x ∉ arrays := by
  simp [sortIn]

theorem array_of_fits (guards : ∀ i ∈ s, i.GuardsPick) {sorts : Sorts}
    (fits : ∀ u ∈ s.uses, sorts u.1 = some u.2) {x : String} (array : x ∈ s.arrays) :
    sorts x = some .array := by
  have stands : ∀ {i u}, i ∈ s → u ∈ i.uses (sortIn s.arrays) → sorts u.1 = some u.2 :=
    fun member used => fits _ (List.mem_flatMap.mpr ⟨_, member, used⟩)
  have closed : s.ClosedArrays {y | sorts y = some .array} := by
    constructor
    · intro i member e part a j inside
      have used : (a, .array) ∈ e.uses :=
        Expr.mem_indexed.mp (Expr.mem_indexed_iff_read.mpr ⟨j, inside⟩)
      exact stands member ((guards i member).mem_uses _ part used)
    · intro r xs guard member y inside array z other
      have first := stands member (Instr.mem_uses_phi _ r xs guard inside)
      have second := stands member (Instr.mem_uses_phi _ r xs guard other)
      exact second.trans (first.symm.trans array)
  exact s.isLeast_arrays.2 closed array

theorem sortIn_of_use (fine : ¬ s.Misuses {x | x ∈ s.arrays}) {u : String × VarSort Empty}
    (used : u ∈ s.uses) : sortIn s.arrays u.1 = u.2 := by
  have closed := s.isLeast_arrays.1
  obtain ⟨i, member, used⟩ := List.mem_flatMap.mp used
  rcases Instr.uses_cases used with
    ⟨e, part, used⟩ | ⟨x, e, rfl, rfl⟩ | ⟨r, xs, guard, rfl, x, inside, rfl⟩
  · obtain ⟨x, k⟩ := u
    cases k with
    | int =>
      apply sortIn_eq_int.mpr
      intro array
      exact fine ⟨x, array, .inr ⟨i, member, e, part, Expr.mem_uses_int.mp used⟩⟩
    | array =>
      obtain ⟨j, stands⟩ := Expr.mem_indexed_iff_read.mp (Expr.mem_indexed.mpr used)
      exact sortIn_eq_array.mpr (closed.indexed i member e part x j stands)
    | stray part => exact part.elim
  · apply sortIn_eq_int.mpr
    intro array
    exact fine ⟨x, array, .inl ⟨e, member⟩⟩
  · apply sortIn_congr
    have result : r ∈ r :: xs := List.mem_cons_self ..
    exact ⟨fun array => closed.joined r xs guard member x inside array r result,
      fun array => closed.joined r xs guard member r result array x inside⟩

theorem consistent_iff (guards : ∀ i ∈ s, i.GuardsPick) :
    s.Consistent ↔ ¬ s.Misuses {x | x ∈ s.arrays} := by
  constructor
  · rintro ⟨sorts, fits⟩ ⟨x, array, misused⟩
    have declared := array_of_fits guards fits array
    have used : (x, .int) ∈ s.uses := by
      rcases misused with ⟨e, member⟩ | ⟨i, member, e, part, stands⟩
      · refine List.mem_flatMap.mpr ⟨_, member, ?_⟩
        exact List.mem_append_right _ (List.mem_singleton_self _)
      · refine List.mem_flatMap.mpr ⟨i, member, ?_⟩
        exact (guards i member).mem_uses _ part (Expr.mem_uses_int.mpr stands)
    exact nomatch declared.symm.trans (fits _ used)
  · intro fine
    exact ⟨fun x => some (sortIn s.arrays x), fun u used => congrArg some (sortIn_of_use fine used)⟩

theorem Plain.encoded_or_refused (plain : s.Plain) :
    (s.Consistent ∧ ∃ script, s.encoded = .ok script) ∨
      ¬ s.Consistent ∧ ∃ fault, s.encoded = .error fault ∧ fault.kind = .encoding := by
  rw [← Encoding.define_empty_iff plain]
  unfold encoded
  rcases run : Encoding.on .empty (Encoding.define s) with ⟨fault | done, e⟩
  · refine .inr ⟨?_, fault, rfl, plain.fault_kind ((Encoding.failsOnly_define s).fault run)⟩
    rintro ⟨u, e', succeeds⟩
    exact nomatch run.symm.trans succeeds
  · exact .inl ⟨⟨done, e, run⟩, _, rfl⟩

theorem Encoded.sorts_iff {script : Script Empty} (encoded : s.Encoded script)
    (guards : ∀ i ∈ s, i.GuardsPick) (x : String) (k : VarSort Empty) :
    script.sorts x = some k ↔ x ∈ s.mentions ∧ sortIn s.arrays x = k := by
  have fits : ∀ u ∈ s.uses, script.sorts u.1 = some u.2 := fun u used =>
    encoded.sorted.uses encoded.arrays used
  have fine := (consistent_iff guards).mp ⟨script.sorts, fits⟩
  have declared : x ∈ s.mentions → script.sorts x = some (sortIn s.arrays x) := by
    intro stands
    obtain ⟨i, member, stands⟩ := List.mem_flatMap.mp stands
    obtain ⟨k, used⟩ := (guards i member).exists_use (sortIn s.arrays) stands
    have member : (x, k) ∈ s.uses := List.mem_flatMap.mpr ⟨i, member, used⟩
    exact (fits _ member).trans (congrArg some (sortIn_of_use fine member).symm)
  constructor
  · intro found
    have stands := encoded.only x k found
    exact ⟨stands, Option.some.inj ((declared stands).symm.trans found)⟩
  · rintro ⟨stands, rfl⟩
    exact declared stands

end Stream

/-- The arrays of a program's stream are the least set that has every indexed symbol and of each phi
all symbols or none. In whatever order the instructions are encoded, they are refused if and only if
a symbol of the set is assigned or read as an integer; otherwise the script declares the symbols of
the set as arrays and the other symbols of the stream as integers. -/
theorem refused_iff_array_misused (p : Program Empty) (short : Stmt.anyTooLong p = false) :
    IsLeast {names | p.stream.ClosedArrays names} {x | x ∈ p.stream.arrays} ∧
      ∀ s : Stream Empty, s.Perm p.stream →
        ((∃ fault, s.encoded = .error fault ∧ fault.kind = .encoding) ↔
          p.stream.Misuses {x | x ∈ p.stream.arrays}) ∧
        (¬ p.stream.Misuses {x | x ∈ p.stream.arrays} →
          ∃ script, s.encoded = .ok script ∧ ∀ x,
            (script.sorts x = some .array ↔ x ∈ p.stream.arrays) ∧
            (script.sorts x = some .int ↔ x ∈ p.stream.mentions ∧ x ∉ p.stream.arrays)) := by
  refine ⟨p.stream.isLeast_arrays, fun s perm => ?_⟩
  have plain : s.Plain := (Program.plain short).perm perm.symm
  have guards : ∀ i ∈ s, i.GuardsPick := fun i member =>
    p.numbered.guardsPick (perm.mem_iff.mp member)
  have arrays : ∀ x, x ∈ s.arrays ↔ x ∈ p.stream.arrays := fun x =>
    Set.ext_iff.mp (Stream.arrays_perm perm) x
  have mentions : ∀ x, x ∈ s.mentions ↔ x ∈ p.stream.mentions := fun x =>
    (perm.flatMap_right Instr.mentions).mem_iff
  have consistent : s.Consistent ↔ ¬ p.stream.Misuses {x | x ∈ p.stream.arrays} := by
    rw [Stream.consistent_iff guards, Stream.arrays_perm perm, Stream.misuses_perm perm]
  rcases plain.encoded_or_refused with ⟨fits, script, ok⟩ | ⟨conflict, refused⟩
  · refine ⟨⟨?_, fun misused => absurd misused (consistent.mp fits)⟩,
      fun _ => ⟨script, ok, fun x => ?_⟩⟩
    · rintro ⟨fault, fails, -⟩
      exact nomatch ok.symm.trans fails
    · have sorts := (Stream.encoded_spec ok).sorts_iff guards x
      constructor
      · rw [sorts, Stream.sortIn_eq_array, and_iff_right_of_imp Stream.arrays_mentioned, arrays]
      · rw [sorts, Stream.sortIn_eq_int, mentions, arrays]
  · rw [consistent, Classical.not_not] at conflict
    exact ⟨⟨fun _ => conflict, fun _ => refused⟩, fun fine => absurd conflict fine⟩

/-- The array `a` is indexed in front of a loop and, where `whole` is set, read as an integer in it.
The two symbols differ, and the loop ties them. -/
def arrayInLoop (whole : Bool) : Program Empty :=
  [.assign ⟨"x", .read "a" (.lit 0)⟩,
    .whileLoop (.binary (.compare .lt) (.var "x") (.lit 3))
      [.assign ⟨"x", if whole then .var "a" else .binary (.compute .add) (.var "x") (.lit 1)⟩]]

theorem refused_iff_array_misused_arrayInLoop :
    (∀ whole, Stmt.anyTooLong (arrayInLoop whole) = false) ∧
      (∃ fault, Stream.encoded (arrayInLoop true).stream.reverse = .error fault ∧
        fault.kind = .encoding) ∧
      ∃ script, Stream.encoded (arrayInLoop false).stream.reverse = .ok script ∧
        script.sorts "a_1" = some .array ∧ script.sorts "x_2" = some .int := by
  have short : ∀ whole, Stmt.anyTooLong (arrayInLoop whole) = false := by decide +kernel
  have misused := refused_iff_array_misused (arrayInLoop true) (short true)
  have fine := refused_iff_array_misused (arrayInLoop false) (short false)
  refine ⟨short, ?_, ?_⟩
  · refine (misused.2 _ (List.reverse_perm _)).1.mpr ⟨"a_1", ?_, .inr ?_⟩
    · decide +kernel
    · exact ⟨.assign "x_3" (.var "a_1"), by decide +kernel, .var "a_1", by decide, by decide⟩
  · have unharmed :
        ¬ (arrayInLoop false).stream.Misuses {x | x ∈ (arrayInLoop false).stream.arrays} := by
      intro misused
      obtain ⟨fault, fails, -⟩ := (fine.2 _ (.refl _)).1.mpr misused
      obtain ⟨script, ok⟩ := exists_ok (x := (arrayInLoop false).stream.encoded) (by decide +kernel)
      rw [fails] at ok
      cases ok
    obtain ⟨script, ok, sorts⟩ := (fine.2 _ (List.reverse_perm _)).2 unharmed
    refine ⟨script, ok, (sorts "a_1").1.mpr ?_, (sorts "x_2").2.mpr ⟨?_, ?_⟩⟩ <;> decide +kernel

end Assay
