import Assay.Proofs.Interface
import Assay.Proofs.Values

/-! Two streams side by side. A renamed stream has the arrays of the stream under their new names,
and a valuation of plain symbols and one of renamed symbols are joined into one where the suffix
keeps the two apart. -/
namespace Assay

open Smt

theorem Expr.indexed_mapNames (f : String → String) (e : Expr Empty) :
    (e.mapNames f).indexed = e.indexed.map f := by
  induction e with
  | lit n => rfl
  | var x => rfl
  | read a i ih => simpa [indexed, mapNames, leaves] using ih
  | binary op l r left right =>
    simp only [indexed, mapNames, leaves, List.filterMap_append, List.map_append] at left right ⊢
    rw [left, right]
  | unary op e ih => simpa only [indexed, mapNames, leaves] using ih
  | stray part => exact part.elim

theorem Instr.exprs_mapNames (f : String → String) (i : Instr Empty) :
    (i.mapNames f).exprs = i.exprs.map (Expr.mapNames f) := by
  cases i with
  | assign x e | assert c path => rfl
  | phi r xs guard => cases guard <;> rfl
  | stray part => exact part.elim

theorem Instr.reads_mapNames (f : String → String) (i : Instr Empty) :
    (i.mapNames f).reads = i.reads.map f := by
  unfold reads
  rw [exprs_mapNames, List.flatMap_map, List.map_append, List.map_flatMap]
  simp only [Expr.names_mapNames]
  cases i <;> rfl

namespace Stream

section Map

variable {f : String → String} (inj : ∀ x y, f x = f y → x = y)
include inj

theorem contains_map (names : List String) (x : String) :
    (names.map f).contains (f x) = names.contains x := by
  rw [Bool.eq_iff_iff, List.contains_iff_mem, List.contains_iff_mem, List.mem_map]
  constructor
  · rintro ⟨y, member, same⟩
    exact inj y x same ▸ member
  · exact fun member => ⟨x, member, rfl⟩

theorem addNames_map (known names : List String) :
    addNames (known.map f) (names.map f) = (addNames known names).map f := by
  induction names generalizing known with
  | nil => rfl
  | cons n names ih =>
    change addNames (if (known.map f).contains (f n) then known.map f else known.map f ++ [f n])
      (names.map f) = (addNames (if known.contains n then known else known ++ [n]) names).map f
    rw [contains_map inj, ← ih]
    by_cases there : known.contains n = true
    · rw [if_pos there, if_pos there]
    · rw [if_neg there, if_neg there, List.map_append, List.map_singleton]

theorem spread_map (groups : List (List String)) (known : List String) :
    spread (groups.map (List.map f)) (known.map f) = (spread groups known).map f := by
  induction groups generalizing known with
  | nil => rfl
  | cons g groups ih =>
    have touched : (g.map f).any (known.map f).contains = g.any known.contains := by
      rw [List.any_map]
      exact congrArg g.any (funext fun x => contains_map inj known x)
    change spread (groups.map (List.map f)) (if (g.map f).any (known.map f).contains then
      addNames (known.map f) (g.map f) else known.map f) = _
    rw [touched, addNames_map inj, ← apply_ite (List.map f), ih]
    rfl

theorem closeOver_map (groups : List (List String)) (n : Nat) (known : List String) :
    closeOver (groups.map (List.map f)) n (known.map f) = (closeOver groups n known).map f := by
  induction n generalizing known with
  | zero => rfl
  | succ n ih => rw [closeOver, closeOver, spread_map inj, ih]

theorem arrays_map (s : Stream Empty) :
    arrays (s.map (Instr.mapNames f)) = (arrays s).map f := by
  have groups : phiGroups (s.map (Instr.mapNames f)) = (phiGroups s).map (List.map f) := by
    unfold phiGroups
    rw [List.filterMap_map, List.map_filterMap]
    refine congrArg (s.filterMap ·) (funext fun i => ?_)
    cases i <;> rfl
  have indexed : indexedSymbols (s.map (Instr.mapNames f)) = (indexedSymbols s).map f := by
    unfold indexedSymbols
    rw [← addNames_map inj, List.flatMap_map, List.map_flatMap]
    refine congrArg (fun g => addNames [] (s.flatMap g)) (funext fun i => ?_)
    rw [Instr.exprs_mapNames, List.flatMap_map, List.map_flatMap]
    exact congrArg i.exprs.flatMap (funext fun e => e.indexed_mapNames f)
  unfold arrays
  rw [groups, indexed, List.length_map, closeOver_map inj]

end Map

theorem mem_arrays_renamed {suffix x : String} {s : Stream Empty} :
    x ++ suffix ∈ arrays (renamed suffix s) ↔ x ∈ arrays s := by
  unfold renamed
  rw [arrays_map fun x y => append_suffix_inj.mp, List.mem_map]
  constructor
  · rintro ⟨y, member, same⟩
    exact append_suffix_inj.mp same ▸ member
  · exact fun member => ⟨x, member, rfl⟩

theorem mem_closeOver {groups : List (List String)} {n : Nat} {known : List String} {x : String}
    (member : x ∈ closeOver groups n known) : x ∈ known ∨ ∃ g ∈ groups, x ∈ g := by
  have spreading : ∀ (groups : List (List String)) {known : List String},
      x ∈ spread groups known → x ∈ known ∨ ∃ g ∈ groups, x ∈ g := by
    intro groups
    induction groups with
    | nil => exact fun member => .inl member
    | cons g groups ih =>
      intro known member
      rw [spread_cons] at member
      rcases ih member with old | ⟨h, inside, stands⟩
      · rcases mem_joinGroup.mp old with old | ⟨new, -⟩
        · exact .inl old
        · exact .inr ⟨g, List.mem_cons_self .., new⟩
      · exact .inr ⟨h, List.mem_cons_of_mem _ inside, stands⟩
  induction n generalizing known with
  | zero => exact .inl member
  | succ n ih =>
    rcases ih member with old | new
    · exact spreading groups old
    · exact .inr new

theorem mem_mentions {s : Stream Empty} {i : Instr Empty} (member : i ∈ s) {x : String}
    (stands : x ∈ i.mentions) : x ∈ s.mentions :=
  List.mem_flatMap.mpr ⟨i, member, stands⟩

theorem mem_mentions_renamed {suffix y : String} {s : Stream Empty} :
    y ∈ (renamed suffix s).mentions ↔ ∃ x ∈ s.mentions, y = x ++ suffix := by
  have each : ∀ i : Instr Empty,
      (i.mapNames (· ++ suffix)).mentions = i.mentions.map (· ++ suffix) := by
    intro i
    unfold Instr.mentions
    rw [Instr.reads_mapNames, List.map_append]
    cases i <;> rfl
  simp only [mentions, renamed, List.flatMap_map, each, List.mem_flatMap, List.mem_map]
  constructor
  · rintro ⟨i, member, x, stands, rfl⟩
    exact ⟨x, ⟨i, member, stands⟩, rfl⟩
  · rintro ⟨x, ⟨i, member, stands⟩, rfl⟩
    exact ⟨i, member, x, stands, rfl⟩

theorem phi_of_renamed {suffix r : String} {xs : List String} {guard : Option (Expr Empty)}
    {s : Stream Empty} (member : .phi r xs guard ∈ renamed suffix s) :
    ∃ r' xs' guard', .phi r' xs' guard' ∈ s ∧ xs = xs'.map (· ++ suffix) := by
  obtain ⟨i, origin, same⟩ := List.mem_map.mp member
  cases i with
  | phi r' xs' guard' =>
    cases same
    exact ⟨r', xs', guard', origin, rfl⟩
  | assign | assert => contradiction
  | stray part => exact part.elim

theorem arrays_mentioned {s : Stream Empty} {x : String} (array : x ∈ arrays s) :
    x ∈ s.mentions := by
  rcases mem_closeOver array with indexed | ⟨g, group, stands⟩
  · simp only [indexedSymbols, mem_addNames, List.not_mem_nil, false_or,
      List.mem_flatMap] at indexed
    obtain ⟨i, member, e, part, leaf⟩ := indexed
    refine mem_mentions member (Instr.mem_mentions_expr part ?_)
    obtain ⟨l, inside, found⟩ := List.mem_filterMap.mp leaf
    refine List.mem_filterMap.mpr ⟨l, inside, ?_⟩
    cases l with
    | array a => exact found
    | number | name | stray => contradiction
  · obtain ⟨i, member, shape⟩ := List.mem_filterMap.mp group
    cases i with
    | phi r xs guard =>
      cases shape
      exact mem_mentions member (Instr.mem_mentions_phi stands)
    | assign x e | assert c path => contradiction
    | stray part => exact part.elim

end Stream

theorem Valuation.exists_beside (m n : Valuation) (byZero : m.byZero = n.byZero) (suffix : String) :
    ∃ w : Valuation, w.byZero = m.byZero ∧ w.along (· ++ suffix) = n ∧
      ∀ y s, (∀ x, y ≠ x ++ suffix) → SameValue m y w y s := by
  classical
  let w : Valuation :=
    { int := fun y => if h : ∃ x, y = x ++ suffix then n.int h.choose else m.int y
      array := fun y => if h : ∃ x, y = x ++ suffix then n.array h.choose else m.array y
      byZero := m.byZero }
  have chosen : ∀ (x : String) (h : ∃ z, x ++ suffix = z ++ suffix), h.choose = x := by
    intro x h
    exact (append_suffix_inj.mp h.choose_spec).symm
  refine ⟨w, rfl, ?_, ?_⟩
  · have ints : (fun x => w.int (x ++ suffix)) = n.int := by
      funext x
      have h : ∃ z, x ++ suffix = z ++ suffix := ⟨x, rfl⟩
      simp only [w, dif_pos h, chosen x h]
    have arrays : (fun x => w.array (x ++ suffix)) = n.array := by
      funext x
      have h : ∃ z, x ++ suffix = z ++ suffix := ⟨x, rfl⟩
      simp only [w, dif_pos h, chosen x h]
    unfold Valuation.along
    rw [ints, arrays]
    change Valuation.mk n.int n.array m.byZero = n
    rw [byZero]
  · intro y s plain
    have none : ¬ ∃ x, y = x ++ suffix := fun ⟨x, same⟩ => plain x same
    cases s with
    | int | array => simp only [SameValue, w, dif_neg none]
    | stray part => exact part.elim

end Assay
