import Assay.Proofs.Equations
import Assay.Proofs.Symbols
import Assay.Stream.Simplify

/-! What a stream shows to the outside. Its outputs are the names it assigns, each with the last
symbol defined for it; its inputs are the names read at version 0. Both are found where every
symbol is a name with a version that can be read back. -/
namespace Assay

open Smt

theorem foldlM_ok {σ α : Type} {step : σ → α → Except Error σ} {next : σ → α → σ} {xs : List α}
    (agree : ∀ s, ∀ a ∈ xs, step s a = .ok (next s a)) (s : σ) :
    xs.foldlM step s = .ok (xs.foldl next s) := by
  induction xs generalizing s with
  | nil => rfl
  | cons a xs ih =>
    rw [List.foldlM_cons, agree s a (List.mem_cons_self ..)]
    exact ih (fun s b member => agree s b (List.mem_cons_of_mem _ member)) _

namespace Stream

/-- Streams of the form that programs have: symbols can be read back, version 0 is never defined,
phis join one or two versions of one name, and guards choose between two. -/
structure Regular (s : Stream Empty) : Prop where
  symbols : ∀ y ∈ s.mentions, ∃ x n, y = symbol x n ∧ Text.isTooLong n = false
  positive : ∀ i ∈ s, ∀ x, i.defined? ≠ some (symbol x 0)
  guards : ∀ r xs g, .phi r xs (some g) ∈ s → ∃ a b, xs = [a, b]
  names : ∀ r xs guard, .phi r xs guard ∈ s → ∀ a ∈ xs, stem a = stem r
  operands : ∀ r xs guard, .phi r xs guard ∈ s → xs.length = 1 ∨ xs.length = 2

def Assigns (s : Stream Empty) (x : String) : Prop := ∃ y e, .assign y e ∈ s ∧ stem y = x

def last? (x : String) : Stream Empty → Option String
  | [] => none
  | i :: s => (last? x s).or (i.defined?.filter fun y => stem y = x)

theorem last?_append (x : String) (s t : Stream Empty) :
    last? x (s ++ t) = (last? x t).or (last? x s) := by
  induction s with
  | nil => simp [last?]
  | cons i s ih => simp only [List.cons_append, last?, ih, Option.or_assoc]

theorem last?_mem {x y : String} {s : Stream Empty} (last : last? x s = some y) :
    stem y = x ∧ ∃ i ∈ s, i.defined? = some y := by
  induction s with
  | nil => contradiction
  | cons i s ih =>
    unfold last? at last
    rcases Option.or_eq_some_iff.mp last with later | ⟨-, here⟩
    · obtain ⟨name, j, member, defines⟩ := ih later
      exact ⟨name, j, List.mem_cons_of_mem _ member, defines⟩
    · obtain ⟨defines, name⟩ := Option.filter_eq_some_iff.mp here
      exact ⟨by simpa using name, i, List.mem_cons_self .., defines⟩

theorem last?_of_defined {x y : String} {s : Stream Empty} {i : Instr Empty} (member : i ∈ s)
    (defines : i.defined? = some y) (name : stem y = x) : ∃ z, last? x s = some z := by
  induction s with
  | nil => contradiction
  | cons j s ih =>
    unfold last?
    rcases List.mem_cons.mp member with rfl | member
    · cases last? x s with
      | some z => exact ⟨z, rfl⟩
      | none => exact ⟨y, by simp [defines, name]⟩
    · obtain ⟨z, later⟩ := ih member
      exact ⟨z, by simp [later]⟩

def Outputs.next (o : Outputs) (i : Instr Empty) : Outputs :=
  match i.defined? with
  | none => o
  | some y =>
    ⟨if i.isAssign then addNames o.assigned [stem y] else o.assigned, o.last.put (stem y) y⟩

theorem outputs_step {i : Instr Empty} (o : Outputs)
    (readable : ∀ y, i.defined? = some y → ∃ x n, y = symbol x n ∧ Text.isTooLong n = false) :
    o.step i = .ok (o.next i) := by
  unfold Outputs.step Outputs.next
  cases defines : i.defined? with
  | none => rfl
  | some y =>
    obtain ⟨x, n, rfl, short⟩ := readable y defines
    simp only [splitSymbol_symbol, short, stem_symbol]
    rfl

theorem Outputs.next_last (o : Outputs) (i : Instr Empty) (x : String) :
    (o.next i).last.get? x = (i.defined?.filter fun y => stem y = x).or (o.last.get? x) := by
  unfold next
  cases i.defined? with
  | none => rfl
  | some y => by_cases same : stem y = x <;> simp [Option.filter, same]

theorem Outputs.next_assigned (o : Outputs) (i : Instr Empty) (x : String) :
    x ∈ (o.next i).assigned ↔ x ∈ o.assigned ∨ Assigns [i] x := by
  unfold next Assigns
  cases i with
  | assign y e =>
    simp only [Instr.defined?, Instr.isAssign, if_true, mem_addNames, List.mem_singleton]
    constructor
    · rintro (old | rfl)
      · exact .inl old
      · exact .inr ⟨y, e, rfl, rfl⟩
    · rintro (old | ⟨z, f, same, rfl⟩)
      · exact .inl old
      · cases same
        exact .inr rfl
  | assert c path => simp [Instr.defined?]
  | phi r xs g => simp [Instr.defined?, Instr.isAssign]
  | stray part => exact part.elim

theorem Outputs.next_nodup (o : Outputs) (i : Instr Empty) (distinct : o.assigned.Nodup) :
    (o.next i).assigned.Nodup := by
  unfold next
  cases i.defined? with
  | none => exact distinct
  | some y =>
    change (if i.isAssign = true then addNames o.assigned [stem y] else o.assigned).Nodup
    split
    · unfold addNames
      simp only [List.foldl_cons, List.foldl_nil]
      split
      · exact distinct
      · rename_i absent
        rw [List.nodup_append]
        refine ⟨distinct, by simp, ?_⟩
        rintro a there b member rfl
        obtain rfl := List.mem_singleton.mp member
        exact absent (List.contains_iff_mem.mpr there)
    · exact distinct

theorem Outputs.fold_spec (s : Stream Empty) (o : Outputs) (distinct : o.assigned.Nodup) :
    (s.foldl Outputs.next o).assigned.Nodup ∧
    (∀ x, x ∈ (s.foldl Outputs.next o).assigned ↔ x ∈ o.assigned ∨ s.Assigns x) ∧
    ∀ x, (s.foldl Outputs.next o).last.get? x = (last? x s).or (o.last.get? x) := by
  induction s generalizing o with
  | nil => exact ⟨distinct, fun x => by simp [Assigns], fun x => by simp [last?]⟩
  | cons i s ih =>
    obtain ⟨nodup, assigned, last⟩ := ih (o.next i) (o.next_nodup i distinct)
    refine ⟨nodup, fun x => ?_, fun x => ?_⟩
    · rw [List.foldl_cons, assigned, o.next_assigned, or_assoc]
      apply or_congr_right
      constructor
      · rintro (⟨y, e, here, name⟩ | ⟨y, e, later, name⟩)
        · exact ⟨y, e, List.mem_singleton.mp here ▸ List.mem_cons_self .., name⟩
        · exact ⟨y, e, List.mem_cons_of_mem _ later, name⟩
      · rintro ⟨y, e, member, name⟩
        rcases List.mem_cons.mp member with here | later
        · exact .inl ⟨y, e, List.mem_singleton.mpr here, name⟩
        · exact .inr ⟨y, e, later, name⟩
    · rw [List.foldl_cons, last, o.next_last, last?, Option.or_assoc]

theorem Regular.outputs {s : Stream Empty} (regular : s.Regular) :
    ∃ o, s.outputs = .ok o ∧ o.keys.Nodup ∧ (∀ x, x ∈ o.keys ↔ s.Assigns x) ∧
      ∀ x y, (x, y) ∈ o ↔ s.Assigns x ∧ last? x s = some y := by
  have readable : ∀ (o : Outputs), ∀ i ∈ s, o.step i = .ok (o.next i) := by
    intro o i member
    refine outputs_step o fun y defines => regular.symbols y ?_
    refine List.mem_flatMap.mpr ⟨i, member, ?_⟩
    simp [Instr.mentions, defines]
  obtain ⟨nodup, assigned, last⟩ := Outputs.fold_spec s ⟨[], []⟩ List.nodup_nil
  have names : ∀ x, x ∈ (s.foldl Outputs.next ⟨[], []⟩).assigned ↔ s.Assigns x := by
    intro x
    simpa using assigned x
  have found : ∀ x, s.Assigns x →
      last? x s = some (((s.foldl Outputs.next ⟨[], []⟩).last.get? x).getD "") := by
    rintro x ⟨y, e, member, name⟩
    obtain ⟨z, here⟩ := last?_of_defined member rfl name
    rw [last x, here]
    rfl
  refine ⟨(s.foldl Outputs.next ⟨[], []⟩).assigned.map fun n =>
    (n, ((s.foldl Outputs.next ⟨[], []⟩).last.get? n).getD ""), ?_, ?_, ?_, ?_⟩
  · unfold Stream.outputs
    rw [foldlM_ok readable]
    rfl
  · simpa [Entries.keys, Function.comp_def] using nodup
  · intro x
    simpa [Entries.keys] using names x
  · intro x y
    rw [List.mem_map]
    constructor
    · rintro ⟨n, member, same⟩
      cases same
      have assigns := (names x).mp member
      exact ⟨assigns, found x assigns⟩
    · rintro ⟨assigns, here⟩
      rw [found x assigns] at here
      cases here
      exact ⟨x, (names x).mpr assigns, rfl⟩

def inputNext (inputs : Entries String) (y : String) : Entries String :=
  if y = symbol (stem y) 0 then inputs.putNew (stem y) y else inputs

theorem inputStep_eq {y : String} (inputs : Entries String)
    (readable : ∃ x n, y = symbol x n ∧ Text.isTooLong n = false) :
    inputStep inputs y = .ok (inputNext inputs y) := by
  obtain ⟨x, n, rfl, short⟩ := readable
  unfold inputStep inputNext
  simp only [splitSymbol_symbol, short, stem_symbol, symbol_inj, true_and]
  by_cases zero : n = 0
  · subst zero
    rfl
  · have positive : (n : Int) ≠ 0 := by omega
    simp only [if_neg zero]
    exact congrArg Except.ok (if_neg positive)

theorem inputs_fold (ys : List String) (start : Entries String) (distinct : start.keys.Nodup)
    (plain : ∀ x y, start.get? x = some y → y = symbol x 0) :
    (ys.foldl inputNext start).keys.Nodup ∧
    ∀ x y, (ys.foldl inputNext start).get? x = some y ↔
      y = symbol x 0 ∧ (start.get? x = some y ∨ y ∈ ys) := by
  induction ys generalizing start with
  | nil =>
    refine ⟨distinct, fun x y => ?_⟩
    simpa using plain x y
  | cons z ys ih =>
    rw [List.foldl_cons]
    by_cases zero : z = symbol (stem z) 0
    · have next : inputNext start z = start.putNew (stem z) z := if_pos zero
      have value : ∀ x, (start.putNew (stem z) z).get? x =
          if stem z = x then some z else start.get? x := by
        intro x
        rw [Entries.get?_putNew]
        cases there : start.get? (stem z) with
        | none => rfl
        | some y => rw [plain _ _ there, ← zero]; rfl
      have kept : (start.putNew (stem z) z).keys.Nodup := by
        rw [Entries.keys_putNew]
        exact Entries.nodup_keys_put _ _ _ distinct
      obtain ⟨nodup, spec⟩ := ih (inputNext start z) (by rwa [next]) (by
        intro x y found
        rw [next, value] at found
        split at found
        · rename_i same
          cases found
          rwa [same] at zero
        · exact plain x y found)
      refine ⟨nodup, fun x y => ?_⟩
      rw [spec, next, value, List.mem_cons]
      refine and_congr_right fun input => ?_
      by_cases same : stem z = x
      · have this : y = z := by rw [input, zero, same]
        rw [if_pos same, this]
        exact iff_of_true (.inl rfl) (.inr (.inl rfl))
      · have other : y ≠ z := by
          rintro rfl
          rw [input, stem_symbol] at same
          exact same rfl
        rw [if_neg same]
        exact or_congr_right (or_iff_right other).symm
    · have next : inputNext start z = start := if_neg zero
      obtain ⟨nodup, spec⟩ := ih (inputNext start z) (by rwa [next]) (by rwa [next])
      refine ⟨nodup, fun x y => ?_⟩
      rw [spec, next, List.mem_cons]
      refine and_congr_right fun input => or_congr_right (or_iff_right ?_).symm
      rintro rfl
      rw [input, stem_symbol] at zero
      exact zero rfl

theorem Regular.inputs {s : Stream Empty} (regular : s.Regular) :
    ∃ found, s.inputs = .ok found ∧ found.keys.Nodup ∧
      ∀ x y, found.get? x = some y ↔ y = symbol x 0 ∧ y ∈ readSymbols s := by
  have readable : ∀ (found : Entries String), ∀ y ∈ readSymbols s,
      inputStep found y = .ok (inputNext found y) := by
    intro found y member
    obtain ⟨i, stands, reads⟩ := List.mem_flatMap.mp member
    exact inputStep_eq found (regular.symbols y
      (List.mem_flatMap.mpr ⟨i, stands, List.mem_append_right _ reads⟩))
  obtain ⟨nodup, spec⟩ := inputs_fold (readSymbols s) [] List.nodup_nil (by simp)
  refine ⟨(readSymbols s).foldl inputNext [], ?_, nodup, fun x y => ?_⟩
  · unfold Stream.inputs
    rw [no_strays]
    exact foldlM_ok readable []
  · simpa using spec x y

end Stream

end Assay
