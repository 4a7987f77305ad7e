import Assay.Proofs.Determination
import Assay.Proofs.Simplifying

/-! The order of definitions and reads in a stream. The definitions of a name take its versions one
after the other, and an instruction reads inputs and what is defined in front of it. Only the entry
of a loop reads from behind: its second operand is what the body leaves. -/
namespace Assay

namespace Instr

/-- The second operand at the entry of a loop. -/
def back? : Instr Empty → Option String
  | .phi _ [_, b] none => some b
  | _ => none

def arrivals : Instr Empty → List String
  | .phi _ [a, _] none => [a]
  | i => i.reads

end Instr

namespace Stream

def definitions (s : Stream Empty) (x : String) : List String :=
  (s.filterMap Instr.defined?).filter fun y => stem y = x

/-- Streams in single-assignment form. -/
structure WellFormed (s : Stream Empty) : Prop where
  consecutive : ∀ x, ∃ m, s.definitions x = (List.range' 1 m).map (symbol x)
  single : s.SingleAssignment
  arrivals : ∀ front i rest, s = front ++ i :: rest → ∀ y ∈ i.arrivals,
    (∃ x, y = symbol x 0) ∨ Defines front y
  returns : ∀ front i rest, s = front ++ i :: rest → ∀ y ∈ i.back?, Defines rest y
  operands : ∀ r xs guard, .phi r xs guard ∈ s →
    (xs.length = 1 ∨ xs.length = 2) ∧ (guard.isSome = true → xs.length = 2) ∧
      ∃ x, ∀ y ∈ r :: xs, ∃ n, y = symbol x n

theorem defines_iff {s : Stream Empty} {y : String} : s.Defines y ↔ y ∈ s.definitions (stem y) := by
  simp [Defines, definitions]

theorem definitions_cons {i : Instr Empty} {y : String} {n : Nat}
    (defines : i.defined? = some (symbol y n)) (s : Stream Empty) (x : String) :
    definitions (i :: s) x = if y = x then symbol y n :: s.definitions x else s.definitions x := by
  unfold definitions
  rw [List.filterMap_cons_some defines, List.filter_cons]
  simp

end Stream

namespace Numbered

variable {c c' : Counts} {s : Stream Empty}

theorem definitions (numbered : Numbered c s c') (x : String) :
    s.definitions x = (List.range' (c x + 1) (c' x - c x)).map (symbol x) := by
  have step : ∀ {c c' : Counts} {y : String} {s : Stream Empty} {i : Instr Empty},
      i.defined? = some (symbol y (c y + 1)) → Numbered (c.bump y) s c' →
      s.definitions x = (List.range' (c.bump y x + 1) (c' x - c.bump y x)).map (symbol x) →
      Stream.definitions (i :: s) x = (List.range' (c x + 1) (c' x - c x)).map (symbol x) := by
    intro c c' y s i defines rest ih
    rw [Stream.definitions_cons defines, ih]
    by_cases same : y = x
    · subst same
      have given := rest.grows y
      rw [Counts.bump_self] at given ⊢
      have more : c' y - c y = c' y - (c y + 1) + 1 := by omega
      rw [if_pos rfl, more, List.range'_succ, List.map_cons]
    · rw [if_neg same, Counts.bump, if_neg same]
  induction numbered with
  | nil => simp [Stream.definitions]
  | assert _ _ _ ih => exact ih
  | assign _ rest ih | copy _ rest ih | entry _ _ _ rest ih | join _ _ _ _ rest ih =>
    exact step rfl rest ih

theorem defines_iff (numbered : Numbered c s c') {x : String} {n : Nat} :
    s.Defines (symbol x n) ↔ c x < n ∧ n ≤ c' x := by
  rw [Stream.defines_iff, stem_symbol, numbered.definitions x]
  simp only [List.mem_map, List.mem_range'_1, symbol_inj, true_and, exists_eq_right]
  have grows := numbered.grows x
  omega

/-- The numbering goes on at every place, where the known symbols are those from the start and those
defined in front. -/
theorem behind {front rest : Stream Empty} (numbered : Numbered c (front ++ rest) c') :
    ∃ d, Numbered d rest c' ∧ ∀ y, Known d y → Known c y ∨ Stream.Defines front y := by
  have step : ∀ {c d : Counts} {i : Instr Empty} {front : Stream Empty} {y : String},
      (Known d y → Known c y ∨ i.defined? = some y) → Known d y ∨ Stream.Defines front y →
      Known c y ∨ Stream.Defines (i :: front) y := by
    rintro c d i front y first (known | ⟨j, member, defines⟩)
    · exact (first known).imp id fun defines => ⟨i, List.mem_cons_self .., defines⟩
    · exact .inr ⟨j, List.mem_cons_of_mem _ member, defines⟩
  induction front generalizing c with
  | nil => exact ⟨c, numbered, fun y known => .inl known⟩
  | cons i front ih =>
    cases numbered with
    | assert reads guards tail =>
      obtain ⟨d, later, known⟩ := ih tail
      exact ⟨d, later, fun y given => step .inl (known y given)⟩
    | assign _ tail | copy _ tail | entry _ _ _ tail | join _ _ _ _ tail =>
      obtain ⟨d, later, known⟩ := ih tail
      refine ⟨d, later, fun y given => step (fun bumped => ?_) (known y given)⟩
      exact bumped.bump_cases.symm.imp id fun same => congrArg some same.symm

theorem head_reads {i : Instr Empty} (numbered : Numbered c (i :: s) c') :
    (∀ y ∈ i.arrivals, Known c y) ∧ ∀ y ∈ i.back?, s.Defines y := by
  have none : ∀ y ∈ (Option.none : Option String), s.Defines y := nofun
  cases numbered with
  | assign reads _ =>
    refine ⟨fun y member => reads y ?_, none⟩
    simpa [Instr.arrivals, Instr.reads, Instr.operands, Instr.exprs] using member
  | assert reads guards _ =>
    refine ⟨fun y member => ?_, none⟩
    simp only [Instr.arrivals, Instr.reads, Instr.operands, Instr.exprs, List.nil_append,
      List.flatMap_cons, List.mem_append, List.mem_flatMap] at member
    rcases member with inCond | ⟨g, inside, inGuard⟩
    · exact reads y inCond
    · exact guards g inside y inGuard
  | @copy _ _ _ x n low _ =>
    refine ⟨fun y member => ⟨x, n, ?_, low⟩, none⟩
    simpa [Instr.arrivals, Instr.reads, Instr.operands, Instr.exprs] using member
  | @entry _ _ _ x n k low later bound tail =>
    refine ⟨fun y member => ⟨x, n, List.mem_singleton.mp member, low⟩, fun y second => ?_⟩
    obtain rfl := Option.some.inj second
    refine tail.defines_iff.mpr ⟨?_, bound⟩
    rwa [Counts.bump_self]
  | @join _ _ _ x n k g low high _ reads _ =>
    refine ⟨fun y member => ?_, none⟩
    simp only [Instr.arrivals, Instr.reads, Instr.operands, Instr.exprs, Option.toList_some,
      List.flatMap_singleton, List.mem_append, List.mem_cons, List.not_mem_nil, or_false] at member
    rcases member with (rfl | rfl) | inGuard
    · exact ⟨x, n, rfl, low⟩
    · exact ⟨x, k, rfl, high⟩
    · exact reads y inGuard

theorem wellFormed (numbered : Numbered (fun _ => 0) s c') : s.WellFormed where
  consecutive := fun x => ⟨c' x, numbered.definitions x⟩
  single := numbered.nodup
  arrivals := by
    rintro front i rest rfl y arrives
    obtain ⟨d, tail, known⟩ := numbered.behind
    rcases known y (tail.head_reads.1 y arrives) with ⟨x, n, rfl, zero⟩ | defined
    · exact .inl ⟨x, by rw [Nat.le_zero.mp zero]⟩
    · exact .inr defined
  returns := by
    rintro front i rest rfl y back
    obtain ⟨d, tail, -⟩ := numbered.behind
    exact tail.head_reads.2 y back
  operands := by
    intro r xs guard member
    cases numbered.shape member with
    | @copy x n k => exact ⟨.inl rfl, nofun, x, by simp [symbol_inj]⟩
    | @pick x n k l => exact ⟨.inr rfl, fun _ => rfl, x, by simp [symbol_inj]⟩

end Numbered

/-- The stream of a program is in single-assignment form, and every name ends on version 0 or on one
that the stream defines. -/
theorem Program.stream_wellFormed (p : Program Empty) :
    p.stream.WellFormed ∧
      ∀ x n, (x, n) ∈ p.finalVersions → n = 0 ∨ p.stream.Defines (symbol x n) := by
  refine ⟨p.numbered.wellFormed, fun x n ends => ?_⟩
  have fits := p.construct_fits
  have current : p.construct.versions.version x = n := by
    unfold Versions.version
    rw [Entries.get?_of_mem fits.sound.distinct ends, Option.getD_some]
  have bounded : n ≤ p.construct.versions.count x := current ▸ fits.sound.bounded x
  rcases Nat.eq_zero_or_pos n with zero | positive
  · exact .inl zero
  · exact .inr (p.numbered.defines_iff.mpr ⟨positive, bounded⟩)

end Assay
