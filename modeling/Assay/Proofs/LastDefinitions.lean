import Assay.Proofs.Regularity
import Mathlib.Logic.Relation

/-! The last definition of an assigned name stands for its final value. A loop defines anew every
name that is live at its entry, and those that its body leaves alone go back to the symbol from
before. So behind loops the symbol defined last need not be the current one, but phis with a single
operand lead from it to the current one. -/
namespace Assay

open Smt

namespace Stream

/-- Phis with one operand lead from the first symbol to the second. -/
def CopyOf (s : Stream Empty) : String → String → Prop :=
  Relation.ReflTransGen fun r a => .phi r [a] none ∈ s

theorem CopyOf.mono {s t : Stream Empty} (sub : s ⊆ t) {y z : String} (copy : s.CopyOf y z) :
    t.CopyOf y z := Relation.ReflTransGen.mono (fun _ _ member => sub member) _ _ copy

theorem CopyOf.int_eq {s : Stream Empty} {sorts : Sorts} {m : Valuation} (sorted : s.Sorted sorts)
    (solves : s.Solves sorts m) {y z : String} (copy : s.CopyOf y z)
    (int : sorts z = some .int) : sorts y = some .int ∧ m.int y = m.int z := by
  induction copy using Relation.ReflTransGen.head_induction_on with
  | refl => exact ⟨int, rfl⟩
  | @head r a phi _ ih =>
    have same := (sorted _ phi).operand (List.mem_singleton_self a)
    have sort : sorts r = some .int := same.symm.trans ih.1
    have holds := solves _ phi
    simp only [Instr.Holds, Sorts.of, sort, Option.getD_some] at holds
    exact ⟨sort, holds.trans ih.2⟩

end Stream

/-- A name that a piece of program assigns is defined last as a copy of its current symbol; all
definitions of other names are copies of the symbols from before. -/
structure Built.Copies (v : Versions) (built : Built Empty) (targets : List String) : Prop where
  untouched : ∀ y, Stream.Defines built.2 y → stem y ∉ targets →
    Stream.CopyOf built.2 y (v.symbolOf (stem y))
  final : ∀ x ∈ targets, ∃ y, Stream.last? x built.2 = some y ∧
    Stream.CopyOf built.2 y (built.1.symbolOf x)

theorem Built.Fits.symbolOf_eq {v : Versions} {built : Built Empty} {ts : List String}
    (fits : built.Fits v ts) {x : String} (outside : x ∉ ts) :
    built.1.symbolOf x = v.symbolOf x := congrArg (symbol x) (fits.unchanged x outside)

theorem Merged.last {guard : Expr Empty} {a b : String → Nat} {w : Versions}
    {built : Built Empty} (merged : Merged guard a b w built) {x : String} (differ : a x ≠ b x) :
    Stream.last? x built.2 = some (built.1.symbolOf x) := by
  obtain ⟨version, count, -⟩ := merged.differing x differ
  rw [merged.numbered.last x, count, if_pos (Nat.lt_succ_self _), Versions.symbolOf, version]

namespace Built.Copies

variable {v : Versions} {ts us : List String} {built : Built Empty}

theorem andThen {first : Built Empty} {next : Versions → Built Empty}
    (start : first.Fits v ts) (rest : (next first.1).Fits first.1 us)
    (head : first.Copies v ts) (tail : (next first.1).Copies first.1 us) :
    (first.andThen next).Copies v (ts ++ us) where
  untouched := by
    intro y defines outside
    have left : stem y ∉ ts := fun h => outside (List.mem_append_left _ h)
    have right : stem y ∉ us := fun h => outside (List.mem_append_right _ h)
    rcases Stream.defines_append.mp defines with early | late
    · exact (head.untouched y early left).mono (List.subset_append_left ..)
    · rw [← start.symbolOf_eq left]
      exact (tail.untouched y late right).mono (List.subset_append_right ..)
  final := by
    intro x member
    have last : Stream.last? x (first.andThen next).2 =
        (Stream.last? x (next first.1).2).or (Stream.last? x first.2) := Stream.last?_append ..
    rw [last]
    by_cases late : x ∈ us
    · obtain ⟨y, found, copy⟩ := tail.final x late
      rw [found]
      exact ⟨y, rfl, copy.mono (List.subset_append_right ..)⟩
    · have current : (first.andThen next).1.symbolOf x = first.1.symbolOf x := rest.symbolOf_eq late
      rw [current]
      cases found : Stream.last? x (next first.1).2 with
      | none =>
        obtain ⟨y, before, copy⟩ := head.final x ((List.mem_append.mp member).resolve_right late)
        exact ⟨y, before, copy.mono (List.subset_append_left ..)⟩
      | some y =>
        -- defined once more, by a loop that leaves it alone
        obtain ⟨rfl, defines⟩ := Stream.defines_of_last? found
        exact ⟨y, rfl, (tail.untouched y defines late).mono (List.subset_append_right ..)⟩

theorem untouch {xs : List String} (copies : built.Copies (v.touchAll xs) ts) :
    built.Copies v ts := by
  have same : (v.touchAll xs).symbolOf = v.symbolOf := by
    funext x
    simp [Versions.symbolOf]
  obtain ⟨untouched, final⟩ := copies
  rw [same] at untouched
  exact ⟨untouched, final⟩

theorem of_no_definitions (none : ∀ y, ¬ Stream.Defines built.2 y) : built.Copies v [] :=
  ⟨fun y defines => absurd defines (none y), fun _ member => absurd member List.not_mem_nil⟩

end Built.Copies

theorem Assign.build_copies (a : Assign Empty) (v : Versions) :
    (a.build v).Copies v [a.target] := by
  have target : (a.build v).1.symbolOf a.target = symbol a.target (v.count a.target + 1) := by
    unfold Versions.symbolOf
    rw [a.version_build, if_pos rfl]
  refine ⟨?_, ?_⟩
  · rintro y ⟨i, member, defined⟩ outside
    rw [a.stream_build] at member
    obtain rfl := List.mem_singleton.mp member
    obtain rfl := Option.some.inj defined
    rw [stem_symbol] at outside
    exact absurd (List.mem_singleton_self _) outside
  · intro x member
    obtain rfl := List.mem_singleton.mp member
    refine ⟨_, ?_, .refl⟩
    rw [target, a.stream_build]
    simp [Stream.last?, Instr.defined?]

theorem BranchParts.copies {v : Versions} {guard : Expr Empty} {t e joined : Built Empty}
    {ts es : List String} (parts : BranchParts v guard t e joined ts es) (ht : t.Copies v ts)
    (he : e.Copies (t.1.restore v.current) es) :
    Built.Copies v (joined.1, t.2 ++ e.2 ++ joined.2) (ts ++ es) where
  untouched := by
    intro y defines outside
    rcases Stream.defines_append.mp defines with inArms | inJoin
    · rcases Stream.defines_append.mp inArms with inThen | inElse
      · have copy := ht.untouched y inThen fun h => outside (List.mem_append_left _ h)
        exact copy.mono fun i member => by simp [member]
      · have copy := he.untouched y inElse fun h => outside (List.mem_append_right _ h)
        exact copy.mono fun i member => by simp [member]
    · obtain ⟨x, differ, rfl⟩ := parts.merged.defines_iff.mp inJoin
      rw [Versions.stem_symbolOf] at outside
      exact absurd (parts.touched differ) outside
  final := by
    intro x member
    refine ⟨joined.1.symbolOf x, ?_, .refl⟩
    rw [Stream.last?_append, parts.merged.last (parts.differs member)]
    rfl

theorem LoopParts.copies {v : Versions} {guard : Expr Empty} {entered settled : Versions}
    {body exits : Built Empty} {ts : List String}
    (parts : LoopParts v guard entered body settled exits ts) (hb : body.Copies entered ts) :
    Built.Copies v (exits.1, v.current.keys.map (entryPhi v.current entered body.1) ++ body.2 ++
      exits.2) ts where
  untouched := by
    -- the entry of a name that the body leaves alone copies the symbol from before the loop
    have entry : ∀ x, x ∉ ts → Stream.CopyOf (v.current.keys.map
        (entryPhi v.current entered body.1)) (entered.symbolOf x) (v.symbolOf x) := by
      intro x outside
      unfold Versions.symbolOf
      by_cases live : x ∈ v.current.keys
      · have phi := parts.entries x live
        rw [if_neg outside] at phi
        rw [(parts.entered_spec x).1, if_pos live]
        refine .single ?_
        rw [← phi]
        exact List.mem_map_of_mem live
      · rw [(parts.entered_spec x).1, if_neg live]
        exact .refl
    intro y defines outside
    have within := (entry _ outside).mono
      (List.subset_append_of_subset_left exits.2 (List.subset_append_left _ body.2))
    rcases Stream.defines_append.mp defines with inside | atExit
    · rcases Stream.defines_append.mp inside with atEntry | inBody
      · obtain ⟨x, rfl⟩ := defines_entries atEntry
        rw [Versions.stem_symbolOf] at within ⊢
        exact within
      · have copy := hb.untouched y inBody outside
        exact (copy.mono fun i member => by simp [member]).trans within
    · obtain ⟨x, differ, rfl⟩ := parts.merged.defines_iff.mp atExit
      rw [Versions.stem_symbolOf] at outside
      exact absurd (parts.touched differ) outside
  final := by
    intro x member
    refine ⟨exits.1.symbolOf x, ?_, .refl⟩
    rw [Stream.last?_append, parts.merged.last (parts.differs member)]
    rfl

namespace Stmt

mutual

theorem build_copies (path : List (Expr Empty)) (v : Versions) (s : Stmt Empty) (sound : v.Sound)
    (known : ∀ g ∈ path, g.Reads v.count) : (build path v s).Copies v s.targets := by
  match s with
  | .assign a =>
    unfold build targets
    exact a.build_copies v
  | .assert c =>
    unfold build targets
    refine .of_no_definitions ?_
    rintro y ⟨i, member, defined⟩
    obtain rfl := List.mem_singleton.mp member
    contradiction
  | .branch c t e =>
    unfold build targets
    obtain ⟨joined, parts, built⟩ := buildBranch_parts c sound known
      (fun path v => buildAll_fits path v t) (fun path v => buildAll_fits path v e)
    rw [built]
    rw [← Versions.count_touchAll v c.names] at known
    have restored := parts.thenFits.restored parts.sound
    have later : (c.versioned v).not.Reads _ := fun y member =>
      (parts.reads y member).mono parts.thenFits.grows
    exact (parts.copies
      (buildAll_copies _ _ t parts.sound (reads_guarded known parts.reads))
      (buildAll_copies _ _ e restored
        (reads_guarded (reads_grown parts.thenFits.grows known) later))).untouch
  | .whileLoop c b =>
    unfold build targets
    obtain ⟨settled, exits, parts, built⟩ := buildLoop_parts c sound known
      (fun path v => buildAll_fits path v b)
    rw [built]
    rw [← Versions.count_touchAll v c.names] at known
    exact (parts.copies (buildAll_copies _ _ b parts.entered_sound
      (reads_grown parts.entered_grows (reads_guarded known parts.reads)))).untouch
  | .forLoop i c u b =>
    unfold build targets
    have first := i.build_fits sound
    have bodyCopies : ∀ path v, v.Sound → (∀ g ∈ path, g.Reads v.count) →
        ((buildAll path v b).andThen u.build).Copies v (targetsAll b ++ [u.target]) := by
      intro path v sound known
      have body := buildAll_fits path v b sound known
      exact .andThen body (u.build_fits body.sound) (buildAll_copies path v b sound known)
        (u.build_copies _)
    have later := reads_grown first.grows known
    obtain ⟨settled, exits, parts, built⟩ := buildLoop_parts c first.sound later
      fun path v => buildRound_fits path v b u
    rw [← Versions.count_touchAll _ c.names] at later
    have loop := parts.copies (bodyCopies _ _ parts.entered_sound
      (reads_grown parts.entered_grows (reads_guarded later parts.reads)))
    have fits := parts.fits
    rw [← built] at loop fits
    exact Built.Copies.andThen first fits.untouch (i.build_copies v) loop.untouch

theorem buildAll_copies (path : List (Expr Empty)) (v : Versions) (p : List (Stmt Empty))
    (sound : v.Sound) (known : ∀ g ∈ path, g.Reads v.count) :
    (buildAll path v p).Copies v (targetsAll p) := by
  match p with
  | [] =>
    unfold buildAll targetsAll
    exact .of_no_definitions fun y ⟨i, member, _⟩ => absurd member List.not_mem_nil
  | s :: rest =>
    unfold buildAll targetsAll
    have first := build_fits path v s sound known
    have grown := reads_grown first.grows known
    exact .andThen first (buildAll_fits path _ rest first.sound grown)
      (build_copies path v s sound known) (buildAll_copies path _ rest first.sound grown)

end

end Stmt

/-- The output symbol of a name is a copy of its current symbol. -/
theorem Program.last_copies (p : Program Empty) {x : String} (target : x ∈ Stmt.targetsAll p) :
    ∃ y, Stream.last? x p.stream = some y ∧
      p.stream.CopyOf y (p.construct.versions.symbolOf x) :=
  (Stmt.buildAll_copies [] .empty p Versions.sound_empty fun _ member => nomatch member).final x
    target

end Assay
