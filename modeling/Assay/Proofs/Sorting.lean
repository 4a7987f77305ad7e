import Assay.Proofs.Building
import Assay.Proofs.Interface
import Assay.Proofs.Values

/-! Sorts along a program. A phi gives its result the sort of its operands, so a name that is not
assigned keeps its sort, and a name that is assigned is an integer from then on. What is defined
last for an assigned name is an integer, even where assignments are left out. -/
namespace Assay

open Smt

@[simp] theorem Versions.stem_symbolOf (v : Versions) (x : String) : stem (v.symbolOf x) = x :=
  stem_symbol x _

def Stream.Defines (s : Stream Empty) (y : String) : Prop := ∃ i ∈ s, i.defined? = some y

namespace Stream

variable {s t : Stream Empty} {x y : String}

theorem defines_append : Defines (s ++ t) y ↔ Defines s y ∨ Defines t y := by
  simp only [Defines, List.mem_append, or_and_right, exists_or]

theorem assigns_append : Assigns (s ++ t) x ↔ Assigns s x ∨ Assigns t x := by
  simp only [Assigns, List.mem_append, or_and_right, exists_or]

theorem last?_of_defines (defines : Defines s y) (name : stem y = x) : ∃ z, last? x s = some z := by
  obtain ⟨i, member, defined⟩ := defines
  exact last?_of_defined member defined name

theorem defines_of_last? (last : last? x s = some y) : stem y = x ∧ Defines s y := last?_mem last

end Stream

structure Built.Typed (v : Versions) (built : Built Empty) (targets : List String) : Prop where
  assigned : ∀ x, Stream.Assigns built.2 x ↔ x ∈ targets
  carried : ∀ sorts, Stream.Sorted sorts built.2 → ∀ y, Stream.Defines built.2 y →
    stem y ∉ targets → sorts y = sorts (v.symbolOf (stem y))
  final : ∀ sorts, Stream.Sorted sorts built.2 → ∀ x ∈ targets,
    sorts (built.1.symbolOf x) = some .int
  stays : ∀ sorts, Stream.Sorted sorts built.2 → ∀ y, Stream.Defines built.2 y →
    sorts (v.symbolOf (stem y)) = some .int → sorts y = some .int
  last : ∀ sorts, Stream.Sorted sorts built.2 → ∀ keep : Instr Empty → Bool,
    (∀ i ∈ built.2, i.isAssign = false → keep i = true) →
    ∀ x y, Stream.Assigns (built.2.filter keep) x → Stream.last? x (built.2.filter keep) = some y →
      sorts y = some .int

theorem Stream.Assigns.of_filter {s : Stream Empty} {keep : Instr Empty → Bool} {x : String}
    (assigns : Assigns (s.filter keep) x) : Assigns s x := by
  obtain ⟨y, e, member, name⟩ := assigns
  exact ⟨y, e, (List.mem_filter.mp member).1, name⟩

theorem Stream.Defines.of_filter {s : Stream Empty} {keep : Instr Empty → Bool} {y : String}
    (defines : Defines (s.filter keep) y) : Defines s y := by
  obtain ⟨i, member, defined⟩ := defines
  exact ⟨i, (List.mem_filter.mp member).1, defined⟩

namespace Built.Typed

variable {v : Versions} {ts us : List String}

theorem andThen {first : Built Empty} {next : Versions → Built Empty}
    (start : first.Fits v ts) (rest : (next first.1).Fits first.1 us)
    (head : first.Typed v ts) (tail : (next first.1).Typed first.1 us) :
    (first.andThen next).Typed v (ts ++ us) where
  assigned := by
    intro x
    rw [List.mem_append, ← head.assigned, ← tail.assigned]
    exact Stream.assigns_append
  carried := by
    intro sorts sorted y defines outside
    obtain ⟨sorted₁, sorted₂⟩ := Stream.sorted_append.mp sorted
    have left : stem y ∉ ts := fun h => outside (List.mem_append_left _ h)
    have right : stem y ∉ us := fun h => outside (List.mem_append_right _ h)
    rcases Stream.defines_append.mp defines with early | late
    · exact head.carried sorts sorted₁ y early left
    · rw [tail.carried sorts sorted₂ y late right]
      unfold Versions.symbolOf
      rw [start.unchanged _ left]
  final := by
    intro sorts sorted x member
    obtain ⟨sorted₁, sorted₂⟩ := Stream.sorted_append.mp sorted
    by_cases late : x ∈ us
    · exact tail.final sorts sorted₂ x late
    · have early := (List.mem_append.mp member).resolve_right late
      have same : (first.andThen next).1.symbolOf x = first.1.symbolOf x := by
        unfold Versions.symbolOf
        exact congrArg (symbol x) (rest.unchanged x late)
      rw [same]
      exact head.final sorts sorted₁ x early
  stays := by
    intro sorts sorted y defines before
    obtain ⟨sorted₁, sorted₂⟩ := Stream.sorted_append.mp sorted
    rcases Stream.defines_append.mp defines with early | late
    · exact head.stays sorts sorted₁ y early before
    · apply tail.stays sorts sorted₂ y late
      by_cases target : stem y ∈ ts
      · exact head.final sorts sorted₁ _ target
      · unfold Versions.symbolOf
        rw [start.unchanged _ target]
        exact before
  last := by
    intro sorts sorted keep phis x y assigns last
    obtain ⟨sorted₁, sorted₂⟩ := Stream.sorted_append.mp sorted
    have phis₁ := fun i member => phis i (List.mem_append_left _ member)
    have phis₂ := fun i member => phis i (List.mem_append_right _ member)
    have split : (first.andThen next).2.filter keep =
        first.2.filter keep ++ (next first.1).2.filter keep := List.filter_append ..
    rw [split, Stream.assigns_append] at assigns
    rw [split, Stream.last?_append] at last
    rcases Option.or_eq_some_iff.mp last with late | ⟨none, early⟩
    · rcases assigns with before | after
      · obtain ⟨name, defines⟩ := Stream.defines_of_last? late
        apply tail.stays sorts sorted₂ y defines.of_filter
        rw [name]
        exact head.final sorts sorted₁ x ((head.assigned x).mp before.of_filter)
      · exact tail.last sorts sorted₂ keep phis₂ x y after late
    · rcases assigns with before | ⟨z, e, member, name⟩
      · exact head.last sorts sorted₁ keep phis₁ x y before early
      · obtain ⟨z', found⟩ := Stream.last?_of_defined member rfl name
        exact nomatch none.symm.trans found

end Built.Typed

theorem Assign.build_typed (a : Assign Empty) (v : Versions) :
    (a.build v).Typed v [a.target] := by
  have target : (a.build v).1.symbolOf a.target = symbol a.target (v.count a.target + 1) := by
    unfold Versions.symbolOf
    rw [a.version_build, if_pos rfl]
  have int : ∀ sorts, Stream.Sorted sorts (a.build v).2 →
      sorts (symbol a.target (v.count a.target + 1)) = some .int := by
    intro sorts sorted
    rw [a.stream_build] at sorted
    exact (sorted _ (List.mem_singleton_self _)).target
  have only : ∀ y, Stream.Defines (a.build v).2 y → y = symbol a.target (v.count a.target + 1) := by
    rintro y ⟨i, member, defined⟩
    rw [a.stream_build] at member
    obtain rfl := List.mem_singleton.mp member
    exact (Option.some.inj defined).symm
  refine ⟨?_, ?_, ?_, ?_, ?_⟩
  · intro x
    rw [a.stream_build]
    simp [Stream.Assigns, eq_comm]
  · intro sorts _ y defines outside
    rw [only y defines, stem_symbol] at outside
    exact absurd (List.mem_singleton_self _) outside
  · intro sorts sorted x member
    obtain rfl := List.mem_singleton.mp member
    rw [target]
    exact int sorts sorted
  · intro sorts sorted y defines _
    rw [only y defines]
    exact int sorts sorted
  · intro sorts sorted keep _ x y _ last
    rw [only y (Stream.defines_of_last? last).2.of_filter]
    exact int sorts sorted

theorem Merged.defines_iff {guard : Expr Empty} {a b : String → Nat} {w : Versions}
    {built : Built Empty} (merged : Merged guard a b w built) {y : String} :
    Stream.Defines built.2 y ↔ ∃ x, a x ≠ b x ∧ y = built.1.symbolOf x := by
  constructor
  · rintro ⟨i, member, defined⟩
    obtain ⟨x, differ, rfl⟩ := merged.only i member
    refine ⟨x, differ, ?_⟩
    unfold Versions.symbolOf
    rw [(merged.differing x differ).1]
    exact (Option.some.inj defined).symm
  · rintro ⟨x, differ, rfl⟩
    obtain ⟨version, -, member⟩ := merged.differing x differ
    refine ⟨_, member, ?_⟩
    unfold Versions.symbolOf
    rw [version]
    rfl

theorem Merged.sorts_eq {guard : Expr Empty} {a b : String → Nat} {w : Versions}
    {built : Built Empty} (merged : Merged guard a b w built) {sorts : Sorts}
    (sorted : Stream.Sorted sorts built.2) {x : String} (differ : a x ≠ b x) :
    sorts (symbol x (a x)) = sorts (built.1.symbolOf x) ∧
      sorts (symbol x (b x)) = sorts (built.1.symbolOf x) := by
  obtain ⟨version, -, member⟩ := merged.differing x differ
  unfold Versions.symbolOf
  rw [version]
  exact ⟨(sorted _ member).operand (by simp), (sorted _ member).operand (by simp)⟩

theorem Merged.not_assigns {guard : Expr Empty} {a b : String → Nat} {w : Versions}
    {built : Built Empty} (merged : Merged guard a b w built) (x : String) :
    ¬ Stream.Assigns built.2 x := by
  rintro ⟨y, e, member, -⟩
  obtain ⟨z, -, same⟩ := merged.only _ member
  exact nomatch same

theorem Merged.last_eq {guard : Expr Empty} {a b : String → Nat} {w : Versions}
    {built : Built Empty} (merged : Merged guard a b w built) (s : Stream Empty)
    {keep : Instr Empty → Bool} (phis : ∀ i ∈ s ++ built.2, i.isAssign = false → keep i = true)
    {x y : String} (differ : a x ≠ b x)
    (last : Stream.last? x ((s ++ built.2).filter keep) = some y) : y = built.1.symbolOf x := by
  have all : built.2.filter keep = built.2 := by
    refine List.filter_eq_self.mpr fun i member => phis i (List.mem_append_right _ member) ?_
    obtain ⟨z, -, rfl⟩ := merged.only i member
    rfl
  rw [List.filter_append, all, Stream.last?_append] at last
  obtain ⟨z, found⟩ := Stream.last?_of_defines (merged.defines_iff.mpr ⟨x, differ, rfl⟩)
    (stem_symbol x _)
  rw [found] at last
  cases last
  obtain ⟨name, defines⟩ := Stream.defines_of_last? found
  obtain ⟨x', -, rfl⟩ := merged.defines_iff.mp defines
  rw [show x = x' from (name.symm.trans (stem_symbol x' _))]

theorem BranchParts.typed {v : Versions} {guard : Expr Empty} {t e joined : Built Empty}
    {ts es : List String} (parts : BranchParts v guard t e joined ts es) (ht : t.Typed v ts)
    (he : e.Typed (t.1.restore v.current) es) :
    Built.Typed v (joined.1, t.2 ++ e.2 ++ joined.2) (ts ++ es) := by
  have final : ∀ sorts, Stream.Sorted sorts (t.2 ++ e.2 ++ joined.2) → ∀ x ∈ ts ++ es,
      sorts (joined.1.symbolOf x) = some .int := by
    intro sorts sorted x member
    obtain ⟨arms, join⟩ := Stream.sorted_append.mp sorted
    obtain ⟨sortedThen, sortedElse⟩ := Stream.sorted_append.mp arms
    obtain ⟨left, right⟩ := parts.merged.sorts_eq join (parts.differs member)
    rcases List.mem_append.mp member with inThen | inElse
    · exact left.symm.trans (ht.final sorts sortedThen x inThen)
    · exact right.symm.trans (he.final sorts sortedElse x inElse)
  have assigned : ∀ x, Stream.Assigns (t.2 ++ e.2 ++ joined.2) x ↔ x ∈ ts ++ es := by
    intro x
    rw [Stream.assigns_append, Stream.assigns_append, ht.assigned, he.assigned, List.mem_append]
    exact or_iff_left (parts.merged.not_assigns x)
  refine ⟨assigned, ?_, final, ?_, ?_⟩
  · intro sorts sorted y defines outside
    obtain ⟨arms, join⟩ := Stream.sorted_append.mp sorted
    obtain ⟨sortedThen, sortedElse⟩ := Stream.sorted_append.mp arms
    rcases Stream.defines_append.mp defines with inArms | inJoin
    · rcases Stream.defines_append.mp inArms with inThen | inElse
      · exact ht.carried sorts sortedThen y inThen fun h => outside (List.mem_append_left _ h)
      · exact he.carried sorts sortedElse y inElse fun h => outside (List.mem_append_right _ h)
    · obtain ⟨x, differ, rfl⟩ := parts.merged.defines_iff.mp inJoin
      rw [Versions.stem_symbolOf] at outside
      exact absurd (parts.touched differ) outside
  · intro sorts sorted y defines before
    obtain ⟨arms, -⟩ := Stream.sorted_append.mp sorted
    obtain ⟨sortedThen, sortedElse⟩ := Stream.sorted_append.mp arms
    rcases Stream.defines_append.mp defines with inArms | inJoin
    · rcases Stream.defines_append.mp inArms with inThen | inElse
      · exact ht.stays sorts sortedThen y inThen before
      · exact he.stays sorts sortedElse y inElse before
    · obtain ⟨x, differ, rfl⟩ := parts.merged.defines_iff.mp inJoin
      exact final sorts sorted x (parts.touched differ)
  · intro sorts sorted keep phis x y assigns last
    have member := (assigned x).mp assigns.of_filter
    rw [parts.merged.last_eq (t.2 ++ e.2) phis (parts.differs member) last]
    exact final sorts sorted x member

theorem entryPhi_eq_phi (before : Entries Nat) (entered left : Versions) (x : String) :
    ∃ xs, (entryPhi before entered left x : Instr Empty) = .phi (entered.symbolOf x) xs none := by
  unfold entryPhi
  dsimp only
  split <;> exact ⟨_, rfl⟩

theorem joinArms_phi {guard : Expr Empty} {afterThen afterElse : Entries Nat}
    {names : List String} {v : Versions} {i : Instr Empty}
    (member : i ∈ (joinArms guard afterThen afterElse names v).2) :
    ∃ x ∈ names, ∃ n k l, i = .phi (symbol x n) [symbol x k, symbol x l] (some guard) := by
  induction names generalizing v with
  | nil => contradiction
  | cons x names ih =>
    have later : ∀ {v}, i ∈ (joinArms guard afterThen afterElse names v).2 →
        ∃ y ∈ x :: names, ∃ n k l, i = .phi (symbol y n) [symbol y k, symbol y l] (some guard) := by
      intro v member
      obtain ⟨y, stands, shape⟩ := ih member
      exact ⟨y, List.mem_cons_of_mem _ stands, shape⟩
    unfold joinArms at member
    dsimp only at member
    split at member
    · exact later member
    · rcases List.mem_cons.mp member with rfl | member
      · exact ⟨x, List.mem_cons_self .., _, _, _, rfl⟩
      · exact later member

theorem exitPhis_phi {guard : Expr Empty} {before entries : Entries Nat} {v : Versions}
    {i : Instr Empty} (member : i ∈ (exitPhis guard before entries v).2) :
    ∃ x ∈ entries.keys, ∃ n k l, i = .phi (symbol x n) [symbol x k, symbol x l] (some guard) := by
  induction entries generalizing v with
  | nil => contradiction
  | cons entry entries ih =>
    have later : ∀ {v}, i ∈ (exitPhis guard before entries v).2 →
        ∃ x ∈ Entries.keys (entry :: entries), ∃ n k l,
          i = .phi (symbol x n) [symbol x k, symbol x l] (some guard) := by
      intro v member
      obtain ⟨x, stands, shape⟩ := ih member
      exact ⟨x, List.mem_cons_of_mem _ stands, shape⟩
    unfold exitPhis at member
    dsimp only at member
    split at member
    · exact later member
    · rcases List.mem_cons.mp member with rfl | member
      · exact ⟨entry.1, List.mem_cons_self .., _, _, _, rfl⟩
      · exact later member

theorem defines_entries {before : Entries Nat} {entered left : Versions} {xs : List String}
    {y : String} (defines : Stream.Defines (xs.map (entryPhi before entered left)) y) :
    ∃ x, y = entered.symbolOf x := by
  obtain ⟨i, member, defined⟩ := defines
  obtain ⟨x, -, rfl⟩ := List.mem_map.mp member
  obtain ⟨operands, shape⟩ := entryPhi_eq_phi before entered left x
  rw [shape] at defined
  exact ⟨x, (Option.some.inj defined).symm⟩

theorem LoopParts.entered_sort {v : Versions} {guard : Expr Empty} {entered settled : Versions}
    {body exits : Built Empty} {ts : List String}
    (parts : LoopParts v guard entered body settled exits ts) {sorts : Sorts}
    (sorted : Stream.Sorted sorts (v.current.keys.map (entryPhi v.current entered body.1)))
    (x : String) : sorts (entered.symbolOf x) = sorts (v.symbolOf x) := by
  obtain ⟨version, -⟩ := parts.entered_spec x
  unfold Versions.symbolOf
  by_cases live : x ∈ v.current.keys
  · have phi := sorted _ (List.mem_map_of_mem live)
    rw [parts.entries x live] at phi
    rw [version, if_pos live]
    split at phi
    · exact (phi.operand (List.mem_cons_self ..)).symm
    · exact (phi.operand (List.mem_cons_self ..)).symm
  · rw [version, if_neg live]

theorem LoopParts.typed {v : Versions} {guard : Expr Empty} {entered settled : Versions}
    {body exits : Built Empty} {ts : List String}
    (parts : LoopParts v guard entered body settled exits ts) (hb : body.Typed entered ts) :
    Built.Typed v (exits.1, v.current.keys.map (entryPhi v.current entered body.1) ++ body.2 ++
      exits.2) ts := by
  have final : ∀ sorts, Stream.Sorted sorts (v.current.keys.map (entryPhi v.current entered body.1) ++
      body.2 ++ exits.2) → ∀ x ∈ ts, sorts (exits.1.symbolOf x) = some .int := by
    intro sorts sorted x member
    obtain ⟨inner, outer⟩ := Stream.sorted_append.mp sorted
    obtain ⟨-, sortedBody⟩ := Stream.sorted_append.mp inner
    have right := (parts.merged.sorts_eq outer (parts.differs member)).2
    rw [parts.settled_changed x member] at right
    exact right.symm.trans (hb.final sorts sortedBody x member)
  have assigned : ∀ x, Stream.Assigns (v.current.keys.map (entryPhi v.current entered body.1) ++
      body.2 ++ exits.2) x ↔ x ∈ ts := by
    intro x
    rw [Stream.assigns_append, Stream.assigns_append, hb.assigned,
      or_iff_left (parts.merged.not_assigns x)]
    apply or_iff_right
    rintro ⟨y, e, member, -⟩
    obtain ⟨z, -, same⟩ := List.mem_map.mp member
    obtain ⟨xs, shape⟩ := entryPhi_eq_phi v.current entered body.1 z
    exact nomatch shape.symm.trans same
  refine ⟨assigned, ?_, final, ?_, ?_⟩
  · intro sorts sorted y defines outside
    obtain ⟨inner, -⟩ := Stream.sorted_append.mp sorted
    obtain ⟨sortedEntry, sortedBody⟩ := Stream.sorted_append.mp inner
    rcases Stream.defines_append.mp defines with inside | atExit
    · rcases Stream.defines_append.mp inside with atEntry | inBody
      · obtain ⟨x, rfl⟩ := defines_entries atEntry
        rw [Versions.stem_symbolOf]
        exact parts.entered_sort sortedEntry x
      · rw [hb.carried sorts sortedBody y inBody outside]
        exact parts.entered_sort sortedEntry _
    · obtain ⟨x, differ, rfl⟩ := parts.merged.defines_iff.mp atExit
      rw [Versions.stem_symbolOf] at outside
      exact absurd (parts.touched differ) outside
  · intro sorts sorted y defines before
    obtain ⟨inner, -⟩ := Stream.sorted_append.mp sorted
    obtain ⟨sortedEntry, sortedBody⟩ := Stream.sorted_append.mp inner
    rcases Stream.defines_append.mp defines with inside | atExit
    · rcases Stream.defines_append.mp inside with atEntry | inBody
      · obtain ⟨x, rfl⟩ := defines_entries atEntry
        rw [Versions.stem_symbolOf] at before
        exact (parts.entered_sort sortedEntry x).trans before
      · exact hb.stays sorts sortedBody y inBody ((parts.entered_sort sortedEntry _).trans before)
    · obtain ⟨x, differ, rfl⟩ := parts.merged.defines_iff.mp atExit
      exact final sorts sorted x (parts.touched differ)
  · intro sorts sorted keep phis x y assigns last
    have member := (assigned x).mp assigns.of_filter
    rw [parts.merged.last_eq _ phis (parts.differs member) last]
    exact final sorts sorted x member

theorem Built.Typed.of_no_definitions {v : Versions} {built : Built Empty}
    (none : ∀ y, ¬ Stream.Defines built.2 y) : built.Typed v [] where
  assigned := by
    intro x
    refine iff_of_false ?_ List.not_mem_nil
    rintro ⟨y, e, member, -⟩
    exact none y ⟨_, member, rfl⟩
  carried := fun _ _ y defines => absurd defines (none y)
  final := fun _ _ x member => absurd member List.not_mem_nil
  stays := fun _ _ y defines => absurd defines (none y)
  last := fun _ _ _ _ x y _ last => absurd (Stream.defines_of_last? last).2.of_filter (none y)

theorem Built.Typed.untouch {v : Versions} {xs ts : List String} {built : Built Empty}
    (typed : built.Typed (v.touchAll xs) ts) : built.Typed v ts := by
  have same : (v.touchAll xs).symbolOf = v.symbolOf := by
    funext x
    simp [Versions.symbolOf]
  obtain ⟨assigned, carried, final, stays, last⟩ := typed
  rw [same] at carried stays
  exact ⟨assigned, carried, final, stays, last⟩

namespace Stmt

mutual

theorem build_typed (path : List (Expr Empty)) (v : Versions) (s : Stmt Empty) (sound : v.Sound)
    (known : ∀ g ∈ path, g.Reads v.count) : (build path v s).Typed v s.targets := by
  match s with
  | .assign a =>
    unfold build targets
    exact a.build_typed v
  | .assert c =>
    unfold build targets
    refine .of_no_definitions ?_
    rintro y ⟨i, member, defined⟩
    obtain rfl := List.mem_singleton.mp member
    exact nomatch defined
  | .branch c t e =>
    unfold build targets
    obtain ⟨joined, parts, built⟩ := buildBranch_parts c sound known
      (fun path v => buildAll_fits path v t) (fun path v => buildAll_fits path v e)
    rw [built]
    rw [← Versions.count_touchAll v c.names] at known
    have later := fun y member => (parts.reads y member).mono parts.thenFits.grows
    exact (parts.typed
      (buildAll_typed _ _ t parts.sound (reads_guarded known parts.reads))
      (buildAll_typed _ _ e (parts.thenFits.restored parts.sound)
        (reads_guarded (reads_grown parts.thenFits.grows known) later))).untouch
  | .whileLoop c b =>
    unfold build targets
    obtain ⟨settled, exits, parts, built⟩ := buildLoop_parts c sound known
      (fun path v => buildAll_fits path v b)
    rw [built]
    rw [← Versions.count_touchAll v c.names] at known
    exact (parts.typed (buildAll_typed _ _ b parts.entered_sound
      (reads_grown parts.entered_grows (reads_guarded known parts.reads)))).untouch
  | .forLoop i c u b =>
    unfold build targets
    have first := i.build_fits sound
    have bodyTyped : ∀ path v, v.Sound → (∀ g ∈ path, g.Reads v.count) →
        ((buildAll path v b).andThen u.build).Typed v (targetsAll b ++ [u.target]) := by
      intro path v sound known
      have body := buildAll_fits path v b sound known
      exact .andThen body (u.build_fits body.sound) (buildAll_typed path v b sound known)
        (u.build_typed _)
    have later := reads_grown first.grows known
    obtain ⟨settled, exits, parts, built⟩ := buildLoop_parts c first.sound later
      fun path v => buildRound_fits path v b u
    rw [← Versions.count_touchAll _ c.names] at later
    have loop := parts.typed (bodyTyped _ _ parts.entered_sound
      (reads_grown parts.entered_grows (reads_guarded later parts.reads)))
    have fits := parts.fits
    rw [← built] at loop fits
    exact Built.Typed.andThen first fits.untouch (i.build_typed v) loop.untouch

theorem buildAll_typed (path : List (Expr Empty)) (v : Versions) (p : List (Stmt Empty))
    (sound : v.Sound) (known : ∀ g ∈ path, g.Reads v.count) :
    (buildAll path v p).Typed v (targetsAll p) := by
  match p with
  | [] =>
    unfold buildAll targetsAll
    refine .of_no_definitions ?_
    rintro y ⟨i, member, -⟩
    exact nomatch member
  | s :: rest =>
    unfold buildAll targetsAll
    have first := build_fits path v s sound known
    have later := reads_grown first.grows known
    exact Built.Typed.andThen first (buildAll_fits path _ rest first.sound later)
      (build_typed path v s sound known) (buildAll_typed path _ rest first.sound later)

end

theorem buildRound_typed (path : List (Expr Empty)) (v : Versions) (b : List (Stmt Empty))
    (u : Assign Empty) (sound : v.Sound) (known : ∀ g ∈ path, g.Reads v.count) :
    ((buildAll path v b).andThen u.build).Typed v (targetsAll b ++ [u.target]) := by
  have body := buildAll_fits path v b sound known
  exact .andThen body (u.build_fits body.sound) (buildAll_typed path v b sound known)
    (u.build_typed _)

end Stmt

end Assay
