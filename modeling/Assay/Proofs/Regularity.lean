import Assay.Proofs.Folding
import Assay.Proofs.Sorting
import Assay.Proofs.Verification

/-! The streams of programs are regular, before and after simplification, once their versions are
short enough to be written. The last symbol defined for a name has the highest version, and in a
program without loops that is the current one. -/
namespace Assay

open Smt

namespace Numbered

variable {c c' : Counts} {s : Stream Empty}

/-- The forms that an instruction has, with all versions below the final counts. -/
inductive Shape (c : Counts) : Instr Empty → Prop where
  | assign {x : String} {n : Nat} {e : Expr Empty} :
      n ≤ c x → e.Reads c → Shape c (.assign (symbol x n) e)
  | assert {cond : Expr Empty} {path : List (Expr Empty)} :
      cond.Reads c → (∀ g ∈ path, g.Reads c) → Shape c (.assert cond path)
  | copy {x : String} {n k : Nat} :
      n ≤ c x → k ≤ c x → Shape c (.phi (symbol x n) [symbol x k] none)
  | pick {x : String} {n k l : Nat} {guard : Option (Expr Empty)} :
      n ≤ c x → k ≤ c x → l ≤ c x → (∀ g ∈ guard, g.Reads c) →
        Shape c (.phi (symbol x n) [symbol x k, symbol x l] guard)

theorem shape (numbered : Numbered c s c') {i : Instr Empty} (member : i ∈ s) : Shape c' i := by
  induction numbered with
  | nil => contradiction
  | @assign c c' s x e reads rest ih =>
    rcases List.mem_cons.mp member with rfl | member
    · have grows := rest.grows
      have next := grows x
      rw [Counts.bump_self] at next
      exact .assign next fun y read =>
        (reads y read).mono fun z => Nat.le_trans (Counts.le_bump c x z) (grows z)
    · exact ih member
  | @assert c c' s cond path reads guards rest ih =>
    rcases List.mem_cons.mp member with rfl | member
    · exact .assert (fun y read => (reads y read).mono rest.grows) (reads_grown rest.grows guards)
    · exact ih member
  | @copy c c' s x n low rest ih =>
    rcases List.mem_cons.mp member with rfl | member
    · have next := rest.grows x
      rw [Counts.bump_self] at next
      exact .copy next (by omega)
    · exact ih member
  | @entry c c' s x n k low later high rest ih =>
    rcases List.mem_cons.mp member with rfl | member
    · have next := rest.grows x
      rw [Counts.bump_self] at next
      exact .pick next (by omega) high fun g none => nomatch none
    · exact ih member
  | @join c c' s x n k g low high _ reads rest ih =>
    rcases List.mem_cons.mp member with rfl | member
    · have grows := rest.grows
      have next := grows x
      rw [Counts.bump_self] at next
      refine .pick next (by omega) (by omega) fun h inside y read => ?_
      obtain rfl := Option.mem_some.mp inside
      exact (reads y read).mono fun z => Nat.le_trans (Counts.le_bump c x z) (grows z)
    · exact ih member

theorem mentions_known (numbered : Numbered c s c') {y : String} (stands : y ∈ s.mentions) :
    Known c' y := by
  obtain ⟨i, member, stands⟩ := List.mem_flatMap.mp stands
  have named : ∀ {x n}, y = symbol x n → n ≤ c' x → Known c' y := fun same le => ⟨_, _, same, le⟩
  unfold Instr.mentions Instr.reads at stands
  cases numbered.shape member with
  | assign le reads =>
    simp only [Instr.defined?, Instr.operands, Instr.exprs, Option.toList_some, List.nil_append,
      List.flatMap_singleton, List.mem_append, List.mem_singleton] at stands
    rcases stands with target | read
    · exact named target le
    · exact reads y read
  | assert reads guards =>
    simp only [Instr.defined?, Instr.operands, Instr.exprs, Option.toList_none, List.nil_append,
      List.flatMap_cons, List.mem_append, List.mem_flatMap] at stands
    rcases stands with read | ⟨g, inside, read⟩
    · exact reads y read
    · exact guards g inside y read
  | copy le low =>
    simp only [Instr.defined?, Instr.operands, Instr.exprs, Option.toList_some, Option.toList_none,
      List.flatMap_nil, List.append_nil, List.mem_append, List.mem_singleton] at stands
    rcases stands with target | operand
    · exact named target le
    · exact named operand low
  | @pick x n k l guard le first second guards =>
    simp only [Instr.defined?, Instr.operands, Instr.exprs, Option.toList_some, List.mem_append,
      List.mem_cons, List.not_mem_nil, or_false, List.mem_flatMap, Option.mem_toList] at stands
    rcases stands with target | (left | right) | ⟨g, inside, read⟩
    · exact named target le
    · exact named left first
    · exact named right second
    · exact guards g inside y read

theorem operands (numbered : Numbered c s c') (r : String) (xs : List String)
    (guard : Option (Expr Empty)) (member : .phi r xs guard ∈ s) : xs.length = 1 ∨ xs.length = 2 := by
  cases numbered.shape member with
  | copy => exact .inl rfl
  | pick => exact .inr rfl

theorem guardsPick (numbered : Numbered c s c') {i : Instr Empty} (member : i ∈ s) :
    i.GuardsPick := by
  rintro r xs g rfl
  cases numbered.shape member with
  | pick => exact ⟨_, _, rfl⟩

theorem regular (numbered : Numbered (fun _ => 0) s c') (short : ∀ x, Text.isTooLong (c' x) = false) :
    s.Regular where
  symbols := by
    intro y stands
    obtain ⟨x, n, rfl, le⟩ := numbered.mentions_known stands
    exact ⟨x, n, rfl, Text.isTooLong_mono le (short x)⟩
  positive := by
    intro i member x defined
    obtain ⟨y, n, same, low, -⟩ := numbered.defined_between member defined
    obtain ⟨-, rfl⟩ := symbol_inj.mp same
    exact Nat.lt_irrefl 0 low
  guards := fun r xs g member => numbered.guardsPick member r xs g rfl
  names := by
    intro r xs guard member a operand
    cases numbered.shape member with
    | copy =>
      obtain rfl := List.mem_singleton.mp operand
      simp
    | pick =>
      rcases List.mem_cons.mp operand with rfl | operand
      · simp
      · obtain rfl := List.mem_singleton.mp operand
        simp
  operands := numbered.operands

theorem last (numbered : Numbered c s c') (x : String) :
    Stream.last? x s = if c x < c' x then some (symbol x (c' x)) else none := by
  have step : ∀ {c c' : Counts} {y : String} {s : Stream Empty} {i : Instr Empty},
      i.defined? = some (symbol y (c y + 1)) → Numbered (c.bump y) s c' →
      Stream.last? x s = (if c.bump y x < c' x then some (symbol x (c' x)) else none) →
      Stream.last? x (i :: s) = if c x < c' x then some (symbol x (c' x)) else none := by
    intro c c' y s i defines rest ih
    unfold Stream.last?
    have grows := rest.grows x
    rw [ih, defines, Option.filter_some, stem_symbol]
    unfold Counts.bump at grows ⊢
    by_cases same : y = x
    · subst same
      rw [if_pos rfl] at grows
      have given : c y < c' y := grows
      rw [if_pos rfl, if_pos given]
      -- a later definition of the name has a higher version and is the last one
      by_cases more : c y + 1 < c' y
      · rw [if_pos more]
        rfl
      · have only : c' y = c y + 1 := by omega
        rw [if_neg more, only]
        simp
    · simp [same]
  induction numbered with
  | nil => rw [if_neg (Nat.lt_irrefl _)]; rfl
  | assert _ _ _ ih => simp [Stream.last?, Instr.defined?, ih]
  | assign _ rest ih | copy _ rest ih | entry _ _ _ rest ih | join _ _ _ _ rest ih =>
    exact step rfl rest ih

end Numbered

theorem Expr.names_fold (known : Entries Int) {e : Expr Empty} {x : String}
    (named : x ∈ (e.fold known).names) : x ∈ e.names := by
  obtain ⟨k, used⟩ := exists_use_of_mem_names named
  exact mem_names_of_mem_uses (e.uses_fold known used)

namespace Stream

theorem mentions_simplified {s : Stream Empty} {y : String} (stands : y ∈ s.simplified.mentions) :
    y ∈ s.mentions := by
  obtain ⟨j, member, stands⟩ := List.mem_flatMap.mp stands
  obtain ⟨i, origin, rfl, -⟩ := mem_simplified.mp member
  refine List.mem_flatMap.mpr ⟨i, origin, ?_⟩
  unfold Instr.mentions Instr.reads at stands ⊢
  rw [Instr.defined?_fold, Instr.exprs_fold] at stands
  simp only [List.mem_append, List.mem_flatMap, List.mem_map] at stands ⊢
  rcases stands with defined | operand | ⟨f, ⟨e, part, rfl⟩, named⟩
  · exact .inl defined
  · refine .inr (.inl ?_)
    cases i <;> exact operand
  · exact .inr (.inr ⟨e, part, e.names_fold _ named⟩)

theorem phi_of_simplified {s : Stream Empty} {r : String} {xs : List String}
    {guard : Option (Expr Empty)} (member : .phi r xs guard ∈ s.simplified) :
    ∃ g, guard = g.map (Expr.fold (constants s)) ∧ .phi r xs g ∈ s := by
  obtain ⟨i, origin, same, -⟩ := mem_simplified.mp member
  cases i with
  | phi r' xs' g =>
    cases same
    exact ⟨g, rfl, origin⟩
  | assign | assert => contradiction
  | stray part => exact part.elim

theorem guardsPick_simplified {s : Stream Empty} (guards : ∀ i ∈ s, i.GuardsPick) :
    ∀ i ∈ s.simplified, i.GuardsPick := by
  rintro i member r xs g rfl
  obtain ⟨guard, same, origin⟩ := phi_of_simplified member
  obtain ⟨h, rfl, -⟩ := Option.map_eq_some_iff.mp same.symm
  exact guards _ origin r xs h rfl

theorem Regular.simplified {s : Stream Empty} (regular : s.Regular) : s.simplified.Regular where
  symbols := fun y stands => regular.symbols y (mentions_simplified stands)
  positive := by
    intro j member x
    obtain ⟨i, origin, rfl, -⟩ := mem_simplified.mp member
    rw [Instr.defined?_fold]
    exact regular.positive i origin x
  guards := by
    intro r xs g member
    obtain ⟨guard, same, origin⟩ := phi_of_simplified member
    obtain ⟨h, rfl, -⟩ := Option.map_eq_some_iff.mp same.symm
    exact regular.guards r xs h origin
  names := by
    intro r xs guard member
    obtain ⟨g, -, origin⟩ := phi_of_simplified member
    exact regular.names r xs g origin
  operands := by
    intro r xs guard member
    obtain ⟨g, -, origin⟩ := phi_of_simplified member
    exact regular.operands r xs g origin

end Stream

/-- Where no loop stands, assigned names are left with their highest version, and no version is
given to the others. -/
structure Built.Latest (v : Versions) (built : Built Empty) (targets : List String) : Prop where
  assigned : ∀ x ∈ targets, built.1.version x = built.1.count x
  others : ∀ x, x ∉ targets → built.1.count x = v.count x

theorem Assign.build_latest (a : Assign Empty) (v : Versions) :
    (a.build v).Latest v [a.target] := by
  have count : ∀ x, (a.build v).1.count x = Counts.bump v.count a.target x := by
    intro x
    unfold Assign.build
    rw [Versions.count_bump, Versions.count_touchAll]
  refine ⟨fun x member => ?_, fun x outside => ?_⟩
  · obtain rfl := List.mem_singleton.mp member
    rw [a.version_build, if_pos rfl, count, Counts.bump_self]
  · have other : a.target ≠ x := fun same => outside (List.mem_singleton.mpr same.symm)
    rw [count, Counts.bump, if_neg other]

theorem Built.Latest.andThen {v : Versions} {first : Built Empty}
    {next : Versions → Built Empty} {ts us : List String} (fits : (next first.1).Fits first.1 us)
    (head : first.Latest v ts) (tail : (next first.1).Latest first.1 us) :
    (first.andThen next).Latest v (ts ++ us) := by
  have early : ∀ x, x ∉ us → (next first.1).1.version x = first.1.version x ∧
      (next first.1).1.count x = first.1.count x :=
    fun x outside => ⟨fits.unchanged x outside, tail.others x outside⟩
  refine ⟨fun x member => ?_, fun x outside => ?_⟩
  · change (next first.1).1.version x = (next first.1).1.count x
    by_cases late : x ∈ us
    · exact tail.assigned x late
    · rw [(early x late).1, (early x late).2]
      exact head.assigned x ((List.mem_append.mp member).resolve_right late)
  · change (next first.1).1.count x = v.count x
    rw [List.mem_append, not_or] at outside
    rw [(early x outside.2).2, head.others x outside.1]

theorem BranchParts.latest {v : Versions} {guard : Expr Empty} {t e joined : Built Empty}
    {ts es : List String} (parts : BranchParts v guard t e joined ts es)
    (inThen : t.Latest v ts) (inElse : e.Latest (t.1.restore v.current) es) :
    Built.Latest v (joined.1, t.2 ++ e.2 ++ joined.2) (ts ++ es) := by
  refine ⟨fun x member => ?_, fun x outside => ?_⟩
  · obtain ⟨version, count, -⟩ := parts.merged.differing x (parts.differs member)
    exact version.trans count.symm
  · obtain ⟨afterThen, afterElse⟩ := parts.agrees outside
    rw [List.mem_append, not_or] at outside
    calc joined.1.count x
        = e.1.count x := (parts.merged.equal x (afterThen.trans afterElse.symm)).2
      _ = t.1.count x := inElse.others x outside.2
      _ = v.count x := inThen.others x outside.1

namespace Stmt

mutual

theorem build_latest (path : List (Expr Empty)) (v : Versions) (s : Stmt Empty)
    (flat : loopFree s = true) (sound : v.Sound) (known : ∀ g ∈ path, g.Reads v.count) :
    (build path v s).Latest v s.targets := by
  match s with
  | .assign a =>
    unfold build targets
    exact a.build_latest v
  | .assert c =>
    unfold build targets
    refine ⟨fun x member => absurd member List.not_mem_nil, fun x _ => ?_⟩
    rw [Versions.count_touchAll]
  | .branch c t e =>
    unfold build targets
    unfold loopFree at flat
    obtain ⟨flatThen, flatElse⟩ := Bool.and_eq_true_iff.mp flat
    obtain ⟨joined, parts, built⟩ := buildBranch_parts c sound known
      (fun path v => buildAll_fits path v t) (fun path v => buildAll_fits path v e)
    rw [built]
    rw [← Versions.count_touchAll v c.names] at known
    have restored := parts.thenFits.restored parts.sound
    have later : (c.versioned v).not.Reads _ := fun y member =>
      (parts.reads y member).mono parts.thenFits.grows
    have latest := parts.latest
      (buildAll_latest _ _ t flatThen parts.sound (reads_guarded known parts.reads))
      (buildAll_latest _ _ e flatElse restored
        (reads_guarded (reads_grown parts.thenFits.grows known) later))
    exact ⟨latest.assigned, by simpa using latest.others⟩

theorem buildAll_latest (path : List (Expr Empty)) (v : Versions) (p : List (Stmt Empty))
    (flat : loopFreeAll p = true) (sound : v.Sound) (known : ∀ g ∈ path, g.Reads v.count) :
    (buildAll path v p).Latest v (targetsAll p) := by
  match p with
  | [] =>
    unfold buildAll targetsAll
    exact ⟨fun x member => absurd member List.not_mem_nil, fun _ _ => rfl⟩
  | s :: rest =>
    unfold buildAll targetsAll
    unfold loopFreeAll at flat
    obtain ⟨head, tail⟩ := Bool.and_eq_true_iff.mp flat
    have first := build_fits path v s sound known
    have grown := reads_grown first.grows known
    exact .andThen (buildAll_fits path _ rest first.sound grown)
      (build_latest path v s head sound known)
      (buildAll_latest path _ rest tail first.sound grown)

end

end Stmt

theorem Construction.count_short {c : Construction Empty} (short : c.isTooLong = false)
    (x : String) : Text.isTooLong (c.versions.count x) = false := by
  unfold Versions.count
  cases found : c.versions.counters.get? x with
  | none => exact (Bool.not_eq_true _).mp fun long =>
      absurd ((Text.isTooLong_natCast 0).mp long) (by decide)
  | some n =>
    have each := List.any_eq_false.mp short (x, n) (Entries.mem_of_get? found)
    exact (Bool.not_eq_true _).mp each

namespace Program

theorem typed (p : Program Empty) :
    Built.Typed .empty (p.construct.versions, p.stream) (Stmt.targetsAll p) :=
  Stmt.buildAll_typed [] .empty p Versions.sound_empty fun _ member => nomatch member

theorem last_stream (p : Program Empty) (flat : p.LoopFree) {x : String}
    (target : x ∈ Stmt.targetsAll p) :
    Stream.last? x p.stream = some (p.construct.versions.symbolOf x) := by
  have latest := Stmt.buildAll_latest [] .empty p flat Versions.sound_empty
    fun _ member => nomatch member
  have same : p.construct.versions.version x = p.construct.versions.count x :=
    latest.assigned x target
  have written : 0 < p.construct.versions.version x := p.construct_fits.changed x target
  rw [p.numbered.last x, Versions.symbolOf, same, if_pos (same ▸ written)]

theorem regular_of_extended {p : Program Empty} {c : Construction Empty}
    (built : Construction.empty.extended p = .ok c) : c = p.construct ∧ p.stream.Regular := by
  unfold Construction.extended at built
  cases checked : firstFault (Stmt.buildFaultsAll p) with
  | error fault =>
    rw [checked] at built
    contradiction
  | ok =>
    rw [checked] at built
    by_cases long : (Construction.empty.extend p).isTooLong = true
    · rw [if_pos long] at built
      contradiction
    · rw [if_neg long] at built
      exact ⟨(Except.ok.inj built).symm,
        p.numbered.regular (Construction.count_short (Bool.not_eq_true _ ▸ long))⟩

end Program

end Assay
