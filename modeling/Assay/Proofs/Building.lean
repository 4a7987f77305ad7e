import Assay.Proofs.Numbering

/-! How a program's stream is built. What a statement does to the versions depends only on the
names it assigns: those end on a version given inside it, all others on the one they had. -/
namespace Assay

namespace Versions

/-- Names stand once, and no version is ahead of its count. -/
structure Sound (v : Versions) : Prop where
  distinct : v.current.keys.Nodup
  bounded : ∀ x, v.version x ≤ v.count x

theorem sound_empty : Sound empty := ⟨List.nodup_nil, fun _ => Nat.le_refl _⟩

@[simp] theorem version_touch (v : Versions) (x : String) : (v.touch x).version = v.version := by
  funext y
  by_cases same : x = y
  · subst same
    cases found : v.current.get? x <;> simp [touch, version, found]
  · simp [touch, version, same]

@[simp] theorem count_touch (v : Versions) (x : String) : (v.touch x).count = v.count := rfl

theorem Sound.touch {v : Versions} (sound : v.Sound) (x : String) : (v.touch x).Sound := by
  refine ⟨?_, by simpa using sound.bounded⟩
  change (v.current.putNew x 0).keys.Nodup
  rw [Entries.keys_putNew]
  exact Entries.nodup_keys_put x 0 _ sound.distinct

@[simp] theorem version_touchAll (v : Versions) (xs : List String) :
    (v.touchAll xs).version = v.version := by
  induction xs generalizing v with
  | nil => rfl
  | cons x xs ih =>
    change ((v.touch x).touchAll xs).version = _
    rw [ih, version_touch]

@[simp] theorem count_touchAll (v : Versions) (xs : List String) :
    (v.touchAll xs).count = v.count := by
  induction xs generalizing v with
  | nil => rfl
  | cons x xs ih =>
    change ((v.touch x).touchAll xs).count = _
    rw [ih, count_touch]

theorem Sound.touchAll {v : Versions} (sound : v.Sound) (xs : List String) :
    (v.touchAll xs).Sound := by
  induction xs generalizing v with
  | nil => exact sound
  | cons x xs ih => exact ih (sound.touch x)

theorem version_bump (v : Versions) (x y : String) :
    (v.bump x).version y = if x = y then v.count x + 1 else v.version y := by
  by_cases same : x = y <;> simp [bump, version, same]

@[simp] theorem count_bump (v : Versions) (x : String) : (v.bump x).count = Counts.bump v.count x := by
  funext y
  by_cases same : x = y <;> simp [bump, count, Counts.bump, same]

theorem Sound.bump {v : Versions} (sound : v.Sound) (x : String) : (v.bump x).Sound := by
  refine ⟨Entries.nodup_keys_put x _ _ sound.distinct, ?_⟩
  intro y
  rw [version_bump, count_bump]
  by_cases same : x = y
  · subst same
    simp
  · simpa [Counts.bump, same] using sound.bounded y

theorem bumpAll_spec (v : Versions) (xs : List String) (distinct : xs.Nodup) (x : String) :
    (v.bumpAll xs).version x = (if x ∈ xs then v.count x + 1 else v.version x) ∧
    (v.bumpAll xs).count x = (if x ∈ xs then v.count x + 1 else v.count x) := by
  induction xs generalizing v with
  | nil => simp [bumpAll]
  | cons y ys ih =>
    obtain ⟨absent, distinct⟩ := List.nodup_cons.mp distinct
    change ((v.bump y).bumpAll ys).version x = _ ∧ ((v.bump y).bumpAll ys).count x = _
    rw [(ih (v.bump y) distinct).1, (ih (v.bump y) distinct).2, version_bump, count_bump]
    by_cases same : y = x
    · subst same
      simp [absent]
    · by_cases inside : x ∈ ys <;> simp [inside, same, Ne.symm same, Counts.bump]

theorem Sound.bumpAll {v : Versions} (sound : v.Sound) (xs : List String) :
    (v.bumpAll xs).Sound := by
  induction xs generalizing v with
  | nil => exact sound
  | cons x xs ih => exact ih (sound.bump x)

theorem version_eq_zero {v : Versions} {x : String} (absent : x ∉ v.current.keys) :
    v.version x = 0 := by
  have none : v.current.get? x = none := by
    simpa [Entries.mem_keys] using absent
  simp [version, none]

theorem reads_versioned {v : Versions} (sound : v.Sound) (e : Expr Empty) :
    (e.versioned v).Reads v.count := by
  intro y member
  rw [Expr.versioned, Expr.names_mapNames] at member
  obtain ⟨x, -, rfl⟩ := List.mem_map.mp member
  exact ⟨x, v.version x, rfl, sound.bounded x⟩

end Versions

namespace Stmt

mutual

def targets : Stmt Empty → List String
  | .assign a => [a.target]
  | .assert _ => []
  | .branch _ t e => targetsAll t ++ targetsAll e
  | .whileLoop _ b => targetsAll b
  | .forLoop i _ u b => i.target :: (targetsAll b ++ [u.target])

def targetsAll : List (Stmt Empty) → List String
  | [] => []
  | s :: rest => targets s ++ targetsAll rest

end

end Stmt

theorem reads_grown {path : List (Expr Empty)} {c c' : Counts} (grows : ∀ x, c x ≤ c' x)
    (known : ∀ g ∈ path, g.Reads c) : ∀ g ∈ path, g.Reads c' :=
  fun g member y read => (known g member y read).mono grows

theorem reads_guarded {path : List (Expr Empty)} {c : Counts} {guard : Expr Empty}
    (known : ∀ g ∈ path, g.Reads c) (reads : guard.Reads c) : ∀ g ∈ path ++ [guard], g.Reads c := by
  intro g member
  rcases List.mem_append.mp member with member | member
  · exact known g member
  · obtain rfl := List.mem_singleton.mp member
    exact reads

/-- Versions and instructions of a piece of program that assigns the given names. -/
structure Built.Fits (v : Versions) (built : Built Empty) (targets : List String) : Prop where
  numbered : Numbered v.count built.2 built.1.count
  sound : built.1.Sound
  changed : ∀ x ∈ targets, v.count x < built.1.version x
  unchanged : ∀ x, x ∉ targets → built.1.version x = v.version x

theorem Built.Fits.grows {v : Versions} {built : Built Empty} {targets : List String}
    (fits : built.Fits v targets) (x : String) : v.count x ≤ built.1.count x :=
  fits.numbered.grows x

theorem Built.Fits.restored {v : Versions} {built : Built Empty} {targets : List String}
    (fits : built.Fits v targets) (sound : v.Sound) : (built.1.restore v.current).Sound :=
  ⟨sound.distinct, fun x => Nat.le_trans (sound.bounded x) (fits.grows x)⟩

theorem Built.Fits.andThen {v : Versions} {first : Built Empty} {next : Versions → Built Empty}
    {ts us : List String} (fits : first.Fits v ts) (more : (next first.1).Fits first.1 us) :
    (first.andThen next).Fits v (ts ++ us) where
  numbered := fits.numbered.append more.numbered
  sound := more.sound
  changed := by
    intro x member
    change v.count x < (next first.1).1.version x
    by_cases later : x ∈ us
    · exact Nat.lt_of_le_of_lt (fits.grows x) (more.changed x later)
    · have early : x ∈ ts := (List.mem_append.mp member).resolve_right later
      rw [more.unchanged x later]
      exact fits.changed x early
  unchanged := by
    intro x absent
    have outside := fun h => absent (List.mem_append.mpr h)
    exact (more.unchanged x fun h => outside (.inr h)).trans
      (fits.unchanged x fun h => outside (.inl h))

/-- Phis for the names on which two sets of versions differ. Joins behind a branch and exits of a
loop are both of this form. -/
def merge (guard : Expr Empty) (a b : String → Nat) : List String → Versions → Built Empty
  | [], v => (v, [])
  | x :: xs, v =>
    if a x = b x then merge guard a b xs v
    else
      let more := merge guard a b xs (v.bump x)
      (more.1, .phi ((v.bump x).symbolOf x) [symbol x (a x), symbol x (b x)] (some guard) :: more.2)

theorem joinArms_eq_merge (guard : Expr Empty) (t e : Versions) (xs : List String) (v : Versions) :
    joinArms guard t.current e.current xs v = merge guard t.version e.version xs v := by
  induction xs generalizing v with
  | nil => rfl
  | cons x xs ih =>
    unfold joinArms merge
    simp only [ih]
    rfl

theorem exitPhis_eq_merge (guard : Expr Empty) (before after : Versions) (entries : Entries Nat)
    (v : Versions) (current : ∀ x n, (x, n) ∈ entries → after.version x = n) :
    exitPhis guard before.current entries v =
      merge guard before.version after.version entries.keys v := by
  induction entries generalizing v with
  | nil => rfl
  | cons entry entries ih =>
    obtain ⟨x, n⟩ := entry
    have head : after.version x = n := current x n (List.mem_cons_self ..)
    have tail := fun v => ih v fun y k member => current y k (List.mem_cons_of_mem _ member)
    unfold exitPhis merge
    simp only [tail, Versions.version, Entries.keys_cons] at head ⊢
    simp only [head, eq_comm (a := n)]

/-- What merging leaves behind: one phi for each name on which the versions differ. -/
structure Merged (guard : Expr Empty) (a b : String → Nat) (v : Versions) (built : Built Empty) :
    Prop where
  numbered : Numbered v.count built.2 built.1.count
  sound : built.1.Sound
  differing : ∀ x, a x ≠ b x →
    built.1.version x = v.count x + 1 ∧ built.1.count x = v.count x + 1 ∧
      .phi (symbol x (v.count x + 1)) [symbol x (a x), symbol x (b x)] (some guard) ∈ built.2
  equal : ∀ x, a x = b x →
    built.1.version x = v.version x ∧ built.1.count x = v.count x
  only : ∀ i ∈ built.2, ∃ x, a x ≠ b x ∧
    i = .phi (symbol x (v.count x + 1)) [symbol x (a x), symbol x (b x)] (some guard)

theorem merge_steps (guard : Expr Empty) (a b : String → Nat) (xs : List String) (v : Versions)
    (distinct : xs.Nodup) (sound : v.Sound) (reads : guard.Reads v.count)
    (left : ∀ x, a x ≤ v.count x) (right : ∀ x, b x ≤ v.count x) :
    let built := merge guard a b xs v
    Numbered v.count built.2 built.1.count ∧ built.1.Sound ∧
    (∀ x ∈ xs, a x ≠ b x →
      built.1.version x = v.count x + 1 ∧ built.1.count x = v.count x + 1 ∧
        .phi (symbol x (v.count x + 1)) [symbol x (a x), symbol x (b x)] (some guard) ∈ built.2) ∧
    (∀ x, x ∉ xs ∨ a x = b x →
      built.1.version x = v.version x ∧ built.1.count x = v.count x) ∧
    (∀ i ∈ built.2, ∃ x ∈ xs, a x ≠ b x ∧
      i = .phi (symbol x (v.count x + 1)) [symbol x (a x), symbol x (b x)] (some guard)) := by
  induction xs generalizing v with
  | nil =>
    refine ⟨.nil, sound, ?_, fun _ _ => ⟨rfl, rfl⟩, ?_⟩
    · intro x member
      contradiction
    · intro i member
      contradiction
  | cons y ys ih =>
    obtain ⟨absent, distinct⟩ := List.nodup_cons.mp distinct
    by_cases same : a y = b y
    · obtain ⟨numbered, stays, differing, equal, only⟩ := ih v distinct sound reads left right
      simp only [merge, if_pos same]
      refine ⟨numbered, stays, ?_, ?_, ?_⟩
      · intro x member ne
        rcases List.mem_cons.mp member with rfl | member
        · exact absurd same ne
        · exact differing x member ne
      · rintro x (outside | eq)
        · exact equal x (.inl fun h => outside (List.mem_cons_of_mem _ h))
        · exact equal x (.inr eq)
      · intro i member
        obtain ⟨x, inside, ne, shape⟩ := only i member
        exact ⟨x, List.mem_cons_of_mem _ inside, ne, shape⟩
    · have grows : ∀ x, v.count x ≤ (v.bump y).count x := fun x => by
        rw [Versions.count_bump]
        exact Counts.le_bump _ y x
      obtain ⟨numbered, stays, differing, equal, only⟩ := ih (v.bump y) distinct (sound.bump y)
        (fun z member => (reads z member).mono grows)
        (fun x => Nat.le_trans (left x) (grows x)) (fun x => Nat.le_trans (right x) (grows x))
      have head : (v.bump y).symbolOf y = symbol y (v.count y + 1) := by
        simp [Versions.symbolOf, Versions.version_bump]
      have other : ∀ x ∈ ys, (v.bump y).count x = v.count x := by
        intro x member
        have ne : y ≠ x := by
          rintro rfl
          exact absent member
        simp [Counts.bump, ne]
      simp only [merge, if_neg same, head]
      refine ⟨.join (left y) (right y) same reads (by simpa using numbered), stays, ?_, ?_, ?_⟩
      · intro x member ne
        rcases List.mem_cons.mp member with rfl | member
        · obtain ⟨version, count⟩ := equal x (.inl absent)
          refine ⟨?_, ?_, List.mem_cons_self ..⟩
          · rw [version, Versions.version_bump, if_pos rfl]
          · rw [count, Versions.count_bump, Counts.bump_self]
        · have facts := differing x member ne
          rw [other x member] at facts
          exact ⟨facts.1, facts.2.1, List.mem_cons_of_mem _ facts.2.2⟩
      · intro x unchanged
        have ne : y ≠ x := by
          rintro rfl
          exact unchanged.elim (fun h => h (List.mem_cons_self ..)) same
        have rest : x ∉ ys ∨ a x = b x :=
          unchanged.imp (fun h inside => h (List.mem_cons_of_mem _ inside)) id
        obtain ⟨version, count⟩ := equal x rest
        rw [version, count, Versions.version_bump, if_neg ne, Versions.count_bump]
        simp [Counts.bump, ne]
      · intro i member
        rcases List.mem_cons.mp member with rfl | member
        · exact ⟨y, List.mem_cons_self .., same, rfl⟩
        · obtain ⟨x, inside, ne, shape⟩ := only i member
          rw [other x inside] at shape
          exact ⟨x, List.mem_cons_of_mem _ inside, ne, shape⟩

theorem merge_merged (guard : Expr Empty) (a b : String → Nat) (xs : List String) (v : Versions)
    (distinct : xs.Nodup) (covers : ∀ x, x ∉ xs → a x = b x) (sound : v.Sound)
    (reads : guard.Reads v.count) (left : ∀ x, a x ≤ v.count x) (right : ∀ x, b x ≤ v.count x) :
    Merged guard a b v (merge guard a b xs v) := by
  obtain ⟨numbered, stays, differing, equal, only⟩ :=
    merge_steps guard a b xs v distinct sound reads left right
  refine ⟨numbered, stays, ?_, fun x same => equal x (.inr same), ?_⟩
  · intro x ne
    by_cases inside : x ∈ xs
    · exact differing x inside ne
    · exact absurd (covers x inside) ne
  · intro i member
    obtain ⟨x, -, ne, shape⟩ := only i member
    exact ⟨x, ne, shape⟩

theorem joinNames_nodup {t e : Versions} (ht : t.Sound) (he : e.Sound) :
    (joinNames t.current e.current).Nodup := by
  refine List.nodup_append.mpr ⟨ht.distinct, he.distinct.filter _, ?_⟩
  rintro x left y right rfl
  have outside := (List.mem_filter.mp right).2
  have inside := Entries.mem_keys.mp left
  cases found : t.current.get? x <;> simp_all [Entries.has]

theorem joinNames_covers {t e : Versions} {x : String}
    (absent : x ∉ joinNames t.current e.current) : t.version x = e.version x := by
  have left : x ∉ t.current.keys := fun h => absent (List.mem_append_left _ h)
  have right : x ∉ e.current.keys := by
    intro h
    apply absent
    refine List.mem_append_right _ (List.mem_filter.mpr ⟨h, ?_⟩)
    have none : t.current.get? x = none := by simpa [Entries.mem_keys] using left
    simp [Entries.has, none]
  rw [Versions.version_eq_zero left, Versions.version_eq_zero right]

/-- The parts of a branch: its arms run one after the other from the versions before it, then the
versions at their ends are merged. -/
structure BranchParts (v : Versions) (guard : Expr Empty) (t e joined : Built Empty)
    (ts es : List String) : Prop where
  sound : v.Sound
  reads : guard.Reads v.count
  thenFits : t.Fits v ts
  elseFits : e.Fits (t.1.restore v.current) es
  merged : Merged guard t.1.version e.1.version e.1 joined

theorem buildBranch_parts (cond : Expr Empty) {path : List (Expr Empty)} {v : Versions}
    {runThen runElse : List (Expr Empty) → Versions → Built Empty} {ts es : List String}
    (sound : v.Sound) (known : ∀ g ∈ path, g.Reads v.count)
    (thenFits : ∀ path v, v.Sound → (∀ g ∈ path, g.Reads v.count) → (runThen path v).Fits v ts)
    (elseFits : ∀ path v, v.Sound → (∀ g ∈ path, g.Reads v.count) → (runElse path v).Fits v es) :
    let guard := cond.versioned v
    let before := v.touchAll cond.names
    let t := runThen (path ++ [guard]) before
    let e := runElse (path ++ [guard.not]) (t.1.restore before.current)
    ∃ joined, BranchParts before guard t e joined ts es ∧
      buildBranch cond path v runThen runElse = (joined.1, t.2 ++ e.2 ++ joined.2) := by
  intro guard before t e
  have beforeSound : before.Sound := sound.touchAll _
  have guardReads : guard.Reads before.count := by
    have reads := Versions.reads_versioned sound cond
    rwa [← Versions.count_touchAll v cond.names] at reads
  have pathReads : ∀ g ∈ path, g.Reads before.count := by
    rw [Versions.count_touchAll]
    exact known
  have ht : t.Fits before ts := thenFits _ _ beforeSound (reads_guarded pathReads guardReads)
  have later : guard.Reads t.1.count := fun y member => (guardReads y member).mono ht.grows
  have he : e.Fits (t.1.restore before.current) es :=
    elseFits _ _ (ht.restored beforeSound) (reads_guarded (reads_grown ht.grows pathReads) later)
  refine ⟨_, ⟨beforeSound, guardReads, ht, he, ?_⟩, rfl⟩
  rw [joinArms_eq_merge]
  refine merge_merged guard _ _ _ _ (joinNames_nodup ht.sound he.sound)
    (fun x => joinNames_covers) he.sound ?_ ?_ he.sound.bounded
  · exact fun y member => (later y member).mono he.grows
  · exact fun x => Nat.le_trans (ht.sound.bounded x) (he.grows x)

namespace BranchParts

variable {v : Versions} {guard : Expr Empty} {t e joined : Built Empty} {ts es : List String}

theorem differs (parts : BranchParts v guard t e joined ts es) {x : String}
    (member : x ∈ ts ++ es) : t.1.version x ≠ e.1.version x := by
  have bounded : t.1.version x ≤ t.1.count x := parts.thenFits.sound.bounded x
  by_cases inElse : x ∈ es
  · have after : t.1.count x < e.1.version x := parts.elseFits.changed x inElse
    omega
  · have inThen : x ∈ ts := (List.mem_append.mp member).resolve_right inElse
    have after : v.count x < t.1.version x := parts.thenFits.changed x inThen
    have before : e.1.version x = v.version x := parts.elseFits.unchanged x inElse
    have low := parts.sound.bounded x
    omega

theorem agrees (parts : BranchParts v guard t e joined ts es) {x : String}
    (absent : x ∉ ts ++ es) : t.1.version x = v.version x ∧ e.1.version x = v.version x := by
  have outside := fun h => absent (List.mem_append.mpr h)
  exact ⟨parts.thenFits.unchanged x fun h => outside (.inl h),
    parts.elseFits.unchanged x fun h => outside (.inr h)⟩

theorem touched (parts : BranchParts v guard t e joined ts es) {x : String}
    (differ : t.1.version x ≠ e.1.version x) : x ∈ ts ++ es := by
  by_cases inside : x ∈ ts ++ es
  · exact inside
  · obtain ⟨left, right⟩ := parts.agrees inside
    exact absurd (left.trans right.symm) differ

theorem fits (parts : BranchParts v guard t e joined ts es) :
    Built.Fits v (joined.1, t.2 ++ e.2 ++ joined.2) (ts ++ es) where
  numbered := (parts.thenFits.numbered.append parts.elseFits.numbered).append parts.merged.numbered
  sound := parts.merged.sound
  changed := by
    intro x member
    obtain ⟨version, -⟩ := parts.merged.differing x (parts.differs member)
    have first : v.count x ≤ t.1.count x := parts.thenFits.grows x
    have second : t.1.count x ≤ e.1.count x := parts.elseFits.grows x
    change v.count x < joined.1.version x
    omega
  unchanged := by
    intro x absent
    obtain ⟨left, right⟩ := parts.agrees absent
    obtain ⟨version, -⟩ := parts.merged.equal x (left.trans right.symm)
    exact version.trans right

end BranchParts

theorem entries_numbered (before entered back : Versions) (xs : List String) (c c' : Counts)
    (body : Stream Empty) (distinct : xs.Nodup)
    (given : ∀ x ∈ xs, entered.version x = c x + 1) (low : ∀ x, before.version x ≤ c x)
    (later : ∀ x ∈ xs, back.version x ≠ entered.version x → c x + 1 < back.version x)
    (bound : ∀ x, back.version x ≤ c' x)
    (rest : ∀ d : Counts, (∀ x, d x = if x ∈ xs then c x + 1 else c x) → Numbered d body c') :
    Numbered c (xs.map (entryPhi before.current entered back) ++ body) c' := by
  -- each entry counts one name up, and the body comes after all of them
  induction xs generalizing c with
  | nil => exact rest c fun x => by simp
  | cons y ys ih =>
    obtain ⟨absent, distinct⟩ := List.nodup_cons.mp distinct
    have other : ∀ x ∈ ys, c.bump y x = c x := by
      intro x member
      have ne : y ≠ x := by
        rintro rfl
        exact absent member
      simp [Counts.bump, ne]
    have tail : Numbered (c.bump y) (ys.map (entryPhi before.current entered back) ++ body) c' := by
      apply ih (c.bump y) distinct
      · intro x member
        rw [other x member]
        exact given x (List.mem_cons_of_mem _ member)
      · exact fun x => Nat.le_trans (low x) (Counts.le_bump c y x)
      · intro x member
        rw [other x member]
        exact later x (List.mem_cons_of_mem _ member)
      · intro d counts
        apply rest d
        intro x
        rw [counts x]
        by_cases same : y = x
        · subst same
          simp [absent]
        · by_cases inside : x ∈ ys <;> simp [inside, Counts.bump, same, Ne.symm same]
    have head := given y (List.mem_cons_self ..)
    have first : (entryPhi before.current entered back y : Instr Empty) =
        if back.version y = entered.version y then
          .phi (symbol y (c y + 1)) [symbol y (before.version y)] none
        else .phi (symbol y (c y + 1)) [symbol y (before.version y), symbol y (back.version y)] none := by
      unfold entryPhi Versions.symbolOf
      rw [head]
      rfl
    rw [List.map_cons, List.cons_append, first]
    split
    · exact .copy (low y) tail
    · rename_i ne
      exact .entry (low y) (later y (List.mem_cons_self ..) ne) (bound y) tail

theorem settle_spec (before entered left : Versions) (distinct : left.current.keys.Nodup) :
    (settle before.current entered left).current.keys.Nodup ∧
    (settle before.current entered left).count = left.count ∧
    ∀ x, (settle before.current entered left).version x =
      if x ∈ before.current.keys ∧ left.version x = entered.version x then before.version x
      else left.version x := by
  have steps : ∀ (xs : List String) (v : Versions), v.current.keys.Nodup →
      let settled := xs.foldl (fun v name =>
        if left.version name = entered.version name then
          { v with current := v.current.put name ((before.current.get? name).getD 0) }
        else v) v
      settled.current.keys.Nodup ∧ settled.count = v.count ∧
      ∀ x, settled.version x =
        if x ∈ xs ∧ left.version x = entered.version x then before.version x else v.version x := by
    intro xs
    induction xs with
    | nil =>
      intro v distinct
      exact ⟨distinct, rfl, fun x => by simp⟩
    | cons y ys ih =>
      intro v distinct
      rw [List.foldl_cons]
      by_cases kept : left.version y = entered.version y
      · rw [if_pos kept]
        obtain ⟨keys, counts, versions⟩ := ih
          { v with current := v.current.put y ((before.current.get? y).getD 0) }
          (Entries.nodup_keys_put _ _ _ distinct)
        refine ⟨keys, counts, fun x => ?_⟩
        have put : ({ v with current := v.current.put y ((before.current.get? y).getD 0) } :
            Versions).version x = if y = x then before.version y else v.version x := by
          by_cases same : y = x <;> simp [Versions.version, same]
        rw [versions x, put]
        by_cases same : y = x
        · subst same
          simp [kept]
        · simp [same, Ne.symm same]
      · rw [if_neg kept]
        obtain ⟨keys, counts, versions⟩ := ih v distinct
        refine ⟨keys, counts, fun x => ?_⟩
        rw [versions x]
        by_cases same : y = x
        · subst same
          simp [kept]
        · simp [Ne.symm same]
  exact steps before.current.keys left distinct

/-- The parts of a loop: every live name enters on a version of its own, the body runs once, names
it leaves alone get their old version back and the others are merged with it. -/
structure LoopParts (v : Versions) (guard : Expr Empty) (entered : Versions)
    (body : Built Empty) (settled : Versions) (exits : Built Empty) (ts : List String) : Prop where
  sound : v.Sound
  reads : guard.Reads v.count
  entered_eq : entered = v.bumpAll v.current.keys
  bodyFits : body.Fits entered ts
  settled_count : settled.count = body.1.count
  settled_changed : ∀ x ∈ ts, settled.version x = body.1.version x
  settled_unchanged : ∀ x, x ∉ ts → settled.version x = v.version x
  merged : Merged guard.not v.version settled.version settled exits
  entries : ∀ x ∈ v.current.keys, (entryPhi v.current entered body.1 x : Instr Empty) =
    if x ∈ ts then
      .phi (symbol x (v.count x + 1)) [symbol x (v.version x), symbol x (body.1.version x)] none
    else .phi (symbol x (v.count x + 1)) [symbol x (v.version x)] none

theorem Built.Fits.moved {v : Versions} {built : Built Empty} {ts : List String}
    (fits : built.Fits v ts) (sound : v.Sound) {x : String} (member : x ∈ ts) :
    built.1.version x ≠ v.version x := by
  have above := fits.changed x member
  have low := sound.bounded x
  omega

section Loops

variable {before : Versions} {body : Built Empty} {ts : List String}

theorem count_entered (sound : before.Sound) (x : String) :
    before.count x ≤ (before.bumpAll before.current.keys).count x := by
  rw [(before.bumpAll_spec _ sound.distinct x).2]
  split <;> omega

theorem settle_body (sound : before.Sound)
    (fits : body.Fits (before.bumpAll before.current.keys) ts) :
    let settled := settle before.current (before.bumpAll before.current.keys) body.1
    settled.Sound ∧ settled.count = body.1.count ∧
      (∀ x ∈ ts, settled.version x = body.1.version x) ∧
      ∀ x, x ∉ ts → settled.version x = before.version x := by
  intro settled
  obtain ⟨keys, counts, versions⟩ := settle_spec before (before.bumpAll before.current.keys) body.1
    fits.sound.distinct
  have changed : ∀ x ∈ ts, settled.version x = body.1.version x := by
    intro x member
    rw [versions x, if_neg fun h => fits.moved (sound.bumpAll _) member h.2]
  have unchanged : ∀ x, x ∉ ts → settled.version x = before.version x := by
    intro x absent
    have same := fits.unchanged x absent
    rw [versions x]
    by_cases live : x ∈ before.current.keys
    · rw [if_pos ⟨live, same⟩]
    · rw [if_neg fun h => live h.1, same, (before.bumpAll_spec _ sound.distinct x).1, if_neg live]
  refine ⟨⟨keys, fun x => ?_⟩, counts, changed, unchanged⟩
  rw [counts]
  by_cases member : x ∈ ts
  · rw [changed x member]
    exact fits.sound.bounded x
  · rw [unchanged x member]
    exact Nat.le_trans (sound.bounded x) (Nat.le_trans (count_entered sound x) (fits.grows x))

theorem exitPhis_merged (sound : before.Sound)
    (fits : body.Fits (before.bumpAll before.current.keys) ts) {guard : Expr Empty}
    (reads : guard.Reads before.count) :
    let settled := settle before.current (before.bumpAll before.current.keys) body.1
    Merged guard before.version settled.version settled
      (exitPhis guard before.current settled.current settled) := by
  intro settled
  obtain ⟨settles, counts, changed, unchanged⟩ := settle_body sound fits
  have total : ∀ x, before.count x ≤ settled.count x := by
    intro x
    rw [counts]
    exact Nat.le_trans (count_entered sound x) (fits.grows x)
  have covers : ∀ x, x ∉ settled.current.keys → before.version x = settled.version x := by
    intro x absent
    have zero := Versions.version_eq_zero absent
    by_cases member : x ∈ ts
    · have above := fits.changed x member
      rw [← changed x member, zero] at above
      exact absurd above (Nat.not_lt_zero _)
    · exact (unchanged x member).symm
  have current : ∀ x n, (x, n) ∈ settled.current → settled.version x = n := by
    intro x n member
    have found : settled.current.get? x = some n := Entries.get?_of_mem settles.distinct member
    rw [Versions.version, found, Option.getD_some]
  rw [exitPhis_eq_merge guard before settled _ _ current]
  exact merge_merged guard _ _ _ _ settles.distinct covers settles
    (fun y member => (reads y member).mono total)
    (fun x => Nat.le_trans (sound.bounded x) (total x)) settles.bounded

theorem entryPhi_eq (sound : before.Sound)
    (fits : body.Fits (before.bumpAll before.current.keys) ts) {x : String}
    (live : x ∈ before.current.keys) :
    (entryPhi before.current (before.bumpAll before.current.keys) body.1 x : Instr Empty) =
      if x ∈ ts then
        .phi (symbol x (before.count x + 1))
          [symbol x (before.version x), symbol x (body.1.version x)] none
      else .phi (symbol x (before.count x + 1)) [symbol x (before.version x)] none := by
  have given : (before.bumpAll before.current.keys).version x = before.count x + 1 := by
    rw [(before.bumpAll_spec _ sound.distinct x).1, if_pos live]
  unfold entryPhi Versions.symbolOf
  by_cases inside : x ∈ ts
  · rw [if_pos inside, if_neg (fits.moved (sound.bumpAll _) inside), given]
    rfl
  · rw [if_neg inside, if_pos (fits.unchanged x inside), given]
    rfl

end Loops

theorem buildLoop_parts (cond : Expr Empty) {path : List (Expr Empty)} {v : Versions}
    {run : List (Expr Empty) → Versions → Built Empty} {ts : List String}
    (sound : v.Sound) (known : ∀ g ∈ path, g.Reads v.count)
    (bodyFits : ∀ path v, v.Sound → (∀ g ∈ path, g.Reads v.count) → (run path v).Fits v ts) :
    let guard := cond.versioned v
    let before := v.touchAll cond.names
    let entered := before.bumpAll before.current.keys
    let body := run (path ++ [guard]) entered
    ∃ settled exits, LoopParts before guard entered body settled exits ts ∧
      buildLoop cond path v run =
        (exits.1, before.current.keys.map (entryPhi before.current entered body.1) ++ body.2 ++
          exits.2) := by
  intro guard before entered body
  have beforeSound : before.Sound := sound.touchAll _
  have guardReads : guard.Reads before.count := by
    have reads := Versions.reads_versioned sound cond
    rwa [← Versions.count_touchAll v cond.names] at reads
  have pathReads : ∀ g ∈ path, g.Reads before.count := by
    rw [Versions.count_touchAll]
    exact known
  have fits : body.Fits entered ts := bodyFits _ _ (beforeSound.bumpAll _)
    (reads_grown (count_entered beforeSound) (reads_guarded pathReads guardReads))
  obtain ⟨-, counts, changed, unchanged⟩ := settle_body beforeSound fits
  have notReads : guard.not.Reads before.count := guardReads
  exact ⟨settle before.current entered body.1, _,
    ⟨beforeSound, guardReads, rfl, fits, counts, changed, unchanged,
      exitPhis_merged beforeSound fits notReads, fun x live => entryPhi_eq beforeSound fits live⟩,
    rfl⟩

namespace LoopParts

variable {v : Versions} {guard : Expr Empty} {entered settled : Versions}
  {body exits : Built Empty} {ts : List String}

theorem entered_spec (parts : LoopParts v guard entered body settled exits ts) (x : String) :
    (entered.version x = if x ∈ v.current.keys then v.count x + 1 else v.version x) ∧
      entered.count x = if x ∈ v.current.keys then v.count x + 1 else v.count x := by
  rw [parts.entered_eq]
  exact v.bumpAll_spec _ parts.sound.distinct x

theorem entered_sound (parts : LoopParts v guard entered body settled exits ts) :
    entered.Sound := by
  rw [parts.entered_eq]
  exact parts.sound.bumpAll _

theorem entered_grows (parts : LoopParts v guard entered body settled exits ts) (x : String) :
    v.count x ≤ entered.count x := by
  rw [(parts.entered_spec x).2]
  split <;> omega

theorem differs (parts : LoopParts v guard entered body settled exits ts) {x : String}
    (member : x ∈ ts) : v.version x ≠ settled.version x := by
  have above : entered.count x < body.1.version x := parts.bodyFits.changed x member
  have same := parts.settled_changed x member
  have low := parts.sound.bounded x
  have grows := parts.entered_grows x
  omega

theorem touched (parts : LoopParts v guard entered body settled exits ts) {x : String}
    (differ : v.version x ≠ settled.version x) : x ∈ ts := by
  by_cases inside : x ∈ ts
  · exact inside
  · exact absurd (parts.settled_unchanged x inside).symm differ

theorem fits (parts : LoopParts v guard entered body settled exits ts) :
    Built.Fits v (exits.1, v.current.keys.map (entryPhi v.current entered body.1) ++ body.2 ++
      exits.2) ts where
  numbered := by
    have last := parts.merged.numbered
    rw [parts.settled_count] at last
    refine (entries_numbered v entered body.1 _ v.count _ body.2 parts.sound.distinct ?_
      parts.sound.bounded ?_ parts.bodyFits.sound.bounded ?_).append last
    · intro x live
      rw [(parts.entered_spec x).1, if_pos live]
    · intro x live moved
      have inside : x ∈ ts := by
        by_cases inside : x ∈ ts
        · exact inside
        · exact absurd (parts.bodyFits.unchanged x inside) moved
      have above : entered.count x < body.1.version x := parts.bodyFits.changed x inside
      rwa [(parts.entered_spec x).2, if_pos live] at above
    · intro d counts
      have same : d = entered.count := funext fun x => (counts x).trans (parts.entered_spec x).2.symm
      rw [same]
      exact parts.bodyFits.numbered
  sound := parts.merged.sound
  changed := by
    intro x member
    obtain ⟨version, -⟩ := parts.merged.differing x (parts.differs member)
    have grows : entered.count x ≤ body.1.count x := parts.bodyFits.grows x
    have first := parts.entered_grows x
    rw [parts.settled_count] at version
    change v.count x < exits.1.version x
    omega
  unchanged := by
    intro x absent
    have same := parts.settled_unchanged x absent
    exact (parts.merged.equal x same.symm).1.trans same

end LoopParts

theorem Built.Fits.untouch {v : Versions} {xs ts : List String} {built : Built Empty}
    (fits : built.Fits (v.touchAll xs) ts) : built.Fits v ts where
  numbered := by
    have numbered := fits.numbered
    rwa [Versions.count_touchAll] at numbered
  sound := fits.sound
  changed := by
    have changed := fits.changed
    rwa [Versions.count_touchAll] at changed
  unchanged := by
    have unchanged := fits.unchanged
    rwa [Versions.version_touchAll] at unchanged

theorem Assign.version_build (a : Assign Empty) (v : Versions) (x : String) :
    (a.build v).1.version x = if a.target = x then v.count x + 1 else v.version x := by
  unfold Assign.build
  rw [Versions.version_bump, Versions.version_touchAll, Versions.count_touchAll]
  by_cases same : a.target = x <;> simp [same]

theorem Assign.stream_build (a : Assign Empty) (v : Versions) :
    (a.build v).2 = [.assign (symbol a.target (v.count a.target + 1)) (a.value.versioned v)] := by
  have target := a.version_build v a.target
  rw [if_pos rfl] at target
  rw [← target]
  rfl

theorem Assign.build_fits (a : Assign Empty) {v : Versions} (sound : v.Sound) :
    (a.build v).Fits v [a.target] := by
  have count : (a.build v).1.count = Counts.bump v.count a.target := by
    simp [Assign.build]
  refine ⟨?_, (sound.touchAll _).bump _, ?_, ?_⟩
  · rw [a.stream_build, count]
    exact .assign (Versions.reads_versioned sound _) .nil
  · intro x member
    obtain rfl := List.mem_singleton.mp member
    rw [a.version_build, if_pos rfl]
    exact Nat.lt_succ_self _
  · intro x absent
    rw [a.version_build, if_neg fun same => absent (List.mem_singleton.mpr same.symm)]

namespace Stmt

mutual

/-- Every statement is built into a numbered stream that gives new versions to just the names
which the statement assigns. -/
theorem build_fits (path : List (Expr Empty)) (v : Versions) (s : Stmt Empty) (sound : v.Sound)
    (known : ∀ g ∈ path, g.Reads v.count) : (build path v s).Fits v s.targets := by
  match s with
  | .assign a =>
    unfold build targets
    exact a.build_fits sound
  | .assert c =>
    unfold build targets
    refine ⟨?_, sound.touchAll _, ?_, ?_⟩
    · rw [Versions.count_touchAll]
      exact .assert (Versions.reads_versioned sound c) known .nil
    · intro x member
      contradiction
    · intro x _
      rw [Versions.version_touchAll]
  | .branch c t e =>
    unfold build targets
    obtain ⟨joined, parts, same⟩ := buildBranch_parts c sound known
      (fun path v => buildAll_fits path v t) (fun path v => buildAll_fits path v e)
    rw [same]
    exact parts.fits.untouch
  | .whileLoop c b =>
    unfold build targets
    obtain ⟨settled, exits, parts, same⟩ := buildLoop_parts c sound known
      (fun path v => buildAll_fits path v b)
    rw [same]
    exact parts.fits.untouch
  | .forLoop i c u b =>
    unfold build targets
    have first := i.build_fits sound
    refine first.andThen ?_
    have bodyFits : ∀ path v, v.Sound → (∀ g ∈ path, g.Reads v.count) →
        ((buildAll path v b).andThen u.build).Fits v (targetsAll b ++ [u.target]) := by
      intro path v sound known
      have body := buildAll_fits path v b sound known
      exact body.andThen (u.build_fits body.sound)
    obtain ⟨settled, exits, parts, same⟩ := buildLoop_parts c first.sound
      (reads_grown first.grows known) bodyFits
    rw [same]
    exact parts.fits.untouch

theorem buildAll_fits (path : List (Expr Empty)) (v : Versions) (p : List (Stmt Empty))
    (sound : v.Sound) (known : ∀ g ∈ path, g.Reads v.count) :
    (buildAll path v p).Fits v (targetsAll p) := by
  match p with
  | [] =>
    unfold buildAll targetsAll
    exact ⟨.nil, sound, fun x member => absurd member List.not_mem_nil, fun _ _ => rfl⟩
  | s :: rest =>
    unfold buildAll targetsAll
    have first := build_fits path v s sound known
    exact first.andThen (buildAll_fits path _ rest first.sound (reads_grown first.grows known))

end

theorem buildRound_fits (path : List (Expr Empty)) (v : Versions) (b : List (Stmt Empty))
    (u : Assign Empty) (sound : v.Sound) (known : ∀ g ∈ path, g.Reads v.count) :
    ((buildAll path v b).andThen u.build).Fits v (targetsAll b ++ [u.target]) := by
  have body := buildAll_fits path v b sound known
  exact body.andThen (u.build_fits body.sound)

end Stmt

theorem Program.construct_fits (p : Program Empty) :
    Built.Fits .empty (p.construct.versions, p.stream) (Stmt.targetsAll p) :=
  Stmt.buildAll_fits [] .empty p Versions.sound_empty fun _ member => nomatch member

end Assay
