import Assay.Proofs.Traversing

/-! The names that the versions hold along a program are the names met. Reading or assigning a name
makes it live; the arms of a branch both start from what is live before it, and behind it only the
second arm and the names that the phis join are left. -/
namespace Assay

theorem Entries.mem_keys_put {α : Type} (key x : String) (value : α) (m : Entries α) :
    x ∈ (m.put key value).keys ↔ x ∈ m.keys ∨ x = key := by
  rw [keys_put]
  split
  · rename_i there
    exact ⟨.inl, fun h => h.elim id fun same => same ▸ there⟩
  · rw [List.mem_append, List.mem_singleton]

namespace Versions

theorem mem_keys_touchAll (v : Versions) (xs : List String) (x : String) :
    x ∈ (v.touchAll xs).current.keys ↔ x ∈ v.current.keys ∨ x ∈ xs := by
  induction xs generalizing v with
  | nil => simp [touchAll]
  | cons y ys ih =>
    have step : x ∈ (v.touch y).current.keys ↔ x ∈ v.current.keys ∨ x = y := by
      change x ∈ (v.current.putNew y 0).keys ↔ _
      rw [Entries.keys_putNew, Entries.mem_keys_put]
    change x ∈ ((v.touch y).touchAll ys).current.keys ↔ _
    rw [ih, step, List.mem_cons, or_assoc]

theorem mem_keys_bump (v : Versions) (y x : String) :
    x ∈ (v.bump y).current.keys ↔ x ∈ v.current.keys ∨ x = y :=
  Entries.mem_keys_put y x _ v.current

theorem mem_keys_bumpAll (v : Versions) (xs : List String) (x : String) :
    x ∈ (v.bumpAll xs).current.keys ↔ x ∈ v.current.keys ∨ x ∈ xs := by
  induction xs generalizing v with
  | nil => simp [bumpAll]
  | cons y ys ih =>
    change x ∈ ((v.bump y).bumpAll ys).current.keys ↔ _
    rw [ih, mem_keys_bump, List.mem_cons, or_assoc]

theorem mem_keys_of_version {v : Versions} {x : String} (positive : 0 < v.version x) :
    x ∈ v.current.keys := by
  refine Classical.byContradiction fun absent => ?_
  rw [version_eq_zero absent] at positive
  exact Nat.lt_irrefl 0 positive

end Versions

theorem mem_keys_merge (guard : Expr Empty) (a b : String → Nat) (xs : List String) (v : Versions)
    (x : String) : x ∈ (merge guard a b xs v).1.current.keys ↔
      x ∈ v.current.keys ∨ (x ∈ xs ∧ a x ≠ b x) := by
  induction xs generalizing v with
  | nil => simp [merge]
  | cons y ys ih =>
    unfold merge
    by_cases same : a y = b y
    · rw [if_pos same, ih, List.mem_cons]
      refine or_congr_right ⟨fun h => ⟨.inr h.1, h.2⟩, ?_⟩
      rintro ⟨rfl | inside, differ⟩
      · exact absurd same differ
      · exact ⟨inside, differ⟩
    · rw [if_neg same]
      change x ∈ (merge guard a b ys (v.bump y)).1.current.keys ↔ _
      rw [ih, Versions.mem_keys_bump, or_assoc, List.mem_cons]
      refine or_congr_right ⟨?_, ?_⟩
      · rintro (rfl | ⟨inside, differ⟩)
        · exact ⟨.inl rfl, same⟩
        · exact ⟨.inr inside, differ⟩
      · rintro ⟨rfl | inside, differ⟩
        · exact .inl rfl
        · exact .inr ⟨inside, differ⟩

theorem mem_keys_settle (before : Entries Nat) (entered left : Versions) (x : String) :
    x ∈ (settle before entered left).current.keys ↔
      x ∈ left.current.keys ∨ (x ∈ before.keys ∧ left.version x = entered.version x) := by
  have steps : ∀ (xs : List String) (v : Versions), x ∈ (xs.foldl (fun v name =>
      if left.version name = entered.version name then
        { v with current := v.current.put name ((before.get? name).getD 0) }
      else v) v).current.keys ↔
        x ∈ v.current.keys ∨ (x ∈ xs ∧ left.version x = entered.version x) := by
    intro xs
    induction xs with
    | nil => simp
    | cons y ys ih =>
      intro v
      rw [List.foldl_cons, ih, List.mem_cons]
      split
      · rename_i same
        rw [Entries.mem_keys_put, or_assoc]
        refine or_congr_right ⟨?_, ?_⟩
        · rintro (rfl | ⟨inside, agrees⟩)
          · exact ⟨.inl rfl, same⟩
          · exact ⟨.inr inside, agrees⟩
        · rintro ⟨rfl | inside, agrees⟩
          · exact .inl rfl
          · exact .inr ⟨inside, agrees⟩
      · rename_i differs
        refine or_congr_right ⟨fun h => ⟨.inr h.1, h.2⟩, ?_⟩
        rintro ⟨rfl | inside, agrees⟩
        · exact absurd agrees differs
        · exact ⟨inside, agrees⟩
  exact steps before.keys left

theorem mem_keys_exitPhis (guard : Expr Empty) (before entries : Entries Nat) (v : Versions)
    (there : ∀ x ∈ entries.keys, x ∈ v.current.keys) (x : String) :
    x ∈ (exitPhis guard before entries v).1.current.keys ↔ x ∈ v.current.keys := by
  induction entries generalizing v with
  | nil => exact Iff.rfl
  | cons entry entries ih =>
    obtain ⟨y, n⟩ := entry
    have bumped : ∀ z, z ∈ (v.bump y).current.keys ↔ z ∈ v.current.keys := by
      intro z
      rw [Versions.mem_keys_bump]
      exact or_iff_left_of_imp fun same => same ▸ there y (List.mem_cons_self ..)
    have rest := fun z member => there z (List.mem_cons_of_mem _ member)
    unfold exitPhis
    dsimp only
    split
    · exact ih v rest
    · exact (ih (v.bump y) fun z member => (bumped z).mpr (rest z member)).trans (bumped x)

theorem Built.Fits.live {v : Versions} {built : Built Empty} {targets : List String}
    (fits : built.Fits v targets) {x : String} (member : x ∈ targets) :
    x ∈ built.1.current.keys :=
  Versions.mem_keys_of_version (Nat.lt_of_le_of_lt (Nat.zero_le _) (fits.changed x member))

/-- The names met are those that the versions hold. -/
def Versions.Tracks (v : Versions) (known : List String) : Prop :=
  ∀ x, x ∈ v.current.keys ↔ x ∈ known

theorem Versions.Tracks.touchAll {v : Versions} {known : List String} (tracks : v.Tracks known)
    (xs : List String) : (v.touchAll xs).Tracks (known ++ xs) := by
  intro x
  rw [Versions.mem_keys_touchAll, tracks x, List.mem_append]

theorem Assign.build_tracks (a : Assign Empty) {v : Versions} {known : List String}
    (tracks : v.Tracks known) : (a.build v).1.Tracks (known ++ a.value.names ++ [a.target]) := by
  intro x
  unfold Assign.build
  rw [Versions.mem_keys_bump, tracks.touchAll a.value.names x, List.mem_append (t := [a.target]),
    List.mem_singleton]

theorem buildBranch_tracks (cond : Expr Empty) {path : List (Expr Empty)} {v : Versions}
    {runThen runElse : List (Expr Empty) → Versions → Built Empty} {ts es known met : List String}
    (sound : v.Sound) (reads : ∀ g ∈ path, g.Reads v.count) (tracks : v.Tracks known)
    (thenFits : ∀ path v, v.Sound → (∀ g ∈ path, g.Reads v.count) → (runThen path v).Fits v ts)
    (elseFits : ∀ path v, v.Sound → (∀ g ∈ path, g.Reads v.count) → (runElse path v).Fits v es)
    (elseTracks : ∀ path v, v.Sound → (∀ g ∈ path, g.Reads v.count) →
      v.Tracks (known ++ cond.names) → (runElse path v).1.Tracks met) :
    (buildBranch cond path v runThen runElse).1.Tracks (met ++ ts) := by
  obtain ⟨joined, parts, -⟩ := buildBranch_parts cond sound reads thenFits elseFits
  rw [← Versions.count_touchAll v cond.names] at reads
  have later : (cond.versioned v).not.Reads _ := fun y member =>
    (parts.reads y member).mono parts.thenFits.grows
  have restored := parts.thenFits.restored parts.sound
  have afterElse := elseTracks _ _ restored
    (reads_guarded (reads_grown parts.thenFits.grows reads) later) (tracks.touchAll cond.names)
  intro x
  unfold buildBranch
  dsimp only
  rw [joinArms_eq_merge, mem_keys_merge, afterElse x, List.mem_append]
  constructor
  · rintro (old | ⟨-, differ⟩)
    · exact .inl old
    · rcases List.mem_append.mp (parts.touched differ) with inThen | inElse
      · exact .inr inThen
      · exact .inl ((afterElse x).mp (parts.elseFits.live inElse))
  · rintro (old | inThen)
    · exact .inl old
    · have differ := parts.differs (List.mem_append_left _ inThen)
      exact .inr ⟨Classical.byContradiction fun absent => differ (joinNames_covers absent), differ⟩

theorem buildLoop_tracks (cond : Expr Empty) {path : List (Expr Empty)} {v : Versions}
    {run : List (Expr Empty) → Versions → Built Empty} {ts known met : List String}
    (sound : v.Sound) (reads : ∀ g ∈ path, g.Reads v.count) (tracks : v.Tracks known)
    (bodyFits : ∀ path v, v.Sound → (∀ g ∈ path, g.Reads v.count) → (run path v).Fits v ts)
    (bodyTracks : ∀ path v, v.Sound → (∀ g ∈ path, g.Reads v.count) →
      v.Tracks (known ++ cond.names) → (run path v).1.Tracks met)
    (kept : known ++ cond.names ⊆ met) : (buildLoop cond path v run).1.Tracks met := by
  obtain ⟨settled, exits, parts, -⟩ := buildLoop_parts cond sound reads bodyFits
  rw [← Versions.count_touchAll v cond.names] at reads
  have before := tracks.touchAll cond.names
  have entered := fun x => (Versions.mem_keys_bumpAll (v.touchAll cond.names) _ x).trans
    (or_self_iff.trans (before x))
  have body := bodyTracks _ _ parts.entered_sound
    (reads_grown parts.entered_grows (reads_guarded reads parts.reads)) entered
  have there := fun x live => (body x).mpr (kept ((before x).mp live))
  intro x
  unfold buildLoop
  dsimp only
  rw [mem_keys_exitPhis _ _ _ _ fun y live => live, mem_keys_settle,
    or_iff_left_of_imp fun settled => there x settled.1]
  exact body x

namespace Stmt

mutual

theorem subset_met (known : List String) (s : Stmt Empty) : known ⊆ met known s := by
  match s with
  | .assign a =>
    intro x member
    simp [met, member]
  | .assert c =>
    intro x member
    simp [met, member]
  | .branch c t e =>
    intro x member
    exact List.mem_append_left _ (subset_metAll _ e (List.mem_append_left _ member))
  | .whileLoop c b =>
    intro x member
    exact subset_metAll _ b (List.mem_append_left _ member)
  | .forLoop i c u b =>
    intro x member
    have inside : x ∈ metAll (known ++ i.value.names ++ [i.target] ++ c.names) b :=
      subset_metAll _ b (by simp [member])
    exact List.mem_append_left _ (List.mem_append_left _ inside)

theorem subset_metAll (known : List String) (p : List (Stmt Empty)) : known ⊆ metAll known p := by
  match p with
  | [] => exact fun x member => member
  | s :: rest => exact fun x member => subset_metAll _ rest (subset_met known s member)

end

mutual

theorem build_tracks (path : List (Expr Empty)) (v : Versions) (s : Stmt Empty) (sound : v.Sound)
    (reads : ∀ g ∈ path, g.Reads v.count) {known : List String} (tracks : v.Tracks known) :
    (build path v s).1.Tracks (s.met known) := by
  match s with
  | .assign a =>
    unfold build met
    exact a.build_tracks tracks
  | .assert c =>
    unfold build met
    exact tracks.touchAll c.names
  | .branch c t e =>
    unfold build met
    exact buildBranch_tracks c sound reads tracks (fun path v => buildAll_fits path v t)
      (fun path v => buildAll_fits path v e)
      fun path v sound reads tracks => buildAll_tracks path v e sound reads tracks
  | .whileLoop c b =>
    unfold build met
    exact buildLoop_tracks c sound reads tracks (fun path v => buildAll_fits path v b)
      (fun path v sound reads tracks => buildAll_tracks path v b sound reads tracks)
      (subset_metAll _ b)
  | .forLoop i c u b =>
    unfold build met
    have first := i.build_fits sound
    have bodyTracks : ∀ path v, v.Sound → (∀ g ∈ path, g.Reads v.count) →
        v.Tracks (known ++ i.value.names ++ [i.target] ++ c.names) →
        ((buildAll path v b).andThen u.build).1.Tracks
          (metAll (known ++ i.value.names ++ [i.target] ++ c.names) b ++ u.value.names ++
            [u.target]) := by
      intro path v sound reads tracks
      have body := buildAll_tracks path v b sound reads tracks
      unfold Built.andThen
      exact u.build_tracks body
    have kept : known ++ i.value.names ++ [i.target] ++ c.names ⊆
        metAll (known ++ i.value.names ++ [i.target] ++ c.names) b ++ u.value.names ++
          [u.target] := fun x member =>
      List.mem_append_left _ (List.mem_append_left _ (subset_metAll _ b member))
    have loop := buildLoop_tracks c first.sound (reads_grown first.grows reads)
      (i.build_tracks tracks) (fun path v => buildRound_fits path v b u) bodyTracks kept
    exact loop

theorem buildAll_tracks (path : List (Expr Empty)) (v : Versions) (p : List (Stmt Empty))
    (sound : v.Sound) (reads : ∀ g ∈ path, g.Reads v.count) {known : List String}
    (tracks : v.Tracks known) : (buildAll path v p).1.Tracks (metAll known p) := by
  match p with
  | [] =>
    unfold buildAll metAll
    exact tracks
  | s :: rest =>
    unfold buildAll metAll
    have first := build_fits path v s sound reads
    have met := build_tracks path v s sound reads tracks
    unfold Built.andThen
    exact buildAll_tracks path _ rest first.sound (reads_grown first.grows reads) met

end

end Stmt

end Assay
