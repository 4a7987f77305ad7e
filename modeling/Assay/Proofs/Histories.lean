import Assay.Proofs.Building

/-! Histories of the version bookkeeping. What was saved may be restored at any later time, as often
as one likes and in any order, but counts are never put back. So a name gets its versions one after
the other, no symbol is given twice, and whatever is current or saved was given before. -/
namespace Assay.Versions

def Step.fresh? : Step → Option String
  | .fresh x => some x
  | _ => none

def freshCount (x : String) (steps : List Step) : Nat := (steps.filterMap Step.fresh?).count x

theorem freshCount_cons (x : String) (s : Step) (steps : List Step) :
    freshCount x (s :: steps) = freshCount x [s] + freshCount x steps := by
  unfold freshCount
  rw [← List.singleton_append, List.filterMap_append, List.count_append]

namespace History

def after (h : History) : List Step → History
  | [] => h
  | s :: steps => (h.step s).1.after steps

def transcript (h : History) : List Step → List (Step × Reply)
  | [] => []
  | s :: steps => (s, (h.step s).2) :: (h.step s).1.transcript steps

def given? : Step × Reply → Option (String × String)
  | (.fresh x, .symbol s) => some (x, s)
  | _ => none

def given (h : History) (steps : List Step) : List (String × String) :=
  (h.transcript steps).filterMap given?

def freshSymbols (h : History) (steps : List Step) : List String :=
  (h.given steps).map Prod.snd

def freshSymbolsOf (h : History) (x : String) (steps : List Step) : List String :=
  ((h.given steps).filter (·.1 == x)).map Prod.snd

/-! One step. -/

theorem step_fresh (h : History) (x : String) :
    h.step (.fresh x) =
      ({ h with versions := h.versions.bump x }, .symbol (symbol x (h.versions.count x + 1))) := by
  simp [step, symbolOf, version_bump]

theorem step_current (h : History) (x : String) :
    h.step (.current x) =
      ({ h with versions := h.versions.touch x }, .symbol (symbol x (h.versions.version x))) := by
  simp [step, symbolOf]

theorem step_restore (h : History) (label : String) :
    h.step (.restore label) =
      ({ h with versions := (h.saved.get? label).elim h.versions h.versions.restore }, .done) := by
  dsimp only [step]
  cases h.saved.get? label <;> rfl

theorem count_step (h : History) (s : Step) (x : String) :
    (h.step s).1.versions.count x = h.versions.count x + freshCount x [s] := by
  cases s with
  | current y => rfl
  | save label => rfl
  | fresh y =>
    rw [step_fresh]
    by_cases same : y = x
    · subst same
      simp [freshCount, Step.fresh?]
    · simp [freshCount, Step.fresh?, Counts.bump, same]
  | restore label =>
    rw [step_restore]
    cases h.saved.get? label <;> rfl

theorem given_cons (h : History) (s : Step) (steps : List Step) :
    h.given (s :: steps) = h.given [s] ++ (h.step s).1.given steps := by
  unfold given
  rw [transcript, ← List.singleton_append, List.filterMap_append]
  rfl

theorem given_step (h : History) (s : Step) :
    h.given [s] = s.fresh?.toList.map fun x => (x, symbol x (h.versions.count x + 1)) := by
  cases s with
  | fresh x =>
    unfold given
    rw [transcript, step_fresh]
    rfl
  | current x => rfl
  | save label => rfl
  | restore label => rfl

/-- No version that is current or saved is ahead of its count. -/
structure Bounded (h : History) : Prop where
  current : ∀ x, h.versions.version x ≤ h.versions.count x
  saved : ∀ label m, h.saved.get? label = some m →
    ∀ x, (h.versions.restore m).version x ≤ h.versions.count x

theorem bounded_start : start.Bounded := ⟨fun _ => Nat.le_refl _, nofun⟩

theorem Bounded.saved_le {h : History} (bounded : h.Bounded) {c : Counts}
    (grows : ∀ x, h.versions.count x ≤ c x) {label : String} {m : Entries Nat}
    (found : h.saved.get? label = some m) (x : String) : (m.get? x).getD 0 ≤ c x :=
  Nat.le_trans (bounded.saved label m found x) (grows x)

theorem Bounded.step {h : History} (bounded : h.Bounded) (s : Step) : (h.step s).1.Bounded := by
  have grows : ∀ x, h.versions.count x ≤ (h.step s).1.versions.count x := fun x => by
    rw [count_step]
    exact Nat.le_add_right _ _
  cases s with
  | current y =>
    rw [step_current] at grows ⊢
    exact ⟨by simpa using bounded.current, fun _ _ found => bounded.saved_le grows found⟩
  | fresh y =>
    rw [step_fresh] at grows ⊢
    refine ⟨fun x => ?_, fun _ _ found => bounded.saved_le grows found⟩
    rw [version_bump]
    split
    · rename_i same
      subst same
      rw [count_bump, Counts.bump_self]
    · exact Nat.le_trans (bounded.current x) (grows x)
  | save label =>
    refine ⟨bounded.current, fun other m found => ?_⟩
    -- Under a new label stand the current versions, under all others what stood there.
    change (h.saved.putNew label h.versions.current).get? other = some m at found
    rw [Entries.get?_putNew] at found
    split at found
    · cases before : h.saved.get? label with
      | none =>
        rw [before] at found
        cases found
        exact bounded.current
      | some first =>
        rw [before] at found
        cases found
        exact bounded.saved label first before
    · exact bounded.saved other m found
  | restore label =>
    rw [step_restore]
    cases found : h.saved.get? label with
    | none => exact bounded
    | some m => exact ⟨bounded.saved label m found, bounded.saved⟩

/-! All steps. -/

theorem count_after (h : History) (steps : List Step) (x : String) :
    (h.after steps).versions.count x = h.versions.count x + freshCount x steps := by
  induction steps generalizing h with
  | nil => rfl
  | cons s steps ih => rw [after, ih, count_step, freshCount_cons x s steps, Nat.add_assoc]

theorem Bounded.after {h : History} (bounded : h.Bounded) (steps : List Step) :
    (h.after steps).Bounded := by
  induction steps generalizing h with
  | nil => exact bounded
  | cons s steps ih => exact ih (bounded.step s)

theorem freshSymbolsOf_eq (h : History) (x : String) (steps : List Step) :
    h.freshSymbolsOf x steps =
      (List.range' (h.versions.count x + 1) (freshCount x steps)).map (symbol x) := by
  induction steps generalizing h with
  | nil => rfl
  | cons s steps ih =>
    have rest := ih (h.step s).1
    have first : h.freshSymbolsOf x [s] =
        (List.range' (h.versions.count x + 1) (freshCount x [s])).map (symbol x) := by
      unfold freshSymbolsOf freshCount
      rw [given_step]
      cases name : s.fresh? with
      | none => simp [name]
      | some y => by_cases same : y = x <;> simp [name, same]
    have parts : h.freshSymbolsOf x (s :: steps) =
        h.freshSymbolsOf x [s] ++ (h.step s).1.freshSymbolsOf x steps := by
      unfold freshSymbolsOf
      rw [given_cons, List.filter_append, List.map_append]
    rw [parts, first, rest, count_step, ← List.map_append, freshCount_cons x s steps,
      Nat.add_right_comm, List.range'_append_1]

theorem mem_freshSymbols {h : History} {steps : List Step} {y : String}
    (member : y ∈ h.freshSymbols steps) : ∃ x n, y = symbol x n ∧ h.versions.count x < n := by
  obtain ⟨⟨x, s⟩, inside, rfl⟩ := List.mem_map.mp member
  have own : s ∈ h.freshSymbolsOf x steps :=
    List.mem_map.mpr ⟨(x, s), List.mem_filter.mpr ⟨inside, beq_self_eq_true x⟩, rfl⟩
  rw [freshSymbolsOf_eq] at own
  obtain ⟨n, range, rfl⟩ := List.mem_map.mp own
  exact ⟨x, n, rfl, (List.mem_range'_1.mp range).1⟩

theorem freshSymbols_nodup (h : History) (steps : List Step) : (h.freshSymbols steps).Nodup := by
  induction steps generalizing h with
  | nil => exact List.nodup_nil
  | cons s steps ih =>
    have rest := ih (h.step s).1
    unfold freshSymbols
    rw [given_cons, given_step, List.map_append]
    cases name : s.fresh? with
    | none => exact rest
    | some x =>
      refine List.nodup_cons.mpr ⟨fun again => ?_, rest⟩
      -- A later symbol is beyond the count, which this step has moved to its own version.
      obtain ⟨y, n, same, beyond⟩ := mem_freshSymbols again
      obtain ⟨rfl, rfl⟩ := symbol_inj.mp same
      rw [count_step] at beyond
      simp [freshCount, name] at beyond

/-- Over any history no symbol is given twice as a new version, the new versions of a name are its
first, second, third and so on, the current symbol of a name is its version 0 or was given before
as a new version of that name, and no current version is ahead of its count. -/
theorem versions_never_reused (steps : List Step) :
    (start.freshSymbols steps).Nodup ∧
    (∀ x, start.freshSymbolsOf x steps =
      (List.range' 1 (freshCount x steps)).map (symbol x)) ∧
    (∀ x, ∃ y, ((start.after steps).step (.current x)).2 = .symbol y ∧
      (y = symbol x 0 ∨ y ∈ start.freshSymbolsOf x steps)) ∧
    ∀ x n, (start.after steps).versions.current.get? x = some n →
      n ≤ ((start.after steps).versions.counters.get? x).getD 0 := by
  have bounded := bounded_start.after steps
  have inOrder : ∀ x, start.freshSymbolsOf x steps =
      (List.range' 1 (freshCount x steps)).map (symbol x) := fun x => freshSymbolsOf_eq start x steps
  refine ⟨freshSymbols_nodup start steps, inOrder, fun x => ?_, fun x n found => ?_⟩
  · refine ⟨_, congrArg Prod.snd (step_current _ x), ?_⟩
    have bound := bounded.current x
    rw [count_after, show start.versions.count x = 0 from rfl, Nat.zero_add] at bound
    cases version : (start.after steps).versions.version x with
    | zero => exact .inl rfl
    | succ n =>
      rw [version] at bound
      rw [inOrder]
      exact .inr (List.mem_map_of_mem (List.mem_range'_1.mpr ⟨by omega, by omega⟩))
  · have bound := bounded.current x
    rw [version, found] at bound
    exact bound

/-- Two versions, a return to the first, and a name that looks like a version of the other. -/
def rewound : List Step :=
  [.fresh "x", .save "one", .fresh "x", .restore "one", .current "x", .fresh "x", .fresh "x_1",
    .restore "one"]

theorem versions_never_reused_rewound :
    (start.after rewound).versions.current.get? "x" = some 1 ∧
    1 ≤ ((start.after rewound).versions.counters.get? "x").getD 0 :=
  ⟨rfl, (versions_never_reused rewound).2.2.2 "x" 1 rfl⟩

end History

end Assay.Versions
