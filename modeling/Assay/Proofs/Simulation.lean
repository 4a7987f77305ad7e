import Assay.Proofs.Building
import Assay.Proofs.Values
import Assay.Program.Meaning

/-! A solution of a stream carries a run of its program. At every point the current version of a
name has the value that the name has in the run; the stream of an arm that is not taken is solved
as well, but its assertions stand under a guard that is false. -/
namespace Assay

open Smt

namespace Stmt

mutual

def loopFree : Stmt Empty → Bool
  | .assign _ | .assert _ => true
  | .branch _ t e => loopFreeAll t && loopFreeAll e
  | .whileLoop .. | .forLoop .. => false

def loopFreeAll : List (Stmt Empty) → Bool
  | [] => true
  | s :: rest => loopFree s && loopFreeAll rest

end

end Stmt

def Program.LoopFree (p : Program Empty) : Prop := Stmt.loopFreeAll p = true

/-- The versions that names have stand for the values of the names, as far as they are declared. -/
structure Mirrors (sorts : Sorts) (m : Valuation) (versions : String → Nat) (v : Valuation) :
    Prop where
  byZero : m.byZero = v.byZero
  value : ∀ x s, sorts (symbol x (versions x)) = some s →
    SameValue m (symbol x (versions x)) v x s

theorem Mirrors.eval {sorts : Sorts} {m v : Valuation} {versions : Versions}
    (mirrors : Mirrors sorts m versions.version v) (e : Expr Empty)
    (sorted : ∀ u ∈ (e.versioned versions).uses, sorts u.1 = some u.2) :
    (e.versioned versions).eval m = e.eval v := by
  unfold Expr.versioned at sorted ⊢
  rw [Expr.eval_mapNames]
  have byZero : (m.along versions.symbolOf).byZero = v.byZero := mirrors.byZero
  apply Expr.eval_congr byZero
  intro u member
  have used := sorted (versions.symbolOf u.1, u.2) (by
    rw [Expr.uses_mapNames]
    exact List.mem_map_of_mem (f := fun u => (versions.symbolOf u.1, u.2)) member)
  exact SameValue.along.mpr (mirrors.value u.1 u.2 used)

theorem Mirrors.holds {sorts : Sorts} {m v : Valuation} {versions : Versions}
    (mirrors : Mirrors sorts m versions.version v) (e : Expr Empty)
    (sorted : ∀ u ∈ (e.versioned versions).uses, sorts u.1 = some u.2) :
    (e.versioned versions).holds m = e.holds v := by
  unfold Expr.holds
  rw [mirrors.eval e sorted]

/-- The piece built under a path does what the piece of program does where the path holds, and
asserts nothing elsewhere. A piece without assignments and assertions does nothing. -/
structure Built.Simulates (v : Versions) (path : List (Expr Empty)) (built : Built Empty)
    (targets : List String) (run : Valuation → Ran) : Prop where
  guarded : ∀ c p, .assert c p ∈ built.2 → path ⊆ p
  idle : targets = [] → (∀ c p, .assert c p ∉ built.2) → ∀ input, run input = (input, [])
  follows : ∀ sorts m input, Stream.Solves sorts m built.2 → Stream.Sorted sorts built.2 →
    Mirrors sorts m v.version input → (∀ g ∈ path, g.holds m = true) →
    Mirrors sorts m built.1.version (run input).1 ∧
      (Stream.Passes m built.2 ↔ 0 ∉ (run input).2)

theorem Stream.passes_of_no_assert {s : Stream Empty} (none : ∀ c p, .assert c p ∉ s)
    (m : Valuation) : s.Passes m := by
  intro i member
  cases i with
  | assert c p => exact absurd member (none c p)
  | assign x e | phi r xs g => trivial
  | stray part => exact part.elim

theorem Stream.passes_of_blocked {s : Stream Empty} {m : Valuation} {g : Expr Empty}
    (guarded : ∀ c p, .assert c p ∈ s → g ∈ p) (off : g.holds m = false) : s.Passes m := by
  intro i stands
  cases i with
  | assert c p =>
    intro reached
    have on := reached g (guarded c p stands)
    rw [off] at on
    contradiction
  | assign x e | phi r xs g => trivial
  | stray part => exact part.elim

theorem guards_on {path : List (Expr Empty)} {m : Valuation} (on : ∀ g ∈ path, g.holds m = true)
    {g : Expr Empty} (holds : g.holds m = true) : ∀ h ∈ path ++ [g], h.holds m = true := by
  intro h member
  rcases List.mem_append.mp member with member | member
  · exact on h member
  · obtain rfl := List.mem_singleton.mp member
    exact holds

namespace Built.Simulates

variable {v : Versions} {path : List (Expr Empty)} {ts us : List String}

theorem blocked {built : Built Empty} {run : Valuation → Ran}
    (simulates : built.Simulates v path ts run) {m : Valuation} {g : Expr Empty}
    (member : g ∈ path) (off : g.holds m = false) : Stream.Passes m built.2 :=
  Stream.passes_of_blocked (fun c p stands => simulates.guarded c p stands member) off

theorem andThen {first : Built Empty} {next : Versions → Built Empty} {run later : Valuation → Ran}
    (head : first.Simulates v path ts run)
    (tail : (next first.1).Simulates first.1 path us later) :
    (first.andThen next).Simulates v path (ts ++ us) fun input => (run input).andThen later where
  guarded := by
    intro c p member
    rcases List.mem_append.mp member with member | member
    · exact head.guarded c p member
    · exact tail.guarded c p member
  idle := by
    intro none quiet input
    obtain ⟨left, right⟩ := List.append_eq_nil_iff.mp none
    have first := head.idle left (fun c p member => quiet c p (List.mem_append_left _ member)) input
    have second := tail.idle right (fun c p member => quiet c p (List.mem_append_right _ member))
    simp [Ran.andThen, first, second]
  follows := by
    intro sorts m input solves sorted mirrors on
    obtain ⟨solves₁, solves₂⟩ := Stream.solves_append.mp solves
    obtain ⟨sorted₁, sorted₂⟩ := Stream.sorted_append.mp sorted
    obtain ⟨middle, passes₁⟩ := head.follows sorts m input solves₁ sorted₁ mirrors on
    obtain ⟨final, passes₂⟩ := tail.follows sorts m _ solves₂ sorted₂ middle on
    refine ⟨final, ?_⟩
    have outcomes : 0 ∉ ((run input).andThen later).2 ↔
        0 ∉ (run input).2 ∧ 0 ∉ (later (run input).1).2 := by
      simp [Ran.andThen]
    rw [outcomes, ← passes₁, ← passes₂]
    exact Stream.passes_append

end Built.Simulates

theorem Assign.build_simulates (a : Assign Empty) (v : Versions) (path : List (Expr Empty)) :
    (a.build v).Simulates v path [a.target] fun input => (a.run input, []) where
  guarded := by
    intro c p member
    rw [a.stream_build] at member
    exact nomatch List.mem_singleton.mp member
  idle := fun none => nomatch none
  follows := by
    intro sorts m input solves sorted mirrors _
    rw [a.stream_build] at solves sorted ⊢
    have holds := solves _ (List.mem_singleton_self _)
    have uses := sorted _ (List.mem_singleton_self _)
    have value : (a.value.versioned v).eval m = a.value.eval input :=
      mirrors.eval a.value fun u member => uses u (List.mem_append_left _ member)
    have declared : sorts (symbol a.target (v.count a.target + 1)) = some .int :=
      uses.target
    refine ⟨⟨mirrors.byZero, ?_⟩, ?_⟩
    · intro x s sort
      rw [a.version_build] at sort ⊢
      by_cases same : a.target = x
      · subst same
        rw [if_pos rfl] at sort ⊢
        obtain rfl : s = .int := Option.some.inj (sort.symm.trans declared)
        change m.int _ = (a.run input).int a.target
        simp only [Assign.run, Valuation.int_set, if_true]
        exact holds.trans value
      · rw [if_neg same] at sort ⊢
        apply (mirrors.value x s sort).trans
        cases s with
        | int =>
          change input.int x = (a.run input).int x
          simp [Assign.run, Ne.symm same]
        | array => rfl
        | stray part => exact part.elim
    · simp [Stream.Passes, Instr.Passes]

theorem Mirrors.merged {sorts : Sorts} {m v : Valuation} {guard : Expr Empty} {a b : String → Nat}
    {w : Versions} {joined : Built Empty} (merged : Merged guard a b w joined)
    (solves : Stream.Solves sorts m joined.2) (sorted : Stream.Sorted sorts joined.2)
    (stays : ∀ x, a x = b x → w.version x = a x)
    (mirrors : Mirrors sorts m (fun x => if guard.holds m then a x else b x) v) :
    Mirrors sorts m joined.1.version v := by
  refine ⟨mirrors.byZero, fun x s sort => ?_⟩
  by_cases same : a x = b x
  · have chosen : joined.1.version x = if guard.holds m then a x else b x := by
      rw [(merged.equal x same).1, stays x same, ← same, ite_self]
    rw [chosen] at sort ⊢
    exact mirrors.value x s sort
  · obtain ⟨version, -, member⟩ := merged.differing x same
    have holds := solves _ member
    have group := sorted _ member
    have result := group.phi (List.mem_cons_self ..)
    rw [version] at sort ⊢
    have which : Sorts.of sorts (symbol x (w.count x + 1)) = s := by
      rw [sort] at result
      exact (Option.some.inj result).symm
    simp only [Instr.Holds] at holds
    rw [← apply_ite (symbol x), which] at holds
    refine (SameValue.iff_agrees.mpr holds).trans (mirrors.value x s ?_)
    rw [← which]
    cases guard.holds m with
    | true => exact group.phi (by simp)
    | false => exact group.phi (by simp)

theorem Merged.passes {guard : Expr Empty} {a b : String → Nat} {w : Versions}
    {joined : Built Empty} (merged : Merged guard a b w joined) (m : Valuation) :
    Stream.Passes m joined.2 := by
  intro i member
  obtain ⟨x, -, rfl⟩ := merged.only i member
  trivial

section Branch

variable (cond : Expr Empty) {path : List (Expr Empty)} {v : Versions}
  {t e joined : Built Empty} {ts es : List String} {first second : Valuation → Ran}

theorem BranchParts.guard_sorted {guard : Expr Empty}
    (parts : BranchParts v guard t e joined ts es)
    (inThen : ∀ c p, .assert c p ∈ t.2 → guard ∈ p)
    (inElse : ∀ c p, .assert c p ∈ e.2 → guard.not ∈ p)
    {sorts : Sorts} (sorted : Stream.Sorted sorts (t.2 ++ e.2 ++ joined.2))
    (busy : ¬ (ts ++ es = [] ∧ ∀ c p, .assert c p ∉ t.2 ++ e.2)) :
    ∀ u ∈ guard.uses, sorts u.1 = some u.2 := by
  obtain ⟨sortedArms, sortedJoin⟩ := Stream.sorted_append.mp sorted
  by_cases none : ts ++ es = []
  · have asserted : ∃ c p, .assert c p ∈ t.2 ++ e.2 := by
      refine Classical.byContradiction fun quiet => busy ⟨none, fun c p member => ?_⟩
      exact quiet ⟨c, p, member⟩
    obtain ⟨c, p, member⟩ := asserted
    have along : ∀ g ∈ p, ∀ u ∈ g.uses, sorts u.1 = some u.2 := fun g stands u used =>
      sortedArms _ member u (List.mem_append_right _ (List.mem_flatMap.mpr ⟨g, stands, used⟩))
    rcases List.mem_append.mp member with member | member
    · exact along _ (inThen c p member)
    · exact along guard.not (inElse c p member)
  · obtain ⟨x, member⟩ := List.exists_mem_of_ne_nil _ none
    obtain ⟨-, -, stands⟩ := parts.merged.differing x (parts.differs member)
    exact fun u used => sortedJoin _ stands u (List.mem_append_right _ used)

theorem BranchParts.simulates (parts : BranchParts v (cond.versioned v) t e joined ts es)
    (ht : t.Simulates v (path ++ [cond.versioned v]) ts first)
    (he : e.Simulates (t.1.restore v.current) (path ++ [(cond.versioned v).not]) es second) :
    Built.Simulates v path (joined.1, t.2 ++ e.2 ++ joined.2) (ts ++ es) fun input =>
      if cond.holds input then first input else second input where
  guarded := by
    intro c p member g stands
    rcases List.mem_append.mp member with member | member
    · rcases List.mem_append.mp member with member | member
      · exact ht.guarded c p member (List.mem_append_left _ stands)
      · exact he.guarded c p member (List.mem_append_left _ stands)
    · obtain ⟨x, -, same⟩ := parts.merged.only _ member
      exact nomatch same
  idle := by
    intro none quiet input
    obtain ⟨left, right⟩ := List.append_eq_nil_iff.mp none
    have inThen := ht.idle left (fun c p member => quiet c p (by simp [member])) input
    have inElse := he.idle right (fun c p member => quiet c p (by simp [member])) input
    simp only [inThen, inElse, ite_self]
  follows := by
    intro sorts m input solves sorted mirrors on
    obtain ⟨solvesArms, solvesJoin⟩ := Stream.solves_append.mp solves
    obtain ⟨solvesThen, solvesElse⟩ := Stream.solves_append.mp solvesArms
    obtain ⟨sortedArms, sortedJoin⟩ := Stream.sorted_append.mp sorted
    obtain ⟨sortedThen, sortedElse⟩ := Stream.sorted_append.mp sortedArms
    -- a branch that does nothing leaves no instruction, so its guard may not be declared
    by_cases busy : ts ++ es = [] ∧ ∀ c p, .assert c p ∉ t.2 ++ e.2
    · obtain ⟨none, quiet⟩ := busy
      obtain ⟨left, right⟩ := List.append_eq_nil_iff.mp none
      have inThen := ht.idle left (fun c p member => quiet c p (by simp [member])) input
      have inElse := he.idle right (fun c p member => quiet c p (by simp [member])) input
      have same : joined.1.version = v.version :=
        funext fun x => parts.fits.unchanged x (by simp [none])
      simp only [inThen, inElse, ite_self, same, List.not_mem_nil, not_false_eq_true, iff_true]
      exact ⟨mirrors, Stream.passes_append.mpr
        ⟨Stream.passes_of_no_assert quiet m, parts.merged.passes m⟩⟩
    · have guards : (cond.versioned v).holds m = cond.holds input :=
        mirrors.holds cond (parts.guard_sorted (fun c p member => ht.guarded c p member (by simp))
          (fun c p member => he.guarded c p member (by simp)) sorted busy)
      have whole : Stream.Passes m (t.2 ++ e.2 ++ joined.2) ↔
          Stream.Passes m t.2 ∧ Stream.Passes m e.2 := by
        rw [Stream.passes_append, Stream.passes_append]
        exact and_iff_left (parts.merged.passes m)
      have merge := fun w => Mirrors.merged (v := w) parts.merged solvesJoin sortedJoin
        fun x same => same.symm
      rw [whole]
      -- the other arm is solved as well, but its assertions carry a guard that is false
      cases chosen : cond.holds input with
      | true =>
        rw [chosen] at guards
        obtain ⟨after, passes⟩ := ht.follows sorts m input solvesThen sortedThen mirrors
          (guards_on on guards)
        have skipped : Stream.Passes m e.2 := by
          apply he.blocked (List.mem_append_right _ (List.mem_singleton_self _))
          rw [Expr.holds_not, guards]
          rfl
        simp only [guards, if_true] at merge
        exact ⟨merge _ after, (and_iff_left skipped).trans passes⟩
      | false =>
        rw [chosen] at guards
        obtain ⟨after, passes⟩ := he.follows sorts m input solvesElse sortedElse mirrors
          (guards_on on (by rw [Expr.holds_not, guards]; rfl))
        have skipped : Stream.Passes m t.2 :=
          ht.blocked (List.mem_append_right _ (List.mem_singleton_self _)) guards
        simp only [guards, Bool.false_eq_true, if_false] at merge
        exact ⟨merge _ after, (and_iff_right skipped).trans passes⟩

end Branch

theorem Built.Simulates.untouch {v : Versions} {xs : List String} {path : List (Expr Empty)}
    {built : Built Empty} {ts : List String} {run : Valuation → Ran}
    (simulates : built.Simulates (v.touchAll xs) path ts run) : built.Simulates v path ts run where
  guarded := simulates.guarded
  idle := simulates.idle
  follows := by
    have follows := simulates.follows
    rwa [Versions.version_touchAll] at follows

theorem Expr.versioned_touchAll (v : Versions) (xs : List String) (e : Expr Empty) :
    e.versioned (v.touchAll xs) = e.versioned v := by
  unfold Expr.versioned
  congr 1
  funext x
  simp [Versions.symbolOf]

namespace Stmt

mutual

theorem build_simulates (bound : Nat) (path : List (Expr Empty)) (v : Versions) (s : Stmt Empty)
    (flat : loopFree s = true) (sound : v.Sound) (known : ∀ g ∈ path, g.Reads v.count) :
    (build path v s).Simulates v path s.targets fun input => run bound s input := by
  match s with
  | .assign a =>
    unfold build targets run
    exact a.build_simulates v path
  | .assert c =>
    unfold build targets run
    refine ⟨?_, ?_, ?_⟩
    · intro d p member
      obtain ⟨-, rfl⟩ := Instr.assert.inj (List.mem_singleton.mp member)
      exact fun _ stands => stands
    · intro _ quiet
      exact absurd (List.mem_singleton_self _) (quiet _ _)
    · intro sorts m input _ sorted mirrors on
      have value : (c.versioned v).eval m = c.eval input := mirrors.eval c fun u member =>
        sorted _ (List.mem_singleton_self _) u (List.mem_append_left _ member)
      refine ⟨by rwa [Versions.version_touchAll], ?_⟩
      have outcome : 0 ∉ [c.eval input] ↔ (c.versioned v).holds m = true := by
        rw [List.mem_singleton, Expr.holds, value, bne_iff_ne]
        exact not_congr eq_comm
      rw [outcome]
      constructor
      · intro passes
        exact passes _ (List.mem_singleton_self _) on
      · intro holds i member
        obtain rfl := List.mem_singleton.mp member
        exact fun _ => holds
  | .branch c t e =>
    unfold build targets run
    unfold loopFree at flat
    obtain ⟨flatThen, flatElse⟩ := Bool.and_eq_true_iff.mp flat
    obtain ⟨joined, parts, built⟩ := buildBranch_parts c sound known
      (fun path v => buildAll_fits path v t) (fun path v => buildAll_fits path v e)
    rw [built]
    rw [← Versions.count_touchAll v c.names] at known
    rw [← Expr.versioned_touchAll v c.names] at parts ⊢
    have restored := parts.thenFits.restored parts.sound
    have later : (c.versioned (v.touchAll c.names)).not.Reads _ := fun y member =>
      (parts.reads y member).mono parts.thenFits.grows
    exact (parts.simulates c
      (buildAll_simulates bound _ _ t flatThen parts.sound (reads_guarded known parts.reads))
      (buildAll_simulates bound _ _ e flatElse restored
        (reads_guarded (reads_grown parts.thenFits.grows known) later))).untouch

theorem buildAll_simulates (bound : Nat) (path : List (Expr Empty)) (v : Versions)
    (p : List (Stmt Empty)) (flat : loopFreeAll p = true) (sound : v.Sound)
    (known : ∀ g ∈ path, g.Reads v.count) :
    (buildAll path v p).Simulates v path (targetsAll p) fun input => runAll bound p input := by
  match p with
  | [] =>
    unfold buildAll targetsAll runAll
    refine ⟨?_, fun _ _ _ => rfl, ?_⟩
    · intro c p member
      contradiction
    · intro sorts m input _ _ mirrors _
      exact ⟨mirrors, by simp [Stream.Passes]⟩
  | s :: rest =>
    unfold buildAll targetsAll runAll
    unfold loopFreeAll at flat
    obtain ⟨head, tail⟩ := Bool.and_eq_true_iff.mp flat
    have first := build_fits path v s sound known
    exact (build_simulates bound path v s head sound known).andThen
      (buildAll_simulates bound path _ rest tail first.sound (reads_grown first.grows known))

end

end Stmt

end Assay
