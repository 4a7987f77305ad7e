import Assay.Proofs.Liveness
import Assay.Proofs.Regularity

/-! Solutions and traversals. A solution of the stream of a program is a traversal of the program,
with the values of the traversal in its symbols, and every traversal has such a solution. The entry
of a loop is where a solution is free: its phis take the value from before the loop or the one from
the end of the body, each name for itself. -/
namespace Assay

open Smt

namespace KeepsKnown

variable {c c' : Counts} {m n : Valuation} {sorts : Sorts} {s : Stream Empty}

theorem symm (keeps : KeepsKnown c m n) : KeepsKnown c n m :=
  ⟨keeps.byZero.symm, fun y s known => (keeps.value y s known).symm⟩

theorem holds (keeps : KeepsKnown c m n) {e : Expr Empty} (reads : e.Reads c) :
    e.holds n = e.holds m := by
  unfold Expr.holds
  rw [keeps.eval reads]

theorem path (keeps : KeepsKnown c m n) {path : List (Expr Empty)}
    (reads : ∀ g ∈ path, g.Reads c) (on : ∀ g ∈ path, g.holds m = true) :
    ∀ g ∈ path, g.holds n = true :=
  fun g member => (keeps.holds (reads g member)).trans (on g member)

theorem mirrors (keeps : KeepsKnown c m n) {versions : String → Nat}
    (low : ∀ x, versions x ≤ c x) {v : Valuation} (mirrors : Mirrors sorts m versions v) :
    Mirrors sorts n versions v := by
  refine ⟨keeps.byZero.symm.trans mirrors.byZero, fun x k declared => ?_⟩
  have kept := keeps.value (symbol x (versions x)) k ⟨x, versions x, rfl, low x⟩
  exact kept.symm.trans (mirrors.value x k declared)

theorem uses (keeps : KeepsKnown c' m n) (numbered : Numbered c s c') {i : Instr Empty}
    (member : i ∈ s) (sorts : Sorts) : ∀ u ∈ i.uses sorts.of, SameValue m u.1 n u.1 u.2 := by
  intro u used
  apply keeps.value
  apply numbered.mentions_known
  exact List.mem_flatMap.mpr ⟨i, member, Instr.mem_mentions_of_mem_uses used⟩

theorem solves (keeps : KeepsKnown c' m n) (numbered : Numbered c s c')
    (solves : s.Solves sorts m) : s.Solves sorts n := fun i member =>
  Instr.holds_congr keeps.byZero (keeps.uses numbered member sorts) (solves i member)

theorem passes (keeps : KeepsKnown c' m n) (numbered : Numbered c s c') (passes : s.Passes m) :
    s.Passes n := fun i member =>
  Instr.passes_congr keeps.byZero (keeps.uses numbered member fun _ => none) (passes i member)

end KeepsKnown

/-- A solution of the piece that ends with the values of the run and passes where the run does. -/
structure Built.Ends (sorts : Sorts) (m : Valuation) (built : Built Empty) (r : Ran) : Prop where
  solves : Stream.Solves sorts m built.2
  final : Mirrors sorts m built.1.version r.1
  passes : Stream.Passes m built.2 ↔ 0 ∉ r.2

def Built.Follows (v : Versions) (path : List (Expr Empty)) (built : Built Empty)
    (course : Course) : Prop :=
  ∀ sorts m input, Stream.Solves sorts m built.2 → Stream.Sorted sorts built.2 →
    Mirrors sorts m v.version input → (∀ g ∈ path, g.holds m = true) →
    ∃ r, course input r ∧ built.Ends sorts m r

def Built.Realizes (v : Versions) (path : List (Expr Empty)) (built : Built Empty)
    (course : Course) : Prop :=
  ∀ sorts m input r, Stream.Sorted sorts built.2 → Mirrors sorts m v.version input →
    (∀ g ∈ path, g.holds m = true) → course input r →
    ∃ n, KeepsKnown v.count m n ∧ built.Ends sorts n r

/-- The solutions of a piece built under a path are what can come out of the piece of program. -/
structure Built.Traces (v : Versions) (path : List (Expr Empty)) (built : Built Empty)
    (targets : List String) (course : Course) : Prop where
  guarded : ∀ c p, .assert c p ∈ built.2 → path ⊆ p
  idle : targets = [] → (∀ c p, .assert c p ∉ built.2) →
    ∀ input r, course input r ↔ r = (input, [])
  follows : built.Follows v path course
  realized : built.Realizes v path course

namespace Built

variable {v : Versions} {path : List (Expr Empty)} {ts us : List String} {built : Built Empty}
  {sorts : Sorts} {m n : Valuation}

theorem Ends.kept {r : Ran} (ends : built.Ends sorts m r) (fits : built.Fits v ts)
    (keeps : KeepsKnown built.1.count m n) : built.Ends sorts n r where
  solves := keeps.solves fits.numbered ends.solves
  final := keeps.mirrors fits.sound.bounded ends.final
  passes :=
    Iff.trans ⟨keeps.symm.passes fits.numbered, keeps.passes fits.numbered⟩ ends.passes

theorem Ends.andThen {first : Built Empty} {next : Versions → Built Empty} {a b : Ran}
    (head : first.Ends sorts m a) (tail : (next first.1).Ends sorts m b) :
    (first.andThen next).Ends sorts m (b.1, a.2 ++ b.2) where
  solves := Stream.solves_append.mpr ⟨head.solves, tail.solves⟩
  final := tail.final
  passes := by
    rw [List.mem_append, not_or, ← head.passes, ← tail.passes]
    exact Stream.passes_append

namespace Traces

theorem andThen {first : Built Empty} {next : Versions → Built Empty} {course later : Course}
    (reads : ∀ g ∈ path, g.Reads v.count) (start : first.Fits v ts)
    (head : first.Traces v path ts course)
    (tail : (next first.1).Traces first.1 path us later) :
    (first.andThen next).Traces v path (ts ++ us) (course.andThen later) where
  guarded := by
    intro c p member
    rcases List.mem_append.mp member with member | member
    · exact head.guarded c p member
    · exact tail.guarded c p member
  idle := by
    intro none quiet input r
    obtain ⟨left, right⟩ := List.append_eq_nil_iff.mp none
    have first := head.idle left fun c p member => quiet c p (List.mem_append_left _ member)
    have second := tail.idle right fun c p member => quiet c p (List.mem_append_right _ member)
    simp only [Course.andThen, first, second]
    constructor
    · rintro ⟨_, _, rfl, rfl, rfl⟩
      rfl
    · rintro rfl
      exact ⟨_, _, rfl, rfl, rfl⟩
  follows := by
    intro sorts m input solves sorted mirrors on
    obtain ⟨solves₁, solves₂⟩ := Stream.solves_append.mp solves
    obtain ⟨sorted₁, sorted₂⟩ := Stream.sorted_append.mp sorted
    obtain ⟨a, goes₁, ends₁⟩ := head.follows sorts m input solves₁ sorted₁ mirrors on
    obtain ⟨b, goes₂, ends₂⟩ := tail.follows sorts m a.1 solves₂ sorted₂ ends₁.final on
    exact ⟨_, ⟨a, b, goes₁, goes₂, rfl⟩, ends₁.andThen ends₂⟩
  realized := by
    rintro sorts m input _ sorted mirrors on ⟨a, b, goes₁, goes₂, rfl⟩
    obtain ⟨sorted₁, sorted₂⟩ := Stream.sorted_append.mp sorted
    obtain ⟨n₁, keeps₁, ends₁⟩ := head.realized sorts m input a sorted₁ mirrors on goes₁
    obtain ⟨n₂, keeps₂, ends₂⟩ := tail.realized sorts n₁ a.1 b sorted₂ ends₁.final
      (keeps₁.path reads on) goes₂
    exact ⟨n₂, keeps₁.trans start.grows keeps₂, (ends₁.kept start keeps₂).andThen ends₂⟩

theorem of_simulates {run : Valuation → Ran} (sound : v.Sound) (reads : ∀ g ∈ path, g.Reads v.count)
    (fits : built.Fits v ts) (simulates : built.Simulates v path ts run) :
    built.Traces v path ts fun input r => r = run input where
  guarded := simulates.guarded
  idle := by
    intro none quiet input r
    rw [simulates.idle none quiet input]
  follows := by
    intro sorts m input solves sorted mirrors on
    obtain ⟨final, passes⟩ := simulates.follows sorts m input solves sorted mirrors on
    exact ⟨_, rfl, solves, final, passes⟩
  realized := by
    rintro sorts m input _ sorted mirrors on rfl
    obtain ⟨n, keeps, solves⟩ := fits.numbered.solvable sorts m
    obtain ⟨final, passes⟩ := simulates.follows sorts n input solves sorted
      (keeps.mirrors sound.bounded mirrors) (keeps.path reads on)
    exact ⟨n, keeps, solves, final, passes⟩

theorem of_idle {course : Course} (sound : v.Sound) (fits : built.Fits v [])
    (quiet : ∀ c p, .assert c p ∉ built.2)
    (idle : ∀ input r, course input r ↔ r = (input, [])) : built.Traces v path [] course := by
  have same : built.1.version = v.version := funext fun x => fits.unchanged x List.not_mem_nil
  have ends : ∀ sorts m input, Stream.Solves sorts m built.2 → Mirrors sorts m v.version input →
      built.Ends sorts m (input, []) := by
    intro sorts m input solves mirrors
    refine ⟨solves, by rwa [same], ?_⟩
    simp [Stream.passes_of_no_assert quiet m]
  refine ⟨fun c p member => absurd member (quiet c p), fun _ _ => idle, ?_, ?_⟩
  · intro sorts m input solves _ mirrors _
    exact ⟨_, (idle input _).mpr rfl, ends sorts m input solves mirrors⟩
  · intro sorts m input r _ mirrors _ goes
    obtain rfl := (idle input r).mp goes
    obtain ⟨n, keeps, solves⟩ := fits.numbered.solvable sorts m
    exact ⟨n, keeps, ends sorts n input solves (keeps.mirrors sound.bounded mirrors)⟩

theorem untouch {xs : List String} {course : Course}
    (traces : built.Traces (v.touchAll xs) path ts course) : built.Traces v path ts course := by
  obtain ⟨guarded, idle, follows, realized⟩ := traces
  unfold Built.Follows at follows
  unfold Built.Realizes at realized
  rw [Versions.version_touchAll] at follows realized
  rw [Versions.count_touchAll] at realized
  exact ⟨guarded, idle, follows, realized⟩

end Traces

end Built

theorem Merged.no_assert {guard : Expr Empty} {a b : String → Nat} {w : Versions}
    {joined : Built Empty} (merged : Merged guard a b w joined) (c : Expr Empty)
    (p : List (Expr Empty)) : .assert c p ∉ joined.2 := by
  intro member
  obtain ⟨x, -, same⟩ := merged.only _ member
  exact nomatch same

namespace BranchParts

variable {v : Versions} {guard : Expr Empty} {t e joined : Built Empty} {ts es : List String}
  {sorts : Sorts} {m : Valuation} {r : Ran}

/-- The values behind a branch are those of the arm that the guard picks; the other arm is solved
as well, but its assertions are blocked. -/
theorem ends_then (parts : BranchParts v guard t e joined ts es)
    (sorted : Stream.Sorted sorts joined.2) (on : guard.holds m = true)
    (blocked : ∀ c p, .assert c p ∈ e.2 → guard.not ∈ p) (ends : t.Ends sorts m r)
    (solves : Stream.Solves sorts m (e.2 ++ joined.2)) :
    Built.Ends sorts m (joined.1, t.2 ++ e.2 ++ joined.2) r := by
  obtain ⟨solvesElse, solvesJoin⟩ := Stream.solves_append.mp solves
  have off : guard.not.holds m = false := by rw [Expr.holds_not, on]; rfl
  refine ⟨?_, ?_, ?_⟩
  · exact Stream.solves_append.mpr
      ⟨Stream.solves_append.mpr ⟨ends.solves, solvesElse⟩, solvesJoin⟩
  · apply Mirrors.merged parts.merged solvesJoin sorted fun x same => same.symm
    simp only [on, if_true]
    exact ends.final
  · rw [← ends.passes, Stream.passes_append, Stream.passes_append,
      and_iff_left (parts.merged.passes m)]
    exact and_iff_left (Stream.passes_of_blocked blocked off)

theorem ends_else (parts : BranchParts v guard t e joined ts es)
    (sorted : Stream.Sorted sorts joined.2) (off : guard.holds m = false)
    (blocked : ∀ c p, .assert c p ∈ t.2 → guard ∈ p) (ends : e.Ends sorts m r)
    (solvesThen : Stream.Solves sorts m t.2) (solvesJoin : Stream.Solves sorts m joined.2) :
    Built.Ends sorts m (joined.1, t.2 ++ e.2 ++ joined.2) r := by
  refine ⟨?_, ?_, ?_⟩
  · exact Stream.solves_append.mpr
      ⟨Stream.solves_append.mpr ⟨solvesThen, ends.solves⟩, solvesJoin⟩
  · apply Mirrors.merged parts.merged solvesJoin sorted fun x same => same.symm
    simp only [off, Bool.false_eq_true, if_false]
    exact ends.final
  · rw [← ends.passes, Stream.passes_append, Stream.passes_append,
      and_iff_left (parts.merged.passes m)]
    exact and_iff_right (Stream.passes_of_blocked blocked off)

section Course

variable {cond : Expr Empty} {path : List (Expr Empty)} {first second : Course}

theorem follows (parts : BranchParts v (cond.versioned v) t e joined ts es)
    (ht : t.Traces v (path ++ [cond.versioned v]) ts first)
    (he : e.Traces (t.1.restore v.current) (path ++ [(cond.versioned v).not]) es second)
    (busy : ¬ (ts ++ es = [] ∧ ∀ c p, .assert c p ∉ t.2 ++ e.2)) :
    Built.Follows v path (joined.1, t.2 ++ e.2 ++ joined.2) fun input r =>
      if cond.holds input then first input r else second input r := by
  intro sorts m input solves sorted mirrors on
  have inThen := fun c p member => ht.guarded c p member (List.mem_append_right _ (.head _))
  have inElse := fun c p member => he.guarded c p member (List.mem_append_right _ (.head _))
  have guards := mirrors.holds cond (parts.guard_sorted inThen inElse sorted busy)
  obtain ⟨solvesArms, solvesJoin⟩ := Stream.solves_append.mp solves
  obtain ⟨solvesThen, solvesElse⟩ := Stream.solves_append.mp solvesArms
  obtain ⟨sortedArms, sortedJoin⟩ := Stream.sorted_append.mp sorted
  obtain ⟨sortedThen, sortedElse⟩ := Stream.sorted_append.mp sortedArms
  dsimp only
  cases chosen : cond.holds input with
  | true =>
    rw [chosen] at guards
    obtain ⟨r, goes, ends⟩ := ht.follows sorts m input solvesThen sortedThen mirrors
      (guards_on on guards)
    exact ⟨r, goes, parts.ends_then sortedJoin guards inElse ends
      (Stream.solves_append.mpr ⟨solvesElse, solvesJoin⟩)⟩
  | false =>
    rw [chosen] at guards
    obtain ⟨r, goes, ends⟩ := he.follows sorts m input solvesElse sortedElse mirrors
      (guards_on on (by rw [Expr.holds_not, guards]; rfl))
    exact ⟨r, goes, parts.ends_else sortedJoin guards inThen ends solvesThen solvesJoin⟩

theorem realizes (parts : BranchParts v (cond.versioned v) t e joined ts es)
    (reads : ∀ g ∈ path, g.Reads v.count)
    (ht : t.Traces v (path ++ [cond.versioned v]) ts first)
    (he : e.Traces (t.1.restore v.current) (path ++ [(cond.versioned v).not]) es second)
    (busy : ¬ (ts ++ es = [] ∧ ∀ c p, .assert c p ∉ t.2 ++ e.2)) :
    Built.Realizes v path (joined.1, t.2 ++ e.2 ++ joined.2) fun input r =>
      if cond.holds input then first input r else second input r := by
  intro sorts m input r sorted mirrors on goes
  have inThen := fun c p member => ht.guarded c p member (List.mem_append_right _ (.head _))
  have inElse := fun c p member => he.guarded c p member (List.mem_append_right _ (.head _))
  have guards := mirrors.holds cond (parts.guard_sorted inThen inElse sorted busy)
  obtain ⟨sortedArms, sortedJoin⟩ := Stream.sorted_append.mp sorted
  obtain ⟨sortedThen, sortedElse⟩ := Stream.sorted_append.mp sortedArms
  cases chosen : cond.holds input with
  | true =>
    rw [chosen] at guards goes
    obtain ⟨n₁, keeps₁, ends⟩ := ht.realized sorts m input r sortedThen mirrors
      (guards_on on guards) goes
    obtain ⟨n₂, keeps₂, solves⟩ :=
      (parts.elseFits.numbered.append parts.merged.numbered).solvable sorts n₁
    have keeps := keeps₁.trans parts.thenFits.grows keeps₂
    exact ⟨n₂, keeps, parts.ends_then sortedJoin ((keeps.holds parts.reads).trans guards) inElse
      (ends.kept parts.thenFits keeps₂) solves⟩
  | false =>
    rw [chosen] at guards goes
    obtain ⟨n₁, keeps₁, solvesThen⟩ := parts.thenFits.numbered.solvable sorts m
    have off : (cond.versioned v).not.holds n₁ = true := by
      rw [Expr.holds_not, keeps₁.holds parts.reads, guards]
      rfl
    obtain ⟨n₂, keeps₂, ends⟩ := he.realized sorts n₁ input r sortedElse
      (keeps₁.mirrors parts.sound.bounded mirrors)
      (guards_on (keeps₁.path reads on) off) goes
    obtain ⟨n₃, keeps₃, solvesJoin⟩ := parts.merged.numbered.solvable sorts n₂
    have growsElse : ∀ x, t.1.count x ≤ e.1.count x := parts.elseFits.grows
    have later := keeps₂.trans growsElse keeps₃
    have keeps := keeps₁.trans parts.thenFits.grows later
    exact ⟨n₃, keeps, parts.ends_else sortedJoin ((keeps.holds parts.reads).trans guards) inThen
      (ends.kept parts.elseFits keeps₃) (later.solves parts.thenFits.numbered solvesThen)
      solvesJoin⟩

theorem traces (parts : BranchParts v (cond.versioned v) t e joined ts es)
    (reads : ∀ g ∈ path, g.Reads v.count)
    (ht : t.Traces v (path ++ [cond.versioned v]) ts first)
    (he : e.Traces (t.1.restore v.current) (path ++ [(cond.versioned v).not]) es second) :
    Built.Traces v path (joined.1, t.2 ++ e.2 ++ joined.2) (ts ++ es) fun input r =>
      if cond.holds input then first input r else second input r := by
  have arms : ∀ c p, .assert c p ∈ t.2 ++ e.2 ++ joined.2 → .assert c p ∈ t.2 ++ e.2 :=
    fun c p member => (List.mem_append.mp member).resolve_right (parts.merged.no_assert c p)
  by_cases still : ts ++ es = [] ∧ ∀ c p, .assert c p ∉ t.2 ++ e.2
  · obtain ⟨none, quiet⟩ := still
    obtain ⟨left, right⟩ := List.append_eq_nil_iff.mp none
    have fits := parts.fits
    rw [none] at fits ⊢
    refine .of_idle parts.sound fits (fun c p member => quiet c p (arms c p member)) ?_
    intro input r
    rw [ht.idle left (fun c p member => quiet c p (List.mem_append_left _ member)) input r,
      he.idle right (fun c p member => quiet c p (List.mem_append_right _ member)) input r,
      ite_self]
  · refine ⟨?_, ?_, parts.follows ht he still, parts.realizes reads ht he still⟩
    · intro c p member g stands
      rcases List.mem_append.mp (arms c p member) with member | member
      · exact ht.guarded c p member (List.mem_append_left _ stands)
      · exact he.guarded c p member (List.mem_append_left _ stands)
    · intro none quiet
      exact absurd ⟨none, fun c p member => quiet c p (List.mem_append_left _ member)⟩ still

end Course

end BranchParts

def Valuation.enter (m : Valuation) (c : Counts) (xs : List String) (w : Valuation) :
    Valuation where
  int y := if stem y ∈ xs ∧ y = symbol (stem y) (c (stem y) + 1) then w.int (stem y) else m.int y
  array y :=
    if stem y ∈ xs ∧ y = symbol (stem y) (c (stem y) + 1) then w.array (stem y) else m.array y
  byZero := m.byZero

theorem Valuation.enter_new (m w : Valuation) (c : Counts) {xs : List String} {x : String}
    (member : x ∈ xs) (s : VarSort Empty) :
    SameValue (m.enter c xs w) (symbol x (c x + 1)) w x s := by
  cases s with
  | int | array => simp [SameValue, enter, member]
  | stray part => exact part.elim

theorem KeepsKnown.enter (m w : Valuation) (c : Counts) (xs : List String) :
    KeepsKnown c m (m.enter c xs w) := by
  refine ⟨rfl, fun y s known => ?_⟩
  have old : ¬ (stem y ∈ xs ∧ y = symbol (stem y) (c (stem y) + 1)) := by
    rintro ⟨-, same⟩
    rw [same] at known
    exact not_known_next c _ known
  cases s with
  | int | array => simp only [SameValue, Valuation.enter, if_neg old]
  | stray part => exact part.elim

namespace LoopParts

variable {v : Versions} {guard : Expr Empty} {entered settled : Versions}
  {body exits : Built Empty} {ts : List String} {sorts : Sorts} {m : Valuation} {r : Ran}

theorem entries_no_assert (keys : List String) (c : Expr Empty) (p : List (Expr Empty)) :
    .assert c p ∉ keys.map (entryPhi v.current entered body.1) := by
  intro member
  obtain ⟨x, -, same⟩ := List.mem_map.mp member
  obtain ⟨xs, shape⟩ := entryPhi_eq_phi v.current entered body.1 x
  exact nomatch shape.symm.trans same

theorem guard_sorted (parts : LoopParts v guard entered body settled exits ts)
    (inBody : ∀ c p, .assert c p ∈ body.2 → guard ∈ p)
    (sortedBody : Stream.Sorted sorts body.2) (sortedExits : Stream.Sorted sorts exits.2)
    (busy : ¬ (ts = [] ∧ ∀ c p, .assert c p ∉ body.2)) :
    ∀ u ∈ guard.uses, sorts u.1 = some u.2 := by
  by_cases none : ts = []
  · have asserted : ∃ c p, .assert c p ∈ body.2 := by
      refine Classical.byContradiction fun quiet => busy ⟨none, fun c p member => ?_⟩
      exact quiet ⟨c, p, member⟩
    obtain ⟨c, p, member⟩ := asserted
    exact fun u used => sortedBody _ member u
      (List.mem_append_right _ (List.mem_flatMap.mpr ⟨guard, inBody c p member, used⟩))
  · obtain ⟨x, member⟩ := List.exists_mem_of_ne_nil _ none
    obtain ⟨-, -, stands⟩ := parts.merged.differing x (parts.differs member)
    exact fun u used => sortedExits _ stands u (List.mem_append_right _ used)

theorem entered_value (parts : LoopParts v guard entered body settled exits ts)
    (solves : Stream.Solves sorts m (v.current.keys.map (entryPhi v.current entered body.1)))
    (sorted : Stream.Sorted sorts (v.current.keys.map (entryPhi v.current entered body.1)))
    {x : String} (outside : x ∉ ts) {s : VarSort Empty} (declared : sorts (v.symbolOf x) = some s) :
    SameValue m (entered.symbolOf x) m (v.symbolOf x) s := by
  obtain ⟨version, -⟩ := parts.entered_spec x
  have same := parts.entered_sort sorted x
  by_cases live : x ∈ v.current.keys
  · have holds := solves _ (List.mem_map_of_mem live)
    rw [parts.entries x live, if_neg outside] at holds
    have header : entered.symbolOf x = symbol x (v.count x + 1) := by
      unfold Versions.symbolOf
      rw [version, if_pos live]
    have sort : sorts.of (symbol x (v.count x + 1)) = s := by
      rw [← header, Sorts.of, same, declared, Option.getD_some]
    simp only [Instr.Holds, sort] at holds
    rw [header]
    exact SameValue.iff_agrees.mpr holds
  · have still : entered.symbolOf x = v.symbolOf x := by
      unfold Versions.symbolOf
      rw [version, if_neg live]
    rw [still]
    exact SameValue.refl m _ s

/-- A name that is live before the loop and assigned in its body is an integer at the entry, and
enters with the value from before the loop or with the one that the body leaves. -/
theorem entered_choice (parts : LoopParts v guard entered body settled exits ts)
    (typed : body.Typed entered ts) (sortedBody : Stream.Sorted sorts body.2)
    (sorted : Stream.Sorted sorts (v.current.keys.map (entryPhi v.current entered body.1)))
    {x : String} (live : x ∈ v.current.keys) (inside : x ∈ ts) :
    entered.symbolOf x = symbol x (v.count x + 1) ∧ sorts (entered.symbolOf x) = some .int ∧
      ∀ n, (entryPhi v.current entered body.1 x : Instr Empty).Holds sorts n ↔
        n.int (entered.symbolOf x) = n.int (v.symbolOf x) ∨
          n.int (entered.symbolOf x) = n.int (body.1.symbolOf x) := by
  have header : entered.symbolOf x = symbol x (v.count x + 1) := by
    unfold Versions.symbolOf
    rw [(parts.entered_spec x).1, if_pos live]
  have phi := sorted _ (List.mem_map_of_mem live)
  rw [parts.entries x live, if_pos inside] at phi
  have back : sorts (symbol x (body.1.version x)) = some .int :=
    typed.final sorts sortedBody x inside
  have int : sorts (symbol x (v.count x + 1)) = some .int := by
    rw [← phi.operand (List.mem_cons_of_mem _ (List.mem_singleton_self _))]
    exact back
  refine ⟨header, by rwa [header], fun n => ?_⟩
  rw [parts.entries x live, if_pos inside, header]
  simp only [Instr.Holds, Sorts.of, int, Option.getD_some]
  rfl

theorem ends_skipped (parts : LoopParts v guard entered body settled exits ts)
    (sorted : Stream.Sorted sorts exits.2) (off : guard.holds m = false)
    (blocked : ∀ c p, .assert c p ∈ body.2 → guard ∈ p) {input : Valuation}
    (mirrors : Mirrors sorts m v.version input)
    (solves : Stream.Solves sorts m
      (v.current.keys.map (entryPhi v.current entered body.1) ++ body.2 ++ exits.2)) :
    Built.Ends sorts m
      (exits.1, v.current.keys.map (entryPhi v.current entered body.1) ++ body.2 ++ exits.2)
      (input, []) := by
  have on : guard.not.holds m = true := by rw [Expr.holds_not, off]; rfl
  refine ⟨solves, ?_, ?_⟩
  · have solvesExits := (Stream.solves_append.mp solves).2
    apply Mirrors.merged parts.merged solvesExits sorted fun x same => same.symm
    simp only [on, if_true]
    exact mirrors
  · refine iff_of_true ?_ List.not_mem_nil
    exact Stream.passes_append.mpr ⟨Stream.passes_append.mpr
      ⟨Stream.passes_of_no_assert (entries_no_assert _) m, Stream.passes_of_blocked blocked off⟩,
        parts.merged.passes m⟩

theorem ends_round (parts : LoopParts v guard entered body settled exits ts)
    (sorted : Stream.Sorted sorts
      (v.current.keys.map (entryPhi v.current entered body.1) ++ body.2 ++ exits.2))
    (on : guard.holds m = true)
    (entries : Stream.Solves sorts m (v.current.keys.map (entryPhi v.current entered body.1)))
    (ends : body.Ends sorts m r) (solvesExits : Stream.Solves sorts m exits.2) :
    Built.Ends sorts m
      (exits.1, v.current.keys.map (entryPhi v.current entered body.1) ++ body.2 ++ exits.2) r := by
  obtain ⟨sortedInner, sortedExits⟩ := Stream.sorted_append.mp sorted
  obtain ⟨sortedEntries, -⟩ := Stream.sorted_append.mp sortedInner
  have off : guard.not.holds m = false := by rw [Expr.holds_not, on]; rfl
  refine ⟨?_, ?_, ?_⟩
  · exact Stream.solves_append.mpr ⟨Stream.solves_append.mpr ⟨entries, ends.solves⟩, solvesExits⟩
  · apply Mirrors.merged parts.merged solvesExits sortedExits fun x same => same.symm
    simp only [off, Bool.false_eq_true, if_false]
    refine ⟨ends.final.byZero, fun x s declared => ?_⟩
    by_cases inside : x ∈ ts
    · rw [parts.settled_changed x inside] at declared ⊢
      exact ends.final.value x s declared
    · rw [parts.settled_unchanged x inside] at declared ⊢
      have left : body.1.version x = entered.version x := parts.bodyFits.unchanged x inside
      have sort : sorts (symbol x (body.1.version x)) = some s := by
        rw [left]
        exact (parts.entered_sort sortedEntries x).trans declared
      have last := ends.final.value x s sort
      rw [left] at last
      exact (parts.entered_value entries sortedEntries inside declared).symm.trans last
  · rw [← ends.passes, Stream.passes_append, Stream.passes_append,
      and_iff_left (parts.merged.passes m)]
    exact and_iff_right (Stream.passes_of_no_assert (entries_no_assert _) m)

theorem carries (parts : LoopParts v guard entered body settled exits ts)
    (typed : body.Typed entered ts) (sortedBody : Stream.Sorted sorts body.2)
    (sorted : Stream.Sorted sorts (v.current.keys.map (entryPhi v.current entered body.1)))
    (solves : Stream.Solves sorts m (v.current.keys.map (entryPhi v.current entered body.1)))
    {met : List String} (tracks : v.Tracks met) {input : Valuation}
    (mirrors : Mirrors sorts m v.version input) :
    ∃ w, Mirrors sorts m entered.version w ∧
      ∀ after, Mirrors sorts m body.1.version after → Carried met ts input w after := by
  let w : Valuation := { input with
    int := fun x =>
      if x ∈ v.current.keys ∧ x ∈ ts then m.int (entered.symbolOf x) else input.int x }
  have plain : ∀ x, ¬ (x ∈ v.current.keys ∧ x ∈ ts) → ∀ s, SameValue input x w x s := by
    intro x outside s
    cases s with
    | int => exact (if_neg outside).symm
    | array => rfl
    | stray part => exact part.elim
  refine ⟨w, ⟨mirrors.byZero, fun x s declared => ?_⟩, fun after final => ⟨rfl, rfl, fun x => ?_⟩⟩
  · have before : sorts (v.symbolOf x) = some s := (parts.entered_sort sorted x).symm.trans declared
    by_cases carried : x ∈ v.current.keys ∧ x ∈ ts
    · obtain ⟨-, int, -⟩ := parts.entered_choice typed sortedBody sorted carried.1 carried.2
      obtain rfl : s = .int := Option.some.inj (declared.symm.trans int)
      exact (if_pos carried).symm
    · have old := (mirrors.value x s before).trans (plain x carried s)
      by_cases inside : x ∈ ts
      · have dead : x ∉ v.current.keys := fun live => carried ⟨live, inside⟩
        rw [(parts.entered_spec x).1, if_neg dead]
        exact old
      · exact (parts.entered_value solves sorted inside before).trans old
  · by_cases carried : x ∈ v.current.keys ∧ x ∈ ts
    · obtain ⟨live, inside⟩ := carried
      obtain ⟨-, int, choice⟩ := parts.entered_choice typed sortedBody sorted live inside
      have begins : w.int x = m.int (entered.symbolOf x) := if_pos ⟨live, inside⟩
      rw [begins]
      rcases (choice m).mp (solves _ (List.mem_map_of_mem live)) with fresh | back
      · have before := (parts.entered_sort sorted x).symm.trans int
        exact .inl (fresh.trans (mirrors.value x .int before))
      · have value := final.value x .int (typed.final sorts sortedBody x inside)
        exact .inr ⟨(tracks x).mp live, inside, back.trans value⟩
    · exact .inl (if_neg carried)

theorem entries_solved (parts : LoopParts v guard entered body settled exits ts)
    (typed : body.Typed entered ts) (sortedBody : Stream.Sorted sorts body.2)
    (sorted : Stream.Sorted sorts (v.current.keys.map (entryPhi v.current entered body.1)))
    {met : List String} {input w after : Valuation} (carried : Carried met ts input w after)
    (before : Mirrors sorts m v.version input) (begins : Mirrors sorts m entered.version w)
    (ends : Mirrors sorts m body.1.version after) :
    Stream.Solves sorts m (v.current.keys.map (entryPhi v.current entered body.1)) := by
  intro i member
  obtain ⟨x, live, rfl⟩ := List.mem_map.mp member
  by_cases inside : x ∈ ts
  · obtain ⟨-, int, choice⟩ := parts.entered_choice typed sortedBody sorted live inside
    have first := begins.value x .int int
    apply (choice m).mpr
    rcases carried.int x with fresh | ⟨-, -, back⟩
    · have value := before.value x .int ((parts.entered_sort sorted x).symm.trans int)
      exact .inl ((first.trans fresh).trans value.symm)
    · have value := ends.value x .int (typed.final sorts sortedBody x inside)
      exact .inr ((first.trans back).trans value.symm)
  · have phi := sorted _ member
    have sort := parts.entered_sort sorted x
    have same : ∀ s, SameValue w x input x s := by
      intro s
      cases s with
      | int => exact (carried.int x).resolve_right fun h => inside h.2.1
      | array => exact congrFun carried.array x
      | stray part => exact part.elim
    have header : entered.version x = v.count x + 1 := by
      rw [(parts.entered_spec x).1, if_pos live]
    rw [parts.entries x live, if_neg inside, ← header] at phi ⊢
    have declared := phi.phi (List.mem_cons_self ..)
    have first := begins.value x _ declared
    have value := before.value x _ (sort.symm.trans declared)
    exact SameValue.iff_agrees.mp ((first.trans (same _)).trans value.symm)

theorem begun (parts : LoopParts v guard entered body settled exits ts)
    {met : List String} (tracks : v.Tracks met) {input w after : Valuation}
    (carried : Carried met ts input w after) (mirrors : Mirrors sorts m v.version input) :
    Mirrors sorts (m.enter v.count v.current.keys w) entered.version w := by
  have keeps := KeepsKnown.enter m w v.count v.current.keys
  have kept := keeps.mirrors parts.sound.bounded mirrors
  refine ⟨kept.byZero.trans carried.byZero.symm, fun x s declared => ?_⟩
  rw [(parts.entered_spec x).1] at declared ⊢
  by_cases live : x ∈ v.current.keys
  · rw [if_pos live]
    exact m.enter_new w v.count live s
  · rw [if_neg live] at declared ⊢
    have still : SameValue input x w x s := by
      cases s with
      | int => exact ((carried.int x).resolve_right fun h => live ((tracks x).mpr h.1)).symm
      | array => exact (congrFun carried.array x).symm
      | stray part => exact part.elim
    exact (kept.value x s declared).trans still

section Course

variable {cond : Expr Empty} {path : List (Expr Empty)} {course : Course} {met : List String}

theorem follows (parts : LoopParts v (cond.versioned v) entered body settled exits ts)
    (tracks : v.Tracks met) (typed : body.Typed entered ts)
    (hb : body.Traces entered (path ++ [cond.versioned v]) ts course)
    (busy : ¬ (ts = [] ∧ ∀ c p, .assert c p ∉ body.2)) :
    Built.Follows v path
      (exits.1, v.current.keys.map (entryPhi v.current entered body.1) ++ body.2 ++ exits.2)
      (passage cond met ts course) := by
  intro sorts m input solves sorted mirrors on
  have inBody := fun c p member => hb.guarded c p member (List.mem_append_right _ (.head _))
  obtain ⟨sortedInner, sortedExits⟩ := Stream.sorted_append.mp sorted
  obtain ⟨sortedEntries, sortedBody⟩ := Stream.sorted_append.mp sortedInner
  have guards := mirrors.holds cond (parts.guard_sorted inBody sortedBody sortedExits busy)
  unfold passage
  cases chosen : cond.holds input with
  | true =>
    rw [chosen] at guards
    obtain ⟨solvesInner, solvesExits⟩ := Stream.solves_append.mp solves
    obtain ⟨solvesEntries, solvesBody⟩ := Stream.solves_append.mp solvesInner
    obtain ⟨w, begins, carried⟩ := parts.carries typed sortedBody sortedEntries solvesEntries
      tracks mirrors
    obtain ⟨r, goes, ends⟩ := hb.follows sorts m w solvesBody sortedBody begins
      (guards_on on guards)
    exact ⟨r, ⟨w, carried _ ends.final, goes⟩,
      parts.ends_round sorted guards solvesEntries ends solvesExits⟩
  | false =>
    rw [chosen] at guards
    exact ⟨_, rfl, parts.ends_skipped sortedExits guards inBody mirrors solves⟩

theorem realizes (parts : LoopParts v (cond.versioned v) entered body settled exits ts)
    (reads : ∀ g ∈ path, g.Reads v.count) (tracks : v.Tracks met) (typed : body.Typed entered ts)
    (hb : body.Traces entered (path ++ [cond.versioned v]) ts course)
    (busy : ¬ (ts = [] ∧ ∀ c p, .assert c p ∉ body.2)) :
    Built.Realizes v path
      (exits.1, v.current.keys.map (entryPhi v.current entered body.1) ++ body.2 ++ exits.2)
      (passage cond met ts course) := by
  intro sorts m input r sorted mirrors on goes
  have inBody := fun c p member => hb.guarded c p member (List.mem_append_right _ (.head _))
  obtain ⟨sortedInner, sortedExits⟩ := Stream.sorted_append.mp sorted
  obtain ⟨sortedEntries, sortedBody⟩ := Stream.sorted_append.mp sortedInner
  have guards := mirrors.holds cond (parts.guard_sorted inBody sortedBody sortedExits busy)
  unfold passage at goes
  cases chosen : cond.holds input with
  | true =>
    rw [chosen] at guards goes
    obtain ⟨w, carried, goes⟩ := goes
    -- the entries get the values of the round, the body follows, the exits come last
    have keeps₁ := KeepsKnown.enter m w v.count v.current.keys
    have begins := parts.begun tracks carried mirrors
    obtain ⟨n₁, keeps₂, ends⟩ := hb.realized sorts _ w r sortedBody begins
      (guards_on (keeps₁.path reads on) ((keeps₁.holds parts.reads).trans guards)) goes
    have numbered := parts.merged.numbered
    rw [parts.settled_count] at numbered
    obtain ⟨n₂, keeps₃, solvesExits⟩ := numbered.solvable sorts n₁
    have later := keeps₂.trans parts.bodyFits.grows keeps₃
    have keeps := keeps₁.trans parts.entered_grows later
    have ends := ends.kept parts.bodyFits keeps₃
    have solvesEntries := parts.entries_solved typed sortedBody sortedEntries carried
      (keeps.mirrors parts.sound.bounded mirrors)
      (later.mirrors parts.entered_sound.bounded begins) ends.final
    exact ⟨n₂, keeps, parts.ends_round sorted ((keeps.holds parts.reads).trans guards)
      solvesEntries ends solvesExits⟩
  | false =>
    rw [chosen] at guards goes
    obtain rfl : r = (input, []) := goes
    obtain ⟨n, keeps, solves⟩ := parts.fits.numbered.solvable sorts m
    exact ⟨n, keeps, parts.ends_skipped sortedExits ((keeps.holds parts.reads).trans guards)
      inBody (keeps.mirrors parts.sound.bounded mirrors) solves⟩

theorem traces (parts : LoopParts v (cond.versioned v) entered body settled exits ts)
    (reads : ∀ g ∈ path, g.Reads v.count) (tracks : v.Tracks met) (typed : body.Typed entered ts)
    (hb : body.Traces entered (path ++ [cond.versioned v]) ts course) :
    Built.Traces v path
      (exits.1, v.current.keys.map (entryPhi v.current entered body.1) ++ body.2 ++ exits.2) ts
      (passage cond met ts course) := by
  have asserted : ∀ c p, .assert c p ∈ v.current.keys.map (entryPhi v.current entered body.1) ++
      body.2 ++ exits.2 → .assert c p ∈ body.2 := by
    intro c p member
    have inner := (List.mem_append.mp member).resolve_right (parts.merged.no_assert c p)
    exact (List.mem_append.mp inner).resolve_left (entries_no_assert _ c p)
  by_cases still : ts = [] ∧ ∀ c p, .assert c p ∉ body.2
  · obtain ⟨none, quiet⟩ := still
    have fits := parts.fits
    have idle := hb.idle none quiet
    rw [none] at fits ⊢
    refine .of_idle parts.sound fits (fun c p member => quiet c p (asserted c p member)) ?_
    exact passage_idle idle
  · refine ⟨?_, ?_, parts.follows tracks typed hb still,
      parts.realizes reads tracks typed hb still⟩
    · intro c p member g stands
      exact hb.guarded c p (asserted c p member) (List.mem_append_left _ stands)
    · intro none quiet
      refine absurd ⟨none, fun c p member => quiet c p ?_⟩ still
      exact List.mem_append_left _ (List.mem_append_right _ member)

end Course

end LoopParts

theorem buildLoop_traces (cond : Expr Empty) {path : List (Expr Empty)} {v : Versions}
    {run : List (Expr Empty) → Versions → Built Empty} {ts known : List String} {course : Course}
    (sound : v.Sound) (reads : ∀ g ∈ path, g.Reads v.count) (tracks : v.Tracks known)
    (bodyFits : ∀ path v, v.Sound → (∀ g ∈ path, g.Reads v.count) → (run path v).Fits v ts)
    (bodyTyped : ∀ path v, v.Sound → (∀ g ∈ path, g.Reads v.count) → (run path v).Typed v ts)
    (bodyTraces : ∀ path v, v.Sound → (∀ g ∈ path, g.Reads v.count) →
      v.Tracks (known ++ cond.names) → (run path v).Traces v path ts course) :
    (buildLoop cond path v run).Traces v path ts
      (passage cond (known ++ cond.names) ts course) := by
  obtain ⟨settled, exits, parts, built⟩ := buildLoop_parts cond sound reads bodyFits
  rw [built]
  rw [← Versions.count_touchAll v cond.names] at reads
  have before := tracks.touchAll cond.names
  have entered := fun x => (Versions.mem_keys_bumpAll (v.touchAll cond.names) _ x).trans
    (or_self_iff.trans (before x))
  have inside := reads_grown parts.entered_grows (reads_guarded reads parts.reads)
  have typed := bodyTyped _ _ parts.entered_sound inside
  have traces := bodyTraces _ _ parts.entered_sound inside entered
  rw [← Expr.versioned_touchAll v cond.names] at parts typed traces ⊢
  exact (parts.traces reads before typed traces).untouch

namespace Stmt

mutual

theorem build_traces (path : List (Expr Empty)) (v : Versions) (s : Stmt Empty) (sound : v.Sound)
    (reads : ∀ g ∈ path, g.Reads v.count) {known : List String} (tracks : v.Tracks known) :
    (build path v s).Traces v path s.targets (traverses known s) := by
  match s with
  | .assign a =>
    rw [traverses_loopFree 0 known (.assign a) rfl]
    exact .of_simulates sound reads (build_fits path v (.assign a) sound reads)
      (build_simulates 0 path v (.assign a) rfl sound reads)
  | .assert c =>
    rw [traverses_loopFree 0 known (.assert c) rfl]
    exact .of_simulates sound reads (build_fits path v (.assert c) sound reads)
      (build_simulates 0 path v (.assert c) rfl sound reads)
  | .branch c t e =>
    unfold build targets traverses
    obtain ⟨joined, parts, built⟩ := buildBranch_parts c sound reads
      (fun path v => buildAll_fits path v t) (fun path v => buildAll_fits path v e)
    rw [built]
    rw [← Versions.count_touchAll v c.names] at reads
    rw [← Expr.versioned_touchAll v c.names] at parts ⊢
    have later : (c.versioned (v.touchAll c.names)).not.Reads _ := fun y member =>
      (parts.reads y member).mono parts.thenFits.grows
    have before := tracks.touchAll c.names
    exact (parts.traces reads
      (buildAll_traces _ _ t parts.sound (reads_guarded reads parts.reads) before)
      (buildAll_traces _ _ e (parts.thenFits.restored parts.sound)
        (reads_guarded (reads_grown parts.thenFits.grows reads) later) before)).untouch
  | .whileLoop c b =>
    unfold build targets traverses
    exact buildLoop_traces c sound reads tracks (fun path v => buildAll_fits path v b)
      (fun path v => buildAll_typed path v b)
      fun path v sound reads tracks => buildAll_traces path v b sound reads tracks
  | .forLoop i c u b =>
    unfold build targets traverses
    have first := i.build_fits sound
    have initial : (i.build v).Traces v path [i.target] fun input r => r = (i.run input, []) :=
      .of_simulates sound reads first (i.build_simulates v path)
    have bodyTraces : ∀ path v, v.Sound → (∀ g ∈ path, g.Reads v.count) →
        v.Tracks (known ++ i.value.names ++ [i.target] ++ c.names) →
        ((buildAll path v b).andThen u.build).Traces v path (targetsAll b ++ [u.target])
          (Course.andThen (traversesAll (known ++ i.value.names ++ [i.target] ++ c.names) b)
            fun v r => r = (u.run v, [])) := by
      intro path v sound reads tracks
      have body := buildAll_fits path v b sound reads
      exact .andThen reads body (buildAll_traces path v b sound reads tracks)
        (.of_simulates body.sound (reads_grown body.grows reads) (u.build_fits body.sound)
          (u.build_simulates _ path))
    have loop := buildLoop_traces c first.sound (reads_grown first.grows reads)
      (i.build_tracks tracks) (fun path v => buildRound_fits path v b u)
      (fun path v => buildRound_typed path v b u) bodyTraces
    exact .andThen reads first initial loop

theorem buildAll_traces (path : List (Expr Empty)) (v : Versions) (p : List (Stmt Empty))
    (sound : v.Sound) (reads : ∀ g ∈ path, g.Reads v.count) {known : List String}
    (tracks : v.Tracks known) :
    (buildAll path v p).Traces v path (targetsAll p) (traversesAll known p) := by
  match p with
  | [] =>
    rw [traversesAll_loopFree 0 known [] rfl]
    exact .of_simulates sound reads (buildAll_fits path v [] sound reads)
      (buildAll_simulates 0 path v [] rfl sound reads)
  | s :: rest =>
    unfold buildAll targetsAll traversesAll
    have first := build_fits path v s sound reads
    exact .andThen reads first (build_traces path v s sound reads tracks)
      (buildAll_traces path _ rest first.sound (reads_grown first.grows reads)
        (build_tracks path v s sound reads tracks))

end

end Stmt

end Assay
