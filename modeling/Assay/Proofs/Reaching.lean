import Assay.Proofs.Determination
import Assay.Proofs.Verification

/-! The one solution of a stream without loops, and the run of its program. The last version of a
name has the value of the name at the end of the run. The assertions stand in the order of the text;
a path holds if and only if the run comes to its assertion, and the condition then has the value
that it has in the run. -/
namespace Assay

def Stream.asserted (s : Stream Empty) : List (Expr Empty × List (Expr Empty)) :=
  s.filterMap fun
    | .assert c path => some (c, path)
    | _ => none

/-- The value of an asserted condition where its path holds. -/
def outcome (m : Valuation) (a : Expr Empty × List (Expr Empty)) : Option Int :=
  if a.2.all (Expr.holds m) then some (a.1.eval m) else none

namespace Stmt

mutual

def asserted : Stmt Empty → List (Expr Empty)
  | .assign _ => []
  | .assert c => [c]
  | .branch _ t e => assertedAll t ++ assertedAll e
  | .whileLoop _ b | .forLoop _ _ _ b => assertedAll b

def assertedAll : List (Stmt Empty) → List (Expr Empty)
  | [] => []
  | s :: rest => asserted s ++ assertedAll rest

end

mutual

/-- For a program without loops, the values that the asserted conditions have when a run comes to
them, in the order of the text, and nothing for those that it does not come to. -/
def reached (bound : Nat) : Stmt Empty → Valuation → List (Option Int)
  | .assert c, v => [some (c.eval v)]
  | .branch c t e, v =>
    if c.holds v then reachedAll bound t v ++ (assertedAll e).map fun _ => none
    else (assertedAll t).map (fun _ => none) ++ reachedAll bound e v
  | .assign _, _ | .whileLoop .., _ | .forLoop .., _ => []

def reachedAll (bound : Nat) : List (Stmt Empty) → Valuation → List (Option Int)
  | [], _ => []
  | s :: rest, v => reached bound s v ++ reachedAll bound rest (run bound s v).1

end

end Stmt

/-- The versions that names have stand for the values of the names. -/
structure Reflects (m : Valuation) (versions : String → Nat) (v : Valuation) : Prop where
  byZero : m.byZero = v.byZero
  int : ∀ x, m.int (symbol x (versions x)) = v.int x
  array : ∀ x n, m.array (symbol x n) = v.array x

theorem Reflects.along {m v : Valuation} {versions : Versions}
    (reflects : Reflects m versions.version v) : m.along versions.symbolOf = v := by
  obtain ⟨int, array, byZero⟩ := v
  simp only [Valuation.along, Valuation.mk.injEq]
  exact ⟨funext reflects.int, funext fun x => reflects.array x _, reflects.byZero⟩

theorem Reflects.eval {m v : Valuation} {versions : Versions}
    (reflects : Reflects m versions.version v) (e : Expr Empty) :
    (e.versioned versions).eval m = e.eval v := by
  rw [Expr.versioned, Expr.eval_mapNames, reflects.along]

theorem Reflects.holds {m v : Valuation} {versions : Versions}
    (reflects : Reflects m versions.version v) (e : Expr Empty) :
    (e.versioned versions).holds m = e.holds v := by
  rw [Expr.versioned, Expr.holds_mapNames, reflects.along]

theorem Expr.mapNames_versioned (v : Versions) (e : Expr Empty) :
    (e.versioned v).mapNames stem = e := by
  unfold versioned
  induction e with
  | lit n => rfl
  | var x => simp [mapNames, Versions.symbolOf]
  | read a i ih => simp [mapNames, Versions.symbolOf, ih]
  | binary op l r left right => simp [mapNames, left, right]
  | unary op e ih => simp [mapNames, ih]
  | stray part => exact part.elim

/-- The piece built under a path has the assertions of the piece of program, in order. Where the
path holds, it does what the piece does and reaches what the piece reaches. -/
structure Built.Reaches (v : Versions) (path : List (Expr Empty)) (built : Built Empty)
    (conds : List (Expr Empty)) (run : Valuation → Ran)
    (reached : Valuation → List (Option Int)) : Prop where
  straight : Stream.Straight built.2
  conditions : (Stream.asserted built.2).map (fun a => a.1.mapNames stem) = conds
  guarded : ∀ a ∈ Stream.asserted built.2, path ⊆ a.2
  follows : ∀ m input, (∀ i ∈ built.2, i.Equates m) → Reflects m v.version input →
    (∀ g ∈ path, g.holds m = true) →
    Reflects m built.1.version (run input).1 ∧
      (Stream.asserted built.2).map (outcome m) = reached input

theorem Stream.asserted_append (s t : Stream Empty) :
    Stream.asserted (s ++ t) = s.asserted ++ t.asserted :=
  List.filterMap_append

theorem Stream.Straight.append {s t : Stream Empty} (first : s.Straight) (second : t.Straight) :
    Stream.Straight (s ++ t) :=
  fun r xs member => (List.mem_append.mp member).elim (first r xs) (second r xs)

namespace Built.Reaches

variable {v : Versions} {path conds others : List (Expr Empty)}
  {reached reachedLater : Valuation → List (Option Int)}

theorem blocked {built : Built Empty} {run : Valuation → Ran}
    (reaches : built.Reaches v path conds run reached) {m : Valuation} {g : Expr Empty}
    (member : g ∈ path) (off : g.holds m = false) :
    (Stream.asserted built.2).map (outcome m) = conds.map fun _ => none := by
  rw [← reaches.conditions, List.map_map]
  refine List.map_congr_left fun a stands => if_neg fun all => ?_
  have on := List.all_eq_true.mp all g (reaches.guarded a stands member)
  rw [off] at on
  contradiction

theorem andThen {first : Built Empty} {next : Versions → Built Empty} {run later : Valuation → Ran}
    (head : first.Reaches v path conds run reached)
    (tail : (next first.1).Reaches first.1 path others later reachedLater) :
    (first.andThen next).Reaches v path (conds ++ others) (fun input => (run input).andThen later)
      fun input => reached input ++ reachedLater (run input).1 where
  straight := head.straight.append tail.straight
  conditions := by
    change (Stream.asserted (first.2 ++ (next first.1).2)).map _ = _
    rw [Stream.asserted_append, List.map_append, head.conditions, tail.conditions]
  guarded := by
    intro a member
    rcases List.mem_append.mp (Stream.asserted_append _ _ ▸ member) with member | member
    · exact head.guarded a member
    · exact tail.guarded a member
  follows := by
    intro m input equations reflects on
    obtain ⟨first, second⟩ := List.forall_mem_append.mp equations
    obtain ⟨middle, met⟩ := head.follows m input first reflects on
    obtain ⟨final, metLater⟩ := tail.follows m _ second middle on
    refine ⟨final, ?_⟩
    change (Stream.asserted (_ ++ _)).map _ = _
    rw [Stream.asserted_append, List.map_append, met, metLater]

theorem untouch {built : Built Empty} {run : Valuation → Ran} {xs : List String}
    (reaches : built.Reaches (v.touchAll xs) path conds run reached) :
    built.Reaches v path conds run reached where
  straight := reaches.straight
  conditions := reaches.conditions
  guarded := reaches.guarded
  follows := by
    have follows := reaches.follows
    rwa [Versions.version_touchAll] at follows

end Built.Reaches

theorem Assign.build_reaches (a : Assign Empty) (v : Versions) (path : List (Expr Empty)) :
    (a.build v).Reaches v path [] (fun input => (a.run input, [])) fun _ => [] where
  straight := by
    intro r xs member
    rw [a.stream_build] at member
    exact nomatch List.mem_singleton.mp member
  conditions := by
    rw [a.stream_build]
    rfl
  guarded := by
    rw [a.stream_build]
    exact fun _ member => nomatch member
  follows := by
    intro m input equations reflects _
    rw [a.stream_build] at equations ⊢
    refine ⟨⟨reflects.byZero, fun x => ?_, reflects.array⟩, rfl⟩
    rw [a.version_build]
    by_cases same : a.target = x
    · subst same
      have equation : m.int _ = (a.value.versioned v).eval m :=
        equations _ (List.mem_singleton_self _)
      rw [if_pos rfl, equation, reflects.eval]
      simp [Assign.run]
    · rw [if_neg same, reflects.int]
      simp [Assign.run, Ne.symm same]

theorem Merged.asserted {guard : Expr Empty} {a b : String → Nat} {w : Versions}
    {joined : Built Empty} (merged : Merged guard a b w joined) :
    Stream.asserted joined.2 = [] := by
  refine List.filterMap_eq_nil_iff.mpr fun i member => ?_
  obtain ⟨x, -, rfl⟩ := merged.only i member
  rfl

theorem Merged.straight {guard : Expr Empty} {a b : String → Nat} {w : Versions}
    {joined : Built Empty} (merged : Merged guard a b w joined) : Stream.Straight joined.2 := by
  intro r xs member
  obtain ⟨x, -, same⟩ := merged.only _ member
  exact nomatch (Instr.phi.inj same).2.2

theorem Reflects.merged {m v : Valuation} {guard : Expr Empty} {a b : String → Nat}
    {w : Versions} {joined : Built Empty} (merged : Merged guard a b w joined)
    (equations : ∀ i ∈ joined.2, i.Equates m) (stays : ∀ x, a x = b x → w.version x = a x)
    (reflects : Reflects m (fun x => if guard.holds m then a x else b x) v) :
    Reflects m joined.1.version v := by
  refine ⟨reflects.byZero, fun x => ?_, reflects.array⟩
  rw [← reflects.int x]
  by_cases same : a x = b x
  · rw [(merged.equal x same).1, stays x same, ← same, ite_self]
  · obtain ⟨version, -, member⟩ := merged.differing x same
    rw [version, (equations _ member).1]
    exact (apply_ite (fun n => m.int (symbol x n)) _ _ _).symm

theorem BranchParts.reaches (cond : Expr Empty) {path : List (Expr Empty)} {v : Versions}
    {t e joined : Built Empty} {ts es : List String} {conds others : List (Expr Empty)}
    {first second : Valuation → Ran} {inThen inElse : Valuation → List (Option Int)}
    (parts : BranchParts v (cond.versioned v) t e joined ts es)
    (ht : t.Reaches v (path ++ [cond.versioned v]) conds first inThen)
    (he : e.Reaches (t.1.restore v.current) (path ++ [(cond.versioned v).not]) others second
      inElse) :
    Built.Reaches v path (joined.1, t.2 ++ e.2 ++ joined.2) (conds ++ others)
      (fun input => if cond.holds input then first input else second input) fun input =>
        if cond.holds input then inThen input ++ others.map fun _ => none
        else (conds.map fun _ => none) ++ inElse input := by
  have whole : Stream.asserted (t.2 ++ e.2 ++ joined.2) =
      Stream.asserted t.2 ++ Stream.asserted e.2 := by
    rw [Stream.asserted_append, Stream.asserted_append, parts.merged.asserted, List.append_nil]
  refine ⟨(ht.straight.append he.straight).append parts.merged.straight, ?_, ?_, ?_⟩
  · rw [whole, List.map_append, ht.conditions, he.conditions]
  · intro a member
    rcases List.mem_append.mp (whole ▸ member) with member | member
    · exact fun g stands => ht.guarded a member (List.mem_append_left _ stands)
    · exact fun g stands => he.guarded a member (List.mem_append_left _ stands)
  · intro m input equations reflects on
    obtain ⟨arms, joins⟩ := List.forall_mem_append.mp equations
    obtain ⟨left, right⟩ := List.forall_mem_append.mp arms
    have guards := reflects.holds cond
    have merge := fun w => Reflects.merged (v := w) parts.merged joins fun x same => same.symm
    simp only [whole, List.map_append]
    -- the equations of the other arm hold as well, but none of its assertions is reached
    cases chosen : cond.holds input with
    | true =>
      rw [chosen] at guards
      have skipped := he.blocked (m := m) (List.mem_append_right _ (List.mem_singleton_self _))
        (by rw [Expr.holds_not, guards]; rfl)
      obtain ⟨after, met⟩ := ht.follows m input left reflects (guards_on on guards)
      simp only [guards, if_true] at merge
      exact ⟨merge _ after, by rw [met, skipped]; rfl⟩
    | false =>
      rw [chosen] at guards
      have skipped := ht.blocked (m := m) (List.mem_append_right _ (List.mem_singleton_self _))
        guards
      obtain ⟨after, met⟩ := he.follows m input right reflects
        (guards_on on (by rw [Expr.holds_not, guards]; rfl))
      simp only [guards, Bool.false_eq_true, if_false] at merge
      exact ⟨merge _ after, by rw [met, skipped]; rfl⟩

namespace Stmt

mutual

theorem build_reaches (bound : Nat) (path : List (Expr Empty)) (v : Versions) (s : Stmt Empty)
    (flat : loopFree s = true) (sound : v.Sound) (known : ∀ g ∈ path, g.Reads v.count) :
    (build path v s).Reaches v path s.asserted (run bound s) (reached bound s) := by
  match s with
  | .assign a =>
    unfold build asserted
    exact a.build_reaches v path
  | .assert c =>
    unfold build asserted
    refine ⟨?_, ?_, ?_, ?_⟩
    · intro r xs member
      exact nomatch List.mem_singleton.mp member
    · simp [Stream.asserted, Expr.mapNames_versioned]
    · intro a member
      obtain rfl := List.mem_singleton.mp member
      exact fun _ stands => stands
    · intro m input _ reflects on
      refine ⟨by rwa [Versions.version_touchAll], ?_⟩
      have all : path.all (Expr.holds m) = true := List.all_eq_true.mpr on
      simp [Stream.asserted, outcome, all, reflects.eval, reached]
  | .branch c t e =>
    unfold build asserted
    unfold loopFree at flat
    obtain ⟨flatThen, flatElse⟩ := Bool.and_eq_true_iff.mp flat
    obtain ⟨joined, parts, built⟩ := buildBranch_parts c sound known
      (fun path v => buildAll_fits path v t) (fun path v => buildAll_fits path v e)
    rw [built]
    rw [← Versions.count_touchAll v c.names] at known
    rw [← Expr.versioned_touchAll v c.names] at parts ⊢
    have restored := parts.thenFits.restored parts.sound
    have later : (c.versioned (v.touchAll c.names)).not.Reads _ := fun y member =>
      (parts.reads y member).mono parts.thenFits.grows
    exact (parts.reaches c
      (buildAll_reaches bound _ _ t flatThen parts.sound (reads_guarded known parts.reads))
      (buildAll_reaches bound _ _ e flatElse restored
        (reads_guarded (reads_grown parts.thenFits.grows known) later))).untouch

theorem buildAll_reaches (bound : Nat) (path : List (Expr Empty)) (v : Versions)
    (p : List (Stmt Empty)) (flat : loopFreeAll p = true) (sound : v.Sound)
    (known : ∀ g ∈ path, g.Reads v.count) :
    (buildAll path v p).Reaches v path (assertedAll p) (runAll bound p) (reachedAll bound p) := by
  match p with
  | [] =>
    unfold buildAll assertedAll
    exact ⟨fun r xs => List.not_mem_nil, rfl, fun a member => absurd member List.not_mem_nil,
      fun m input _ reflects _ => ⟨reflects, rfl⟩⟩
  | s :: rest =>
    unfold buildAll assertedAll
    unfold loopFreeAll at flat
    obtain ⟨head, tail⟩ := Bool.and_eq_true_iff.mp flat
    have first := build_fits path v s sound known
    exact (build_reaches bound path v s head sound known).andThen
      (buildAll_reaches bound path _ rest tail first.sound (reads_grown first.grows known))

end

mutual

theorem reached_run (bound : Nat) (s : Stmt Empty) (flat : loopFree s = true) (v : Valuation) :
    (reached bound s v).filterMap id = (run bound s v).2 := by
  match s with
  | .assign a => rfl
  | .assert c => rfl
  | .branch c t e =>
    unfold loopFree at flat
    obtain ⟨flatThen, flatElse⟩ := Bool.and_eq_true_iff.mp flat
    have skipped (cs : List (Expr Empty)) :
        (cs.map fun _ => (none : Option Int)).filterMap id = [] := by
      simp
    unfold reached run
    split
    · rw [List.filterMap_append, skipped, List.append_nil, reachedAll_run bound t flatThen]
    · rw [List.filterMap_append, skipped, List.nil_append, reachedAll_run bound e flatElse]

theorem reachedAll_run (bound : Nat) (p : List (Stmt Empty)) (flat : loopFreeAll p = true)
    (v : Valuation) : (reachedAll bound p v).filterMap id = (runAll bound p v).2 := by
  match p with
  | [] => rfl
  | s :: rest =>
    unfold loopFreeAll at flat
    obtain ⟨head, tail⟩ := Bool.and_eq_true_iff.mp flat
    unfold reachedAll runAll
    rw [List.filterMap_append, reached_run bound s head, reachedAll_run bound rest tail]
    rfl

end

end Stmt

/-- Without loops every version that is given has the sort of an assignment: of the two versions
that a phi joins, one was given before. -/
theorem Numbered.given_int {c c' : Counts} {s : Stream Empty} (numbered : Numbered c s c')
    (straight : s.Straight) {sorts : Sorts} (sorted : s.Sorted sorts)
    (earlier : ∀ x n, 0 < n → n ≤ c x → sorts (symbol x n) = some .int) (x : String) (n : Nat)
    (positive : 0 < n) (given : n ≤ c' x) : sorts (symbol x n) = some .int := by
  have step : ∀ {c : Counts} {y : String},
      (∀ x n, 0 < n → n ≤ c x → sorts (symbol x n) = some .int) →
      sorts (symbol y (c y + 1)) = some .int →
      ∀ x n, 0 < n → n ≤ c.bump y x → sorts (symbol x n) = some .int := by
    intro c y earlier next x n positive given
    unfold Counts.bump at given
    split at given
    · rename_i same
      subst same
      rcases Nat.le_succ_iff.mp given with before | rfl
      · exact earlier y n positive before
      · exact next
    · exact earlier x n positive given
  induction numbered with
  | nil => exact earlier x n positive given
  | assert _ _ _ ih => exact ih straight.tail (List.forall_mem_cons.mp sorted).2 earlier given
  | copy | entry => exact absurd (List.mem_cons_self ..) (straight _ _)
  | assign _ _ ih =>
    obtain ⟨first, rest⟩ := List.forall_mem_cons.mp sorted
    exact ih straight.tail rest (step earlier first.target) given
  | @join c c' s y k l g left right ne _ _ ih =>
    obtain ⟨first, rest⟩ := List.forall_mem_cons.mp sorted
    refine ih straight.tail rest (step earlier ?_) given
    rcases Nat.eq_zero_or_pos k with rfl | positive
    · rw [← first.operand (a := symbol y l) (by simp)]
      exact earlier y l (by omega) right
    · rw [← first.operand (a := symbol y k) (by simp)]
      exact earlier y k positive left

def Stream.Agree (s : Stream Empty) (m n : Valuation) : Prop :=
  (∀ y ∈ s.mentions, m.int y = n.int y) ∧ ∀ y ∈ s.indexedSymbols, m.array y = n.array y

namespace Program

/-- A solution of the equations of a program's stream from an input. -/
structure EquatedFrom (p : Program Empty) (input m : Valuation) : Prop where
  byZero : m.byZero = input.byZero
  inputs : ∀ x, m.int (symbol x 0) = input.int x ∧ m.array (symbol x 0) = input.array x
  equations : ∀ i ∈ p.stream, i.Equates m

/-- No statement writes an array, so a name that is indexed keeps its array where it is assigned as
well. Nothing is asked for where no name is both, and nothing more than the equations where the
stream can be encoded. -/
structure SolvedFrom (p : Program Empty) (input m : Valuation) : Prop
    extends p.EquatedFrom input m where
  kept : ∀ x ∈ Stmt.targetsAll p, ∀ n, symbol x n ∈ p.stream.indexedSymbols →
    m.array (symbol x n) = input.array x

theorem mem_indexedSymbols {p : Program Empty} {y : String} :
    y ∈ p.stream.indexedSymbols ↔ ∃ i ∈ p.stream, ∃ e ∈ i.exprs, (y, .array) ∈ e.uses := by
  simp only [Stream.indexedSymbols, Stream.mem_addNames, List.not_mem_nil, false_or,
    List.mem_flatMap, Expr.mem_indexed]

theorem mentions_of_indexed {p : Program Empty} {y : String}
    (member : y ∈ p.stream.indexedSymbols) : y ∈ p.stream.mentions := by
  obtain ⟨i, stands, e, inside, indexed⟩ := mem_indexedSymbols.mp member
  have named := Expr.mem_names_of_mem_uses indexed
  refine List.mem_flatMap.mpr ⟨i, stands, List.mem_append_right _ (List.mem_append_right _ ?_)⟩
  exact List.mem_flatMap.mpr ⟨e, inside, named⟩

theorem reaches (p : Program Empty) (flat : p.LoopFree) (bound : Nat) :
    Built.Reaches .empty [] (p.construct.versions, p.stream) (Stmt.assertedAll p) (p.run bound)
      (Stmt.reachedAll bound p) :=
  Stmt.buildAll_reaches bound [] .empty p flat Versions.sound_empty fun _ member => nomatch member

theorem EquatedFrom.solvedFrom {p : Program Empty} (flat : p.LoopFree) {script : Smt.Script Empty}
    (ok : p.stream.encoded = .ok script) {input m : Valuation}
    (equated : p.EquatedFrom input m) : p.SolvedFrom input m := by
  refine ⟨equated, fun x _ n member => ?_⟩
  have sorted := (Stream.encoded_spec ok).sorted
  have array : script.sorts (symbol x n) = some .array := by
    obtain ⟨i, stands, e, inside, indexed⟩ := mem_indexedSymbols.mp member
    exact sorted i stands _ ((p.numbered.guardsPick stands).mem_uses _ inside indexed)
  rcases Nat.eq_zero_or_pos n with rfl | positive
  · exact (equated.inputs x).2
  · obtain ⟨y, k, same, le⟩ := p.numbered.mentions_known (mentions_of_indexed member)
    obtain ⟨rfl, rfl⟩ := symbol_inj.mp same
    have int := p.numbered.given_int (p.reaches flat 0).straight sorted
      (fun x n positive given => absurd given (Nat.not_le.mpr positive)) x n positive le
    exact nomatch array.symm.trans int

theorem SolvedFrom.array_eq {p : Program Empty} (flat : p.LoopFree) {input m : Valuation}
    (solved : p.SolvedFrom input m) {y : String} (member : y ∈ p.stream.indexedSymbols) :
    m.array y = input.array (stem y) := by
  obtain ⟨x, n, rfl, le⟩ := p.numbered.mentions_known (mentions_of_indexed member)
  rw [stem_symbol]
  by_cases target : x ∈ Stmt.targetsAll p
  · exact solved.kept x target n member
  · have count := (Stmt.buildAll_latest [] .empty p flat Versions.sound_empty
      fun _ member => nomatch member).others x target
    obtain rfl : n = 0 := Nat.le_zero.mp (le.trans_eq count)
    exact (solved.inputs x).2

theorem solvedFrom_fill (p : Program Empty) (flat : p.LoopFree) (input : Valuation) :
    p.SolvedFrom input (p.stream.fill (input.along stem)) := by
  have straight := (p.reaches flat 0).straight
  have keeps := p.numbered.fill_keeps straight (input.along stem)
  obtain ⟨array, byZero⟩ := Stream.fill_frame (input.along stem) p.stream
  have stems : ∀ x n, (input.along stem).array (symbol x n) = input.array x := by
    intro x n
    simp [Valuation.along]
  refine ⟨⟨byZero, fun x => ⟨?_, ?_⟩, ?_⟩, ?_⟩
  · have start : (input.along stem).int (symbol x 0) = _ :=
      keeps.value (symbol x 0) .int ⟨x, 0, rfl, Nat.le_refl 0⟩
    rw [← start]
    simp [Valuation.along]
  · rw [array, stems]
  · exact p.numbered.fill_equates straight _ fun x n => (stems x n).trans (stems x 0).symm
  · intro x _ n _
    rw [array, stems]

theorem SolvedFrom.eq_fill {p : Program Empty} (flat : p.LoopFree) {input m : Valuation}
    (solved : p.SolvedFrom input m) {y : String} (member : y ∈ p.stream.mentions) :
    m.int y = (p.stream.fill (input.along stem)).int y := by
  refine p.numbered.fill_unique (v := input.along stem) (p.reaches flat 0).straight solved.byZero ?_
    solved.equations ?_ y (p.numbered.mentions_known member)
  · intro i stands e inside a indexed
    exact solved.array_eq flat
      (mem_indexedSymbols.mpr ⟨i, stands, e, inside, Expr.mem_indexed.mp indexed⟩)
  · rintro _ ⟨x, n, rfl, le⟩
    obtain rfl := Nat.le_zero.mp le
    simp [(solved.inputs x).1, Valuation.along]

/-- From an input, the equations of a program without loops have exactly one solution in which
indexed names keep their arrays, and no other at all where the stream can be encoded. Its values for
the final versions are those at the end of the run, and the assertions of the stream are those of
the text in order, each with the value that its condition has when the run comes to it; the path of
the others is false. -/
theorem solution_carries_run (p : Program Empty) (flat : p.LoopFree) (input : Valuation)
    (bound : Nat) :
    ∃ m, p.SolvedFrom input m ∧
      (∀ other, p.SolvedFrom input other → p.stream.Agree other m) ∧
      (∀ script, p.stream.encoded = .ok script → ∀ other, p.EquatedFrom input other →
        p.stream.Agree other m) ∧
      (∀ x, m.int (symbol x ((p.finalVersions.get? x).getD 0)) = (p.run bound input).1.int x ∧
        m.array (symbol x ((p.finalVersions.get? x).getD 0)) = (p.run bound input).1.array x) ∧
      p.stream.asserted.map (fun a => a.1.mapNames stem) = Stmt.assertedAll p ∧
      p.stream.asserted.map (outcome m) = Stmt.reachedAll bound p input ∧
      (Stmt.reachedAll bound p input).filterMap id = (p.run bound input).2 := by
  have solved := p.solvedFrom_fill flat input
  have reaches := p.reaches flat bound
  have start : Reflects (p.stream.fill (input.along stem)) (fun _ => 0) input := by
    refine ⟨solved.byZero, fun x => (solved.inputs x).1, fun x n => ?_⟩
    simp [(Stream.fill_frame _ _).1, Valuation.along]
  obtain ⟨final, met⟩ := reaches.follows _ input solved.equations start
    fun _ member => absurd member List.not_mem_nil
  have unique : ∀ other, p.SolvedFrom input other → p.stream.Agree other _ := fun other solves =>
    ⟨fun y member => solves.eq_fill flat member, fun y member =>
      (solves.array_eq flat member).trans (solved.array_eq flat member).symm⟩
  exact ⟨_, solved, unique,
    fun script ok other equated => unique other (equated.solvedFrom flat ok),
    fun x => ⟨final.int x, final.array x _⟩, reaches.conditions, met,
    Stmt.reachedAll_run bound p flat input⟩

/-- The guard of a branch is overwritten in one arm, and a name is first seen in the other. -/
def guardOverwritten : Program Empty :=
  [.branch (.var "x")
      [.assign ⟨"x", .lit 0⟩, .branch (.var "y") [.assert (.var "x")] [.assert (.lit 7)]]
      [.assign ⟨"z", .lit 1⟩, .assert (.read "a" (.var "z"))],
    .assert (.binary (.compute .add) (.var "x") (.var "z"))]

theorem solution_carries_run_guardOverwritten :
    ∃ m, guardOverwritten.SolvedFrom ⟨fun _ => 3, fun _ i => i, fun _ => 0⟩ m ∧
      guardOverwritten.stream.asserted.map (outcome m) = [some 0, none, none, some 3] := by
  obtain ⟨m, solved, -, -, -, -, met, -⟩ :=
    solution_carries_run guardOverwritten rfl ⟨fun _ => 3, fun _ i => i, fun _ => 0⟩ 0
  exact ⟨m, solved, met.trans (by decide)⟩

end Program

end Assay
