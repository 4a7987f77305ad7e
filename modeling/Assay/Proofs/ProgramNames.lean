import Assay.Proofs.Liveness
import Assay.Proofs.Readable
import Assay.Proofs.Requests

/-! The names of a program. Those of a program that was read are names of the language, and every
symbol that stands in the stream of a program is a version of one of its names. -/
namespace Assay

def Assign.names (a : Assign Empty) : List String := a.target :: a.value.names

namespace Stmt

mutual

def names : Stmt Empty → List String
  | .assign a => a.names
  | .assert c => c.names
  | .branch c t e => c.names ++ (namesAll t ++ namesAll e)
  | .whileLoop c b => c.names ++ namesAll b
  | .forLoop i c u b => i.names ++ (c.names ++ (u.names ++ namesAll b))

def namesAll : List (Stmt Empty) → List String
  | [] => []
  | s :: rest => s.names ++ namesAll rest

end

theorem namesAll_append (p q : List (Stmt Empty)) :
    namesAll (p ++ q) = namesAll p ++ namesAll q := by
  induction p with
  | nil => rfl
  | cons s p ih => rw [List.cons_append, namesAll, namesAll, ih, List.append_assoc]

/-! Unrolling brings no new names. -/

theorem mem_names_nest {x : String} {cond : Expr Empty} {body : List (Stmt Empty)} {depth : Nat}
    (stands : x ∈ namesAll (nest cond body depth)) : x ∈ cond.names ∨ x ∈ namesAll body := by
  induction depth with
  | zero => exact absurd stands List.not_mem_nil
  | succ depth ih =>
    simp only [nest, namesAll, names, namesAll_append, List.append_nil, List.mem_append] at stands
    rcases stands with here | inBody | deeper
    · exact .inl here
    · exact .inr inBody
    · exact ih deeper

mutual

theorem names_unroll (depth : Nat) (s : Stmt Empty) :
    ∀ x ∈ namesAll (unroll depth s), x ∈ s.names := by
  intro x stands
  match s with
  | .assign a => simpa [unroll, namesAll] using stands
  | .assert c => simpa [unroll, namesAll] using stands
  | .branch c t e =>
    simp only [unroll, namesAll, names, List.append_nil, List.mem_append] at stands ⊢
    exact stands.imp_right (Or.imp (names_unrollAll depth t x) (names_unrollAll depth e x))
  | .whileLoop c b =>
    rw [names, List.mem_append]
    exact (mem_names_nest stands).imp_right (names_unrollAll depth b x)
  | .forLoop i c u b =>
    simp only [names, List.mem_append]
    rcases List.mem_append.mp stands with start | looped
    · exact .inl start
    · rcases mem_names_nest looped with cond | round
      · exact .inr (.inl cond)
      · simp only [namesAll_append, namesAll, names, List.append_nil, List.mem_append] at round
        exact .inr (.inr (round.symm.imp_right (names_unrollAll depth b x)))

theorem names_unrollAll (depth : Nat) (p : List (Stmt Empty)) :
    ∀ x ∈ namesAll (unrollAll depth p), x ∈ namesAll p := by
  intro x stands
  match p with
  | [] => exact stands
  | s :: rest =>
    rw [unrollAll, namesAll_append, List.mem_append] at stands
    rw [namesAll, List.mem_append]
    exact stands.imp (names_unroll depth s x) (names_unrollAll depth rest x)

end

end Stmt

theorem lowered_names {config : Config} {p q : Program Empty} (lowers : lowered config p = .ok q) :
    ∀ x ∈ Stmt.namesAll q, x ∈ Stmt.namesAll p := by
  unfold lowered at lowers
  split at lowers
  · cases lowers
    exact fun _ => id
  · unfold Program.unroll at lowers
    split at lowers
    · exact nomatch lowers
    · obtain ⟨_, -, result⟩ := bind_eq_ok.mp lowers
      cases result
      exact Stmt.names_unrollAll _ p

/-! Names that were read. -/

theorem Expr.Readable.names {e : Expr Empty} (readable : e.Readable) :
    ∀ x ∈ e.names, Text.isName x.toList = true := by
  unfold Expr.names
  induction readable with
  | lit => exact nofun
  | var name => exact List.forall_mem_singleton.mpr name
  | read name _ ih => exact List.forall_mem_cons.mpr ⟨name, ih⟩
  | binary _ _ _ _ left right =>
    rw [Expr.leaves, List.filterMap_append]
    exact List.forall_mem_append.mpr ⟨left, right⟩
  | not _ _ ih => exact ih

theorem readExpr_names {line : Int} {cs : List Char} {e : Expr Empty}
    (reads : readExpr line cs = .ok e) : ∀ x ∈ e.names, Text.isName x.toList = true :=
  (Expr.readTrimmed_readable reads).1.names

theorem matchAssign?_name {cs name value : List Char}
    (found : matchAssign? cs = some (name, value)) : Text.isName name = true := by
  unfold matchAssign? at found
  obtain ⟨⟨x, rest⟩, split, found⟩ := Option.bind_eq_some_iff.mp found
  dsimp only at found
  split at found
  · cases found
    exact Expr.isName_of_splitName? split
  · contradiction

theorem readAssign_names {line : Int} {cs : List Char} {a : Assign Empty}
    (reads : readAssign line cs = .ok a) : ∀ x ∈ a.names, Text.isName x.toList = true := by
  unfold readAssign at reads
  split at reads
  · contradiction
  · rename_i name value found
    obtain ⟨e, inner, result⟩ := bind_eq_ok.mp reads
    cases result
    refine List.forall_mem_cons.mpr ⟨?_, readExpr_names inner⟩
    rw [String.toList_ofList]
    exact matchAssign?_name found

def Shape.names : Shape Empty → List String
  | .simple s => s.names
  | .branch c _ _ => c.names
  | .whileLoop c _ => c.names
  | .forLoop i c u _ => i.names ++ (c.names ++ u.names)

section

variable {number : Nat} {cs : List Char} {lines rest : List Line} {shape : Shape Empty}

theorem readIf_names (reads : readIf number cs lines = .ok (shape, rest)) :
    ∀ x ∈ shape.names, Text.isName x.toList = true := by
  unfold readIf at reads
  split at reads
  · contradiction
  · obtain ⟨c, cond, reads⟩ := bind_eq_ok.mp reads
    obtain ⟨b, -, reads⟩ := bind_eq_ok.mp reads
    obtain ⟨e, -, reads⟩ := bind_eq_ok.mp reads
    cases reads
    exact readExpr_names cond

theorem readWhile_names (reads : readWhile number cs lines = .ok (shape, rest)) :
    ∀ x ∈ shape.names, Text.isName x.toList = true := by
  unfold readWhile at reads
  split at reads
  · contradiction
  · obtain ⟨c, cond, reads⟩ := bind_eq_ok.mp reads
    obtain ⟨b, -, reads⟩ := bind_eq_ok.mp reads
    cases reads
    exact readExpr_names cond

theorem readFor_names (reads : readFor number cs lines = .ok (shape, rest)) :
    ∀ x ∈ shape.names, Text.isName x.toList = true := by
  unfold readFor at reads
  split at reads
  · contradiction
  · obtain ⟨i, init, reads⟩ := bind_eq_ok.mp reads
    obtain ⟨c, cond, reads⟩ := bind_eq_ok.mp reads
    obtain ⟨u, update, reads⟩ := bind_eq_ok.mp reads
    obtain ⟨b, -, reads⟩ := bind_eq_ok.mp reads
    cases reads
    exact List.forall_mem_append.mpr ⟨readAssign_names init,
      List.forall_mem_append.mpr ⟨readExpr_names cond, readAssign_names update⟩⟩

theorem readAssertion_names (reads : readAssertion number cs lines = .ok (shape, rest)) :
    ∀ x ∈ shape.names, Text.isName x.toList = true := by
  unfold readAssertion at reads
  split at reads
  · contradiction
  · obtain ⟨c, cond, reads⟩ := bind_eq_ok.mp reads
    cases reads
    exact readExpr_names cond

theorem readPlain_names (reads : readPlain number cs lines = .ok (shape, rest)) :
    ∀ x ∈ shape.names, Text.isName x.toList = true := by
  unfold readPlain at reads
  split at reads
  · contradiction
  · split at reads
    · split at reads
      · obtain ⟨a, assign, reads⟩ := bind_eq_ok.mp reads
        cases reads
        exact readAssign_names assign
      · contradiction
    · contradiction

end

theorem readShape_names {line : Line} {lines rest : List Line} {shape : Shape Empty}
    (reads : readShape line lines = .ok (shape, rest)) :
    ∀ x ∈ shape.names, Text.isName x.toList = true := by
  unfold readShape at reads
  split at reads
  · exact readIf_names reads
  · exact readWhile_names reads
  · exact readFor_names reads
  · exact readAssertion_names reads
  · contradiction
  · exact readPlain_names reads

theorem readBlock_names {lines : List Line} {p : Program Empty} (reads : readBlock lines = .ok p) :
    ∀ x ∈ Stmt.namesAll p, Text.isName x.toList = true := by
  fun_induction readBlock (ω := Empty) lines generalizing p with
  | case1 =>
    cases reads
    exact fun _ member => absurd member List.not_mem_nil
  | case4 line lines s rest found more readMore ihMore =>
    cases reads
    exact List.forall_mem_append.mpr ⟨readShape_names found, ihMore readMore⟩
  | case8 line lines c thenLines elseLines rest found t readThen e readElse more readMore
      ihThen ihElse ihMore =>
    cases reads
    have arms := List.forall_mem_append.mpr ⟨ihThen readThen, ihElse readElse⟩
    exact List.forall_mem_append.mpr
      ⟨List.forall_mem_append.mpr ⟨readShape_names found, arms⟩, ihMore readMore⟩
  | case11 line lines c body rest found b readBody more readMore ihBody ihMore =>
    cases reads
    exact List.forall_mem_append.mpr
      ⟨List.forall_mem_append.mpr ⟨readShape_names found, ihBody readBody⟩, ihMore readMore⟩
  | case14 line lines i c u body rest found b readBody more readMore ihBody ihMore =>
    cases reads
    have header := readShape_names found
    simp only [Shape.names, List.forall_mem_append] at header
    simp only [Stmt.namesAll, Stmt.names, List.forall_mem_append]
    exact ⟨⟨header.1, header.2.1, header.2.2, ihBody readBody⟩, ihMore readMore⟩
  | case2 | case3 | case5 | case6 | case7 | case9 | case10 | case12 | case13 => contradiction

/-! Symbols of streams. -/

section

variable {P : String → Prop}

def VersionOf (P : String → Prop) (y : String) : Prop := ∃ x n, y = symbol x n ∧ P x

/-- The names that are live have the property, and all symbols are versions of such names. -/
structure Built.Over (P : String → Prop) (built : Built Empty) : Prop where
  live : ∀ x ∈ built.1.current.keys, P x
  symbols : ∀ i ∈ built.2, ∀ y ∈ i.mentions, VersionOf P y

def PathOver (P : String → Prop) (path : List (Expr Empty)) : Prop :=
  ∀ g ∈ path, ∀ y ∈ g.names, VersionOf P y

def BuildsOver (P : String → Prop) (run : List (Expr Empty) → Versions → Built Empty) : Prop :=
  ∀ {path v}, PathOver P path → (∀ x ∈ v.current.keys, P x) → (run path v).Over P

theorem Built.Over.andThen {first : Built Empty} {next : Versions → Built Empty}
    (head : first.Over P) (tail : (next first.1).Over P) : (first.andThen next).Over P := by
  refine ⟨tail.live, fun i member => ?_⟩
  rcases List.mem_append.mp member with early | late
  · exact head.symbols i early
  · exact tail.symbols i late

theorem versioned_over (v : Versions) {e : Expr Empty} (named : ∀ x ∈ e.names, P x) :
    ∀ y ∈ (e.versioned v).names, VersionOf P y := by
  intro y member
  rw [Expr.versioned, Expr.names_mapNames] at member
  obtain ⟨x, stands, rfl⟩ := List.mem_map.mp member
  exact ⟨x, v.version x, rfl, named x stands⟩

theorem touchAll_over {v : Versions} (live : ∀ x ∈ v.current.keys, P x) {xs : List String}
    (named : ∀ x ∈ xs, P x) : ∀ x ∈ (v.touchAll xs).current.keys, P x := by
  intro x member
  rcases (v.mem_keys_touchAll xs x).mp member with old | new
  · exact live x old
  · exact named x new

theorem symbols_over {x : String} (named : P x) (ns : List Nat) :
    ∀ y ∈ ns.map (symbol x), VersionOf P y := by
  intro y member
  obtain ⟨n, -, rfl⟩ := List.mem_map.mp member
  exact ⟨x, n, rfl, named⟩

theorem phi_over {r : String} {xs : List String} {guard : Option (Expr Empty)}
    (joined : ∀ y ∈ r :: xs, VersionOf P y) (known : ∀ g ∈ guard, ∀ y ∈ g.names, VersionOf P y) :
    ∀ y ∈ (Instr.phi r xs guard).mentions, VersionOf P y := by
  intro y stands
  rcases List.mem_append.mp stands with result | read
  · obtain rfl := List.mem_singleton.mp result
    exact joined y (List.mem_cons_self ..)
  · rcases List.mem_append.mp read with operand | named
    · exact joined y (List.mem_cons_of_mem _ operand)
    · obtain ⟨g, inside, named⟩ := List.mem_flatMap.mp named
      exact known g (Option.mem_toList.mp inside) y named

theorem guardedPhi_over {x : String} (named : P x) {guard : Expr Empty}
    (known : ∀ y ∈ guard.names, VersionOf P y) (n k l : Nat) :
    ∀ y ∈ (Instr.phi (symbol x n) [symbol x k, symbol x l] (some guard)).mentions,
      VersionOf P y := by
  apply phi_over (symbols_over named [n, k, l])
  intro g same
  cases same
  exact known

theorem entryPhi_over {x : String} (named : P x) (before : Entries Nat) (entered left : Versions) :
    ∀ y ∈ (entryPhi before entered left x : Instr Empty).mentions, VersionOf P y := by
  unfold entryPhi
  dsimp only
  split
  · exact phi_over (symbols_over named [_, _]) nofun
  · exact phi_over (symbols_over named [_, _, _]) nofun

theorem PathOver.guarded {path : List (Expr Empty)} {guard : Expr Empty} (known : PathOver P path)
    (named : ∀ y ∈ guard.names, VersionOf P y) : PathOver P (path ++ [guard]) :=
  List.forall_mem_append.mpr ⟨known, List.forall_mem_singleton.mpr named⟩

theorem Assign.build_over {a : Assign Empty} (named : ∀ x ∈ a.names, P x) {v : Versions}
    (live : ∀ x ∈ v.current.keys, P x) : (a.build v).Over P := by
  obtain ⟨target, value⟩ := List.forall_mem_cons.mp named
  constructor
  · intro x member
    rcases (Versions.mem_keys_bump _ _ x).mp member with old | rfl
    · exact touchAll_over live value x old
    · exact target
  · intro i member
    obtain rfl := List.mem_singleton.mp member
    simp only [Instr.mentions, Instr.defined?, Instr.reads, Instr.operands, Instr.exprs,
      Option.toList_some, List.flatMap_singleton, List.nil_append, List.forall_mem_append,
      List.forall_mem_singleton]
    exact ⟨⟨a.target, _, rfl, target⟩, versioned_over v value⟩

variable {c : Expr Empty} {path : List (Expr Empty)} {v : Versions}

theorem buildBranch_over (named : ∀ x ∈ c.names, P x) (known : PathOver P path)
    (live : ∀ x ∈ v.current.keys, P x)
    {runThen runElse : List (Expr Empty) → Versions → Built Empty}
    (inThen : BuildsOver P runThen) (inElse : BuildsOver P runElse) :
    (buildBranch c path v runThen runElse).Over P := by
  have guard := versioned_over v named
  have negated : ∀ y ∈ (c.versioned v).not.names, VersionOf P y := guard
  have before := touchAll_over live named
  have first := inThen (known.guarded guard) before
  let arm := (runThen (path ++ [c.versioned v]) (v.touchAll c.names)).1
  have second := inElse (v := arm.restore (v.touchAll c.names).current) (known.guarded negated)
    before
  have joined : ∀ x ∈ joinNames _ _, P x := List.forall_mem_append.mpr
    ⟨first.live, fun x member => second.live x (List.mem_of_mem_filter member)⟩
  constructor
  · intro x member
    unfold buildBranch at member
    dsimp only at member
    rw [joinArms_eq_merge, mem_keys_merge] at member
    rcases member with old | ⟨new, -⟩
    · exact second.live x old
    · exact joined x new
  · intro i member
    rcases List.mem_append.mp member with arms | joins
    · rcases List.mem_append.mp arms with early | late
      · exact first.symbols i early
      · exact second.symbols i late
    · obtain ⟨x, stands, n, k, l, rfl⟩ := joinArms_phi joins
      exact guardedPhi_over (joined x stands) guard n k l

theorem buildLoop_over (named : ∀ x ∈ c.names, P x) (known : PathOver P path)
    (live : ∀ x ∈ v.current.keys, P x) {run : List (Expr Empty) → Versions → Built Empty}
    (inside : BuildsOver P run) : (buildLoop c path v run).Over P := by
  have guard := versioned_over v named
  have before := touchAll_over live named
  have entered :
      ∀ x ∈ ((v.touchAll c.names).bumpAll (v.touchAll c.names).current.keys).current.keys, P x := by
    intro x member
    rcases (Versions.mem_keys_bumpAll ..).mp member with old | new
    · exact before x old
    · exact before x new
  have body := inside (known.guarded guard) entered
  have settled : ∀ entered x,
      x ∈ (settle (v.touchAll c.names).current entered _).current.keys → P x :=
    fun entered x member => ((mem_keys_settle ..).mp member).elim (body.live x) fun kept =>
      before x kept.1
  constructor
  · intro x member
    unfold buildLoop at member
    dsimp only at member
    rw [mem_keys_exitPhis _ _ _ _ fun y live => live] at member
    exact settled _ x member
  · intro i member
    rcases List.mem_append.mp member with early | exits
    · rcases List.mem_append.mp early with entries | inBody
      · obtain ⟨x, stands, rfl⟩ := List.mem_map.mp entries
        exact entryPhi_over (before x stands) _ _ _
      · exact body.symbols i inBody
    · obtain ⟨x, stands, n, k, l, rfl⟩ := exitPhis_phi exits
      exact guardedPhi_over (settled _ x stands) guard n k l

end

namespace Stmt

variable {P : String → Prop}

mutual

theorem build_over (s : Stmt Empty) (named : ∀ x ∈ s.names, P x) :
    BuildsOver P fun path v => build path v s := by
  intro path v known live
  match s with
  | .assign a =>
    unfold build
    exact a.build_over named live
  | .assert c =>
    unfold build
    refine ⟨touchAll_over live named, List.forall_mem_singleton.mpr ?_⟩
    intro y member
    simp only [Instr.mentions, Instr.defined?, Instr.reads, Instr.operands, Instr.exprs,
      Option.toList_none, List.nil_append, List.flatMap_cons, List.mem_append,
      List.mem_flatMap] at member
    rcases member with inCond | ⟨g, inside, member⟩
    · exact versioned_over v named y inCond
    · exact known g inside y member
  | .branch c t e =>
    unfold build
    simp only [names, List.forall_mem_append] at named
    exact buildBranch_over named.1 known live (buildAll_over t named.2.1)
      (buildAll_over e named.2.2)
  | .whileLoop c b =>
    unfold build
    simp only [names, List.forall_mem_append] at named
    exact buildLoop_over named.1 known live (buildAll_over b named.2)
  | .forLoop i c u b =>
    unfold build
    simp only [names, List.forall_mem_append] at named
    obtain ⟨init, cond, update, body⟩ := named
    have first := i.build_over init live
    refine first.andThen (buildLoop_over cond known first.live fun known live => ?_)
    have inner := buildAll_over b body known live
    exact inner.andThen (u.build_over update inner.live)

theorem buildAll_over (p : List (Stmt Empty)) (named : ∀ x ∈ namesAll p, P x) :
    BuildsOver P fun path v => buildAll path v p := by
  intro path v known live
  match p with
  | [] =>
    unfold buildAll
    exact ⟨live, nofun⟩
  | s :: rest =>
    unfold buildAll
    simp only [namesAll, List.forall_mem_append] at named
    have first := build_over s named.1 known live
    exact first.andThen (buildAll_over rest named.2 known first.live)

end

end Stmt

/-- The symbols in the stream of a program are versions of its names. -/
theorem Program.mentions_version (p : Program Empty) {P : String → Prop}
    (named : ∀ x ∈ Stmt.namesAll p, P x) : ∀ y ∈ p.stream.mentions, VersionOf P y := by
  intro y stands
  obtain ⟨i, member, stands⟩ := List.mem_flatMap.mp stands
  have built : (Stmt.buildAll [] .empty p).Over P := Stmt.buildAll_over p named nofun nofun
  exact built.symbols i member y stands

end Assay
