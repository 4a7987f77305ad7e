import Assay.Proofs.Accepting
import Assay.Proofs.Forests
import Mathlib.Logic.Relation

/-! Graphs of programs. The nodes are the parts of the program in the order of its text, the edges
that lead to larger numbers make up its tree, and the others lead from the body of each loop back
to the loop. -/
namespace Assay

variable {ω : Type}

/-! Forests of statements. -/

def Stmt.opens : Stmt ω → List (Part ω)
  | .branch .. => [.thenArm, .elseArm]
  | .whileLoop .. | .forLoop .. | .strayFor .. => [.loopBody]
  | _ => []

/-- A statement holds its arms or its body, and all else holds statements. -/
inductive Formed : Forest ω → Prop where
  | nil : Formed .nil
  | simple {s : Stmt ω} {after : Forest ω} : s.opens = [] → Formed after →
      Formed (.node (.statement s) .nil after)
  | branch {s : Stmt ω} {t e after : Forest ω} : s.opens = [.thenArm, .elseArm] → Formed t →
      Formed e → Formed after →
      Formed (.node (.statement s) (.node .thenArm t (.node .elseArm e .nil)) after)
  | loop {s : Stmt ω} {b after : Forest ω} : s.opens = [.loopBody] → Formed b → Formed after →
      Formed (.node (.statement s) (.node .loopBody b .nil) after)

def Part.Holds : Part ω → Forest ω → Prop
  | .statement s, below => below.tops = s.opens
  | _, below => ∀ q ∈ below.tops, ∃ s, q = .statement s

theorem Formed.tops {f : Forest ω} (formed : Formed f) : ∀ q ∈ f.tops, ∃ s, q = .statement s := by
  induction formed with
  | nil => exact nofun
  | simple _ _ ih => exact List.forall_mem_cons.mpr ⟨⟨_, rfl⟩, ih⟩
  | branch _ _ _ _ _ _ ih => exact List.forall_mem_cons.mpr ⟨⟨_, rfl⟩, ih⟩
  | loop _ _ _ _ ih => exact List.forall_mem_cons.mpr ⟨⟨_, rfl⟩, ih⟩

theorem Formed.holds {f : Forest ω} (formed : Formed f) : ∀ x ∈ f.preorder, x.1.Holds x.2 := by
  induction formed with
  | nil => exact nofun
  | simple none _ ih => exact List.forall_mem_cons.mpr ⟨none.symm, ih⟩
  | branch arms formedThen formedElse _ ihThen ihElse ih =>
    simp only [Forest.preorder, List.append_nil, List.forall_mem_cons, List.forall_mem_append]
    exact ⟨arms.symm, ⟨formedThen.tops, ihThen, formedElse.tops, ihElse⟩, ih⟩
  | loop body formed _ ihBody ih =>
    simp only [Forest.preorder, List.append_nil, List.forall_mem_cons, List.forall_mem_append]
    exact ⟨body.symm, ⟨formed.tops, ihBody⟩, ih⟩

def loopBack? (entry : (Part ω × Forest ω) × Nat) : Option Edge :=
  if entry.1.1.isLoop then some ⟨entry.2 + 1, entry.2, none⟩ else none

theorem isLoop_iff {s : Stmt ω} : s.isLoop = true ↔ s.opens = [.loopBody] := by
  cases s <;> simp [Stmt.isLoop, Stmt.opens]

def Forest.loopBacks (first : Nat) (f : Forest ω) : List Edge :=
  (f.preorder.zipIdx first).filterMap loopBack?

theorem Forest.loopBacks_nil (first : Nat) : (nil : Forest ω).loopBacks first = [] := rfl

theorem Forest.loopBacks_node (first : Nat) (part : Part ω) (below after : Forest ω) :
    (node part below after).loopBacks first =
      (loopBack? ((part, below), first)).toList ++
        (below.loopBacks (first + 1) ++ after.loopBacks (first + 1 + below.size)) := by
  unfold loopBacks
  rw [preorder, List.zipIdx_cons, List.zipIdx_append, List.filterMap_cons, List.filterMap_append,
    length_preorder]
  cases loopBack? ((part, below), first) <;> rfl

theorem Formed.ups {f : Forest ω} (formed : Formed f) (above first : Nat) :
    (f.ups above first).Perm (f.loopBacks first) := by
  have noLoop : ∀ {part : Part ω} {below : Forest ω} {i : Nat}, part.isLoop = false →
      loopBack? ((part, below), i) = none := fun other => if_neg (Bool.eq_false_iff.mp other)
  have plain : ∀ {s : Stmt ω}, s.opens ≠ [.loopBody] → (Part.statement s).isLoop = false :=
    fun other => Bool.eq_false_iff.mpr fun loops => other (isLoop_iff.mp loops)
  induction formed generalizing above first with
  | nil => exact .nil
  | simple none _ ih =>
    rw [Forest.loopBacks_node, noLoop (plain (by simp [none]))]
    exact ih above _
  | branch arms _ _ _ ihThen ihElse ih =>
    rw [Forest.loopBacks_node, noLoop (plain (by simp [arms])), Forest.loopBacks_node, noLoop rfl,
      Forest.loopBacks_node, noLoop rfl]
    simp only [Forest.ups, Part.back, List.append_nil, List.nil_append, Option.toList_none,
      Forest.loopBacks_nil]
    exact ((ihThen _ _).append (ihElse _ _)).append (ih _ _)
  | @loop s b after body _ _ ihBody ih =>
    have back : loopBack? ((.statement s, .node .loopBody b .nil), first) =
        some ⟨first + 1, first, none⟩ := if_pos (isLoop_iff.mpr body)
    rw [Forest.loopBacks_node, back, Forest.loopBacks_node, noLoop rfl]
    simp only [Forest.ups, Part.back, List.append_nil, List.nil_append, Option.toList_none,
      Forest.loopBacks_nil, Option.toList_some]
    exact ((List.perm_append_singleton _ _).trans ((ihBody _ _).cons _)).append (ih _ _)

namespace Stmt

mutual

def onto : Stmt ω → Forest ω → Forest ω
  | .assign a, after => .node (.statement (.assign a)) .nil after
  | .assert c, after => .node (.statement (.assert c)) .nil after
  | .branch c t e, after =>
    .node (.statement (.branch c t e))
      (.node .thenArm (ontoAll t .nil) (.node .elseArm (ontoAll e .nil) .nil)) after
  | .whileLoop c b, after =>
    .node (.statement (.whileLoop c b)) (.node .loopBody (ontoAll b .nil) .nil) after
  | .forLoop i c u b, after =>
    .node (.statement (.forLoop i c u b))
      (.node .loopBody (ontoAll b (.node (.statement (.assign u)) .nil .nil)) .nil) after
  | .strayFor m i c u b, after =>
    .node (.statement (.strayFor m i c u b))
      (.node .loopBody (ontoAll b (onto u .nil)) .nil) after
  | .stray m, after => .node (.statement (.stray m)) .nil after

def ontoAll : List (Stmt ω) → Forest ω → Forest ω
  | [], after => after
  | s :: rest, after => onto s (ontoAll rest after)

end

mutual

theorem formed_onto (s : Stmt ω) {after : Forest ω} (formed : Formed after) :
    Formed (s.onto after) := by
  match s with
  | .assign a => exact .simple rfl formed
  | .assert c => exact .simple rfl formed
  | .branch c t e =>
    exact .branch rfl (formed_ontoAll t .nil) (formed_ontoAll e .nil) formed
  | .whileLoop c b => exact .loop rfl (formed_ontoAll b .nil) formed
  | .forLoop i c u b => exact .loop rfl (formed_ontoAll b (.simple rfl .nil)) formed
  | .strayFor m i c u b => exact .loop rfl (formed_ontoAll b (formed_onto u .nil)) formed
  | .stray m => exact .simple rfl formed

theorem formed_ontoAll (p : List (Stmt ω)) {after : Forest ω} (formed : Formed after) :
    Formed (ontoAll p after) := by
  match p with
  | [] => exact formed
  | s :: rest => exact formed_onto s (formed_ontoAll rest formed)

end

variable [Stray ω]

/-! Faults are met in pre-order. -/

theorem faults_node (part : Part ω) (below after : Forest ω) :
    (Forest.node part below after).preorder.flatMap (·.1.faults) =
      part.faults ++
        (below.preorder.flatMap (·.1.faults) ++ after.preorder.flatMap (·.1.faults)) := by
  rw [Forest.preorder, List.flatMap_cons, List.flatMap_append]

mutual

theorem faults_onto (s : Stmt ω) (after : Forest ω) :
    (s.onto after).preorder.flatMap (·.1.faults) =
      graphFaults s ++ after.preorder.flatMap (·.1.faults) := by
  match s with
  | .assign a => exact faults_node ..
  | .assert c => exact faults_node ..
  | .branch c t e =>
    rw [onto, faults_node, faults_node, faults_node, faults_ontoAll, faults_ontoAll, graphFaults]
    simp [Part.faults, Forest.preorder]
  | .whileLoop c b =>
    rw [onto, faults_node, faults_node, faults_ontoAll, graphFaults]
    simp [Part.faults, Forest.preorder]
  | .forLoop i c u b =>
    rw [onto, faults_node, faults_node, faults_ontoAll, faults_node, graphFaults]
    simp [Part.faults, Forest.preorder]
  | .strayFor m i c u b =>
    rw [onto, faults_node, faults_node, faults_ontoAll, faults_onto, graphFaults]
    simp [Part.faults, Forest.preorder]
  | .stray m => exact faults_node ..

theorem faults_ontoAll (p : List (Stmt ω)) (after : Forest ω) :
    (ontoAll p after).preorder.flatMap (·.1.faults) =
      graphFaultsAll p ++ after.preorder.flatMap (·.1.faults) := by
  match p with
  | [] => rfl
  | s :: rest => rw [ontoAll, faults_onto, faults_ontoAll, graphFaultsAll, List.append_assoc]

end

/-! Drawing. -/

end Stmt

namespace Graph

variable [Stray ω]

def draw (g : Graph) (above : Nat) (f : Forest ω) : Graph :=
  ⟨g.nodes ++ (f.preorder.zipIdx g.size).map fun x => ⟨x.2, x.1.1.label⟩,
    g.edges ++ f.edges above g.size⟩

def addEdges (g : Graph) (es : List Edge) : Graph := { g with edges := g.edges ++ es }

theorem size_hang (g : Graph) (above : Nat) (label : String) (arm : Option Arm) :
    (g.hang above label arm).size = g.size + 1 := by
  simp [hang, addNode, addEdge, size]

theorem size_addEdges (g : Graph) (es : List Edge) : (g.addEdges es).size = g.size := rfl

theorem draw_nil (g : Graph) (above : Nat) : g.draw above (.nil : Forest ω) = g := by
  simp [draw, Forest.preorder, Forest.edges]

theorem size_draw (g : Graph) (above : Nat) (f : Forest ω) :
    (g.draw above f).size = g.size + f.size := by
  simp [draw, size, Forest.length_preorder]

theorem draw_node (g : Graph) (above : Nat) (part : Part ω) (below after : Forest ω) :
    g.draw above (.node part below after) =
      draw (((g.hang above part.label part.arm).draw g.size below).addEdges
        (part.back above g.size)) above after := by
  have place : (((g.hang above part.label part.arm).draw g.size below).addEdges
      (part.back above g.size)).size = g.size + 1 + below.size := by
    rw [size_addEdges, size_draw, size_hang]
  rw [draw, draw, place, Forest.preorder, Forest.edges, List.zipIdx_cons, List.zipIdx_append,
    Forest.length_preorder]
  simp [draw, addEdges, hang, addNode, addEdge, size]

theorem draw_plain {g : Graph} {above : Nat} {part : Part ω} {below after : Forest ω}
    (flat : part.back above g.size = []) :
    g.draw above (.node part below after) =
      ((g.hang above part.label part.arm).draw g.size below).draw above after := by
  rw [draw_node, flat, addEdges, List.append_nil]

theorem draw_loopBody {g : Graph} {above : Nat} {below after : Forest ω} :
    g.draw above (.node .loopBody below after) =
      (((g.hang above "Loop Body" (some .yes)).draw g.size below).addEdge g.size above
        none).draw above after :=
  draw_node ..

end Graph

namespace Stmt

variable [Stray ω]

mutual

theorem draw_onto (s : Stmt ω) (known : graphFaults s = []) (g : Graph) (above : Nat)
    (after : Forest ω) : g.draw above (s.onto after) = (s.graph above g).draw above after := by
  match s with
  | .assign a =>
    rw [onto, Graph.draw_plain rfl, Graph.draw_nil]
    rfl
  | .assert c =>
    rw [onto, Graph.draw_plain rfl, Graph.draw_nil]
    rfl
  | .branch c t e =>
    simp only [graphFaults, List.append_eq_nil_iff] at known
    rw [onto, Graph.draw_plain rfl, Graph.draw_plain rfl, draw_ontoAll t known.1.2,
      Graph.draw_nil, Graph.draw_plain rfl, draw_ontoAll e known.2, Graph.draw_nil,
      Graph.draw_nil, Graph.size_hang]
    rfl
  | .whileLoop c b =>
    simp only [graphFaults, List.append_eq_nil_iff] at known
    rw [onto, Graph.draw_plain rfl, Graph.draw_loopBody, draw_ontoAll b known.2, Graph.draw_nil,
      Graph.draw_nil, Graph.size_hang]
    rfl
  | .forLoop i c u b =>
    simp only [graphFaults, List.append_eq_nil_iff] at known
    rw [onto, Graph.draw_plain rfl, Graph.draw_loopBody, draw_ontoAll b known.1.2,
      Graph.draw_plain rfl, Graph.draw_nil, Graph.draw_nil, Graph.draw_nil, Graph.size_hang]
    rfl
  | .strayFor m i c u b =>
    simp only [graphFaults, List.append_eq_nil_iff] at known
    rw [onto, Graph.draw_plain rfl, Graph.draw_loopBody, draw_ontoAll b known.1.2,
      draw_onto u known.2, Graph.draw_nil, Graph.draw_nil, Graph.size_hang]
    rfl
  | .stray m => exact absurd known (by simp [graphFaults])

theorem draw_ontoAll (p : List (Stmt ω)) (known : graphFaultsAll p = []) (g : Graph) (above : Nat)
    (after : Forest ω) :
    g.draw above (ontoAll p after) = (graphAll above g p).draw above after := by
  match p with
  | [] => rfl
  | s :: rest =>
    obtain ⟨first, later⟩ := List.append_eq_nil_iff.mp known
    rw [ontoAll, draw_onto s first, draw_ontoAll rest later]
    rfl

end

end Stmt

/-! Arms of decisions. -/

theorem Forest.map_arm_entries (above first : Nat) (f : Forest ω) :
    (f.entries above first).map Edge.arm = f.tops.map Part.arm := by
  induction f generalizing first with
  | nil => rfl
  | node part below after _ ihAfter => rw [entries, tops, List.map_cons, List.map_cons, ihAfter]

theorem arm_of_mem_loopBacks {first : Nat} {f : Forest ω} {e : Edge}
    (member : e ∈ f.loopBacks first) : e.arm = none := by
  obtain ⟨entry, -, back⟩ := List.mem_filterMap.mp member
  unfold loopBack? at back
  split at back
  · cases back
    rfl
  · contradiction

section

variable {part : Part ω} {below : Forest ω}

theorem Part.Holds.arms (holds : part.Holds below) {a : Arm} :
    some a ∈ below.tops.map Part.arm ↔
      ∃ s, part = .statement s ∧ some a ∈ s.opens.map Part.arm := by
  cases part with
  | statement s =>
    have tops : below.tops = s.opens := holds
    rw [tops]
    exact ⟨fun member => ⟨s, rfl, member⟩, fun ⟨_, same, member⟩ => by cases same; exact member⟩
  | start | thenArm | elseArm | loopBody =>
    refine iff_of_false (fun member => ?_) (fun ⟨_, same, _⟩ => nomatch same)
    obtain ⟨q, top, arm⟩ := List.mem_map.mp member
    obtain ⟨s, rfl⟩ := holds q top
    contradiction

theorem yes_mem_opens {s : Stmt ω} :
    some Arm.yes ∈ s.opens.map Part.arm ↔ s.isBranch = true ∨ s.isLoop = true := by
  cases s <;> simp [Stmt.opens, Part.arm, Stmt.isBranch, Stmt.isLoop]

theorem no_mem_opens {s : Stmt ω} : some Arm.no ∈ s.opens.map Part.arm ↔ s.isBranch = true := by
  cases s <;> simp [Stmt.opens, Part.arm, Stmt.isBranch]

end

/-! The graph of a program. -/

namespace Graph

/-- The edges that lead to larger numbers. -/
def treeEdges (g : Graph) : List Edge := g.edges.filter fun e => e.source < e.target

def backEdges (g : Graph) : List Edge := g.edges.filter fun e => e.target ≤ e.source

/-- Tree edges lead from the first node to the second. -/
def Descends (g : Graph) : Nat → Nat → Prop :=
  Relation.TransGen fun i j => ∃ e ∈ g.treeEdges, e.source = i ∧ e.target = j

/-- A range that tree edges enter from its first node only, and never leave, is made up of
descendants. -/
theorem descends_iff {g : Graph} {i m : Nat}
    (cut : ∀ e ∈ g.treeEdges, (i ≤ e.source ∧ e.source ≤ i + m) ↔ (i < e.target ∧ e.target ≤ i + m))
    (entered : ∀ j, i < j → j ≤ i + m → ∃ e ∈ g.treeEdges, e.target = j) (j : Nat) :
    g.Descends i j ↔ i < j ∧ j ≤ i + m := by
  constructor
  · intro descends
    induction descends with
    | single step =>
      obtain ⟨e, member, source, rfl⟩ := step
      exact (cut e member).mp (by omega)
    | tail _ step ih =>
      obtain ⟨e, member, rfl, rfl⟩ := step
      exact (cut e member).mp (by omega)
  · intro range
    induction j using Nat.strongRecOn with
    | ind j ih =>
      obtain ⟨e, member, rfl⟩ := entered j range.1 range.2
      have source := (cut e member).mpr range
      have lower : e.source < e.target := by simpa using (List.mem_filter.mp member).2
      rcases Nat.eq_or_lt_of_le source.1 with here | deeper
      · exact .single ⟨e, member, here.symm, rfl⟩
      · exact (ih e.source lower ⟨deeper, source.2⟩).tail ⟨e, member, rfl, rfl⟩

end Graph

namespace Program

def forest (p : Program ω) : Forest ω := Stmt.ontoAll p .nil

def parts (p : Program ω) : List (Part ω × Forest ω) :=
  (.start, p.forest) :: p.forest.preorder

theorem parts_cases {p : Program ω} {i : Nat} {part : Part ω} {below : Forest ω}
    (found : p.parts[i]? = some (part, below)) :
    (i = 0 ∧ part = .start ∧ below = p.forest) ∨ ∃ k, i = 1 + k ∧ p.forest.Sits k part below := by
  cases i with
  | zero =>
    cases found
    exact .inl ⟨rfl, rfl, rfl⟩
  | succ k => exact .inr ⟨k, Nat.add_comm k 1, Forest.sits_of_getElem? found⟩

theorem length_parts (p : Program ω) : p.parts.length = 1 + p.forest.size := by
  rw [parts, List.length_cons, Forest.length_preorder, Nat.add_comm]

theorem formed_forest (p : Program ω) : Formed p.forest := Stmt.formed_ontoAll p .nil

theorem holds_parts (p : Program ω) : ∀ x ∈ p.parts, x.1.Holds x.2 :=
  List.forall_mem_cons.mpr ⟨(formed_forest p).tops, (formed_forest p).holds⟩

theorem parts_follow {p : Program ω} {i : Nat} {part : Part ω} {below : Forest ω}
    (found : p.parts[i]? = some (part, below)) : below.preorder <+: p.parts.drop (i + 1) := by
  rcases parts_cases found with ⟨rfl, -, rfl⟩ | ⟨k, rfl, sits⟩
  · exact List.prefix_refl _
  · rw [Nat.add_comm 1 k, parts, List.drop_succ_cons]
    exact sits.follows

theorem bodies_parts {p : Program ω} {i : Nat} {s : Stmt ω} {below : Forest ω}
    (found : p.parts[i]? = some (.statement s, below)) (loops : s.isLoop = true) :
    ∃ inner, below = .node .loopBody inner .nil ∧ p.parts[i + 1]? = some (.loopBody, inner) := by
  have holds : below.tops = s.opens := holds_parts p _ (List.mem_of_getElem? found)
  rw [isLoop_iff.mp loops] at holds
  match below, holds with
  | .node part inner .nil, holds =>
    cases holds
    obtain ⟨rest, behind⟩ := parts_follow found
    have first : (p.parts.drop (i + 1))[0]? = some (.loopBody, inner) := by
      rw [← behind]
      rfl
    rw [List.getElem?_drop] at first
    exact ⟨inner, rfl, first⟩

variable [Stray ω]

/-- The graph is the tree of the program's parts, with an edge back to each loop. -/
structure FlowShape (p : Program ω) (g : Graph) : Prop where
  nodes : g.nodes = p.parts.zipIdx.map fun x => ⟨x.2, x.1.1.label⟩
  ids : g.nodes.map Node.id = List.range g.nodes.length
  entered : g.treeEdges.map Edge.target = List.range' 1 (g.nodes.length - 1)
  /-- The tree edges that leave a node lead to the parts right below it, in their order. -/
  leaving : ∀ i part below, p.parts[i]? = some (part, below) →
    g.treeEdges.filter (fun e => e.source = i) = below.entries i (i + 1)
  /-- The nodes below a node are those that follow it, as many as there are parts below it. -/
  descendants : ∀ i part below, p.parts[i]? = some (part, below) →
    (∀ j, g.Descends i j ↔ i < j ∧ j ≤ i + below.size) ∧
    below.preorder <+: p.parts.drop (i + 1)
  /-- The other edges lead back to the loops, one to each. -/
  backs : g.backEdges.Perm (p.parts.zipIdx.filterMap loopBack?)
  bodies : ∀ i s below, p.parts[i]? = some (.statement s, below) → s.isLoop = true →
    ∃ inner, below = .node .loopBody inner .nil ∧
      p.parts[i + 1]? = some (.loopBody, inner)
  yes : ∀ i, (∃ e ∈ g.edges, e.source = i ∧ e.arm = some .yes) ↔
    ∃ s below, p.parts[i]? = some (.statement s, below) ∧
      (s.isBranch = true ∨ s.isLoop = true)
  no : ∀ i, (∃ e ∈ g.edges, e.source = i ∧ e.arm = some .no) ↔
    ∃ s below, p.parts[i]? = some (.statement s, below) ∧ s.isBranch = true

section

variable {p : Program ω}

def picture (p : Program ω) : Graph :=
  ⟨p.parts.zipIdx.map fun x => ⟨x.2, x.1.1.label⟩, p.forest.edges 0 1⟩

theorem graph_eq_picture (known : Stmt.graphFaultsAll p = []) : p.graph = p.picture := by
  have drawn := Stmt.draw_ontoAll p known (Graph.empty.addNode "Program Start") 0 .nil
  rw [Graph.draw_nil] at drawn
  exact drawn.symm

theorem treeEdges_picture (p : Program ω) : p.picture.treeEdges = p.forest.downs 0 1 :=
  Forest.edges_filter_lt Nat.one_pos p.forest

theorem backEdges_picture (p : Program ω) : p.picture.backEdges = p.forest.ups 0 1 :=
  Forest.edges_filter_le Nat.one_pos p.forest

theorem length_nodes_picture (p : Program ω) : p.picture.nodes.length = 1 + p.forest.size := by
  rw [picture, List.length_map, List.length_zipIdx, length_parts]

theorem backEdges_perm (p : Program ω) :
    p.picture.backEdges.Perm (p.parts.zipIdx.filterMap loopBack?) := by
  rw [backEdges_picture]
  exact (formed_forest p).ups 0 1

theorem leaving_picture {i : Nat} {part : Part ω} {below : Forest ω}
    (found : p.parts[i]? = some (part, below)) :
    p.picture.treeEdges.filter (fun e => e.source = i) = below.entries i (i + 1) := by
  rw [treeEdges_picture]
  rcases parts_cases found with ⟨rfl, -, rfl⟩ | ⟨k, rfl, sits⟩
  · exact Forest.filter_above Nat.one_pos p.forest
  · exact sits.leaving Nat.one_pos

theorem descends_picture {i : Nat} {part : Part ω} {below : Forest ω}
    (found : p.parts[i]? = some (part, below)) (j : Nat) :
    p.picture.Descends i j ↔ i < j ∧ j ≤ i + below.size := by
  have cut : ∀ e ∈ p.picture.treeEdges, (i ≤ e.source ∧ e.source ≤ i + below.size) ↔
      (i < e.target ∧ e.target ≤ i + below.size) := by
    intro e member
    rw [treeEdges_picture] at member
    rcases parts_cases found with ⟨rfl, -, rfl⟩ | ⟨k, rfl, sits⟩
    · have range := Forest.range_of_mem_downs Nat.one_pos member
      omega
    · exact sits.cut Nat.one_pos member
  have bound : i + below.size ≤ p.forest.size := by
    rcases parts_cases found with ⟨rfl, -, rfl⟩ | ⟨k, rfl, sits⟩
    · omega
    · have := sits.bound
      omega
  refine Graph.descends_iff cut (fun j low high => ?_) j
  have target : j ∈ (p.forest.downs 0 1).map Edge.target := by
    rw [Forest.map_target_downs, List.mem_range'_1]
    omega
  rw [treeEdges_picture]
  exact List.mem_map.mp target

theorem arm_picture (a : Arm) (i : Nat) :
    (∃ e ∈ p.picture.edges, e.source = i ∧ e.arm = some a) ↔
      ∃ s below, p.parts[i]? = some (.statement s, below) ∧ some a ∈ s.opens.map Part.arm := by
  constructor
  · rintro ⟨e, member, rfl, arm⟩
    have down : e ∈ p.picture.treeEdges := by
      by_contra other
      have back : e ∈ p.picture.backEdges := List.mem_filter.mpr ⟨member, by
        simpa [Graph.treeEdges, member] using other⟩
      rw [backEdges_picture] at back
      have plain := arm_of_mem_loopBacks (((formed_forest p).ups 0 1).mem_iff.mp back)
      exact nomatch arm.symm.trans plain
    have range := down
    rw [treeEdges_picture] at range
    have range := Forest.range_of_mem_downs Nat.one_pos range
    have short : e.source < p.parts.length := by
      rw [length_parts]
      omega
    obtain ⟨⟨part, below⟩, found⟩ : ∃ x, p.parts[e.source]? = some x :=
      ⟨_, List.getElem?_eq_getElem short⟩
    have leaves : e ∈ below.entries e.source (e.source + 1) := by
      rw [← leaving_picture found]
      exact List.mem_filter.mpr ⟨down, by simp⟩
    have top : some a ∈ below.tops.map Part.arm := by
      rw [← Forest.map_arm_entries e.source (e.source + 1), ← arm]
      exact List.mem_map_of_mem leaves
    obtain ⟨s, rfl, opened⟩ := (holds_parts p _ (List.mem_of_getElem? found)).arms.mp top
    exact ⟨s, below, found, opened⟩
  · rintro ⟨s, below, found, opened⟩
    have top := (holds_parts p _ (List.mem_of_getElem? found)).arms.mpr ⟨s, rfl, opened⟩
    rw [← Forest.map_arm_entries i (i + 1), ← leaving_picture found] at top
    obtain ⟨e, leaves, arm⟩ := List.mem_map.mp top
    obtain ⟨down, source⟩ := List.mem_filter.mp leaves
    exact ⟨e, (List.mem_filter.mp down).1, by simpa using source, arm⟩

theorem flowShape_picture (p : Program ω) : p.FlowShape p.picture where
  nodes := rfl
  ids := by
    rw [picture, List.map_map, List.length_map, List.length_zipIdx, List.range_eq_range']
    exact List.zipIdx_map_snd 0 p.parts
  entered := by
    rw [treeEdges_picture, Forest.map_target_downs, length_nodes_picture, Nat.add_sub_cancel_left]
  leaving _ _ _ found := leaving_picture found
  descendants _ _ _ found := ⟨descends_picture found, parts_follow found⟩
  backs := backEdges_perm p
  bodies _ _ _ found loops := bodies_parts found loops
  yes i := by simp only [arm_picture, yes_mem_opens]
  no i := by simp only [arm_picture, no_mem_opens]

end

theorem add_eq (p : Program ω) :
    Graph.empty.add p =
      match p.parts.flatMap (·.1.faults) with
      | [] => .ok p.graph
      | fault :: _ => .error fault := by
  have same : p.parts.flatMap (·.1.faults) = Stmt.graphFaultsAll p := by
    have faults := Stmt.faults_ontoAll p .nil
    rw [Forest.preorder, List.flatMap_nil, List.append_nil] at faults
    exact faults
  rw [same]
  unfold Graph.add firstFault
  cases Stmt.graphFaultsAll p <;> rfl

theorem add_eq_ok_iff {p : Program ω} {g : Graph} :
    Graph.empty.add p = .ok g ↔ Stmt.graphFaultsAll p = [] ∧ p.graph = g := by
  unfold Graph.add firstFault
  cases Stmt.graphFaultsAll p with
  | nil => exact ⟨fun built => ⟨rfl, Except.ok.inj built⟩, fun ⟨_, same⟩ => congrArg Except.ok same⟩
  | cons fault more => exact iff_of_false nofun nofun

end Program

/-! Programs that were read. Their numbers are short enough to be written. -/

theorem readExpr_short {line : Int} {cs : List Char} {e : Expr Empty}
    (reads : readExpr line cs = .ok e) : e.sourceTooLong = false :=
  (Expr.readTrimmed_readable reads).1.sourceTooLong

theorem readAssign_short {line : Int} {cs : List Char} {a : Assign Empty}
    (reads : readAssign line cs = .ok a) : a.value.sourceTooLong = false := by
  obtain ⟨name, value, e, -, inner, rfl⟩ := readAssign_ok_iff.mp reads
  exact readExpr_short inner

def Shape.Short : Shape Empty → Prop
  | .simple s => s.graphFaults = []
  | .branch c _ _ | .whileLoop c _ => c.sourceTooLong = false
  | .forLoop i c u _ =>
    i.value.sourceTooLong = false ∧ c.sourceTooLong = false ∧ u.value.sourceTooLong = false

theorem headerFaults_short {s : Stmt Empty} (short : s.headerTooLong = false) :
    s.headerFaults = [] :=
  if_neg (Bool.eq_false_iff.mp short)

theorem readShape_short {line : Line} {lines rest : List Line} {shape : Shape Empty}
    (reads : readShape line lines = .ok (shape, rest)) : shape.Short := by
  unfold readShape at reads
  split at reads
  · obtain ⟨_, _, c, _, _, -, condition, -, -, rfl⟩ := readIf_ok_iff.mp reads
    exact readExpr_short condition
  · obtain ⟨_, _, c, _, -, condition, -, rfl, -⟩ := readWhile_ok_iff.mp reads
    exact readExpr_short condition
  · obtain ⟨_, _, _, _, i, c, u, _, -, first, condition, last, -, rfl, -⟩ :=
      readFor_ok_iff.mp reads
    exact ⟨readAssign_short first, readExpr_short condition, readAssign_short last⟩
  · obtain ⟨_, c, -, condition, rfl, -⟩ := readAssertion_ok_iff.mp reads
    exact headerFaults_short (s := .assert c) (readExpr_short condition)
  · contradiction
  · obtain ⟨a, -, -, -, assign, rfl, -⟩ := readPlain_ok_iff.mp reads
    exact headerFaults_short (s := .assign a) (readAssign_short assign)

theorem ReadsAs.graphFaultsAll {lines : List Line} {p : Program Empty}
    (reads : ReadsAs lines p) : Stmt.graphFaultsAll p = [] := by
  induction reads with
  | nil => rfl
  | simple found _ more => exact List.append_eq_nil_iff.mpr ⟨readShape_short found, more⟩
  | @branch _ _ _ _ _ c t e _ found _ _ _ thenArm elseArm more =>
    have header := headerFaults_short (s := .branch c t e) (readShape_short found)
    simp only [Stmt.graphFaultsAll, Stmt.graphFaults, List.append_eq_nil_iff]
    exact ⟨⟨⟨header, thenArm⟩, elseArm⟩, more⟩
  | @whileLoop _ _ _ _ c b _ found _ _ body more =>
    have header := headerFaults_short (s := .whileLoop c b) (readShape_short found)
    simp only [Stmt.graphFaultsAll, Stmt.graphFaults, List.append_eq_nil_iff]
    exact ⟨⟨header, body⟩, more⟩
  | @forLoop _ _ _ _ i u c b _ found _ _ body more =>
    obtain ⟨first, condition, last⟩ := readShape_short found
    have header := headerFaults_short (s := .forLoop i c u b)
      (by simp [Stmt.headerTooLong, first, condition, last])
    simp only [Stmt.graphFaultsAll, Stmt.graphFaults, List.append_eq_nil_iff]
    exact ⟨⟨⟨header, body⟩, headerFaults_short (s := .assign u) last⟩, more⟩

/-- The graph of every program that was read is built, that of any other program unless one of its
parts cannot be written, and every graph that is built has the shape of its program. -/
theorem program_graph_flowShape :
    (∀ (text : String) (p : Program Empty), (parse text).trace.1 = .ok p →
      Graph.empty.add p = .ok p.graph) ∧
    ∀ {ω : Type} [Stray ω] (p : Program ω),
      (Graph.empty.add p =
        match p.parts.flatMap (·.1.faults) with
        | [] => .ok p.graph
        | fault :: _ => .error fault) ∧
      ∀ g, Graph.empty.add p = .ok g → p.FlowShape g := by
  refine ⟨fun text p reads => ?_, fun {ω} _ p => ⟨p.add_eq, fun g built => ?_⟩⟩
  · rw [parse_result] at reads
    exact Program.add_eq_ok_iff.mpr ⟨(readBlock_ok_iff.mp reads).graphFaultsAll, rfl⟩
  · obtain ⟨known, rfl⟩ := Program.add_eq_ok_iff.mp built
    rw [Program.graph_eq_picture known]
    exact p.flowShape_picture

def countUp : Program Empty :=
  [.forLoop ⟨"i", .lit 0⟩ (.binary (.compare .lt) (.var "i") (.var "n"))
      ⟨"i", .binary (.compute .add) (.var "i") (.lit 1)⟩
      [.branch (.binary (.compare .gt) (.var "i") (.lit 2)) [.assign ⟨"s", .var "i"⟩] []],
    .assert (.binary (.compare .ge) (.var "s") (.lit 3))]

/-- The update of the loop is the last node below its body. -/
theorem program_graph_flowShape_countUp :
    Graph.empty.add countUp = .ok countUp.graph ∧ countUp.graph.size = 9 ∧
    ∀ j, countUp.graph.Descends 2 j ↔ 2 < j ∧ j ≤ 7 := by
  have built : Graph.empty.add countUp = .ok countUp.graph :=
    Program.add_eq_ok_iff.mpr ⟨List.isEmpty_iff.mp (by decide +kernel), rfl⟩
  have shape := (program_graph_flowShape.2 countUp).2 countUp.graph built
  exact ⟨built, rfl, (shape.descendants 2 .loopBody _ rfl).1⟩

end Assay
