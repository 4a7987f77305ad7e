import Assay.Flow.Graph

/-! Forests of numbered parts. When the parts are numbered in pre-order, the edges down lead to
larger numbers and enter every node once, the nodes below a node are those that follow it, and the
edges that leave a node lead to the parts right below it. -/
namespace Assay

variable {ω : Type}

namespace Stmt

def isBranch : Stmt ω → Bool
  | .branch .. => true
  | _ => false

def isLoop : Stmt ω → Bool
  | .whileLoop .. | .forLoop .. | .strayFor .. => true
  | _ => false

end Stmt

inductive Part (ω : Type) where
  | start
  | statement (s : Stmt ω)
  | thenArm
  | elseArm
  | loopBody

namespace Part

def arm : Part ω → Option Arm
  | .thenArm | .loopBody => some .yes
  | .elseArm => some .no
  | .start | .statement _ => none

def isLoop : Part ω → Bool
  | .statement s => s.isLoop
  | _ => false

def back (above node : Nat) : Part ω → List Edge
  | .loopBody => [⟨node, above, none⟩]
  | _ => []

variable [Stray ω]

def label : Part ω → String
  | .start => "Program Start"
  | .statement s => s.header?.getD ""
  | .thenArm => "Then"
  | .elseArm => "Else"
  | .loopBody => "Loop Body"

def faults : Part ω → List Error
  | .statement (.stray m) => [unknownPart .cfg m]
  | .statement s => s.headerFaults
  | _ => []

end Part

/-- Parts in the order of the text, each with the parts below it. -/
inductive Forest (ω : Type) where
  | nil
  | node (part : Part ω) (below after : Forest ω)

namespace Forest

def size : Forest ω → Nat
  | nil => 0
  | node _ below after => 1 + below.size + after.size

def preorder : Forest ω → List (Part ω × Forest ω)
  | nil => []
  | node part below after => (part, below) :: (below.preorder ++ after.preorder)

/-- The edges in the order in which they are drawn. -/
def edges (above first : Nat) : Forest ω → List Edge
  | nil => []
  | node part below after =>
    ⟨above, first, part.arm⟩ :: (below.edges first (first + 1) ++
      (part.back above first ++ after.edges above (first + 1 + below.size)))

def downs (above first : Nat) : Forest ω → List Edge
  | nil => []
  | node part below after =>
    ⟨above, first, part.arm⟩ ::
      (below.downs first (first + 1) ++ after.downs above (first + 1 + below.size))

def ups (above first : Nat) : Forest ω → List Edge
  | nil => []
  | node part below after =>
    below.ups first (first + 1) ++
      (part.back above first ++ after.ups above (first + 1 + below.size))

def entries (above first : Nat) : Forest ω → List Edge
  | nil => []
  | node part below after =>
    ⟨above, first, part.arm⟩ :: after.entries above (first + 1 + below.size)

def tops : Forest ω → List (Part ω)
  | nil => []
  | node part _ after => part :: after.tops

theorem length_preorder (f : Forest ω) : f.preorder.length = f.size := by
  induction f with
  | nil => rfl
  | node part below after ihBelow ihAfter =>
    simp only [preorder, size, List.length_cons, List.length_append, ihBelow, ihAfter]
    omega

/-! The two kinds of edges. -/

theorem back_filter {above first : Nat} (lower : above < first) (part : Part ω) :
    (part.back above first).filter (fun e => e.source < e.target) = [] ∧
      (part.back above first).filter (fun e => e.target ≤ e.source) = part.back above first := by
  cases part with
  | loopBody => simp [Part.back]; omega
  | start | statement | thenArm | elseArm => exact ⟨rfl, rfl⟩

theorem edges_filter_lt {above first : Nat} (lower : above < first) (f : Forest ω) :
    (f.edges above first).filter (fun e => e.source < e.target) = f.downs above first := by
  induction f generalizing above first with
  | nil => rfl
  | node part below after ihBelow ihAfter =>
    rw [edges, List.filter_cons_of_pos (by simpa using lower), List.filter_append,
      List.filter_append, (back_filter lower part).1, ihBelow (by omega), ihAfter (by omega)]
    rfl

theorem edges_filter_le {above first : Nat} (lower : above < first) (f : Forest ω) :
    (f.edges above first).filter (fun e => e.target ≤ e.source) = f.ups above first := by
  induction f generalizing above first with
  | nil => rfl
  | node part below after ihBelow ihAfter =>
    rw [edges, List.filter_cons_of_neg (by simpa using lower), List.filter_append,
      List.filter_append, (back_filter lower part).2, ihBelow (by omega), ihAfter (by omega)]
    rfl

/-! The tree. -/

theorem map_target_downs (above first : Nat) (f : Forest ω) :
    (f.downs above first).map Edge.target = List.range' first f.size := by
  induction f generalizing above first with
  | nil => rfl
  | node part below after ihBelow ihAfter =>
    rw [downs, List.map_cons, List.map_append, ihBelow, ihAfter, List.range'_append_1, size,
      Nat.add_assoc, Nat.add_comm 1, List.range'_succ]

theorem source_of_mem_downs {above first : Nat} {f : Forest ω} {e : Edge}
    (member : e ∈ f.downs above first) : e.source = above ∨ first ≤ e.source := by
  induction f generalizing above first with
  | nil => exact absurd member List.not_mem_nil
  | node part below after ihBelow ihAfter =>
    simp only [downs, List.mem_cons, List.mem_append] at member
    rcases member with rfl | inside | later
    · exact .inl rfl
    · exact .inr (by have := ihBelow inside; omega)
    · exact (ihAfter later).imp_right (by omega)

theorem range_of_mem_downs {above first : Nat} (lower : above < first) {f : Forest ω} {e : Edge}
    (member : e ∈ f.downs above first) :
    (e.source = above ∨ first ≤ e.source) ∧ e.source < e.target ∧ first ≤ e.target ∧
      e.target < first + f.size := by
  have inside := List.mem_map_of_mem (f := Edge.target) member
  rw [map_target_downs, List.mem_range'_1] at inside
  refine ⟨source_of_mem_downs member, ?_, inside⟩
  rw [← edges_filter_lt lower] at member
  simpa using (List.mem_filter.mp member).2

/-- At place `k` of the pre-order stands this part with this forest below it. -/
inductive Sits : Forest ω → Nat → Part ω → Forest ω → Prop where
  | here {part : Part ω} {below after : Forest ω} : Sits (node part below after) 0 part below
  | inside {part q : Part ω} {below after c : Forest ω} {k : Nat} : Sits below k q c →
      Sits (node part below after) (k + 1) q c
  | later {part q : Part ω} {below after c : Forest ω} {k : Nat} : Sits after k q c →
      Sits (node part below after) (1 + below.size + k) q c

theorem sits_of_getElem? {f : Forest ω} {k : Nat} {part : Part ω} {below : Forest ω}
    (found : f.preorder[k]? = some (part, below)) : f.Sits k part below := by
  induction f generalizing k with
  | nil => contradiction
  | node top inner after ihInner ihAfter =>
    cases k with
    | zero =>
      cases found
      exact .here
    | succ k =>
      rw [preorder, List.getElem?_cons_succ] at found
      by_cases inside : k < inner.size
      · rw [List.getElem?_append_left (by rwa [length_preorder])] at found
        exact .inside (ihInner found)
      · rw [List.getElem?_append_right (by rw [length_preorder]; omega), length_preorder] at found
        have place : k + 1 = 1 + inner.size + (k - inner.size) := by omega
        rw [place]
        exact .later (ihAfter found)

namespace Sits

variable {f : Forest ω} {k : Nat} {part : Part ω} {below : Forest ω}

theorem bound (sits : f.Sits k part below) : k + 1 + below.size ≤ f.size := by
  induction sits with
  | here => simp only [size]; omega
  | inside _ ih => simp only [size]; omega
  | later _ ih => simp only [size]; omega

theorem follows (sits : f.Sits k part below) : below.preorder <+: f.preorder.drop (k + 1) := by
  induction sits with
  | here => exact List.prefix_append _ _
  | @inside top q inner after c k sits ih =>
    have short : k + 1 ≤ inner.preorder.length := by
      rw [length_preorder]
      have := sits.bound
      omega
    rw [preorder, List.drop_succ_cons, List.drop_append_of_le_length short]
    exact ih.trans (List.prefix_append _ _)
  | @later top q inner after c k sits ih =>
    have place : 1 + inner.size + k = inner.preorder.length + k + 1 := by
      rw [length_preorder]
      omega
    rw [preorder, List.drop_succ_cons, place, Nat.add_assoc, List.drop_length_add_append]
    exact ih

/-- An edge starts at a part or below it exactly when it ends below it. -/
theorem cut (sits : f.Sits k part below) {above first : Nat} (lower : above < first) {e : Edge}
    (member : e ∈ f.downs above first) :
    (first + k ≤ e.source ∧ e.source ≤ first + k + below.size) ↔
      (first + k < e.target ∧ e.target ≤ first + k + below.size) := by
  induction sits generalizing above first with
  | @here top inner after =>
    simp only [downs, List.mem_cons, List.mem_append] at member
    rcases member with rfl | inside | later
    · dsimp only
      omega
    · have range := range_of_mem_downs (by omega) inside
      omega
    · have range := range_of_mem_downs (by omega) later
      omega
  | @inside top q inner after c k sits ih =>
    have bound := sits.bound
    simp only [downs, List.mem_cons, List.mem_append] at member
    rcases member with rfl | inside | later
    · dsimp only
      omega
    · have inner := ih (by omega) inside
      omega
    · have range := range_of_mem_downs (by omega) later
      omega
  | @later top q inner after c k sits ih =>
    simp only [downs, List.mem_cons, List.mem_append] at member
    rcases member with rfl | inside | later
    · dsimp only
      omega
    · have range := range_of_mem_downs (by omega) inside
      omega
    · have others := ih (by omega) later
      omega

end Sits

theorem filter_outside {above first i : Nat} {f : Forest ω} (lower : above < first)
    (other : above ≠ i) (outside : i < first ∨ first + f.size ≤ i) :
    (f.downs above first).filter (fun e => e.source = i) = [] := by
  refine List.filter_eq_nil_iff.mpr fun e member => ?_
  have range := range_of_mem_downs lower member
  simp only [decide_eq_true_eq]
  omega

theorem filter_above {above first : Nat} (lower : above < first) (f : Forest ω) :
    (f.downs above first).filter (fun e => e.source = above) = f.entries above first := by
  induction f generalizing first with
  | nil => rfl
  | node part below after ihBelow ihAfter =>
    rw [downs, List.filter_cons_of_pos (by simp), List.filter_append,
      filter_outside (by omega) (by omega) (by omega), ihAfter (by omega)]
    rfl

theorem Sits.leaving {f below : Forest ω} {k : Nat} {part : Part ω} (sits : f.Sits k part below)
    {above first : Nat} (lower : above < first) :
    (f.downs above first).filter (fun e => e.source = first + k) =
      below.entries (first + k) (first + k + 1) := by
  induction sits generalizing above first with
  | @here top inner after =>
    rw [Nat.add_zero, downs, List.filter_cons_of_neg (by simp; omega), List.filter_append,
      filter_above (by omega), filter_outside (by omega) (by omega) (by omega), List.append_nil]
  | @inside top q inner after c k sits ih =>
    have bound := sits.bound
    rw [downs, List.filter_cons_of_neg (by simp; omega), List.filter_append,
      filter_outside (f := after) (by omega) (by omega) (by omega), List.append_nil]
    have place : first + (k + 1) = first + 1 + k := by omega
    rw [place]
    exact ih (by omega)
  | @later top q inner after c k sits ih =>
    rw [downs, List.filter_cons_of_neg (by simp; omega), List.filter_append,
      filter_outside (f := inner) (by omega) (by omega) (by omega), List.nil_append]
    have place : first + (1 + inner.size + k) = first + 1 + inner.size + k := by omega
    rw [place]
    exact ih (by omega)

end Forest

end Assay
