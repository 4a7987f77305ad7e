import Assay.Proofs.LastDefinitions
import Assay.Proofs.Liveness
import Assay.Proofs.Simplifying

/-! Output symbols and final versions. Where a symbol is the result of a phi with a single operand
and no guard, it can be replaced by the operand. A program never ends on such a symbol, so replacing
goes on until it meets the final version of a name and no further. -/
namespace Assay

namespace Stream

/-- The operand that a symbol copies: that of the phi with one operand and no guard which defines
it. -/
def copied? (s : Stream Empty) (y : String) : Option String :=
  s.findSome? fun
    | .phi r [a] none => if r = y then some a else none
    | _ => none

def replaced (s : Stream Empty) (y : String) : String := (s.copied? y).getD y

theorem mem_of_copied? {s : Stream Empty} {y a : String} (found : s.copied? y = some a) :
    .phi y [a] none ∈ s := by
  obtain ⟨i, member, value⟩ := List.exists_of_findSome?_eq_some found
  split at value
  · split at value
    · rename_i same
      cases value
      exact same ▸ member
    · contradiction
  · contradiction

theorem SingleAssignment.copied? {s : Stream Empty} (single : s.SingleAssignment) {y a : String}
    (member : .phi y [a] none ∈ s) : s.copied? y = some a := by
  cases found : s.copied? y with
  | none =>
    have missed := List.findSome?_eq_none_iff.mp found _ member
    simp at missed
  | some b =>
    cases single.unique (mem_of_copied? found) member rfl rfl
    rfl

theorem CopyOf.replaced {s : Stream Empty} (single : s.SingleAssignment) {y z : String}
    (copy : s.CopyOf y z) : ∃ k, s.replaced^[k] y = z := by
  induction copy using Relation.ReflTransGen.head_induction_on with
  | refl => exact ⟨0, rfl⟩
  | @head r a phi _ ih =>
    obtain ⟨k, ends⟩ := ih
    refine ⟨k + 1, ?_⟩
    rw [Function.iterate_succ_apply, Stream.replaced, single.copied? phi, Option.getD_some, ends]

end Stream

def Built.Settled (built : Built Empty) : Prop :=
  ∀ x a, .phi (built.1.symbolOf x) [a] none ∉ built.2

theorem Merged.settled {guard : Expr Empty} {a b : String → Nat} {v w : Versions}
    {joined : Built Empty} (merged : Merged guard a b w joined) {front : Stream Empty}
    (numbered : Numbered v.count (front ++ joined.2) joined.1.count)
    (kept : ∀ x, a x = b x → joined.1.version x ≤ v.count x) :
    Built.Settled (joined.1, front ++ joined.2) := by
  intro x operand member
  by_cases same : a x = b x
  · -- the version is from before, where nothing is defined
    obtain ⟨y, n, symbols, low, -⟩ := numbered.defined_between member rfl
    obtain ⟨rfl, rfl⟩ := symbol_inj.mp symbols
    exact absurd (kept x same) (Nat.not_le_of_lt low)
  · obtain ⟨version, -, phi⟩ := merged.differing x same
    have single : Stream.SingleAssignment (front ++ joined.2) := numbered.nodup
    have joins := single.unique member (List.mem_append_right front phi) rfl (by
      rw [Instr.defined?, Versions.symbolOf, version])
    exact absurd (Instr.phi.inj joins).2.2 (Option.some_ne_none _).symm

namespace Built.Settled

theorem andThen {v : Versions} {first : Built Empty} {next : Versions → Built Empty}
    {ts us : List String} (start : first.Fits v ts) (rest : (next first.1).Fits first.1 us)
    (head : first.Settled) (tail : (next first.1).Settled) : (first.andThen next).Settled := by
  intro x a member
  rcases List.mem_append.mp member with early | late
  · obtain ⟨y, n, symbols, -, high⟩ := start.numbered.defined_between early rfl
    obtain ⟨rfl, rfl⟩ := symbol_inj.mp symbols
    have outside : x ∉ us := fun inside => Nat.not_le_of_lt (rest.changed x inside) high
    refine head x a ?_
    rw [← rest.symbolOf_eq outside]
    exact early
  · exact tail x a late

theorem of_no_phis {built : Built Empty} (none : ∀ r xs guard, .phi r xs guard ∉ built.2) :
    built.Settled := fun _ _ => none _ _ _

end Built.Settled

theorem Assign.build_settled (a : Assign Empty) (v : Versions) : (a.build v).Settled := by
  refine .of_no_phis fun r xs guard member => ?_
  rw [a.stream_build] at member
  exact nomatch List.mem_singleton.mp member

theorem BranchParts.settled {v : Versions} {guard : Expr Empty} {t e joined : Built Empty}
    {ts es : List String} (parts : BranchParts v guard t e joined ts es) :
    Built.Settled (joined.1, t.2 ++ e.2 ++ joined.2) := by
  refine parts.merged.settled parts.fits.numbered fun x same => ?_
  have outside : x ∉ ts ++ es := fun member => parts.differs member same
  have version : joined.1.version x = v.version x := parts.fits.unchanged x outside
  rw [version]
  exact parts.sound.bounded x

theorem LoopParts.settled {v : Versions} {guard : Expr Empty} {entered settled : Versions}
    {body exits : Built Empty} {ts : List String}
    (parts : LoopParts v guard entered body settled exits ts) :
    Built.Settled (exits.1, v.current.keys.map (entryPhi v.current entered body.1) ++ body.2 ++
      exits.2) := by
  refine parts.merged.settled parts.fits.numbered fun x same => ?_
  have outside : x ∉ ts := fun member => parts.differs member same
  have version : exits.1.version x = v.version x := parts.fits.unchanged x outside
  rw [version]
  exact parts.sound.bounded x

namespace Stmt

theorem build_settled (path : List (Expr Empty)) (v : Versions) (s : Stmt Empty) (sound : v.Sound)
    (known : ∀ g ∈ path, g.Reads v.count) : (build path v s).Settled := by
  cases s with
  | assign a =>
    unfold build
    exact a.build_settled v
  | assert c =>
    unfold build
    refine .of_no_phis fun r xs guard member => ?_
    cases List.mem_singleton.mp member
  | branch c t e =>
    unfold build
    obtain ⟨joined, parts, built⟩ := buildBranch_parts c sound known
      (fun path v => buildAll_fits path v t) (fun path v => buildAll_fits path v e)
    rw [built]
    exact parts.settled
  | whileLoop c b =>
    unfold build
    obtain ⟨settled, exits, parts, built⟩ := buildLoop_parts c sound known
      (fun path v => buildAll_fits path v b)
    rw [built]
    exact parts.settled
  | forLoop i c u b =>
    unfold build
    have first := i.build_fits sound
    obtain ⟨settled, exits, parts, built⟩ := buildLoop_parts c first.sound
      (reads_grown first.grows known) fun path v => buildRound_fits path v b u
    have fits := parts.fits
    have loop := parts.settled
    rw [← built] at fits loop
    exact .andThen first fits.untouch (i.build_settled v) loop
  | strayFor mark => exact mark.elim
  | stray part => exact part.elim

theorem buildAll_settled (path : List (Expr Empty)) (v : Versions) (p : List (Stmt Empty))
    (sound : v.Sound) (known : ∀ g ∈ path, g.Reads v.count) : (buildAll path v p).Settled := by
  induction p generalizing v with
  | nil =>
    unfold buildAll
    exact .of_no_phis fun r xs guard => List.not_mem_nil
  | cons s rest ih =>
    unfold buildAll
    have first := build_fits path v s sound known
    have grown := reads_grown first.grows known
    exact .andThen first (buildAll_fits path _ rest first.sound grown)
      (build_settled path v s sound known) (ih _ first.sound grown)

end Stmt

theorem Program.final_settled (p : Program Empty) (x : String) :
    p.stream.copied? (p.construct.versions.symbolOf x) = none := by
  have settled := Stmt.buildAll_settled [] .empty p Versions.sound_empty
    fun _ member => nomatch member
  cases found : p.stream.copied? (p.construct.versions.symbolOf x) with
  | none => rfl
  | some a => exact absurd (Stream.mem_of_copied? found) (settled x a)

/-- The outputs of a program are the names that it assigns. Each of them is live in the end, and
from its output symbol replacing copies by their operands ends at the symbol of its final version;
where the program has no loop, the output symbol is that symbol. -/
theorem outputs_denote_final_versions {p : Program Empty} {c : Construction Empty}
    (built : Construction.empty.extended p = .ok c) :
    ∃ outputs, c.stream.outputs = .ok outputs ∧ outputs.keys.Nodup ∧
      (∀ x, x ∈ outputs.keys ↔ x ∈ Stmt.targetsAll p) ∧
      ∀ x y, outputs.get? x = some y → ∃ n, c.versions.current.get? x = some n ∧
        (∃ k, c.stream.replaced^[k] y = symbol x n) ∧ c.stream.copied? (symbol x n) = none ∧
          (p.LoopFree → y = symbol x n) := by
  obtain ⟨rfl, regular⟩ := Program.regular_of_extended built
  obtain ⟨outputs, found, distinct, names, entries⟩ := regular.outputs
  refine ⟨outputs, found, distinct, fun x => (names x).trans (p.typed.assigned x), ?_⟩
  intro x y output
  obtain ⟨assigns, last⟩ := (entries x y).mp (Entries.mem_of_get? output)
  have target : x ∈ Stmt.targetsAll p := (p.typed.assigned x).mp assigns
  have live : x ∈ p.construct.versions.current.keys := p.construct_fits.live target
  obtain ⟨n, current⟩ := Option.ne_none_iff_exists'.mp (Entries.mem_keys.mp live)
  have final : p.construct.versions.symbolOf x = symbol x n := by
    rw [Versions.symbolOf, Versions.version, current, Option.getD_some]
  obtain ⟨z, same, copy⟩ := p.last_copies target
  obtain rfl : z = y := Option.some.inj (same.symm.trans last)
  refine ⟨n, current, ?_, ?_, fun flat => ?_⟩
  · rw [← final]
    exact copy.replaced p.numbered.nodup
  · rw [← final]
    exact p.final_settled x
  · rw [← final]
    exact Option.some.inj (last.symm.trans (p.last_stream flat target))

/-- A name that both loops leave alone: its last definition is the entry of the inner one. -/
def readInside : Program Empty :=
  [.assign ⟨"x", .lit 3⟩, .whileLoop (.var "i") [.forLoop ⟨"j", .lit 0⟩
    (.binary (.compare .lt) (.var "j") (.var "x"))
    ⟨"j", .binary (.compute .add) (.var "j") (.lit 1)⟩ [.assign ⟨"i", .var "j"⟩]]]

theorem outputs_denote_final_versions_readInside :
    ∃ c outputs, Construction.empty.extended readInside = .ok c ∧
      c.stream.outputs = .ok outputs ∧ outputs.get? "x" = some "x_3" ∧
      c.versions.current.get? "x" = some 1 ∧ ∃ k, c.stream.replaced^[k] "x_3" = "x_1" := by
  obtain ⟨c, built⟩ := exists_ok (x := Construction.empty.extended readInside) (by decide +kernel)
  obtain ⟨rfl, -⟩ := Program.regular_of_extended built
  obtain ⟨outputs, found, -, -, leads⟩ := outputs_denote_final_versions built
  have output : outputs.get? "x" = some "x_3" := by
    have value : (readInside.stream.outputs.toOption.bind (Entries.get? "x")) = some "x_3" := by
      decide +kernel
    change (readInside.construct.stream.outputs.toOption.bind _) = _ at value
    rwa [found] at value
  have final : readInside.construct.versions.current.get? "x" = some 1 := by decide +kernel
  obtain ⟨n, current, reaches, -⟩ := leads "x" "x_3" output
  obtain rfl : n = 1 := Option.some.inj (current.symm.trans final)
  exact ⟨_, outputs, built, found, output, final, reaches⟩

end Assay
