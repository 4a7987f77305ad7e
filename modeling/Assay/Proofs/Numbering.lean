import Assay.Proofs.Symbols
import Assay.Stream.OfProgram

/-! The versions in the stream of a program. Every definition takes the next version of its name,
and every read is of a version given before, apart from the second operand of a loop's entry. So
no symbol is defined twice, and version 0 is never defined. -/
namespace Assay

abbrev Counts := String → Nat

def Counts.bump (c : Counts) (x : String) : Counts := fun y => if x = y then c x + 1 else c y

theorem Counts.le_bump (c : Counts) (x y : String) : c y ≤ c.bump x y := by
  unfold bump
  split
  · rename_i same
    subst same
    omega
  · exact Nat.le_refl _

@[simp] theorem Counts.bump_self (c : Counts) (x : String) : c.bump x x = c x + 1 := by
  simp [bump]

/-- The symbol was given to some name, or is an input. -/
def Known (c : Counts) (y : String) : Prop := ∃ x n, y = symbol x n ∧ n ≤ c x

theorem Known.mono {c c' : Counts} (grows : ∀ x, c x ≤ c' x) {y : String} (known : Known c y) :
    Known c' y := by
  obtain ⟨x, n, rfl, le⟩ := known
  exact ⟨x, n, rfl, Nat.le_trans le (grows x)⟩

theorem not_known_next (c : Counts) (x : String) : ¬ Known c (symbol x (c x + 1)) := by
  rintro ⟨y, n, same, le⟩
  obtain ⟨rfl, rfl⟩ := symbol_inj.mp same
  omega

def Expr.Reads (c : Counts) (e : Expr Empty) : Prop := ∀ y ∈ e.names, Known c y

/-- A stream between two counts: one case for each form that an instruction has. -/
inductive Numbered : Counts → Stream Empty → Counts → Prop where
  | nil {c : Counts} : Numbered c [] c
  | assign {c c' : Counts} {s : Stream Empty} {x : String} {e : Expr Empty} :
      e.Reads c → Numbered (c.bump x) s c' →
        Numbered c (.assign (symbol x (c x + 1)) e :: s) c'
  | assert {c c' : Counts} {s : Stream Empty} {cond : Expr Empty} {path : List (Expr Empty)} :
      cond.Reads c → (∀ g ∈ path, g.Reads c) → Numbered c s c' →
        Numbered c (.assert cond path :: s) c'
  | copy {c c' : Counts} {s : Stream Empty} {x : String} {n : Nat} :
      n ≤ c x → Numbered (c.bump x) s c' →
        Numbered c (.phi (symbol x (c x + 1)) [symbol x n] none :: s) c'
  | entry {c c' : Counts} {s : Stream Empty} {x : String} {n k : Nat} :
      n ≤ c x → c x + 1 < k → k ≤ c' x → Numbered (c.bump x) s c' →
        Numbered c (.phi (symbol x (c x + 1)) [symbol x n, symbol x k] none :: s) c'
  | join {c c' : Counts} {s : Stream Empty} {x : String} {n k : Nat} {g : Expr Empty} :
      n ≤ c x → k ≤ c x → n ≠ k → g.Reads c → Numbered (c.bump x) s c' →
        Numbered c (.phi (symbol x (c x + 1)) [symbol x n, symbol x k] (some g) :: s) c'

namespace Numbered

theorem grows {c c' : Counts} {s : Stream Empty} (numbered : Numbered c s c') (x : String) :
    c x ≤ c' x := by
  induction numbered with
  | nil => exact Nat.le_refl _
  | assert _ _ _ ih => exact ih
  | assign _ _ ih | copy _ _ ih | entry _ _ _ _ ih | join _ _ _ _ _ ih =>
    exact Nat.le_trans (Counts.le_bump _ _ x) ih

theorem append {c c' c'' : Counts} {s t : Stream Empty} (first : Numbered c s c')
    (second : Numbered c' t c'') : Numbered c (s ++ t) c'' := by
  induction first with
  | nil => exact second
  | assign reads _ ih => exact .assign reads (ih second)
  | assert reads path _ ih => exact .assert reads path (ih second)
  | copy le _ ih => exact .copy le (ih second)
  | entry le later bound _ ih =>
    exact .entry le later (Nat.le_trans bound (second.grows _)) (ih second)
  | join left right ne reads _ ih => exact .join left right ne reads (ih second)

theorem defined_between {c c' : Counts} {s : Stream Empty} (numbered : Numbered c s c')
    {i : Instr Empty} (member : i ∈ s) {y : String} (defines : i.defined? = some y) :
    ∃ x n, y = symbol x n ∧ c x < n ∧ n ≤ c' x := by
  have step : ∀ {c c' : Counts} {x : String} {s : Stream Empty} {j : Instr Empty},
      j.defined? = some (symbol x (c x + 1)) → Numbered (c.bump x) s c' →
      (i ∈ s → ∃ z n, y = symbol z n ∧ c.bump x z < n ∧ n ≤ c' z) → i ∈ j :: s →
      ∃ z n, y = symbol z n ∧ c z < n ∧ n ≤ c' z := by
    intro c c' x s j head rest ih member
    rcases List.mem_cons.mp member with rfl | member
    · rw [head] at defines
      cases defines
      exact ⟨x, c x + 1, rfl, Nat.lt_succ_self _, by simpa using rest.grows x⟩
    · obtain ⟨z, n, rfl, low, high⟩ := ih member
      exact ⟨z, n, rfl, Nat.lt_of_le_of_lt (Counts.le_bump c x z) low, high⟩
  induction numbered with
  | nil => contradiction
  | assert _ _ _ ih =>
    rcases List.mem_cons.mp member with rfl | member
    · contradiction
    · exact ih member
  | assign _ rest ih | copy _ rest ih | entry _ _ _ rest ih | join _ _ _ _ rest ih =>
    exact step rfl rest ih member

theorem nodup {c c' : Counts} {s : Stream Empty} (numbered : Numbered c s c') :
    (s.filterMap Instr.defined?).Nodup := by
  have step : ∀ {c c' : Counts} {x : String} {s : Stream Empty} {j : Instr Empty},
      j.defined? = some (symbol x (c x + 1)) → Numbered (c.bump x) s c' →
      (s.filterMap Instr.defined?).Nodup → ((j :: s).filterMap Instr.defined?).Nodup := by
    intro c c' x s j head rest ih
    rw [List.filterMap_cons_some head]
    refine List.nodup_cons.mpr ⟨?_, ih⟩
    intro again
    obtain ⟨i, member, defines⟩ := List.mem_filterMap.mp again
    obtain ⟨z, n, same, low, -⟩ := rest.defined_between member defines
    obtain ⟨rfl, rfl⟩ := symbol_inj.mp same
    simp at low
  induction numbered with
  | nil => exact List.nodup_nil
  | assert _ _ _ ih => exact ih
  | assign _ rest ih | copy _ rest ih | entry _ _ _ rest ih | join _ _ _ _ rest ih =>
    exact step rfl rest ih

end Numbered

end Assay
