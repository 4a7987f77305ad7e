import Assay.Proofs.Simulation
import Assay.Proofs.Solutions
import Assay.Proofs.Regularity
import Assay.Proofs.Folding

/-! Streams without loop entries determine all values from an input. Taken from front to back, each
definition gives a value to a new symbol out of values that are known, so the equations of the
stream have one solution. -/
namespace Assay

open Smt

/-- The equation of an instruction: an assignment gives its target an integer, and a phi has the
value of the operand that its guard picks. -/
def Instr.Equates (m : Valuation) : Instr Empty → Prop
  | .assign x e => m.int x = e.eval m
  | .phi r [a, b] (some g) =>
    m.int r = (if g.holds m then m.int a else m.int b) ∧
      m.array r = if g.holds m then m.array a else m.array b
  | _ => True

def Instr.fill (v : Valuation) : Instr Empty → Valuation
  | .assign x e => v.set x (e.eval v)
  | .phi r [a, b] (some g) => v.set r (if g.holds v then v.int a else v.int b)
  | _ => v

def Stream.fill (v : Valuation) (s : Stream Empty) : Valuation := s.foldl Instr.fill v

/-- No phi stands at the entry of a loop. -/
def Stream.Straight (s : Stream Empty) : Prop := ∀ r xs, .phi r xs none ∉ s

theorem Stream.Straight.tail {i : Instr Empty} {s : Stream Empty}
    (straight : Stream.Straight (i :: s)) : s.Straight :=
  fun r xs member => straight r xs (List.mem_cons_of_mem _ member)

theorem Instr.fill_frame (v : Valuation) (i : Instr Empty) :
    (i.fill v).array = v.array ∧ (i.fill v).byZero = v.byZero := by
  unfold fill
  split <;> exact ⟨rfl, rfl⟩

theorem Stream.fill_frame (v : Valuation) (s : Stream Empty) :
    (s.fill v).array = v.array ∧ (s.fill v).byZero = v.byZero := by
  induction s generalizing v with
  | nil => exact ⟨rfl, rfl⟩
  | cons i s ih =>
    obtain ⟨array, byZero⟩ := ih (i.fill v)
    exact ⟨array.trans (i.fill_frame v).1, byZero.trans (i.fill_frame v).2⟩

theorem Known.bump_cases {c : Counts} {x y : String} (known : Known (c.bump x) y) :
    y = symbol x (c x + 1) ∨ Known c y := by
  obtain ⟨z, n, rfl, le⟩ := known
  unfold Counts.bump at le
  split at le
  · rename_i same
    subst same
    rcases Nat.lt_or_eq_of_le le with less | rfl
    · exact .inr ⟨x, n, rfl, Nat.le_of_lt_succ less⟩
    · exact .inl rfl
  · exact .inr ⟨z, n, rfl, le⟩

theorem KeepsKnown.picks {c : Counts} {v w : Valuation} (keeps : KeepsKnown c v w)
    {g : Expr Empty} (reads : g.Reads c) {a b : String} (left : Known c a) (right : Known c b) :
    (if g.holds v then v.int a else v.int b) = if g.holds w then w.int a else w.int b := by
  have first : v.int a = w.int a := keeps.value a .int left
  have second : v.int b = w.int b := keeps.value b .int right
  unfold Expr.holds
  rw [first, second, keeps.eval reads]

namespace Numbered

variable {c c' : Counts} {s : Stream Empty}

theorem fill_keeps (numbered : Numbered c s c') (straight : s.Straight) (v : Valuation) :
    KeepsKnown c v (s.fill v) := by
  induction numbered generalizing v with
  | nil => exact ⟨rfl, fun y s _ => SameValue.refl v y s⟩
  | assert _ _ _ ih => exact ih straight.tail v
  | @assign c c' s x e _ _ ih =>
    exact (KeepsKnown.set v x (e.eval v)).trans (Counts.le_bump c x) (ih straight.tail _)
  | copy | entry => exact absurd (List.mem_cons_self ..) (straight _ _)
  | @join c c' s x n k g _ _ _ _ _ ih =>
    exact (KeepsKnown.set v x _).trans (Counts.le_bump c x) (ih straight.tail _)

theorem fill_given {x : String} (rest : Numbered (c.bump x) s c') (straight : s.Straight)
    (v : Valuation) (n : Int) :
    (s.fill (v.set (symbol x (c x + 1)) n)).int (symbol x (c x + 1)) = n ∧
      KeepsKnown c v (s.fill (v.set (symbol x (c x + 1)) n)) := by
  have later := rest.fill_keeps straight (v.set (symbol x (c x + 1)) n)
  have target := later.value _ .int (KeepsKnown.known_next c x)
  simp only [SameValue, Valuation.int_set, if_true] at target
  exact ⟨target.symm, (KeepsKnown.set v x n).trans (Counts.le_bump c x) later⟩

theorem fill_equates (numbered : Numbered c s c') (straight : s.Straight) (v : Valuation)
    (arrays : ∀ x n, v.array (symbol x n) = v.array (symbol x 0)) :
    ∀ i ∈ s, i.Equates (s.fill v) := by
  induction numbered generalizing v with
  | nil => exact fun _ member => absurd member List.not_mem_nil
  | assert _ _ _ ih => exact List.forall_mem_cons.mpr ⟨trivial, ih straight.tail v arrays⟩
  | copy | entry => exact absurd (List.mem_cons_self ..) (straight _ _)
  | @assign c c' s x e reads rest ih =>
    obtain ⟨target, keeps⟩ := rest.fill_given straight.tail v (e.eval v)
    refine List.forall_mem_cons.mpr ⟨?_, ih straight.tail (v.set _ _) arrays⟩
    exact target.trans (keeps.eval reads)
  | @join c c' s x n k g low high ne reads rest ih =>
    obtain ⟨target, keeps⟩ := rest.fill_given straight.tail v
      (if g.holds v then v.int (symbol x n) else v.int (symbol x k))
    refine List.forall_mem_cons.mpr ⟨⟨target.trans ?_, ?_⟩, ih straight.tail (v.set _ _) arrays⟩
    · exact keeps.picks reads ⟨x, n, rfl, low⟩ ⟨x, k, rfl, high⟩
    · rw [(Stream.fill_frame v _).1]
      simp only [arrays x n, arrays x k, arrays x (c x + 1), ite_self]

end Numbered

theorem Known.extend {c : Counts} {x : String} {m v : Valuation} {n : Int}
    (target : m.int (symbol x (c x + 1)) = n) (start : ∀ y, Known c y → m.int y = v.int y) :
    ∀ y, Known (c.bump x) y → m.int y = (v.set (symbol x (c x + 1)) n).int y := by
  intro y known
  rcases known.bump_cases with rfl | known
  · simpa using target
  · have other : y ≠ symbol x (c x + 1) := by
      rintro rfl
      exact not_known_next c x known
    simpa [other] using start y known

theorem Expr.Reads.eval {c : Counts} {e : Expr Empty} (reads : e.Reads c) {m v : Valuation}
    (byZero : m.byZero = v.byZero) (arrays : ∀ a ∈ e.indexed, m.array a = v.array a)
    (start : ∀ y, Known c y → m.int y = v.int y) : e.eval m = e.eval v := by
  refine Expr.eval_congr byZero e fun u used => ?_
  obtain ⟨y, sort⟩ := u
  cases sort with
  | int => exact start y (reads y (Expr.mem_names_of_mem_uses used))
  | array => exact arrays y (Expr.mem_indexed.mpr used)
  | stray part => exact part.elim

/-- Two solutions with the same start have the same integers. -/
theorem Numbered.fill_unique {c c' : Counts} {s : Stream Empty} (numbered : Numbered c s c')
    (straight : s.Straight) {m v : Valuation} (byZero : m.byZero = v.byZero)
    (arrays : ∀ i ∈ s, ∀ e ∈ i.exprs, ∀ a ∈ e.indexed, m.array a = v.array a)
    (equations : ∀ i ∈ s, i.Equates m) (start : ∀ y, Known c y → m.int y = v.int y) :
    ∀ y, Known c' y → m.int y = (s.fill v).int y := by
  induction numbered generalizing v with
  | nil => exact start
  | assert _ _ _ ih =>
    exact ih straight.tail byZero (List.forall_mem_cons.mp arrays).2
      (List.forall_mem_cons.mp equations).2 start
  | copy | entry => exact absurd (List.mem_cons_self ..) (straight _ _)
  | @assign c c' s x e reads rest ih =>
    obtain ⟨head, tail⟩ := List.forall_mem_cons.mp arrays
    obtain ⟨equation, others⟩ := List.forall_mem_cons.mp equations
    have value : e.eval m = e.eval v :=
      reads.eval byZero (head e (List.mem_singleton_self e)) start
    exact ih straight.tail (v := v.set _ _) byZero tail others
      (Known.extend (Eq.trans equation value) start)
  | @join c c' s x n k g low high ne reads rest ih =>
    obtain ⟨head, tail⟩ := List.forall_mem_cons.mp arrays
    obtain ⟨equation, others⟩ := List.forall_mem_cons.mp equations
    have guard : g.holds m = g.holds v := by
      unfold Expr.holds
      rw [reads.eval byZero (head g (by simp [Instr.exprs])) start]
    have first := start (symbol x n) ⟨x, n, rfl, low⟩
    have second := start (symbol x k) ⟨x, k, rfl, high⟩
    have value := equation.1
    rw [guard, first, second] at value
    exact ih straight.tail (v := v.set _ _) byZero tail others (Known.extend value start)

end Assay
