import Assay.Proofs.Requests
import Mathlib.Algebra.GroupWithZero.Nat

/-! Rounds of simplification come to an end. A round keeps the phis and assertions and the order of
what is left, and it drops no definition of a symbol that is still read. It either leaves a stream
as it is or makes it lighter, so that after finitely many rounds a stream is left in which there is
nothing more to do. The one thing that stops the rounds earlier is a division by zero whose dividend
has too many digits to be told. -/
namespace Assay

theorem map_eq_self_iff {α : Type} {f : α → α} {xs : List α} :
    xs.map f = xs ↔ ∀ a ∈ xs, f a = a := by
  simpa using List.map_inj_left (l := xs) (f := f) (g := id)

theorem map_eq_or_sum_lt {α : Type} {f : α → α} {weight : α → Nat} (xs : List α)
    (each : ∀ a ∈ xs, f a = a ∨ weight (f a) < weight a) :
    xs.map f = xs ∨ ((xs.map f).map weight).sum < (xs.map weight).sum := by
  induction xs with
  | nil => exact .inl rfl
  | cons a xs ih =>
    obtain ⟨first, others⟩ := List.forall_mem_cons.mp each
    simp only [List.map_cons, List.sum_cons]
    rcases ih others with rest | rest
    · rw [rest]
      rcases first with same | less
      · exact .inl (by rw [same])
      · exact .inr (by omega)
    · refine .inr ?_
      rcases first with same | less
      · rw [same]
        omega
      · omega

namespace Expr

/-- What a round may take away: names that are read as integers, and operations. -/
def counts : Expr Empty → Bool
  | .var _ | .binary .. => true
  | _ => false

def weight (e : Expr Empty) : Nat := e.nodes.countP counts

theorem weight_read (a : String) (i : Expr Empty) : (read a i).weight = i.weight := by
  simp [weight, nodes, counts]

theorem weight_binary (op : BinaryOp Empty) (l r : Expr Empty) :
    (binary op l r).weight = l.weight + r.weight + 1 := by
  rw [weight, nodes, List.countP_cons_of_pos rfl, List.countP_append]
  rfl

theorem weight_unary (op : UnaryOp Empty) (e : Expr Empty) : (unary op e).weight = e.weight := by
  simp [weight, nodes, counts]

theorem foldBinary_cases (op : BinaryOp Empty) (l r : Expr Empty) :
    foldBinary op l r = binary op l r ∨ ∃ n, foldBinary op l r = lit n := by
  unfold foldBinary
  split
  · split
    · exact .inr ⟨_, rfl⟩
    · exact .inl rfl
  · exact .inl rfl

theorem fold_eq_or_lt (known : Entries Int) (e : Expr Empty) :
    e.fold known = e ∨ (e.fold known).weight < e.weight := by
  induction e with
  | lit n => exact .inl rfl
  | var x =>
    unfold fold
    split
    · exact .inr Nat.zero_lt_one
    · exact .inl rfl
  | read a i ih =>
    rw [fold, weight_read, weight_read]
    exact ih.imp (congrArg (read a)) id
  | binary op l r left right =>
    rw [fold, weight_binary]
    rcases foldBinary_cases op (l.fold known) (r.fold known) with stays | ⟨n, value⟩
    · rw [stays, weight_binary]
      rcases left with sameLeft | lessLeft
      · rcases right with sameRight | lessRight
        · exact .inl (by rw [sameLeft, sameRight])
        · exact .inr (by rw [sameLeft]; omega)
      · rcases right with sameRight | lessRight
        · exact .inr (by rw [sameRight]; omega)
        · exact .inr (by omega)
    · rw [value]
      exact .inr (Nat.succ_pos _)
  | unary op e ih =>
    rw [fold, weight_unary, weight_unary]
    exact ih.imp (congrArg (unary op)) id
  | stray part => exact part.elim

end Expr

namespace Instr

def weight (i : Instr Empty) : Nat := 1 + (i.exprs.map Expr.weight).sum

theorem fold_of_exprs {known : Entries Int} {i : Instr Empty}
    (same : i.exprs.map (Expr.fold known) = i.exprs) : i.fold known = i := by
  cases i with
  | assign x e => exact congrArg (assign x) (List.cons.inj same).1
  | assert c path =>
    obtain ⟨cond, guards⟩ := List.cons.inj same
    rw [fold, cond, guards]
  | phi r xs guard =>
    cases guard with
    | none => rfl
    | some g =>
      rw [fold, Option.map_some, (List.cons.inj same).1]
  | stray part => exact part.elim

theorem fold_eq_or_lt (known : Entries Int) (i : Instr Empty) :
    i.fold known = i ∨ (i.fold known).weight < i.weight := by
  unfold weight
  rw [exprs_fold]
  rcases map_eq_or_sum_lt i.exprs fun e _ => e.fold_eq_or_lt known with same | less
  · exact .inl (fold_of_exprs same)
  · exact .inr (by omega)

end Instr

namespace Stream

variable {s : Stream Empty}

def weight (s : Stream Empty) : Nat := (s.map Instr.weight).sum

theorem filter_eq_or_lt (keep : Instr Empty → Bool) (s : Stream Empty) :
    s.filter keep = s ∨ weight (s.filter keep) < s.weight := by
  have step : ∀ (i : Instr Empty) (t : Stream Empty), weight (i :: t) = i.weight + t.weight :=
    fun _ _ => List.sum_cons
  induction s with
  | nil => exact .inl rfl
  | cons i s ih =>
    by_cases kept : keep i = true
    · rw [List.filter_cons_of_pos kept, step, step]
      rcases ih with same | less
      · exact .inl (by rw [same])
      · exact .inr (by omega)
    · rw [List.filter_cons_of_neg kept, step]
      have positive : 0 < i.weight := Nat.lt_of_lt_of_le Nat.zero_lt_one (Nat.le_add_right ..)
      rcases ih with same | less
      · exact .inr (by rw [same]; omega)
      · exact .inr (by omega)

theorem simplified_eq_or_lt (s : Stream Empty) :
    (folded s = s ∧ withoutDead s = s) ∨ s.simplified.weight < s.weight := by
  have dead : withoutDead (folded s) = folded s ∨
      (withoutDead (folded s)).weight < (folded s).weight := filter_eq_or_lt _ _
  have fold : folded s = s ∨ (folded s).weight < s.weight :=
    map_eq_or_sum_lt s fun i _ => i.fold_eq_or_lt _
  unfold simplified
  rcases fold with same | less
  · rw [same] at dead
    refine dead.imp (fun kept => ⟨same, kept⟩) fun fewer => ?_
    rwa [same]
  · right
    rcases dead with kept | fewer
    · rwa [kept]
    · exact Nat.lt_trans fewer less

theorem simplified_eq_self_iff : s.simplified = s ↔ folded s = s ∧ withoutDead s = s := by
  constructor
  · intro fixed
    rcases s.simplified_eq_or_lt with parts | less
    · exact parts
    · rw [fixed] at less
      exact absurd less (Nat.lt_irrefl _)
  · rintro ⟨fold, dead⟩
    rw [simplified, fold, dead]

/-! Streams in which there is nothing to do. -/

/-- No name with a known value is read, no operation can be carried out, and no assignment is
dead. -/
structure Normal (s : Stream Empty) : Prop where
  values : ∀ i ∈ s, ∀ e ∈ i.exprs, ∀ x, .var x ∈ e.nodes → ∀ n, .assign x (.lit n) ∉ s
  operations : ∀ i ∈ s, ∀ e ∈ i.exprs, ∀ op a b, .binary op (.lit a) (.lit b) ∈ e.nodes →
    (op = .compute .div ∨ op = .compute .mod) ∧ b = 0
  targets : ∀ x e, .assign x e ∈ s → x ∈ readSymbols s

theorem constants_of_mem {x : String} {n : Int} (member : .assign x (.lit n) ∈ s) :
    ∃ m, (constants s).get? x = some m := by
  have step : ∀ (cs : List (String × Int)) (known : Entries Int),
      (∃ m, known.get? x = some m) ∨ (∃ m, (x, m) ∈ cs) →
      ∃ m, (cs.foldl (fun k c => k.put c.1 c.2) known).get? x = some m := by
    intro cs
    induction cs with
    | nil =>
      rintro known (found | ⟨m, none⟩)
      · exact found
      · exact absurd none List.not_mem_nil
    | cons c cs ih =>
      intro known found
      refine ih _ ?_
      rw [Entries.get?_put]
      by_cases here : c.1 = x
      · exact .inl ⟨c.2, if_pos here⟩
      · rw [if_neg here]
        refine found.imp id ?_
        rintro ⟨m, stands⟩
        rcases List.mem_cons.mp stands with rfl | later
        · exact absurd rfl here
        · exact ⟨m, later⟩
  exact step _ [] (.inr ⟨n, List.mem_filterMap.mpr ⟨_, member, rfl⟩⟩)

end Stream

theorem BinaryOp.eval_error_iff {op : BinaryOp Empty} {a b : Int} :
    (∃ fault, op.eval a b = .error fault) ↔ (op = .compute .div ∨ op = .compute .mod) ∧ b = 0 := by
  constructor
  · rintro ⟨fault, fails⟩
    cases op with
    | compare c => exact nomatch fails
    | compute op =>
      cases op with
      | add | sub | mul => exact nomatch fails
      | div | mod =>
        by_cases zero : b = 0
        · exact ⟨by simp, zero⟩
        · simp [BinaryOp.eval, Arithmetic.eval?, zero] at fails
    | other mark text => exact mark.elim
  · rintro ⟨rfl | rfl, rfl⟩
    · exact ⟨_, rfl⟩
    · exact ⟨_, rfl⟩

namespace Expr

theorem foldBinary_eq_iff {op : BinaryOp Empty} {l r : Expr Empty} :
    foldBinary op l r = binary op l r ↔
      ∀ a b, l = lit a → r = lit b → (op = .compute .div ∨ op = .compute .mod) ∧ b = 0 := by
  constructor
  · rintro stays a b rfl rfl
    refine BinaryOp.eval_error_iff (a := a).mp ?_
    cases value : op.eval a b with
    | error fault => exact ⟨fault, rfl⟩
    | ok n => simp [foldBinary, value] at stays
  · intro zero
    unfold foldBinary
    split
    · rename_i a b
      obtain ⟨fault, fails⟩ := BinaryOp.eval_error_iff.mpr (zero a b rfl rfl)
      rw [fails]
    · rfl

theorem fold_eq_self_iff (known : Entries Int) (e : Expr Empty) :
    e.fold known = e ↔ (∀ x, .var x ∈ e.nodes → known.get? x = none) ∧
      ∀ op a b, .binary op (.lit a) (.lit b) ∈ e.nodes →
        (op = .compute .div ∨ op = .compute .mod) ∧ b = 0 := by
  induction e with
  | lit n => simp [fold, nodes]
  | var x =>
    cases found : known.get? x with
    | none => simp [fold, nodes, found]
    | some n => simp [fold, nodes, found]
  | read a i ih => simpa [fold, nodes] using ih
  | binary op l r left right =>
    have parts : (binary op l r).fold known = binary op l r ↔
        l.fold known = l ∧ r.fold known = r ∧ foldBinary op l r = binary op l r := by
      constructor
      · intro same
        rw [fold] at same
        rcases foldBinary_cases op (l.fold known) (r.fold known) with stays | ⟨n, value⟩
        · rw [stays] at same
          obtain ⟨-, first, second⟩ := Expr.binary.inj same
          rw [first, second] at stays
          exact ⟨first, second, stays⟩
        · cases value.symm.trans same
      · rintro ⟨first, second, stays⟩
        rw [fold, first, second, stays]
    rw [parts, left, right, foldBinary_eq_iff]
    simp only [nodes, List.mem_cons, List.mem_append, reduceCtorEq, false_or, binary.injEq]
    constructor
    · rintro ⟨first, second, here⟩
      refine ⟨fun x member => member.elim (first.1 x) (second.1 x), ?_⟩
      rintro o a b (⟨rfl, rfl, rfl⟩ | inLeft | inRight)
      · exact here a b rfl rfl
      · exact first.2 o a b inLeft
      · exact second.2 o a b inRight
    · rintro ⟨names, operations⟩
      refine ⟨⟨fun x member => names x (.inl member), fun o a b member =>
          operations o a b (.inr (.inl member))⟩,
        ⟨fun x member => names x (.inr member), fun o a b member =>
          operations o a b (.inr (.inr member))⟩, ?_⟩
      rintro a b rfl rfl
      exact operations op a b (.inl ⟨rfl, rfl, rfl⟩)
  | unary op e ih => simpa [fold, nodes] using ih
  | stray part => exact part.elim

end Expr

theorem Instr.fold_eq_self_iff (known : Entries Int) (i : Instr Empty) :
    i.fold known = i ↔ ∀ e ∈ i.exprs, e.fold known = e := by
  constructor
  · intro same
    have exprs := i.exprs_fold known
    rw [same] at exprs
    exact map_eq_self_iff.mp exprs.symm
  · exact fun each => fold_of_exprs (map_eq_self_iff.mpr each)

namespace Stream

variable {s : Stream Empty}

theorem simplified_eq_self_iff_normal : s.simplified = s ↔ s.Normal := by
  have fold : folded s = s ↔ ∀ i ∈ s, ∀ e ∈ i.exprs, e.fold (constants s) = e := by
    unfold folded
    rw [map_eq_self_iff]
    exact forall₂_congr fun i _ => i.fold_eq_self_iff _
  have dead : withoutDead s = s ↔ ∀ x e, .assign x e ∈ s → x ∈ readSymbols s := by
    unfold withoutDead
    rw [List.filter_eq_self]
    constructor
    · intro alive x e member
      simpa [Instr.isDead] using alive _ member
    · intro read i member
      cases i with
      | assign x e => simpa [Instr.isDead] using read x e member
      | assert c path | phi r xs g => rfl
      | stray part => exact part.elim
  have unknown : ∀ x, (constants s).get? x = none ↔ ∀ n, .assign x (.lit n) ∉ s := by
    intro x
    constructor
    · intro none n member
      obtain ⟨m, found⟩ := constants_of_mem member
      cases none.symm.trans found
    · intro absent
      cases found : (constants s).get? x with
      | none => rfl
      | some n => exact absurd (mem_constants found) (absent n)
  rw [simplified_eq_self_iff, fold, dead]
  simp only [Expr.fold_eq_self_iff, unknown]
  constructor
  · rintro ⟨each, targets⟩
    exact ⟨fun i member e part => (each i member e part).1,
      fun i member e part => (each i member e part).2, targets⟩
  · intro normal
    exact ⟨fun i member e part => ⟨normal.values i member e part,
      normal.operations i member e part⟩, normal.targets⟩

/-! What a round keeps. -/

/-- The result of a round: the instructions in order with their expressions folded, phis and
assertions all of them, and no symbol is read that has lost its definition. -/
structure Keeps (s t : Stream Empty) : Prop where
  ordered : t.Sublist (s.map (Instr.fold (constants s)))
  others : t.filter (fun i => !i.isAssign) =
    (s.filter fun i => !i.isAssign).map (Instr.fold (constants s))
  defined : ∀ y, s.Defines y → y ∈ readSymbols t → t.Defines y

theorem keeps_simplified (s : Stream Empty) : s.Keeps s.simplified where
  ordered := List.filter_sublist
  others := by
    have assigns : ∀ i : Instr Empty, (i.fold (constants s)).isAssign = i.isAssign := by
      intro i
      cases i <;> rfl
    unfold simplified withoutDead folded
    rw [List.filter_filter, List.filter_map]
    congr 1
    refine List.filter_congr fun i _ => ?_
    simp only [Function.comp_apply, assigns]
    cases i with
    | assign x e => rfl
    | assert c path | phi r xs g => rfl
    | stray part => exact part.elim
  defined := by
    rintro y ⟨i, member, defines⟩ read
    have live : y ∈ s.live := by
      obtain ⟨j, stands, reads⟩ := List.mem_flatMap.mp read
      obtain ⟨k, origin, rfl, -⟩ := mem_simplified.mp stands
      exact mem_live origin reads
    refine ⟨i.fold (constants s), mem_simplified.mpr ⟨i, member, rfl, ?_⟩, ?_⟩
    · cases i with
      | assign x e =>
        cases defines
        simp [Instr.fold, Instr.isDead, live]
      | assert c path | phi r xs g => rfl
      | stray part => exact part.elim
    · rw [Instr.defined?_fold]
      exact defines

/-! Rounds that may fail. -/

/-- Folding meets a division by zero whose dividend has too many digits to be told. -/
def Untellable (s : Stream Empty) : Prop :=
  ∃ i ∈ s, ∃ e ∈ i.exprs, ∃ op l r a, .binary op l r ∈ e.nodes ∧
    (op = .compute .div ∨ op = .compute .mod) ∧ l.fold (constants s) = .lit a ∧
      r.fold (constants s) = .lit 0 ∧ Text.isTooLong a = true

def pass (s : Stream Empty) : Except Error (Stream Empty) := (Traced.trace s.simplify).1

def passes : Nat → Stream Empty → Except Error (Stream Empty)
  | 0, s => .ok s
  | n + 1, s => s.pass >>= passes n

end Stream

theorem Expr.binaryNotes_error {op : BinaryOp Empty} {l r : Expr Empty} :
    (∃ fault, .error fault ∈ binaryNotes op l r) ↔ (op = .compute .div ∨ op = .compute .mod) ∧
      ∃ a, l = .lit a ∧ r = .lit 0 ∧ Text.isTooLong a = true := by
  constructor
  · rintro ⟨fault, told⟩
    unfold binaryNotes at told
    split at told
    · rename_i a b
      split at told
      · exact absurd told List.not_mem_nil
      · simp at told
      · rename_i known other fails
        have divides := BinaryOp.eval_error_iff.mp ⟨known, fails⟩
        refine ⟨divides.1, a, rfl, by rw [divides.2], ?_⟩
        by_contra short
        obtain ⟨rfl | rfl, rfl⟩ := divides
        all_goals
          have told : zeroDivisor _ a = known := Except.error.inj fails
          rw [zeroDivisor, if_neg short] at told
          exact other _ _ told.symm
    · exact absurd told List.not_mem_nil
  · rintro ⟨rfl | rfl, a, rfl, rfl, long⟩
    all_goals
      refine ⟨.longWritten, ?_⟩
      simp [binaryNotes, BinaryOp.eval, Arithmetic.eval?, zeroDivisor, long]

theorem Expr.foldNotes_error (known : Entries Int) (e : Expr Empty) :
    (∃ fault, .error fault ∈ e.foldNotes known) ↔ ∃ op l r a, .binary op l r ∈ e.nodes ∧
      (op = .compute .div ∨ op = .compute .mod) ∧ l.fold known = .lit a ∧
        r.fold known = .lit 0 ∧ Text.isTooLong a = true := by
  induction e with
  | lit n => simp [foldNotes, nodes]
  | var x => simp [foldNotes, nodes]
  | read a i ih => simpa [foldNotes, nodes] using ih
  | binary op l r left right =>
    simp only [foldNotes, List.mem_append, exists_or, left, right, binaryNotes_error, nodes,
      List.mem_cons, binary.injEq]
    constructor
    · rintro ((⟨o, l', r', a, inside, rest⟩ | ⟨o, l', r', a, inside, rest⟩) |
        ⟨divides, a, dividend, zero, long⟩)
      · exact ⟨o, l', r', a, .inr (.inl inside), rest⟩
      · exact ⟨o, l', r', a, .inr (.inr inside), rest⟩
      · exact ⟨op, l, r, a, .inl ⟨rfl, rfl, rfl⟩, divides, dividend, zero, long⟩
    · rintro ⟨o, l', r', a, ⟨rfl, rfl, rfl⟩ | inside | inside, divides, dividend, zero, long⟩
      · exact .inr ⟨divides, a, dividend, zero, long⟩
      · exact .inl (.inl ⟨o, l', r', a, inside, divides, dividend, zero, long⟩)
      · exact .inl (.inr ⟨o, l', r', a, inside, divides, dividend, zero, long⟩)
  | unary op e ih => simpa [foldNotes, nodes] using ih
  | stray part => exact part.elim

theorem ends_forM_fails {σ α : Type} {P : Error → Prop} {xs : List α}
    {f : α → ExceptT Error (StateM σ) Unit} (each : ∀ a ∈ xs, FailsOnly P (f a)) {a : α}
    (member : a ∈ xs) (fails : Ends P (fun _ => False) (f a)) :
    Ends P (fun _ => False) (xs.forM f) := by
  induction xs with
  | nil => exact absurd member List.not_mem_nil
  | cons b xs ih =>
    obtain ⟨first, others⟩ := List.forall_mem_cons.mp each
    rcases List.mem_cons.mp member with rfl | later
    · exact ends_bind fails fun _ never => never.elim
    · exact ends_bind first fun _ _ => ih others later

namespace Stream

variable {s : Stream Empty}

theorem mem_foldNotes {note : Except Error String} :
    note ∈ s.flatMap (Instr.foldNotes (constants s)) ↔
      ∃ i ∈ s, ∃ e ∈ i.exprs, note ∈ e.foldNotes (constants s) := by
  simp only [Instr.foldNotes_eq, List.mem_flatMap]

theorem foldNotes_error :
    (∃ fault, .error fault ∈ s.flatMap (Instr.foldNotes (constants s))) ↔ s.Untellable := by
  have part (e : Expr Empty) := e.foldNotes_error (constants s)
  simp only [mem_foldNotes, Untellable, ← part]
  constructor
  · rintro ⟨fault, i, member, e, inside, told⟩
    exact ⟨i, member, e, inside, fault, told⟩
  · rintro ⟨i, member, e, inside, fault, told⟩
    exact ⟨fault, i, member, e, inside, told⟩

theorem pass_eq (s : Stream Empty) :
    (s.Untellable ∧ s.pass = .error .longWritten) ∨
      (¬ s.Untellable ∧ s.pass = .ok s.simplified) := by
  by_cases untellable : s.Untellable
  · refine .inl ⟨untellable, ?_⟩
    obtain ⟨fault, told⟩ := foldNotes_error.mpr untellable
    have long {fault : Error} (told : .error fault ∈ s.flatMap (Instr.foldNotes (constants s))) :
        fault = .longWritten := by
      obtain ⟨i, -, e, -, told⟩ := mem_foldNotes.mp told
      exact (e.foldNotes_long _ told).1
    have ends : Ends (· = .longWritten) (fun _ => False) s.simplify := by
      refine ends_bind (ends_forM_fails (fun note member => ?_) told ?_) fun _ never => never.elim
      · cases note with
        | ok message => exact failsOnly_modify _
        | error other => exact failsOnly_throw (long member)
      · exact ends_throw (long told)
    rcases ends.trace_cases with ⟨_, fails, rfl⟩ | ⟨_, -, never⟩
    · exact fails
    · exact never.elim
  · refine .inr ⟨untellable, ?_⟩
    have ends : Ends (fun _ => False) (· = s.simplified) s.simplify := by
      refine ends_bind (failsOnly_forM fun note member => ?_) fun _ _ => ?_
      · cases note with
        | ok message => exact failsOnly_modify _
        | error fault => exact absurd (foldNotes_error.mp ⟨fault, member⟩) untellable
      · exact ends_bind (failsOnly_modify _) fun _ _ => ends_pure rfl
    rcases ends.trace_cases with ⟨_, -, never⟩ | ⟨_, passed, rfl⟩
    · exact never.elim
    · exact passed

/-- Each round that changes something takes weight away, so there are no more of them than the
stream weighs. -/
theorem passes_converge (s : Stream Empty) :
    (∃ n t, s.passes n = .ok t ∧ t.Untellable) ∨
      ∃ n ≤ s.weight, ∃ t, s.passes n = .ok t ∧ t.pass = .ok t := by
  induction weight : s.weight using Nat.strong_induction_on generalizing s with
  | _ w ih =>
    rcases s.pass_eq with ⟨untellable, -⟩ | ⟨-, passed⟩
    · exact .inl ⟨0, s, rfl, untellable⟩
    · have step : ∀ n, s.passes (n + 1) = s.simplified.passes n := by
        intro n
        rw [passes, passed]
        rfl
      rcases s.simplified_eq_or_lt with same | less
      · rw [simplified_eq_self_iff.mpr same] at passed
        exact .inr ⟨0, Nat.zero_le _, s, rfl, passed⟩
      · rw [weight] at less
        rcases ih _ less s.simplified rfl with ⟨n, t, reached, fails⟩ | ⟨n, few, t, reached, fixed⟩
        · exact .inl ⟨n + 1, t, (step n).trans reached, fails⟩
        · exact .inr ⟨n + 1, Nat.lt_of_le_of_lt few less, t, (step n).trans reached, fixed⟩

theorem passes_add (s : Stream Empty) (n k : Nat) :
    s.passes (n + k) = s.passes n >>= passes k := by
  induction n generalizing s with
  | zero =>
    rw [Nat.zero_add]
    rfl
  | succ n ih =>
    rw [Nat.add_right_comm, passes, passes, bind_assoc]
    exact bind_congr ih

theorem passes_of_fixed (fixed : s.pass = .ok s) (k : Nat) : s.passes k = .ok s := by
  induction k with
  | zero => rfl
  | succ k ih =>
    rw [passes, fixed]
    exact ih

theorem normal_of_fixed (fixed : s.pass = .ok s) : s.Normal := by
  rcases s.pass_eq with ⟨-, fails⟩ | ⟨-, passed⟩
  · exact nomatch fails.symm.trans fixed
  · exact simplified_eq_self_iff_normal.mp (Except.ok.inj (passed.symm.trans fixed))

/-- A round fails exactly where it meets a division by zero that cannot be told. Otherwise it keeps
the phis, the assertions and the order, reads no symbol whose definition is gone, and takes weight
away unless there is nothing to do. So unless they fail, rounds come to a stream in which there is
nothing to do, and all further rounds leave it as it is. -/
theorem rounds_reach_normal_form (s : Stream Empty) :
    ((s.Untellable ∧ s.pass = .error .longWritten) ∨
      (¬ s.Untellable ∧ ∃ t, s.pass = .ok t ∧ s.Keeps t ∧
        ((t = s ∧ s.Normal) ∨ (t.weight < s.weight ∧ ¬ s.Normal)))) ∧
    ((∃ n t, s.passes n = .ok t ∧ t.Untellable) ∨
      ∃ n ≤ s.weight, ∃ t, t.Normal ∧ ∀ k, s.passes (n + k) = .ok t) := by
  constructor
  · rcases s.pass_eq with fails | ⟨tellable, passed⟩
    · exact .inl fails
    · refine .inr ⟨tellable, s.simplified, passed, s.keeps_simplified, ?_⟩
      rcases s.simplified_eq_or_lt with same | less
      · have fixed := simplified_eq_self_iff.mpr same
        exact .inl ⟨fixed, simplified_eq_self_iff_normal.mp fixed⟩
      · refine .inr ⟨less, fun normal => ?_⟩
        rw [simplified_eq_self_iff_normal.mpr normal] at less
        exact Nat.lt_irrefl _ less
  · rcases s.passes_converge with fails | ⟨n, few, t, reached, fixed⟩
    · exact .inl fails
    · refine .inr ⟨n, few, t, normal_of_fixed fixed, fun k => ?_⟩
      rw [passes_add, reached]
      exact passes_of_fixed fixed k

end Stream

end Assay
