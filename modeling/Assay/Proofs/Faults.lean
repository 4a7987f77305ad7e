import Assay.Proofs.Encoding

/-! What encoding fails with. A symbol that stands at two sorts, a phi that joins neither one nor
two operands and a number that is too long to be written are its only faults; none of them says that
two streams differ in their outputs. -/
namespace Assay

open Smt

section

variable {σ α β : Type} {P : Error → Prop} {Q : α → Prop}

/-- Work on a state fails only with errors that satisfy `P`, and its results satisfy `Q`. -/
def Ends (P : Error → Prop) (Q : α → Prop) (work : ExceptT Error (StateM σ) α) : Prop :=
  ∀ s, match Id.run (StateT.run (ExceptT.run work) s) with
    | (.error fault, _) => P fault
    | (.ok a, _) => Q a

def FailsOnly (P : Error → Prop) (work : ExceptT Error (StateM σ) α) : Prop :=
  Ends P (fun _ => True) work

theorem Ends.fault {work : ExceptT Error (StateM σ) α} (ends : Ends P Q work) {s s' : σ}
    {fault : Error} (fails : Id.run (StateT.run (ExceptT.run work) s) = (.error fault, s')) :
    P fault := by
  have outcome := ends s
  rwa [fails] at outcome

theorem Ends.trace_cases {work : Traced α} (ends : Ends P Q work) :
    (∃ fault, work.trace.1 = .error fault ∧ P fault) ∨ ∃ a, work.trace.1 = .ok a ∧ Q a := by
  have outcome := ends Trace.empty
  unfold Traced.trace
  split at outcome
  · rename_i fault _ result
    exact .inl ⟨fault, by rw [result], outcome⟩
  · rename_i a _ result
    exact .inr ⟨a, by rw [result], outcome⟩

theorem Ends.trace_ok {work : Traced α} (ends : Ends P Q work) {a : α}
    (done : work.trace.1 = .ok a) : Q a := by
  rcases ends.trace_cases with ⟨fault, fails, -⟩ | ⟨b, found, holds⟩
  · exact nomatch done.symm.trans fails
  · rwa [Except.ok.inj (done.symm.trans found)]

theorem ends_mono {P' : Error → Prop} {Q' : α → Prop} {work : ExceptT Error (StateM σ) α}
    (ends : Ends P Q work) (faults : ∀ fault, P fault → P' fault) (values : ∀ a, Q a → Q' a) :
    Ends P' Q' work := by
  intro s
  have outcome := ends s
  split at outcome
  · exact faults _ outcome
  · exact values _ outcome

theorem ends_bind {R : β → Prop} {work : ExceptT Error (StateM σ) α}
    {next : α → ExceptT Error (StateM σ) β} (first : Ends P Q work)
    (later : ∀ a, Q a → Ends P R (next a)) : Ends P R (work >>= next) := by
  intro s
  have outcome := first s
  have run : Id.run (StateT.run (ExceptT.run (work >>= next)) s) =
      match Id.run (StateT.run (ExceptT.run work) s) with
      | (.error fault, s') => (.error fault, s')
      | (.ok a, s') => Id.run (StateT.run (ExceptT.run (next a)) s') := by
    change ExceptT.bind work next s = match work s with
      | (.error fault, s') => (.error fault, s')
      | (.ok a, s') => next a s'
    rcases h : work s with ⟨fault | a, s'⟩ <;>
      simp only [ExceptT.bind, ExceptT.mk, bind, StateT.bind, h] <;> rfl
  rw [run]
  rcases result : Id.run (StateT.run (ExceptT.run work) s) with ⟨fault | a, s'⟩
  · rw [result] at outcome
    exact outcome
  · rw [result] at outcome
    exact later a outcome s'

theorem ends_pure {a : α} (holds : Q a) : Ends P Q (pure a : ExceptT Error (StateM σ) α) :=
  fun _ => holds

theorem ends_throw {fault : Error} (holds : P fault) :
    Ends P Q (throw fault : ExceptT Error (StateM σ) α) := fun _ => holds

theorem ends_ofExcept {r : Except Error α} (faults : ∀ fault, r = .error fault → P fault)
    (values : ∀ a, r = .ok a → Q a) :
    Ends P Q (ExceptT.mk (pure r) : ExceptT Error (StateM σ) α) := by
  intro s
  cases r with
  | error fault => exact faults fault rfl
  | ok a => exact values a rfl

theorem failsOnly_bind {work : ExceptT Error (StateM σ) α} {next : α → ExceptT Error (StateM σ) β}
    (first : FailsOnly P work) (later : ∀ a, FailsOnly P (next a)) : FailsOnly P (work >>= next) :=
  ends_bind first fun a _ => later a

theorem failsOnly_pure (a : α) : FailsOnly P (pure a : ExceptT Error (StateM σ) α) :=
  ends_pure trivial

theorem failsOnly_throw {fault : Error} (holds : P fault) :
    FailsOnly P (throw fault : ExceptT Error (StateM σ) α) := ends_throw holds

theorem ends_tryCatch {R : Error → Prop} {work : ExceptT Error (StateM σ) α}
    {recover : Error → ExceptT Error (StateM σ) α} (first : Ends R Q work)
    (later : ∀ fault, R fault → Ends P Q (recover fault)) : Ends P Q (tryCatch work recover) := by
  intro s
  have outcome := first s
  rcases result : Id.run (StateT.run (ExceptT.run work) s) with ⟨fault | a, s'⟩
  · have run : Id.run (StateT.run (ExceptT.run (tryCatch work recover)) s) =
        Id.run (StateT.run (ExceptT.run (recover fault)) s') := by
      change ExceptT.tryCatch work recover s = recover fault s'
      have failed : work s = (.error fault, s') := result
      simp only [ExceptT.tryCatch, ExceptT.mk, bind, StateT.bind, failed]
    rw [result] at outcome
    rw [run]
    exact later fault outcome s'
  · have run : Id.run (StateT.run (ExceptT.run (tryCatch work recover)) s) = (.ok a, s') := by
      change ExceptT.tryCatch work recover s = (.ok a, s')
      have worked : work s = (.ok a, s') := result
      simp only [ExceptT.tryCatch, ExceptT.mk, bind, StateT.bind, worked]
      rfl
    rw [result] at outcome
    rw [run]
    exact outcome

theorem failsOnly_any (work : ExceptT Error (StateM σ) α) : FailsOnly (fun _ => True) work := by
  intro s
  split <;> trivial

theorem ends_capture {work : Traced α} (ends : Ends P Q work) :
    Ends (fun _ => False) (fun r => ∀ a, r = .ok a → Q a) (Traced.capture work) := by
  intro s
  have outcome := ends s
  have run : Id.run (StateT.run (ExceptT.run (Traced.capture work)) s) =
      match Id.run (StateT.run (ExceptT.run work) s) with
      | (r, s') => (.ok r, s') := by
    change Traced.capture work s = match work s with
      | (r, s') => (.ok r, s')
    rcases result : work s with ⟨e | a, s'⟩ <;>
      simp only [Traced.capture, tryCatch, tryCatchThe, MonadExceptOf.tryCatch, ExceptT.tryCatch,
        ExceptT.mk, Functor.map, ExceptT.map, bind, StateT.bind, result] <;> rfl
  rw [run]
  rcases result : Id.run (StateT.run (ExceptT.run work) s) with ⟨r, s'⟩
  rw [result] at outcome
  rintro a rfl
  exact outcome

theorem failsOnly_modify (f : σ → σ) : FailsOnly P (modify f : ExceptT Error (StateM σ) Unit) :=
  fun _ => trivial

theorem failsOnly_get : FailsOnly P (get : ExceptT Error (StateM σ) σ) := fun _ => trivial

theorem failsOnly_forM {xs : List α} {f : α → ExceptT Error (StateM σ) Unit}
    (each : ∀ a ∈ xs, FailsOnly P (f a)) : FailsOnly P (xs.forM f) := by
  induction xs with
  | nil => exact failsOnly_pure ()
  | cons a xs ih =>
    exact failsOnly_bind (each a (List.mem_cons_self ..)) fun _ =>
      ih fun b member => each b (List.mem_cons_of_mem _ member)

theorem failsOnly_mapM {xs : List α} {f : α → ExceptT Error (StateM σ) β}
    (each : ∀ a ∈ xs, FailsOnly P (f a)) : FailsOnly P (xs.mapM f) := by
  induction xs with
  | nil => exact failsOnly_pure []
  | cons a xs ih =>
    rw [List.mapM_cons]
    refine failsOnly_bind (each a (List.mem_cons_self ..)) fun _ => ?_
    exact failsOnly_bind (ih fun b member => each b (List.mem_cons_of_mem _ member)) fun _ =>
      failsOnly_pure _

end

inductive Stream.Fault (s : Stream Empty) : Error → Prop where
  | conflict (x : String) {k l : VarSort Empty} : k ≠ l → Fault s (.sorts x k.text l.text)
  | long {i : Instr Empty} {e : Expr Empty} :
      i ∈ s → e ∈ i.exprs → e.isTooLong = true → Fault s .longWritten
  | operands {r : String} {xs : List String} {guard : Option (Expr Empty)} :
      .phi r xs guard ∈ s → xs.length ≠ 1 → xs.length ≠ 2 → Fault s (.phiOperands r xs.length)

theorem Stream.Fault.no_mismatch {s : Stream Empty} {fault : Error} (raised : s.Fault fault) :
    fault.kind ≠ .mismatch := by
  cases raised <;> exact nofun

namespace Expr

theorem unknowns_eq_nil (stage : Stage) (e : Expr Empty) : e.unknowns stage = [] := by
  refine List.filterMap_eq_nil_iff.mpr fun leaf _ => ?_
  cases leaf with
  | stray part => exact part.elim
  | number | name | array => rfl

theorem isTooLong_binary (op : BinaryOp Empty) (l r : Expr Empty) :
    (binary op l r).isTooLong = (l.isTooLong || r.isTooLong) := by
  simp only [isTooLong, leaves, List.any_append]

theorem demand_faults (fault : Error) (e : Expr Empty) :
    (.fault fault ∈ e.termDemands → fault = .longWritten ∧ e.isTooLong = true) ∧
      (.fault fault ∈ e.formulaDemands → fault = .longWritten ∧ e.isTooLong = true) := by
  induction e with
  | lit n =>
    constructor
    · intro member
      unfold termDemands at member
      split at member
      · rename_i long
        exact ⟨Demand.fault.inj (List.mem_singleton.mp member), by simpa [isTooLong, leaves]⟩
      · exact absurd member List.not_mem_nil
    · intro member
      exact absurd member List.not_mem_nil
  | var x =>
    constructor <;> intro member <;> exact nomatch List.mem_singleton.mp member
  | read a i ih =>
    have inner : .fault fault ∈ (read a i).termDemands →
        fault = .longWritten ∧ (read a i).isTooLong = true := by
      intro member
      rcases List.mem_cons.mp member with here | inside
      · exact nomatch here
      · exact ih.1 inside
    exact ⟨inner, inner⟩
  | binary op l r left right =>
    have both : .fault fault ∈ l.termDemands ++ r.termDemands →
        fault = .longWritten ∧ (binary op l r).isTooLong = true := by
      intro member
      rw [isTooLong_binary, Bool.or_eq_true]
      rcases List.mem_append.mp member with first | second
      · exact ⟨(left.1 first).1, .inl (left.1 first).2⟩
      · exact ⟨(right.1 second).1, .inr (right.1 second).2⟩
    cases op with
    | compare c => exact ⟨both, both⟩
    | compute op =>
      have either : .fault fault ∈ (binary (.compute op) l r).termDemands →
          fault = .longWritten ∧ (binary (.compute op) l r).isTooLong = true := by
        intro member
        rcases List.mem_append.mp member with parts | last
        · exact both parts
        · split at last
          · exact nomatch List.mem_singleton.mp last
          · exact absurd last List.not_mem_nil
      exact ⟨either, either⟩
    | other mark text => exact mark.elim
  | unary op e ih =>
    cases op with
    | not => exact ⟨ih.2, ih.2⟩
    | other mark text => exact mark.elim
  | stray part => exact part.elim

end Expr

namespace Encoding

variable {s : Stream Empty}

theorem failsOnly_declare (x : String) (k : VarSort Empty) : FailsOnly s.Fault (declare x k) := by
  refine failsOnly_bind failsOnly_get fun e => ?_
  split
  · exact failsOnly_modify _
  · rename_i known _
    split
    · rename_i differ
      refine failsOnly_throw (.conflict x ?_)
      rintro rfl
      exact absurd rfl (bne_iff_ne.mp differ)
    · exact failsOnly_pure _

theorem failsOnly_meet {ds : List (Demand Empty)}
    (faults : ∀ fault, .fault fault ∈ ds → s.Fault fault) :
    FailsOnly s.Fault (ds.forM meet) := by
  refine failsOnly_forM fun d member => ?_
  cases d with
  | declare x k => exact failsOnly_declare x k
  | nonlinear => exact failsOnly_modify _
  | fault err => exact failsOnly_throw (faults err member)

theorem failsOnly_term {i : Instr Empty} (member : i ∈ s) {e : Expr Empty} (part : e ∈ i.exprs) :
    FailsOnly s.Fault (term e) := by
  refine failsOnly_bind (failsOnly_meet fun fault demanded => ?_) fun _ => failsOnly_pure _
  obtain ⟨rfl, long⟩ := (e.demand_faults fault).1 demanded
  exact .long member part long

theorem failsOnly_formula {i : Instr Empty} (member : i ∈ s) {e : Expr Empty}
    (part : e ∈ i.exprs) : FailsOnly s.Fault (formula e) := by
  refine failsOnly_bind (failsOnly_meet fun fault demanded => ?_) fun _ => failsOnly_pure _
  obtain ⟨rfl, long⟩ := (e.demand_faults fault).2 demanded
  exact .long member part long

theorem failsOnly_add (a : Assertion Empty) : FailsOnly s.Fault (add a) := failsOnly_modify _

theorem failsOnly_instruction {i : Instr Empty} (member : i ∈ s) :
    FailsOnly s.Fault (instruction i) := by
  cases i with
  | assign x e =>
    exact failsOnly_bind (failsOnly_term member (List.mem_singleton_self e)) fun _ =>
      failsOnly_bind (failsOnly_declare x _) fun _ => failsOnly_add _
  | assert c path =>
    refine failsOnly_bind (failsOnly_formula member (List.mem_cons_self ..)) fun _ => ?_
    refine failsOnly_bind (failsOnly_mapM fun g inside => ?_) fun _ => failsOnly_modify _
    exact failsOnly_formula member (List.mem_cons_of_mem _ inside)
  | phi r xs guard =>
    refine failsOnly_bind failsOnly_get fun e => ?_
    refine failsOnly_bind (failsOnly_declare r _) fun _ => ?_
    refine failsOnly_bind (failsOnly_forM fun x _ => failsOnly_declare x _) fun _ => ?_
    match xs, guard with
    | [], _ => exact failsOnly_throw (.operands member nofun nofun)
    | [a], _ => exact failsOnly_add _
    | [a, b], none => exact failsOnly_add _
    | [a, b], some g =>
      exact failsOnly_bind (failsOnly_formula member (by simp [Instr.exprs])) fun _ =>
        failsOnly_add _
    | _ :: _ :: _ :: _, _ => exact failsOnly_throw (.operands member nofun nofun)
  | stray part => exact part.elim

theorem failsOnly_define (s : Stream Empty) : FailsOnly s.Fault (define s) :=
  failsOnly_bind (ends_ofExcept (fun _ fails => nomatch s.checkedArrays_eq.symm.trans fails)
    fun _ _ => trivial) fun _ =>
    failsOnly_bind (failsOnly_modify _) fun _ =>
      failsOnly_forM fun _ member => failsOnly_instruction member

end Encoding

end Assay
