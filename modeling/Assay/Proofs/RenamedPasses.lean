import Assay.Proofs.Copying
import Assay.Proofs.Folding

/-! New names for the symbols of a stream before or after a pass. Simplification, the search for
arrays and encoding only compare symbols with each other, so that on a stream whose symbols are
renamed they do what they do on the stream itself, under the new names. -/
namespace Assay

open Smt

/-! Maps from symbols. -/

namespace Entries

variable {α : Type}

def mapKeys (f : String → String) (m : Entries α) : Entries α := m.map fun e => (f e.1, e.2)

variable {f : String → String} (inj : ∀ x y, f x = f y → x = y)
include inj

theorem get?_mapKeys (m : Entries α) (x : String) : (m.mapKeys f).get? (f x) = m.get? x := by
  induction m with
  | nil => rfl
  | cons e m ih =>
    obtain ⟨k, v⟩ := e
    by_cases here : k = x
    · simp [mapKeys, get?, here]
    · have other : f k ≠ f x := fun same => here (inj _ _ same)
      simpa [mapKeys, get?, here, other] using ih

theorem put_mapKeys (m : Entries α) (x : String) (a : α) :
    (m.mapKeys f).put (f x) a = (m.put x a).mapKeys f := by
  induction m with
  | nil => rfl
  | cons e m ih =>
    obtain ⟨k, v⟩ := e
    by_cases here : k = x
    · simp [mapKeys, put, here]
    · have other : f k ≠ f x := fun same => here (inj _ _ same)
      simpa [mapKeys, put, here, other] using ih

end Entries

/-! Simplification. -/

namespace Expr

variable {f : String → String}

theorem foldBinary_mapNames (op : BinaryOp Empty) (l r : Expr Empty) :
    foldBinary op (l.mapNames f) (r.mapNames f) = (foldBinary op l r).mapNames f := by
  cases l with
  | lit a =>
    cases r with
    | lit b =>
      simp only [mapNames, foldBinary]
      cases op.eval a b <;> rfl
    | var | read | binary | unary | stray => rfl
  | var | read | binary | unary | stray => rfl

theorem binaryNotes_mapNames (op : BinaryOp Empty) (l r : Expr Empty) :
    binaryNotes op (l.mapNames f) (r.mapNames f) = binaryNotes op l r := by
  cases l with
  | lit a =>
    cases r with
    | lit b => rfl
    | var | read | binary | unary | stray => rfl
  | var | read | binary | unary | stray => rfl

variable (inj : ∀ x y, f x = f y → x = y) (known : Entries Int)
include inj

theorem fold_mapNames (e : Expr Empty) :
    (e.mapNames f).fold (known.mapKeys f) = (e.fold known).mapNames f := by
  induction e with
  | lit n => rfl
  | var x =>
    simp only [mapNames, fold, Entries.get?_mapKeys inj]
    cases known.get? x <;> rfl
  | read a i ih => simp only [mapNames, fold, ih]
  | binary op l r left right => simp only [mapNames, fold, left, right, foldBinary_mapNames]
  | unary op e ih => simp only [mapNames, fold, ih]
  | stray part => exact part.elim

theorem foldNotes_mapNames (e : Expr Empty) :
    (e.mapNames f).foldNotes (known.mapKeys f) = e.foldNotes known := by
  induction e with
  | lit n => rfl
  | var x => rfl
  | read a i ih => exact ih
  | binary op l r left right =>
    simp only [mapNames, foldNotes, left, right, fold_mapNames inj, binaryNotes_mapNames]
  | unary op e ih => exact ih
  | stray part => exact part.elim

end Expr

namespace Instr

variable {f : String → String} (inj : ∀ x y, f x = f y → x = y)
include inj

theorem isDead_mapNames (reads : List String) (i : Instr Empty) :
    (i.mapNames f).isDead (reads.map f) = i.isDead reads := by
  cases i with
  | assign x e => exact congrArg (!·) (Stream.contains_map inj reads x)
  | assert c path | phi r xs g => rfl
  | stray part => exact part.elim

variable (known : Entries Int)

theorem fold_mapNames (i : Instr Empty) :
    (i.mapNames f).fold (known.mapKeys f) = (i.fold known).mapNames f := by
  cases i with
  | assign x e => simp only [mapNames, fold, Expr.fold_mapNames inj]
  | assert c path =>
    simp only [mapNames, fold, Expr.fold_mapNames inj, List.map_map, Function.comp_def]
  | phi r xs guard =>
    simp only [mapNames, fold, Option.map_map, Function.comp_def, Expr.fold_mapNames inj]
  | stray part => exact part.elim

theorem foldNotes_mapNames (i : Instr Empty) :
    (i.mapNames f).foldNotes (known.mapKeys f) = i.foldNotes known := by
  rw [foldNotes_eq, foldNotes_eq, exprs_mapNames, List.flatMap_map]
  exact congrArg i.exprs.flatMap (funext (Expr.foldNotes_mapNames inj known))

end Instr

namespace Stream

section Map

variable {f : String → String}

theorem readSymbols_map (s : Stream Empty) :
    readSymbols (s.map (Instr.mapNames f)) = (readSymbols s).map f := by
  unfold readSymbols
  rw [List.flatMap_map, List.map_flatMap]
  exact congrArg s.flatMap (funext (Instr.reads_mapNames f))

variable (inj : ∀ x y, f x = f y → x = y)
include inj

theorem constants_map (s : Stream Empty) :
    constants (s.map (Instr.mapNames f)) = (constants s).mapKeys f := by
  have found : (s.map (Instr.mapNames f)).filterMap Instr.constant? =
      (s.filterMap Instr.constant?).map fun c => (f c.1, c.2) := by
    rw [List.filterMap_map, List.map_filterMap]
    refine congrArg (s.filterMap ·) (funext fun i => ?_)
    cases i with
    | assign x e => cases e <;> rfl
    | assert | phi | stray => rfl
  have step : ∀ (cs : List (String × Int)) (known : Entries Int),
      (cs.map fun c => (f c.1, c.2)).foldl (fun m c => m.put c.1 c.2) (known.mapKeys f) =
        (cs.foldl (fun m c => m.put c.1 c.2) known).mapKeys f := by
    intro cs
    induction cs with
    | nil => exact fun _ => rfl
    | cons c cs ih =>
      intro known
      rw [List.map_cons, List.foldl_cons, List.foldl_cons, Entries.put_mapKeys inj, ih]
  unfold constants
  rw [found]
  exact step _ []

theorem simplified_map (s : Stream Empty) :
    simplified (s.map (Instr.mapNames f)) = (simplified s).map (Instr.mapNames f) := by
  have fold : folded (s.map (Instr.mapNames f)) = (folded s).map (Instr.mapNames f) := by
    unfold folded
    rw [constants_map inj, List.map_map, List.map_map]
    exact List.map_congr_left fun i _ => i.fold_mapNames inj _
  have alive : ∀ t : Stream Empty,
      withoutDead (t.map (Instr.mapNames f)) = (withoutDead t).map (Instr.mapNames f) := by
    intro t
    unfold withoutDead
    rw [readSymbols_map, List.filter_map]
    simp only [Function.comp_def, Instr.isDead_mapNames inj]
  rw [simplified, fold, alive]
  rfl

end Map

theorem simplify_renamed (s : Stream Empty) (suffix : String) :
    (s.renamed suffix).simplify = renamed suffix <$> s.simplify := by
  have inj : ∀ x y : String, x ++ suffix = y ++ suffix → x = y := fun _ _ => append_suffix_inj.mp
  have constants : constants (s.renamed suffix) = (constants s).mapKeys (· ++ suffix) :=
    constants_map inj s
  have simplified : simplified (s.renamed suffix) = renamed suffix (simplified s) :=
    simplified_map inj s
  have notes : (s.renamed suffix).flatMap (Instr.foldNotes (Stream.constants (s.renamed suffix))) =
      s.flatMap (Instr.foldNotes (Stream.constants s)) := by
    rw [constants, renamed, List.flatMap_map]
    exact congrArg s.flatMap (funext (Instr.foldNotes_mapNames inj _))
  unfold simplify
  rw [notes, simplified, constants]
  simp only [renamed, Entries.mapKeys, List.length_map, map_bind, map_pure]

end Stream

/-! Encoding. -/

namespace Smt

variable {ω : Type} (f : String → String)

mutual

def Term.mapNames : Term ω → Term ω
  | .numeral n => .numeral n
  | .symbol s => .symbol (f s)
  | .select a i => .select (f a) i.mapNames
  | .neg t => .neg t.mapNames
  | .add l r => .add l.mapNames r.mapNames
  | .sub l r => .sub l.mapNames r.mapNames
  | .mul l r => .mul l.mapNames r.mapNames
  | .div l r => .div l.mapNames r.mapNames
  | .ite c t e => .ite c.mapNames t.mapNames e.mapNames
  | .stray part => .stray part

def Formula.mapNames : Formula ω → Formula ω
  | .true => .true
  | .false => .false
  | .compare op l r => .compare op l.mapNames r.mapNames
  | .not g => .not g.mapNames
  | .stray part => .stray part

end

def Condition.mapNames (c : Condition ω) : Condition ω :=
  ⟨c.cond.mapNames f, c.path.map (Formula.mapNames f)⟩

def Assertion.mapNames : Assertion ω → Assertion ω
  | .define x t => .define (f x) (t.mapNames f)
  | .copy sort x a => .copy sort (f x) (f a)
  | .choose sort x g a b => .choose sort (f x) (g.mapNames f) (f a) (f b)
  | .either sort x a b => .either sort (f x) (f a) (f b)
  | .tie sort a b => .tie sort (f a) (f b)
  | .assume c => .assume (c.mapNames f)
  | .violated cs => .violated (cs.map (Condition.mapNames f))
  | .differ ps => .differ (ps.map fun p => (f p.1, f p.2))
  | .stray part => .stray part

def Script.mapNames (s : Script ω) : Script ω :=
  ⟨s.declarations.mapKeys f, s.assertions.map (Assertion.mapNames f), s.nonlinear⟩

end Smt

def Encoder.mapNames {ω : Type} (f : String → String) (e : Encoder ω) : Encoder ω :=
  ⟨e.script.mapNames f, e.conditions.map (Condition.mapNames f), e.arrays.map f⟩

def Error.mapNames (f : String → String) : Error → Error
  | .sorts x known wanted => .sorts (f x) known wanted
  | .phiOperands r count => .phiOperands (f r) count
  | other => other

theorem Smt.compute_mapNames (f : String → String) (op : Arithmetic) (l r : Term Empty) :
    compute op (l.mapNames f) (r.mapNames f) = (compute op l r).mapNames f := by
  cases op <;> simp [compute, quotient, zero, Term.mapNames, Formula.mapNames]

theorem Expr.term_mapNames (f : String → String) (e : Expr Empty) :
    (e.mapNames f).term = e.term.mapNames f ∧ (e.mapNames f).formula = e.formula.mapNames f := by
  induction e with
  | lit n =>
    simp only [mapNames, term, formula, ofInt]
    constructor <;> split <;> rfl
  | var x => exact ⟨rfl, rfl⟩
  | read a i ih => simp [mapNames, term, formula, Term.mapNames, Formula.mapNames, ih.1, zero]
  | binary op l r left right =>
    cases op with
    | compare c =>
      simp [mapNames, term, formula, Term.mapNames, Formula.mapNames, left.1, right.1, zero, one]
    | compute op =>
      simp [mapNames, term, formula, Term.mapNames, Formula.mapNames, left.1, right.1, zero,
        compute_mapNames]
    | other mark text => exact mark.elim
  | unary op e ih =>
    cases op with
    | not => simp [mapNames, term, formula, Term.mapNames, Formula.mapNames, ih.2, zero, one]
    | other mark text => exact mark.elim
  | stray part => exact part.elim

namespace Encoding

variable {α β γ δ : Type} {f : String → String}

/-- The copy of some work does on an encoder under new names what the work does on the encoder. -/
def Renames (f : String → String) (g : α → β) (work : Encoding Empty α)
    (copy : Encoding Empty β) : Prop :=
  ∀ e, on (e.mapNames f) copy =
    (((on e work).1.map g).mapError (Error.mapNames f), (on e work).2.mapNames f)

theorem renames_bind {g : α → β} {h : γ → δ} {work : Encoding Empty α} {copy : Encoding Empty β}
    {next : α → Encoding Empty γ} {next' : β → Encoding Empty δ} (first : Renames f g work copy)
    (rest : ∀ a, Renames f h (next a) (next' (g a))) :
    Renames f h (work >>= next) (copy >>= next') := by
  intro e
  rw [on_bind, on_bind, first e]
  rcases on e work with ⟨fault | a, e'⟩
  · rfl
  · exact rest a e'

theorem renames_pure {g : α → β} (a : α) : Renames f g (pure a) (pure (g a)) := fun _ => rfl

theorem renames_throw {g : α → β} (fault : Error) :
    Renames f g (throw fault) (throw (fault.mapNames f)) := fun _ => rfl

theorem renames_get : Renames f (Encoder.mapNames f) get get := fun _ => rfl

theorem renames_modify {change change' : Encoder Empty → Encoder Empty}
    (each : ∀ e, change' (e.mapNames f) = (change e).mapNames f) :
    Renames f id (modify change) (modify change') := by
  intro e
  exact congrArg (Prod.mk (Except.ok ())) (each e)

theorem renames_forM {rename : α → α} {work : α → Encoding Empty Unit} {xs : List α}
    (each : ∀ a ∈ xs, Renames f id (work a) (work (rename a))) :
    Renames f id (xs.forM work) ((xs.map rename).forM work) := by
  induction xs with
  | nil => exact renames_pure ()
  | cons a xs ih =>
    obtain ⟨first, others⟩ := List.forall_mem_cons.mp each
    exact renames_bind first fun _ => ih others

theorem renames_mapM {rename : α → α} {g : β → β} {work : α → Encoding Empty β} {xs : List α}
    (each : ∀ a ∈ xs, Renames f g (work a) (work (rename a))) :
    Renames f (List.map g) (xs.mapM work) ((xs.map rename).mapM work) := by
  induction xs with
  | nil => exact renames_pure []
  | cons a xs ih =>
    obtain ⟨first, others⟩ := List.forall_mem_cons.mp each
    rw [List.map_cons, List.mapM_cons, List.mapM_cons]
    refine renames_bind first fun b => ?_
    exact renames_bind (ih others) fun bs => renames_pure (b :: bs)

theorem renames_add (a : Assertion Empty) : Renames f id (add a) (add (a.mapNames f)) := by
  refine renames_modify fun e => ?_
  simp only [Encoder.mapNames, Script.mapNames, Script.add, List.map_append, List.map_singleton]

section Injective

variable (inj : ∀ x y, f x = f y → x = y)
include inj

theorem renames_declare (x : String) (s : VarSort Empty) :
    Renames f id (declare x s) (declare (f x) s) := by
  refine renames_bind renames_get fun e => ?_
  have known : (e.mapNames f).script.declarations.get? (f x) = e.script.declarations.get? x :=
    Entries.get?_mapKeys inj _ x
  rw [known]
  cases e.script.declarations.get? x with
  | none =>
    refine renames_modify fun e => ?_
    simp only [Encoder.mapNames, Script.mapNames, Entries.put_mapKeys inj]
  | some old =>
    dsimp only
    split
    · exact renames_throw _
    · exact renames_pure ()

theorem renames_demands {ds : List (Demand Empty)}
    (faults : ∀ fault, .fault fault ∈ ds → fault = .longWritten) :
    Renames f id (ds.forM meet) ((ds.map (Demand.mapNames f)).forM meet) := by
  refine renames_forM fun d member => ?_
  cases d with
  | declare x s => exact renames_declare inj x s
  | nonlinear => exact renames_modify fun _ => rfl
  | fault err =>
    cases faults err member
    exact renames_throw .longWritten

theorem renames_term (e : Expr Empty) :
    Renames f (Term.mapNames f) (term e) (term (e.mapNames f)) := by
  unfold term
  rw [(e.demands_mapNames f).1, (e.term_mapNames f).1]
  exact renames_bind (renames_demands inj fun fault member =>
    ((Expr.demand_faults fault e).1 member).1) fun _ => renames_pure e.term

theorem renames_formula (e : Expr Empty) :
    Renames f (Formula.mapNames f) (formula e) (formula (e.mapNames f)) := by
  unfold formula
  rw [(e.demands_mapNames f).2, (e.term_mapNames f).2]
  exact renames_bind (renames_demands inj fun fault member =>
    ((Expr.demand_faults fault e).2 member).1) fun _ => renames_pure e.formula

theorem renames_phi (r : String) (xs : List String) (guard : Option (Expr Empty)) :
    Renames f id (phi r xs guard) (phi (f r) (xs.map f) (guard.map (Expr.mapNames f))) := by
  refine renames_bind renames_get fun e => ?_
  have array : (e.mapNames f).arrays.contains (f r) = e.arrays.contains r :=
    Stream.contains_map inj _ r
  dsimp only
  rw [array, List.length_map]
  refine renames_bind (renames_declare inj r _) fun _ => ?_
  refine renames_bind (renames_forM fun x _ => renames_declare inj x _) fun _ => ?_
  match xs, guard with
  | [], _ => exact renames_throw (.phiOperands r _)
  | [a], _ => exact renames_add (.copy _ r a)
  | [a, b], none => exact renames_add (.either _ r a b)
  | [a, b], some g =>
    exact renames_bind (renames_formula inj g) fun g => renames_add (.choose _ r g a b)
  | _ :: _ :: _ :: _, _ => exact renames_throw (.phiOperands r _)

theorem renames_instruction (i : Instr Empty) :
    Renames f id (instruction i) (instruction (i.mapNames f)) := by
  cases i with
  | assign x e =>
    refine renames_bind (renames_term inj e) fun value => ?_
    exact renames_bind (renames_declare inj x _) fun _ => renames_add (.define x value)
  | assert c path =>
    refine renames_bind (renames_formula inj c) fun cond => ?_
    refine renames_bind (renames_mapM fun g _ => renames_formula inj g) fun path => ?_
    refine renames_modify fun e => ?_
    simp only [Encoder.mapNames, List.map_append, List.map_singleton, Condition.mapNames]
  | phi r xs guard => exact renames_phi inj r xs guard
  | stray part => exact part.elim

theorem renames_define (s : Stream Empty) :
    Renames f id (define s) (define (s.map (Instr.mapNames f))) := by
  rw [define_eq, define_eq]
  refine renames_bind (renames_modify fun e => ?_) fun _ =>
    renames_forM fun i _ => renames_instruction inj i
  simp only [Encoder.mapNames, Stream.arrays_map inj, Stream.addNames_map inj]

end Injective

end Encoding

namespace Stream

theorem encoded_renamed (s : Stream Empty) (suffix : String) :
    (s.renamed suffix).encoded = (s.encoded.map (Script.mapNames (· ++ suffix))).mapError
      (Error.mapNames (· ++ suffix)) := by
  have run := Encoding.renames_define (f := (· ++ suffix)) (fun _ _ => append_suffix_inj.mp) s
    .empty
  unfold encoded renamed
  change Encoding.on .empty _ = _ at run
  rw [run]
  rcases Encoding.on .empty (Encoding.define s) with ⟨fault | u, e⟩
  · rfl
  · simp [Except.map, Except.mapError, Encoder.mapNames, Script.mapNames, Script.add,
      Assertion.mapNames]

theorem trace_encode (s : Stream Empty) : Traced.trace s.encode = (s.encoded,
    match s.encoded with
    | .error _ => Trace.empty
    | .ok script => ⟨[⟨.debug, .encoder, "verification script: " ++
        toString script.declarations.length ++ " declarations, " ++
        toString script.assertions.length ++ " assertions"⟩], 0⟩) := by
  unfold encode
  cases s.encoded <;> rfl

/-- New names before a pass are as good as after it: a stream can always be renamed, and
simplification, the search for arrays and encoding give the same results under the new names, with
the same reports. Encoding fails on the renamed stream where it fails on the stream. -/
theorem passes_commute_with_renaming (s : Stream Empty) (suffix : String) :
    s.rename suffix = .ok (s.renamed suffix) ∧
    (s.renamed suffix).simplify = renamed suffix <$> s.simplify ∧
    (s.renamed suffix).checkedArrays = List.map (· ++ suffix) <$> s.checkedArrays ∧
    Traced.trace (s.renamed suffix).encode =
      (((Traced.trace s.encode).1.map (Script.mapNames (· ++ suffix))).mapError
        (Error.mapNames (· ++ suffix)), (Traced.trace s.encode).2) := by
  refine ⟨s.rename_eq suffix, s.simplify_renamed suffix, ?_, ?_⟩
  · rw [checkedArrays_eq, checkedArrays_eq]
    exact congrArg Except.ok (arrays_map (fun _ _ => append_suffix_inj.mp) s)
  · rw [trace_encode, trace_encode, encoded_renamed]
    cases s.encoded with
    | error fault => rfl
    | ok script =>
      simp [Except.map, Except.mapError, Script.mapNames, Entries.mapKeys]

end Stream

end Assay
