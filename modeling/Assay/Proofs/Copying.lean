import Assay.Proofs.Comparing

/-! A renamed copy of a stream behind the stream itself. Whatever the encoder does for the stream it
does again for the copy, on the renamed symbols: the copy asks for the same sorts in the same order,
and nothing else was declared under its names. So the comparison of a stream with itself is built
wherever the script of the stream is. -/
namespace Assay

open Smt

/-- The encoder knows of the renamed symbols what the other knows of the plain ones. -/
structure Encoder.Shadows (suffix : String) (e e' : Encoder Empty) : Prop where
  sorts : ∀ x, e'.sort? (x ++ suffix) = e.sort? x
  arrays : ∀ x, e'.arrays.contains (x ++ suffix) = e.arrays.contains x

namespace Encoding

variable {α β γ δ : Type} {suffix : String} {e e' : Encoder Empty}

def Follows (suffix : String) (e e' : Encoder Empty) (work : Encoding Empty α)
    (copy : Encoding Empty β) : Prop :=
  ∀ a e₁, Yields work e a e₁ → ∃ b e₂, Yields copy e' b e₂ ∧ e₁.Shadows suffix e₂

theorem follows_bind {work : Encoding Empty α} {copy : Encoding Empty β}
    {next : α → Encoding Empty γ} {next' : β → Encoding Empty δ}
    (first : Follows suffix e e' work copy)
    (rest : ∀ a b e₁ e₂, e₁.Shadows suffix e₂ → Follows suffix e₁ e₂ (next a) (next' b)) :
    Follows suffix e e' (work >>= next) (copy >>= next') := by
  intro c e₃ done
  obtain ⟨a, e₁, worked, done⟩ := yields_bind.mp done
  obtain ⟨b, e₂, copied, shadows⟩ := first a e₁ worked
  obtain ⟨d, e₄, ended, final⟩ := rest a b e₁ e₂ shadows c e₃ done
  exact ⟨d, e₄, yields_bind.mpr ⟨b, e₂, copied, ended⟩, final⟩

theorem follows_get {next : Encoder Empty → Encoding Empty α}
    {next' : Encoder Empty → Encoding Empty β} (rest : Follows suffix e e' (next e) (next' e')) :
    Follows suffix e e' (get >>= next) (get >>= next') := by
  intro a e₁ done
  obtain ⟨_, _, got, done⟩ := yields_bind.mp done
  obtain ⟨rfl, rfl⟩ := yields_get.mp got
  obtain ⟨b, e₂, copied, shadows⟩ := rest a e₁ done
  exact ⟨b, e₂, yields_bind.mpr ⟨e', e', yields_get.mpr ⟨rfl, rfl⟩, copied⟩, shadows⟩

theorem follows_pure (shadows : e.Shadows suffix e') (a : α) (b : β) :
    Follows suffix e e' (pure a) (pure b) := by
  intro _ _ done
  obtain ⟨-, rfl⟩ := yields_pure.mp done
  exact ⟨b, e', yields_pure.mpr ⟨rfl, rfl⟩, shadows⟩

theorem follows_throw (fault : Error) (copy : Encoding Empty β) :
    Follows suffix e e' (throw fault : Encoding Empty α) copy :=
  fun _ _ done => absurd done not_yields_throw

theorem follows_modify {f g : Encoder Empty → Encoder Empty}
    (shadows : (f e).Shadows suffix (g e')) : Follows suffix e e' (modify f) (modify g) := by
  intro _ _ done
  rw [yields_modify.mp done]
  exact ⟨(), g e', yields_modify.mpr rfl, shadows⟩

theorem follows_forM {rename : α → α} {f : α → Encoding Empty PUnit}
    (each : ∀ a e e', e.Shadows suffix e' → Follows suffix e e' (f a) (f (rename a)))
    (xs : List α) (shadows : e.Shadows suffix e') :
    Follows suffix e e' (xs.forM f) ((xs.map rename).forM f) := by
  induction xs generalizing e e' with
  | nil => exact follows_pure shadows _ _
  | cons a xs ih => exact follows_bind (each a e e' shadows) fun _ _ _ _ later => ih later

theorem follows_mapM {rename : α → α} {f : α → Encoding Empty β}
    (each : ∀ a e e', e.Shadows suffix e' → Follows suffix e e' (f a) (f (rename a)))
    (xs : List α) (shadows : e.Shadows suffix e') :
    Follows suffix e e' (xs.mapM f) ((xs.map rename).mapM f) := by
  induction xs generalizing e e' with
  | nil => exact follows_pure shadows _ _
  | cons a xs ih =>
    rw [List.map_cons, List.mapM_cons, List.mapM_cons]
    refine follows_bind (each a e e' shadows) fun _ _ _ _ later => ?_
    exact follows_bind (ih later) fun _ _ _ _ last => follows_pure last _ _

theorem follows_declare (x : String) (s : VarSort Empty) (shadows : e.Shadows suffix e') :
    Follows suffix e e' (declare x s) (declare (x ++ suffix) s) := by
  refine follows_get ?_
  have same : e'.script.declarations.get? (x ++ suffix) = e.script.declarations.get? x :=
    shadows.sorts x
  rw [same]
  cases e.script.declarations.get? x with
  | none =>
    refine follows_modify ⟨fun y => ?_, shadows.arrays⟩
    have others := shadows.sorts y
    unfold Encoder.sort? at others ⊢
    rw [Entries.get?_put, Entries.get?_put, others]
    by_cases here : x = y
    · subst here
      rw [if_pos rfl, if_pos rfl]
    · rw [if_neg here, if_neg fun h => here (append_suffix_inj.mp h)]
  | some known =>
    dsimp only
    split
    · exact follows_throw _ _
    · exact follows_pure shadows _ _

end Encoding

def Demand.mapNames (f : String → String) : Demand Empty → Demand Empty
  | .declare x s => .declare (f x) s
  | .nonlinear => .nonlinear
  | .fault err => .fault err

theorem needsNonlinear_mapNames (f : String → String) (op : Arithmetic) (l r : Expr Empty) :
    needsNonlinear op (l.mapNames f) (r.mapNames f) = needsNonlinear op l r := by
  have lit : ∀ e : Expr Empty, (e.mapNames f).isLit = e.isLit := fun e => by cases e <;> rfl
  unfold needsNonlinear
  simp only [lit]

theorem Expr.demands_mapNames (f : String → String) (e : Expr Empty) :
    (e.mapNames f).termDemands = e.termDemands.map (Demand.mapNames f) ∧
      (e.mapNames f).formulaDemands = e.formulaDemands.map (Demand.mapNames f) := by
  induction e with
  | lit n =>
    refine ⟨?_, rfl⟩
    simp only [mapNames, termDemands]
    split <;> rfl
  | var x => exact ⟨rfl, rfl⟩
  | read a i ih => simp [mapNames, termDemands, formulaDemands, ih.1, Demand.mapNames]
  | binary op l r left right =>
    cases op with
    | compare c => simp [mapNames, termDemands, formulaDemands, left.1, right.1]
    | compute op =>
      have extra : (if needsNonlinear op l r then [Demand.nonlinear] else []).map
          (Demand.mapNames f) = if needsNonlinear op l r then [Demand.nonlinear] else [] := by
        split <;> rfl
      simp only [mapNames, termDemands, formulaDemands, left.1, right.1, List.map_append, extra,
        needsNonlinear_mapNames, and_self]
    | other mark text => exact mark.elim
  | unary op e ih =>
    cases op with
    | not => exact ⟨ih.2, ih.2⟩
    | other mark text => exact mark.elim
  | stray part => exact part.elim

namespace Encoding

variable {suffix : String} {e e' : Encoder Empty}

theorem follows_meet (ds : List (Demand Empty)) (shadows : e.Shadows suffix e') :
    Follows suffix e e' (ds.forM meet) ((ds.map (Demand.mapNames (· ++ suffix))).forM meet) := by
  refine follows_forM (fun d e e' shadows => ?_) ds shadows
  cases d with
  | declare x s => exact follows_declare x s shadows
  | nonlinear => exact follows_modify ⟨shadows.sorts, shadows.arrays⟩
  | fault err => exact follows_throw _ _

theorem follows_term (x : Expr Empty) (shadows : e.Shadows suffix e') :
    Follows suffix e e' (term x) (term (x.mapNames (· ++ suffix))) := by
  unfold term
  rw [(x.demands_mapNames _).1]
  exact follows_bind (follows_meet _ shadows) fun _ _ _ _ later => follows_pure later _ _

theorem follows_formula (x : Expr Empty) (shadows : e.Shadows suffix e') :
    Follows suffix e e' (formula x) (formula (x.mapNames (· ++ suffix))) := by
  unfold formula
  rw [(x.demands_mapNames _).2]
  exact follows_bind (follows_meet _ shadows) fun _ _ _ _ later => follows_pure later _ _

theorem follows_add (a b : Assertion Empty) (shadows : e.Shadows suffix e') :
    Follows suffix e e' (add a) (add b) := follows_modify ⟨shadows.sorts, shadows.arrays⟩

theorem follows_phi (r : String) (xs : List String) (guard : Option (Expr Empty))
    (shadows : e.Shadows suffix e') :
    Follows suffix e e' (phi r xs guard)
      (phi (r ++ suffix) (xs.map (· ++ suffix)) (guard.map (Expr.mapNames (· ++ suffix)))) := by
  refine follows_get ?_
  dsimp only
  rw [shadows.arrays r]
  refine follows_bind (follows_declare r _ shadows) fun _ _ _ _ later => ?_
  refine follows_bind (follows_forM (fun x _ _ => follows_declare x _) xs later)
    fun _ _ _ _ last => ?_
  match xs, guard with
  | [], _ => exact follows_throw _ _
  | [a], _ => exact follows_add _ _ last
  | [a, b], none => exact follows_add _ _ last
  | [a, b], some g =>
    exact follows_bind (follows_formula g last) fun _ _ _ _ final => follows_add _ _ final
  | _ :: _ :: _ :: _, _ => exact follows_throw _ _

theorem follows_instruction (i : Instr Empty) (shadows : e.Shadows suffix e') :
    Follows suffix e e' (instruction i) (instruction (i.mapNames (· ++ suffix))) := by
  cases i with
  | assign x value =>
    refine follows_bind (follows_term value shadows) fun _ _ _ _ later => ?_
    exact follows_bind (follows_declare x _ later) fun _ _ _ _ last => follows_add _ _ last
  | assert c path =>
    refine follows_bind (follows_formula c shadows) fun _ _ _ _ later => ?_
    refine follows_bind (follows_mapM (fun g _ _ => follows_formula g) path later)
      fun _ _ _ _ last => ?_
    exact follows_modify ⟨last.sorts, last.arrays⟩
  | phi r xs guard => exact follows_phi r xs guard shadows
  | stray part => exact part.elim

theorem follows_define (s : Stream Empty) (shadows : e.Shadows suffix e') :
    Follows suffix e e' (define s) (define (s.renamed suffix)) := by
  have known : ∀ x, (Stream.addNames e'.arrays (s.renamed suffix).arrays).contains (x ++ suffix) =
      (Stream.addNames e.arrays s.arrays).contains x := by
    intro x
    have before := shadows.arrays x
    rw [Bool.eq_iff_iff, List.contains_iff_mem, List.contains_iff_mem] at before ⊢
    rw [Stream.mem_addNames, Stream.mem_addNames, before, Stream.mem_arrays_renamed]
  rw [define_eq, define_eq]
  refine follows_bind (follows_modify ⟨shadows.sorts, known⟩) fun _ _ _ _ later => ?_
  exact follows_forM (fun i _ _ => follows_instruction i) s later

end Encoding

theorem Stream.Regular.self_compares {s : Stream Empty} (regular : s.Regular) {suffix : String}
    (apart : Separates suffix) {script : Script Empty} (encodes : s.encoded = .ok script) :
    ∃ result, compareStreams s s suffix = .ok result := by
  obtain ⟨o, outputs, distinct, -⟩ := regular.outputs
  obtain ⟨i, inputs, -⟩ := regular.inputs
  have same : sameNames o o = true := (sameNames_iff distinct distinct).mpr fun _ => Iff.rfl
  rw [compareStreams_eq outputs outputs inputs inputs, if_pos same]
  have plain : ∀ x, x ++ suffix ∉ s.mentions := by
    intro x stands
    obtain ⟨y, n, same, -⟩ := regular.symbols _ stands
    exact symbol_ne_append apart y x n same.symm
  unfold encoded at encodes
  split at encodes
  · contradiction
  · rename_i u e run
    have extension := Encoding.define_extends (u := u) run
    obtain ⟨-, -, only, -⟩ := extended extension
    -- nothing is known yet under the names of the copy
    have shadows : Encoder.empty.Shadows suffix e := by
      refine ⟨fun x => ?_, fun x => ?_⟩
      · have undeclared : e.sort? (x ++ suffix) = none := by
          refine Option.eq_none_iff_forall_ne_some.mpr fun t declared => ?_
          rcases only _ t declared with old | new
          · contradiction
          · exact plain x new
        exact undeclared
      · rw [extension.arrays]
        refine (Bool.not_eq_true _).mp fun known => ?_
        have stands := mem_addNames.mp (List.contains_iff_mem.mp known)
        exact plain x (arrays_mentioned (stands.resolve_left List.not_mem_nil))
    obtain ⟨b, e₂, copied, -⟩ := Encoding.follows_define s shadows u e run
    have work : Encoding.on .empty (pairWork s s suffix) = (.ok b, e₂) :=
      pairWork_yields.mpr ⟨e, run, copied⟩
    rw [work]
    exact ⟨_, rfl⟩

end Assay
