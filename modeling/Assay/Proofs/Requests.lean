import Assay.Proofs.Consistency
import Assay.Proofs.DigitLimit
import Assay.Proofs.Regularity
import Assay.Proofs.Unrolling
import Assay.Report

/-! How requests end. A text is refused for its form or for a number with too many digits. What
was read goes through every later stage, unless a number is too long to be written or a symbol
stands for an integer and for an array. -/
namespace Assay

open Smt

/-- The errors with which a request on program texts may end. -/
inductive Error.Documented : Error → Prop where
  | parse (line : Int) (reason : ParseReason) : Documented (.parse line reason)
  | integerAsArray (x : String) : Documented (.sorts x "Int" "(Array Int Int)")
  | arrayAsInteger (x : String) : Documented (.sorts x "(Array Int Int)" "Int")
  | contract {e : Error} : e.kind = .contract → Documented e
  | longRead (digits : Nat) : Documented (.longRead digits)
  | longWritten : Documented .longWritten

/-! Reading. -/

inductive Error.Misread : Error → Prop where
  | form (line : Int) (reason : ParseReason) : Misread (.parse line reason)
  | long (digits : Nat) : Misread (.longRead digits)

theorem Error.Misread.documented {e : Error} (misread : e.Misread) : e.Documented := by
  cases misread with
  | form line reason => exact .parse line reason
  | long digits => exact .longRead digits

section

variable {α β : Type} {P : Error → Prop}

def Errs (P : Error → Prop) (r : Except Error α) : Prop := ∀ fault, r = .error fault → P fault

theorem errs_ok (a : α) : Errs P (.ok a) := fun _ none => nomatch none

theorem errs_error {fault : Error} (holds : P fault) : Errs P (.error fault : Except Error α) := by
  intro other same
  cases same
  exact holds

theorem errs_mono {P' : Error → Prop} {r : Except Error α} (errs : Errs P r)
    (weaker : ∀ e, P e → P' e) : Errs P' r :=
  fun e fails => weaker e (errs e fails)

theorem bind_eq_ok {r : Except Error α} {next : α → Except Error β} {b : β} :
    r >>= next = .ok b ↔ ∃ a, r = .ok a ∧ next a = .ok b := by
  cases r with
  | error fault => exact iff_of_false nofun nofun
  | ok a => exact ⟨fun done => ⟨a, rfl, done⟩, fun ⟨_, same, done⟩ => Except.ok.inj same ▸ done⟩

theorem errs_bind_ok {r : Except Error α} {next : α → Except Error β} (first : Errs P r)
    (later : ∀ a, r = .ok a → Errs P (next a)) : Errs P (r >>= next) := by
  cases r with
  | error fault => exact errs_error (first fault rfl)
  | ok a => exact later a rfl

theorem errs_bind {r : Except Error α} {next : α → Except Error β} (first : Errs P r)
    (later : ∀ a, Errs P (next a)) : Errs P (r >>= next) :=
  errs_bind_ok first fun a _ => later a

end

section

variable {number : Nat} {cs : List Char} {lines : List Line}

theorem readLiteral_errs (cs : List Char) :
    Errs Error.Misread (readLiteral cs : Except Error (Expr Empty)) := by
  unfold readLiteral
  dsimp only
  split
  · exact errs_error (.long _)
  · exact errs_ok _

theorem readTrimmed_errs (line : Int) (text : List Char) :
    Errs Error.Misread (readTrimmed line text : Except Error (Expr Empty)) := by
  fun_induction readTrimmed (ω := Empty) line text with
  | case1 | case11 => exact errs_error (.form ..)
  | case2 => exact readLiteral_errs _
  | case3 | case5 | case8 =>
    rename_i fails inner
    exact errs_error (inner _ fails)
  | case6 =>
    rename_i fails _ inner
    exact errs_error (inner _ fails)
  | case4 | case7 | case9 | case10 => exact errs_ok _

theorem readExpr_errs (line : Int) (cs : List Char) :
    Errs Error.Misread (readExpr line cs : Except Error (Expr Empty)) := readTrimmed_errs _ _

theorem readAssign_errs (line : Int) (cs : List Char) :
    Errs Error.Misread (readAssign line cs : Except Error (Assign Empty)) := by
  unfold readAssign
  split
  · exact errs_error (.form ..)
  · exact errs_bind (readExpr_errs _ _) fun _ => errs_ok _

theorem openBlock_errs (number : Nat) (chunk : List Char) (lines : List Line) :
    Errs Error.Misread (openBlock number chunk lines) := by
  unfold openBlock
  split
  · exact errs_error (.form ..)
  · exact errs_ok _

theorem readElse_errs (b : Block) : Errs Error.Misread (readElse b) := by
  unfold readElse
  split
  · split
    · exact errs_error (.form ..)
    · exact errs_bind (openBlock_errs _ _ _) fun _ => errs_ok _
  · exact errs_ok _

theorem readIf_errs : Errs Error.Misread (readIf (ω := Empty) number cs lines) := by
  unfold readIf
  split
  · exact errs_error (.form ..)
  · exact errs_bind (readExpr_errs _ _) fun _ => errs_bind (openBlock_errs _ _ _) fun _ =>
      errs_bind (readElse_errs _) fun _ => errs_ok _

theorem readWhile_errs : Errs Error.Misread (readWhile (ω := Empty) number cs lines) := by
  unfold readWhile
  split
  · exact errs_error (.form ..)
  · exact errs_bind (readExpr_errs _ _) fun _ => errs_bind (openBlock_errs _ _ _) fun _ => errs_ok _

theorem readFor_errs : Errs Error.Misread (readFor (ω := Empty) number cs lines) := by
  unfold readFor
  split
  · exact errs_error (.form ..)
  · exact errs_bind (readAssign_errs _ _) fun _ => errs_bind (readExpr_errs _ _) fun _ =>
      errs_bind (readAssign_errs _ _) fun _ => errs_bind (openBlock_errs _ _ _) fun _ => errs_ok _

theorem readAssertion_errs : Errs Error.Misread (readAssertion (ω := Empty) number cs lines) := by
  unfold readAssertion
  split
  · exact errs_error (.form ..)
  · exact errs_bind (readExpr_errs _ _) fun _ => errs_ok _

theorem readPlain_errs : Errs Error.Misread (readPlain (ω := Empty) number cs lines) := by
  unfold readPlain
  split
  · exact errs_error (.form ..)
  · split
    · split
      · exact errs_bind (readAssign_errs _ _) fun _ => errs_ok _
      · exact errs_error (.form ..)
    · exact errs_error (.form ..)

end

theorem readShape_errs (line : Line) (lines : List Line) :
    Errs Error.Misread (readShape (ω := Empty) line lines) := by
  unfold readShape
  split
  · exact readIf_errs
  · exact readWhile_errs
  · exact readFor_errs
  · exact readAssertion_errs
  · exact errs_error (.form ..)
  · exact readPlain_errs

theorem readBlock_errs (lines : List Line) : Errs Error.Misread (readBlock (ω := Empty) lines) := by
  fun_induction readBlock (ω := Empty) lines with
  | case2 => exact errs_error (readShape_errs _ _ _ ‹_›)
  | case3 | case5 | case9 | case12 =>
    rename_i fails inner
    exact errs_error (inner _ fails)
  | case6 | case10 | case13 =>
    rename_i fails _ inner
    exact errs_error (inner _ fails)
  | case7 =>
    rename_i fails _ _ inner
    exact errs_error (inner _ fails)
  | case1 | case4 | case8 | case11 | case14 => exact errs_ok _

/-! Stages after reading. -/

theorem firstFault_errs {P : Error → Prop} {faults : List Error}
    (each : ∀ fault ∈ faults, P fault) : Errs P (firstFault faults) := by
  cases faults with
  | nil => exact errs_ok _
  | cons fault faults => exact errs_error (each fault (List.mem_cons_self ..))

namespace Stmt

mutual

theorem buildFaults_eq_nil (s : Stmt Empty) : buildFaults s = [] := by
  match s with
  | .assign a => exact a.value.unknowns_eq_nil .ssa
  | .assert c => exact c.unknowns_eq_nil .ssa
  | .branch c t e =>
    rw [buildFaults, c.unknowns_eq_nil, buildFaultsAll_eq_nil t, buildFaultsAll_eq_nil e]
    rfl
  | .whileLoop c b =>
    rw [buildFaults, c.unknowns_eq_nil, buildFaultsAll_eq_nil b]
    rfl
  | .forLoop i c u b =>
    rw [buildFaults, i.value.unknowns_eq_nil, c.unknowns_eq_nil, u.value.unknowns_eq_nil,
      buildFaultsAll_eq_nil b]
    rfl
  | .strayFor mark .. => exact mark.elim
  | .stray part => exact part.elim

theorem buildFaultsAll_eq_nil (p : List (Stmt Empty)) : buildFaultsAll p = [] := by
  match p with
  | [] => rfl
  | s :: rest =>
    rw [buildFaultsAll, buildFaults_eq_nil s, buildFaultsAll_eq_nil rest]
    rfl

end

theorem headerFaults_long (s : Stmt Empty) : ∀ fault ∈ headerFaults s, fault = .longWritten := by
  unfold headerFaults
  split <;> simp

mutual

theorem graphFaults_long (s : Stmt Empty) : ∀ fault ∈ graphFaults s, fault = .longWritten := by
  match s with
  | .assign a =>
    unfold graphFaults
    exact headerFaults_long _
  | .assert c =>
    unfold graphFaults
    exact headerFaults_long _
  | .branch c t e =>
    unfold graphFaults
    simp only [List.forall_mem_append]
    exact ⟨⟨headerFaults_long _, graphFaultsAll_long t⟩, graphFaultsAll_long e⟩
  | .whileLoop c b =>
    unfold graphFaults
    simp only [List.forall_mem_append]
    exact ⟨headerFaults_long _, graphFaultsAll_long b⟩
  | .forLoop i c u b =>
    unfold graphFaults
    simp only [List.forall_mem_append]
    exact ⟨⟨headerFaults_long _, graphFaultsAll_long b⟩, headerFaults_long _⟩
  | .strayFor mark .. => exact mark.elim
  | .stray part => exact part.elim

theorem graphFaultsAll_long (p : List (Stmt Empty)) :
    ∀ fault ∈ graphFaultsAll p, fault = .longWritten := by
  match p with
  | [] => exact fun _ none => absurd none List.not_mem_nil
  | s :: rest =>
    unfold graphFaultsAll
    simp only [List.forall_mem_append]
    exact ⟨graphFaults_long s, graphFaultsAll_long rest⟩

end

end Stmt

/-! Numbers that are written. -/

def Stream.TooLong (s : Stream Empty) : Prop := ∃ i ∈ s, ∃ e ∈ i.exprs, e.isTooLong = true

theorem Stream.TooLong.of_renamed {s : Stream Empty} {suffix : String}
    (long : (s.renamed suffix).TooLong) : s.TooLong := by
  obtain ⟨j, member, e, inside, long⟩ := long
  obtain ⟨i, origin, rfl⟩ := List.mem_map.mp member
  rw [Instr.exprs_mapNames] at inside
  obtain ⟨f, stands, rfl⟩ := List.mem_map.mp inside
  rw [Expr.isTooLong_mapNames] at long
  exact ⟨i, origin, f, stands, long⟩

/-- A number in what is made of a program: a version, or a number in the stream that is built from
it or in the stream that folding makes of that one. -/
inductive Program.HasNumber (p : Program Empty) : Int → Prop where
  | version {x : String} {n : Nat} :
      (x, n) ∈ p.construct.versions.counters → HasNumber p n
  | built {i : Instr Empty} {e : Expr Empty} {n : Int} :
      i ∈ p.stream → e ∈ i.exprs → .number n ∈ e.leaves → HasNumber p n
  | folded {i : Instr Empty} {e : Expr Empty} {n : Int} :
      i ∈ p.stream.folded → e ∈ i.exprs → .number n ∈ e.leaves → HasNumber p n

def Program.TooLong (p : Program Empty) : Prop := ∃ n, p.HasNumber n ∧ Text.isTooLong n = true

theorem Program.tooLong_of_built {p : Program Empty} (long : p.stream.TooLong) : p.TooLong := by
  obtain ⟨i, member, e, inside, long⟩ := long
  obtain ⟨n, stands, long⟩ := Expr.isTooLong_iff.mp long
  exact ⟨n, .built member inside stands, long⟩

theorem Program.tooLong_of_folded {p : Program Empty} (long : p.stream.folded.TooLong) :
    p.TooLong := by
  obtain ⟨i, member, e, inside, long⟩ := long
  obtain ⟨n, stands, long⟩ := Expr.isTooLong_iff.mp long
  exact ⟨n, .folded member inside stands, long⟩

theorem Program.tooLong_of_simplified {p : Program Empty} (long : p.stream.simplified.TooLong) :
    p.TooLong := by
  obtain ⟨i, member, stands⟩ := long
  exact tooLong_of_folded ⟨i, (List.mem_filter.mp member).1, stands⟩

theorem extended_errs (p : Program Empty) :
    Errs (fun e => e = .longWritten ∧ p.TooLong) (Construction.empty.extended p) := by
  unfold Construction.extended
  rw [Stmt.buildFaultsAll_eq_nil]
  refine errs_bind (errs_ok ()) fun _ => ?_
  split
  · rename_i long
    obtain ⟨⟨x, n⟩, counted, long⟩ := List.any_eq_true.mp long
    exact errs_error ⟨rfl, n, .version counted, long⟩
  · exact errs_ok _

theorem graph_errs (p : Program Empty) :
    Errs (fun e => e = .longWritten ∧ Stmt.graphFaultsAll p ≠ []) (Graph.empty.add p) := by
  refine errs_bind (firstFault_errs fun fault member => ?_) fun _ => errs_ok _
  exact ⟨Stmt.graphFaultsAll_long p fault member, List.ne_nil_of_mem member⟩

theorem BinaryOp.eval_fault {op : BinaryOp Empty} {a b : Int} {fault : Error}
    (fails : op.eval a b = .error fault) :
    fault = .longWritten ∧ Text.isTooLong a = true ∨
      ∃ left text, fault = .zeroDivision left text := by
  cases op with
  | compare c => exact nomatch fails
  | compute op =>
    unfold BinaryOp.eval at fails
    dsimp only at fails
    split at fails
    · exact nomatch fails
    · rw [← Except.error.inj fails, zeroDivisor]
      by_cases long : Text.isTooLong a = true
      · exact .inl ⟨if_pos long, long⟩
      · exact .inr ⟨a, op.text, if_neg long⟩
  | other mark text => exact mark.elim

namespace Expr

theorem foldBinary_of_left {op : BinaryOp Empty} {l r : Expr Empty} (other : ∀ n, l ≠ .lit n) :
    foldBinary op l r = .binary op l r := by
  unfold foldBinary
  split
  · exact absurd rfl (other _)
  · rfl

theorem foldBinary_of_right {op : BinaryOp Empty} {l r : Expr Empty} (other : ∀ n, r ≠ .lit n) :
    foldBinary op l r = .binary op l r := by
  unfold foldBinary
  split
  · exact absurd rfl (other _)
  · rfl

/-- A division by zero stays as it is, with its dividend. -/
theorem binaryNotes_long {op : BinaryOp Empty} {l r : Expr Empty} {fault : Error}
    (told : .error fault ∈ binaryNotes op l r) : fault = .longWritten ∧
      (foldBinary op l r).isTooLong = true ∧ ∀ n, foldBinary op l r ≠ .lit n := by
  unfold binaryNotes at told
  split at told
  · rename_i a b
    split at told
    · exact absurd told List.not_mem_nil
    · cases List.mem_singleton.mp told
    · rename_i other fails
      obtain rfl := Except.error.inj (List.mem_singleton.mp told)
      rcases BinaryOp.eval_fault fails with ⟨same, long⟩ | ⟨n, text, rfl⟩
      · have stays : foldBinary op (.lit a) (.lit b) = .binary op (.lit a) (.lit b) := by
          simp only [foldBinary, fails]
        have dividend : (lit a : Expr Empty).isTooLong = true :=
          isTooLong_iff.mpr ⟨a, List.mem_singleton_self _, long⟩
        rw [stays, isTooLong_binary, dividend]
        exact ⟨same, rfl, by simp⟩
      · exact absurd rfl (other n text)
  · exact absurd told List.not_mem_nil

theorem foldNotes_long (known : Entries Int) (e : Expr Empty) {fault : Error}
    (told : .error fault ∈ e.foldNotes known) :
    fault = .longWritten ∧ (e.fold known).isTooLong = true ∧ ∀ n, e.fold known ≠ .lit n := by
  induction e with
  | lit n => exact absurd told List.not_mem_nil
  | var x => exact absurd told List.not_mem_nil
  | read a i ih =>
    obtain ⟨same, long, -⟩ := ih told
    exact ⟨same, long, by simp [fold]⟩
  | binary op l r left right =>
    -- what holds such a division is no number, so nothing around it is carried out
    rw [fold]
    rcases List.mem_append.mp told with parts | here
    · rcases List.mem_append.mp parts with first | second
      · obtain ⟨same, long, other⟩ := left first
        rw [foldBinary_of_left other, isTooLong_binary, long]
        exact ⟨same, rfl, by simp⟩
      · obtain ⟨same, long, other⟩ := right second
        rw [foldBinary_of_right other, isTooLong_binary, long, Bool.or_true]
        exact ⟨same, rfl, by simp⟩
    · exact binaryNotes_long here
  | unary op e ih =>
    obtain ⟨same, long, -⟩ := ih told
    exact ⟨same, long, by simp [fold]⟩
  | stray part => exact part.elim

end Expr

theorem Stream.simplify_ends (s : Stream Empty) :
    Ends (fun e => e = .longWritten ∧ s.folded.TooLong) (· = s.simplified) s.simplify := by
  refine ends_bind (failsOnly_forM fun note member => ?_) fun _ _ => ?_
  · cases note with
    | ok message => exact failsOnly_modify _
    | error fault =>
      obtain ⟨i, stands, told⟩ := List.mem_flatMap.mp member
      rw [Instr.foldNotes_eq] at told
      obtain ⟨e, inside, told⟩ := List.mem_flatMap.mp told
      obtain ⟨same, long, -⟩ := e.foldNotes_long _ told
      refine failsOnly_throw ⟨same, _, List.mem_map_of_mem stands, e.fold (constants s), ?_, long⟩
      rw [Instr.exprs_fold]
      exact List.mem_map_of_mem inside
  · exact ends_bind (failsOnly_modify _) fun _ _ => ends_pure rfl

/-! Encoding of regular streams. -/

theorem Stream.encode_ends (s : Stream Empty) : FailsOnly s.Fault s.encode := by
  refine failsOnly_bind (ends_ofExcept (fun fault fails => ?_) fun _ _ => trivial) fun _ =>
    failsOnly_bind (failsOnly_modify _) fun _ => failsOnly_pure _
  unfold encoded at fails
  rcases work : Encoding.on .empty (Encoding.define s) with ⟨early | done, e⟩
  · rw [work] at fails
    cases fails
    exact (Encoding.failsOnly_define s).fault work
  · rw [work] at fails
    exact nomatch fails

theorem Stream.Regular.encodeComparison_ends {s t : Stream Empty} (regular : s.Regular)
    (regular' : t.Regular) (suffix : String) :
    FailsOnly (fun fault => (∃ first second, fault = .outputs first second) ∨
      s.Fault fault ∨ (t.renamed suffix).Fault fault) (encodeComparison s t suffix) := by
  refine failsOnly_bind (ends_ofExcept (fun fault fails => ?_) fun _ _ => trivial) fun _ =>
    failsOnly_bind (failsOnly_modify _) fun _ => failsOnly_pure _
  obtain ⟨o, outputs, -⟩ := regular.outputs
  obtain ⟨o', outputs', -⟩ := regular'.outputs
  obtain ⟨i, inputs, -⟩ := regular.inputs
  obtain ⟨i', inputs', -⟩ := regular'.inputs
  rw [compareStreams_eq outputs outputs' inputs inputs'] at fails
  split at fails
  · rcases work : Encoding.on .empty (pairWork s t suffix) with ⟨early | done, e⟩
    · rw [work] at fails
      cases fails
      exact .inr ((pairWork_faults s t suffix).fault work)
    · rw [work] at fails
      exact nomatch fails
  · cases fails
    exact .inl ⟨_, _, rfl⟩

/-! Requests. -/

theorem Settings.positive_of_found {v : Value} {n : Nat} (found : positive? v = some n) :
    0 < n := by
  unfold positive? at found
  split at found
  · split at found
    · cases found
      omega
    · exact nomatch found
  · exact nomatch found

theorem Settings.check_parts {settings : Settings} {config : Config}
    (valid : settings.check = .ok config) :
    depth settings.unrollDepth = .ok config.unrollDepth ∧
      suffixText settings.suffix = .ok config.suffix ∧
      threshold settings.logLevel = .ok config.threshold := by
  obtain ⟨d, deep, valid⟩ := bind_eq_ok.mp valid
  obtain ⟨timeout, -, valid⟩ := bind_eq_ok.mp valid
  obtain ⟨models, -, valid⟩ := bind_eq_ok.mp valid
  obtain ⟨suffix, allowed, valid⟩ := bind_eq_ok.mp valid
  dsimp only at valid
  split at valid
  · exact nomatch valid
  · obtain ⟨rank, known, valid⟩ := bind_eq_ok.mp valid
    cases valid
    exact ⟨deep, allowed, known⟩

theorem Settings.check_depth {settings : Settings} {config : Config}
    (valid : settings.check = .ok config) {n : Nat} (given : config.unrollDepth = some n) :
    0 < n := by
  have deep := (check_parts valid).1
  rw [given] at deep
  unfold depth at deep
  split at deep
  · exact nomatch deep
  · split at deep
    · rename_i found
      cases deep
      exact positive_of_found found
    · exact nomatch deep

theorem lowered_ok {config : Config} (deep : ∀ n, config.unrollDepth = some n → 0 < n)
    (p : Program Empty) : ∃ q, lowered config p = .ok q := by
  unfold lowered
  split
  · exact ⟨p, rfl⟩
  · rename_i n given
    have positive := deep n given
    have enough : ¬ (n : Int) < 1 := by omega
    unfold Program.unroll
    rw [if_neg enough, Stmt.unrollFaultsAll_eq_nil]
    exact ⟨_, rfl⟩

theorem Stream.regular_nil : Stream.Regular [] where
  symbols := fun _ none => absurd none List.not_mem_nil
  positive := fun _ none => absurd none List.not_mem_nil
  guards := fun _ _ _ none => absurd none List.not_mem_nil
  names := fun _ _ _ none => absurd none List.not_mem_nil
  operands := fun _ _ _ none => absurd none List.not_mem_nil

/-- The errors of analysing and encoding a text, each with its cause. -/
inductive Analysis.Fault (config : Config) (text : String) : Error → Prop where
  | reading {e : Error} :
      readProgram (ω := Empty) text.toList = .error e → Fault config text e
  | lowering {p : Program Empty} {e : Error} :
      readProgram text.toList = .ok p → lowered config p = .error e → Fault config text e
  | header {p : Program Empty} :
      readProgram text.toList = .ok p → Stmt.graphFaultsAll p ≠ [] → Fault config text .longWritten
  | long {p q : Program Empty} : readProgram text.toList = .ok p → lowered config p = .ok q →
      q.TooLong → Fault config text .longWritten
  | conflict (x : String) {k l : VarSort Empty} :
      k ≠ l → Fault config text (.sorts x k.text l.text)

/-- An analysis of a text, with the program that its streams are built from. -/
structure Analysis.From (config : Config) (text : String) (q : Program Empty) (a : Analysis) :
    Prop where
  reads : readProgram text.toList = .ok a.program
  lowers : lowered config a.program = .ok q
  builds : Construction.empty.extended q = .ok a.construction
  simplifies : ∀ s ∈ a.optimized, s = q.stream.simplified

theorem analyze_ends (config : Config) (text : String) :
    Ends (Analysis.Fault config text) (fun a => ∃ q, a.From config text q)
      (analyze config text) := by
  unfold analyze
  refine ends_bind (Q := fun p => readProgram text.toList = .ok p) ?_ fun p reads => ?_
  · exact ends_bind (ends_ofExcept (fun _ => .reading) fun _ => id) fun p reads =>
      ends_bind (failsOnly_modify _) fun _ _ => ends_pure reads
  refine ends_bind (ends_ofExcept (fun _ => .lowering reads) fun _ => id) fun q lowers => ?_
  refine ends_bind (Q := fun c => Construction.empty.extended q = .ok c) ?_ fun c builds => ?_
  · refine ends_bind (ends_ofExcept (fun fault fails => ?_) fun _ => id) fun c builds =>
      ends_bind (failsOnly_modify _) fun _ _ => ends_pure builds
    obtain ⟨rfl, long⟩ := extended_errs q fault fails
    exact .long reads lowers long
  have rest : ∀ o : Option (Stream Empty), (∀ s ∈ o, s = q.stream.simplified) →
      Ends (Analysis.Fault config text) (fun a => ∃ q, a.From config text q) (do
        let graph ← Traced.ofExcept (Graph.empty.add p)
        return ⟨p, c, o, graph, config.encodeOptimized⟩ : Traced Analysis) := by
    intro o simplifies
    refine ends_bind (Q := fun _ => True) (ends_ofExcept (fun fault fails => ?_)
      fun _ _ => trivial) fun _ _ => ends_pure ⟨q, reads, lowers, builds, simplifies⟩
    obtain ⟨rfl, faults⟩ := graph_errs p fault fails
    exact .header reads faults
  dsimp only
  split
  · refine ends_bind ?_ rest
    rw [map_eq_pure_bind]
    obtain ⟨rfl, -⟩ := Program.regular_of_extended builds
    refine ends_bind (ends_mono (Stream.simplify_ends _) ?_ fun _ => id) fun s same => ends_pure ?_
    · rintro _ ⟨rfl, long⟩
      exact .long reads lowers (Program.tooLong_of_folded long)
    · rintro _ ⟨⟩
      exact same
  · exact ends_bind (ends_pure nofun) rest

namespace Analysis

variable {config : Config} {text : String} {q : Program Empty} {a : Analysis} {e : Error}

theorem From.encoded (made : a.From config text q) {Q : Stream Empty → Prop} (built : Q q.stream)
    (simplified : Q q.stream.simplified) (none : Q []) : Q a.encoded := by
  obtain ⟨same, -⟩ := Program.regular_of_extended made.builds
  unfold Analysis.encoded
  split
  · cases found : a.optimized with
    | none => exact none
    | some s =>
      rw [made.simplifies s found]
      exact simplified
  · rw [same]
    exact built

theorem From.regular (made : a.From config text q) : a.encoded.Regular := by
  obtain ⟨-, regular⟩ := Program.regular_of_extended made.builds
  exact made.encoded regular regular.simplified Stream.regular_nil

theorem From.long (made : a.From config text q) (long : a.encoded.TooLong) :
    Fault config text .longWritten := by
  have cases := made.encoded (Q := fun s => s.TooLong → q.TooLong) Program.tooLong_of_built
    Program.tooLong_of_simplified fun ⟨_, member, _⟩ => absurd member List.not_mem_nil
  exact .long made.reads made.lowers (cases long)

theorem From.fault (made : a.From config text q) (raised : a.encoded.Fault e) :
    Fault config text e := by
  cases raised with
  | conflict x differ => exact .conflict x differ
  | long member inside long => exact made.long ⟨_, member, _, inside, long⟩
  | operands member one two =>
    exact absurd (made.regular.operands _ _ _ member) (not_or.mpr ⟨one, two⟩)

theorem From.fault_renamed (made : a.From config text q) {suffix : String}
    (raised : (a.encoded.renamed suffix).Fault e) : Fault config text e := by
  cases raised with
  | conflict x differ => exact .conflict x differ
  | long member inside long =>
    exact made.long (Stream.TooLong.of_renamed ⟨_, member, _, inside, long⟩)
  | operands member one two =>
    obtain ⟨r, xs, guard, origin, rfl⟩ := Stream.phi_of_renamed member
    rw [List.length_map] at one two
    exact absurd (made.regular.operands r xs guard origin) (not_or.mpr ⟨one, two⟩)

theorem Fault.documented (deep : ∀ n, config.unrollDepth = some n → 0 < n)
    (fault : Fault config text e) : e.Documented := by
  cases fault with
  | reading fails => exact (readBlock_errs _ e fails).documented
  | lowering _ fails =>
    obtain ⟨q, lowers⟩ := lowered_ok deep _
    exact nomatch lowers.symm.trans fails
  | header | long => exact .longWritten
  | @conflict x k l differ =>
    match k, l with
    | .int, .int | .array, .array => contradiction
    | .int, .array => exact .integerAsArray x
    | .array, .int => exact .arrayAsInteger x
    | .stray part, _ | _, .stray part => exact part.elim

end Analysis

def Request.texts : Request → List String
  | .verify text => [text]
  | .compare first second => [first, second]

section

variable {config : Config} {request : Request} {solver : Solver} {cancelled : Bool}

def Request.Analyzes (config : Config) (request : Request) (analyses : List Analysis) : Prop :=
  ∀ a ∈ analyses, ∃ text ∈ request.texts, ∃ q, a.From config text q

def Prepared.From (config : Config) (request : Request) : Prepared → Prop
  | .settled r => request.Analyzes config r.analyses ∧ r.counterexamples = []
  | .asked q => request.Analyzes config q.analyses

theorem ends_orMismatch {α : Type} {P : Error → Prop} {Q : α → Prop} {work : Traced α}
    {recover : Error → Traced α}
    (first : Ends (fun fault => (∃ ours theirs, fault = .outputs ours theirs) ∨ P fault) Q work)
    (later : ∀ fault, Ends P Q (recover fault)) : Ends P Q (orMismatch work recover) := by
  unfold orMismatch
  refine ends_tryCatch first fun fault outcome => ?_
  split
  · exact later _
  · rename_i other
    rcases outcome with ⟨ours, theirs, rfl⟩ | holds
    · exact absurd rfl (other ours theirs)
    · exact ends_throw holds

theorem prepare_ends (config : Config) (request : Request) :
    Ends (fun e => ∃ text ∈ request.texts, Analysis.Fault config text e)
      (Prepared.From config request) (prepare config request) := by
  cases request with
  | verify text =>
    have here : text ∈ (Request.verify text).texts := List.mem_singleton_self text
    refine ends_bind (ends_mono (analyze_ends config text) (fun _ fault => ⟨text, here, fault⟩)
      fun _ => id) ?_
    rintro a ⟨q, made⟩
    refine ends_bind (ends_mono a.encoded.encode_ends
      (fun _ fault => ⟨text, here, made.fault fault⟩) fun _ => id) fun _ _ => ends_pure ?_
    exact List.forall_mem_singleton.mpr ⟨text, here, q, made⟩
  | compare first second =>
    have here : first ∈ (Request.compare first second).texts := List.mem_cons_self ..
    have there : second ∈ (Request.compare first second).texts :=
      List.mem_cons_of_mem _ (List.mem_singleton_self second)
    refine ends_bind (ends_mono (analyze_ends config first) (fun _ fault => ⟨first, here, fault⟩)
      fun _ => id) ?_
    rintro a ⟨q, made⟩
    refine ends_bind (ends_mono (analyze_ends config second)
      (fun _ fault => ⟨second, there, fault⟩) fun _ => id) ?_
    rintro b ⟨q', made'⟩
    have analyses : (Request.compare first second).Analyzes config [a, b] :=
      List.forall_mem_cons.mpr ⟨⟨first, here, q, made⟩,
        List.forall_mem_singleton.mpr ⟨second, there, q', made'⟩⟩
    refine ends_orMismatch ?_ fun _ => ?_
    · refine ends_bind (ends_mono (made.regular.encodeComparison_ends made'.regular config.suffix)
        (fun _ => Or.imp_right ?_) fun _ => id) fun _ _ => ends_pure analyses
      rintro (raised | raised)
      · exact ⟨first, here, made.fault raised⟩
      · exact ⟨second, there, made'.fault_renamed raised⟩
    · exact ends_bind (failsOnly_modify _) fun _ _ => ends_pure ⟨analyses, rfl⟩

inductive Request.Fault (solver : Solver) (config : Config) (cancelled : Bool)
    (request : Request) : Error → Prop where
  | analysis {text : String} {e : Error} : text ∈ request.texts → Analysis.Fault config text e →
      Fault solver config cancelled request e
  | refused {script : Script Empty} {e : Error} : solver script cancelled = .error e →
      e.kind ≠ .solver → Fault solver config cancelled request e
  | noModel : Fault solver config cancelled request .noModel

/-- What a report shows: analyses of the texts, and models of an answer. -/
structure Report.From (solver : Solver) (config : Config) (cancelled : Bool) (request : Request)
    (r : Report) : Prop where
  analyses : request.Analyzes config r.analyses
  models : ∀ m ∈ r.counterexamples, ∃ script answer,
    solver script cancelled = .ok answer ∧ m ∈ answer.allModels

theorem Question.conclude_ends {q : Question} (analyses : request.Analyzes config q.analyses) :
    Ends (request.Fault solver config cancelled) (Report.From solver config cancelled request)
      (q.conclude (solver q.script cancelled)) := by
  have plain : ∀ outcome message,
      Report.From solver config cancelled request (q.report outcome message []) :=
    fun _ _ => ⟨analyses, fun _ none => absurd none List.not_mem_nil⟩
  unfold conclude
  split
  · rename_i fault raised
    split
    · exact ends_bind (failsOnly_modify _) fun _ _ => ends_pure (plain ..)
    · rename_i other
      exact ends_throw (.refused raised other)
  · rename_i answer answered
    split
    · exact ends_pure (plain ..)
    · refine ends_pure ?_
      unfold confirmed
      split <;> exact plain ..
    · split
      · exact ends_throw .noModel
      · refine ends_pure ?_
        unfold refuted
        split <;> exact ⟨analyses, fun m member => ⟨_, answer, answered, member⟩⟩

theorem Request.run_ends (solver : Solver) (config : Config) (cancelled : Bool)
    (request : Request) :
    Ends (request.Fault solver config cancelled) (Report.From solver config cancelled request)
      (request.run solver config cancelled) := by
  refine ends_bind (ends_mono (prepare_ends config request) ?_ fun _ => id) fun prepared made => ?_
  · rintro e ⟨text, member, fault⟩
    exact .analysis member fault
  · cases prepared with
    | settled report =>
      obtain ⟨analyses, none⟩ := made
      refine ends_pure ⟨analyses, fun m member => ?_⟩
      rw [none] at member
      exact absurd member List.not_mem_nil
    | asked q => exact ends_bind (failsOnly_modify _) fun _ _ => Question.conclude_ends made

theorem Request.Fault.documented {e : Error} (deep : ∀ n, config.unrollDepth = some n → 0 < n)
    (lawful : ∀ script cancelled fault, solver script cancelled = .error fault →
      fault.kind = .solver ∨ fault.kind = .contract)
    (fault : request.Fault solver config cancelled e) : e.Documented := by
  cases fault with
  | analysis _ fault => exact fault.documented deep
  | refused raised other => exact .contract ((lawful _ _ _ raised).resolve_left other)
  | noModel => exact .contract rfl

end

theorem Error.Documented.excludes {fault : Error} (documented : fault.Documented) :
    fault.kind ≠ .unknownConstruct ∧ fault.kind ≠ .evaluation ∧ fault.kind ≠ .mismatch ∧
      (∀ result count, fault ≠ .phiOperands result count) ∧ ∀ text, fault ≠ .version text := by
  cases documented with
  | parse | integerAsArray | arrayAsInteger | longRead | longWritten =>
    exact ⟨nofun, nofun, nofun, nofun, nofun⟩
  | contract kind =>
    rw [kind]
    refine ⟨nofun, nofun, nofun, ?_, ?_⟩
    · rintro result count rfl
      exact nomatch kind
    · rintro text rfl
      exact nomatch kind

/-- With valid settings and a decision procedure that raises only its own errors, a request on
program texts ends with a report or with a documented error. No stage meets a part that it has no
rule for, a division by zero, a phi with other than one or two operands or a symbol without a
version, and different outputs end in a report. -/
theorem request_ends_documented (settings : Settings) (config : Config)
    (valid : settings.check = .ok config) (solver : Solver)
    (lawful : ∀ script cancelled fault, solver script cancelled = .error fault →
      fault.kind = .solver ∨ fault.kind = .contract)
    (cancelled : Bool) (request : Request) :
    (∃ report, (request.run solver config cancelled).trace.1 = .ok report) ∨
    ∃ fault, (request.run solver config cancelled).trace.1 = .error fault ∧ fault.Documented ∧
      fault.kind ≠ .unknownConstruct ∧ fault.kind ≠ .evaluation ∧ fault.kind ≠ .mismatch ∧
      (∀ result count, fault ≠ .phiOperands result count) ∧ ∀ text, fault ≠ .version text := by
  rcases (request.run_ends solver config cancelled).trace_cases with
    ⟨fault, fails, raised⟩ | ⟨report, done, -⟩
  · have documented := raised.documented (fun _ => settings.check_depth valid) lawful
    exact .inr ⟨fault, fails, documented, documented.excludes⟩
  · exact .inl ⟨report, done⟩

theorem request_ends_documented_arrayAsInteger :
    let settings : Settings := { encodeOptimized := .bool true, unrollDepth := .int 2 }
    let solver : Solver := fun _ _ => .error (.raised .contract "no answer")
    ∃ config fault, settings.check = .ok config ∧
      ((Request.verify "assert(a[0] > a);").run solver config false).trace.1 = .error fault ∧
      fault.Documented := by
  intro settings solver
  let config : Config := ⟨true, true, some 2, 10000, 1, "_b", 30⟩
  have valid : settings.check = .ok config := by rfl
  have lawful : ∀ script cancelled fault, solver script cancelled = .error fault →
      fault.kind = .solver ∨ fault.kind = .contract := by
    intro script cancelled fault raised
    cases raised
    exact .inr rfl
  have fails : ((Request.verify "assert(a[0] > a);").run solver config false).trace.1.isOk =
      false := by decide +kernel
  rcases request_ends_documented settings config valid solver lawful false
    (.verify "assert(a[0] > a);") with ⟨report, ok⟩ | ⟨fault, raised, documented, -⟩
  · rw [ok] at fails
    exact nomatch fails
  · exact ⟨config, fault, valid, raised, documented⟩

end Assay
