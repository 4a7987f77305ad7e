import Assay.Proofs.FlowTrees
import Assay.Proofs.Loading
import Assay.Proofs.Locating

/-! How command lines end. A report ends a run with the status of its outcome, and an error of the
analysis or of the disk is told and ends it with status 3. Other errors are handed on: a path that
was left out or that no file can have, bytes that are no text, a log level that is no text, and
numbers with too many digits, in a file that is read or in what is made of a program and shown. -/
namespace Assay

section

variable {α β : Type} {P : Error → Prop}

theorem Ends.trace_errs {Q : α → Prop} {work : Traced α} (ends : Ends P Q work) :
    Errs P work.trace.1 := by
  intro fault fails
  rcases ends.trace_cases with ⟨other, found, holds⟩ | ⟨a, done, -⟩
  · rwa [Except.error.inj (fails.symm.trans found)]
  · exact nomatch fails.symm.trans done

theorem errs_mapM {f : α → Except Error β} {xs : List α} (each : ∀ a ∈ xs, Errs P (f a)) :
    Errs P (xs.mapM f) := by
  induction xs with
  | nil => exact errs_ok []
  | cons a xs ih =>
    rw [List.mapM_cons]
    refine errs_bind (each a (List.mem_cons_self ..)) fun _ => ?_
    exact errs_bind (ih fun b member => each b (List.mem_cons_of_mem _ member)) fun _ => errs_ok _

theorem errs_subset {ls : List (Except Error α)} {faults more : List Error}
    (each : ∀ l ∈ ls, Errs (· ∈ faults) l) (inside : faults ⊆ more) :
    ∀ l ∈ ls, Errs (· ∈ more) l :=
  fun l member => errs_mono (each l member) fun _ found => inside found

end

/-! Texts of reports. -/

theorem Expr.groupedFaults_long (e : Expr Empty) :
    ∀ fault ∈ e.groupedFaults, fault = .longWritten ∧ e.isTooLong = true := by
  intro fault member
  obtain ⟨leaf, stands, found⟩ := List.mem_filterMap.mp member
  cases leaf with
  | number n =>
    dsimp only at found
    split at found
    · rename_i long
      exact ⟨(Option.some.inj found).symm, isTooLong_iff.mpr ⟨n, stands, long⟩⟩
    · exact nomatch found
  | name | array => exact nomatch found
  | stray part => exact part.elim

theorem Stream.write_errs (s : Stream Empty) :
    Errs (fun e => e = .longWritten ∧ s.TooLong) s.write := by
  refine errs_bind (errs_mapM fun i member => errs_bind (firstFault_errs ?_) fun _ => errs_ok _)
    fun _ => errs_ok _
  have parts : ∀ fault ∈ i.exprs.flatMap Expr.groupedFaults,
      fault = .longWritten ∧ s.TooLong := by
    intro fault told
    obtain ⟨e, inside, told⟩ := List.mem_flatMap.mp told
    obtain ⟨same, long⟩ := e.groupedFaults_long fault told
    exact ⟨same, i, member, e, inside, long⟩
  cases i with
  | assign | assert | phi => exact parts
  | stray part => exact part.elim

namespace Stmt

theorem outlineLine_errs (indent : String) (depth : Nat) (s : Stmt Empty) :
    Errs (· ∈ s.headerFaults) (outlineLine indent depth s) := by
  have header : ∃ h, s.header? = some h := by
    cases s with
    | assign | assert | branch | whileLoop | forLoop => exact ⟨_, rfl⟩
    | strayFor mark => exact mark.elim
    | stray part => exact part.elim
  obtain ⟨h, header⟩ := header
  unfold outlineLine writeHeader? headerFaults
  rw [header]
  split
  · exact errs_error (List.mem_singleton_self _)
  · exact errs_ok _

mutual

theorem outline_errs (indent : String) (depth : Nat) (s : Stmt Empty) :
    ∀ l ∈ outline indent depth s, Errs (· ∈ s.graphFaults) l := by
  have header := List.forall_mem_singleton.mpr (outlineLine_errs indent depth s)
  match s with
  | .assign a =>
    unfold outline graphFaults
    exact header
  | .assert c =>
    unfold outline graphFaults
    exact header
  | .branch c t e =>
    unfold outline graphFaults
    refine List.forall_mem_cons.mpr ⟨errs_subset header (by simp) _ (by simp), ?_⟩
    refine List.forall_mem_append.mpr ⟨errs_subset (outlineAll_errs indent _ t) (by simp), ?_⟩
    split
    · exact fun _ none => absurd none List.not_mem_nil
    · exact List.forall_mem_cons.mpr
        ⟨errs_ok _, errs_subset (outlineAll_errs indent _ e) (by simp)⟩
  | .whileLoop c b =>
    unfold outline graphFaults
    exact List.forall_mem_cons.mpr ⟨errs_subset header (by simp) _ (by simp),
      errs_subset (outlineAll_errs indent _ b) (by simp)⟩
  | .forLoop i c u b =>
    unfold outline graphFaults
    exact List.forall_mem_cons.mpr ⟨errs_subset header (by simp) _ (by simp),
      errs_subset (outlineAll_errs indent _ b) (by simp)⟩
  | .strayFor mark .. => exact mark.elim
  | .stray part => exact part.elim

theorem outlineAll_errs (indent : String) (depth : Nat) (p : List (Stmt Empty)) :
    ∀ l ∈ outlineAll indent depth p, Errs (· ∈ graphFaultsAll p) l := by
  match p with
  | [] => exact fun _ none => absurd none List.not_mem_nil
  | s :: rest =>
    unfold outlineAll graphFaultsAll
    exact List.forall_mem_append.mpr ⟨errs_subset (outline_errs indent depth s) (by simp),
      errs_subset (outlineAll_errs indent depth rest) (by simp)⟩

end

end Stmt

theorem Program.outline_errs (p : Program Empty) (indent : String) :
    Errs (· ∈ Stmt.graphFaultsAll p) (p.outline indent) :=
  errs_bind (errs_mapM (Stmt.outlineAll_errs indent 0 p)) fun _ => errs_ok _

namespace Command

theorem printed_fault {lines : List (Except Error String)} {e : Error}
    (fault : (printed lines).2 = some e) : .error e ∈ lines := by
  induction lines with
  | nil => exact nomatch fault
  | cons l rest ih =>
    cases l with
    | error other =>
      cases fault
      exact List.mem_cons_self ..
    | ok text => exact List.mem_cons_of_mem _ (ih fault)

theorem section_errs {P : Error → Prop} {sections : List Section} {s : Section} {head : String}
    {body : Except Error String} (errs : Errs P body) :
    ∀ l ∈ (if sections.contains s then [.ok head, body] else []), Errs P l := by
  split
  · exact List.forall_mem_cons.mpr ⟨errs_ok _, List.forall_mem_singleton.mpr errs⟩
  · exact fun _ none => absurd none List.not_mem_nil

theorem analysisLines_errs (sections : List Section) (title : String) {a : Analysis}
    {config : Config} {text : String} {q : Program Empty} (made : a.From config text q) :
    ∀ l ∈ analysisLines sections title a, Errs (fun e => e = .longWritten ∧ q.TooLong) l := by
  have outline : Errs (fun e => e = .longWritten ∧ q.TooLong) (a.program.outline "  ") := by
    intro e fails
    have fault := a.program.outline_errs "  " e fails
    rw [(readBlock_ok_iff.mp made.reads).graphFaultsAll] at fault
    exact absurd fault List.not_mem_nil
  obtain ⟨same, -⟩ := Program.regular_of_extended made.builds
  have built : a.construction.stream = q.stream := congrArg Construction.stream same
  unfold analysisLines
  simp only [List.forall_mem_append]
  refine ⟨⟨⟨section_errs outline, section_errs ?_⟩, ?_⟩, section_errs (errs_ok _)⟩
  · rw [built]
    exact errs_mono q.stream.write_errs fun _ => And.imp_right Program.tooLong_of_built
  · split
    · exact fun _ none => absurd none List.not_mem_nil
    · rename_i s found
      rw [made.simplifies s found]
      exact section_errs
        (errs_mono (Stream.write_errs _) fun _ => And.imp_right Program.tooLong_of_simplified)

theorem titled_subset {analyses : List Analysis} {t : String × Analysis}
    (member : t ∈ titled analyses) : t.2 ∈ analyses := by
  unfold titled at member
  split at member
  · obtain rfl := List.mem_singleton.mp member
    exact List.mem_singleton_self _
  · obtain ⟨⟨a, n⟩, numbered, rfl⟩ := List.mem_map.mp member
    exact List.fst_mem_of_mem_zipIdx numbered

theorem reportLines_errs (sections : List Section) {P : Error → Prop} (r : Report)
    (analyses : ∀ a ∈ r.analyses, ∀ title, ∀ l ∈ analysisLines sections title a, Errs P l)
    (models : ∀ m ∈ r.counterexamples, (Value.object m).isTooLong = true → P .longWritten) :
    ∀ l ∈ reportLines sections r, Errs P l := by
  unfold reportLines
  simp only [List.forall_mem_append]
  refine ⟨⟨⟨?_, ?_⟩, List.forall_mem_singleton.mpr (errs_ok _)⟩, ?_⟩
  · intro l member
    obtain ⟨t, numbered, inside⟩ := List.mem_flatMap.mp member
    exact analyses t.2 (titled_subset numbered) t.1 l inside
  · split
    · exact section_errs (errs_ok _)
    · exact fun _ none => absurd none List.not_mem_nil
  · intro l member
    obtain ⟨⟨m, n⟩, numbered, rfl⟩ := List.mem_map.mp member
    unfold modelLine
    dsimp only
    split
    · rename_i long
      exact errs_error (models m (List.fst_mem_of_mem_zipIdx numbered) long)
    · exact errs_ok _

end Command

/-! Files and settings of a run. -/

namespace Command

def Task.files : Task → List (Given String)
  | .verify file => [file]
  | .compare file1 file2 => [file1, file2]

/-- The errors that a run hands on, each with its cause. -/
inductive Escapes (disk : Disk) (solver : Config → Solver) (task : Task) (o : Options) :
    Error → Prop where
  | leftOut : .leftOut ∈ task.files ++ o.config.toList → Escapes disk solver task o .noPath
  | unreadable {path : String} {e : Error} : path ∈ (Line.run task o).paths disk.directory →
      disk.Unreadable path e → Escapes disk solver task o e
  | level {path text : String} {entries : Entries Value} :
      path ∈ (Line.run task o).paths disk.directory → disk.read path = .ok text →
      Value.ofJson text.toList = .ok (.object entries) →
      ¬ (Settings.update {} entries).TextLevel →
      Escapes disk solver task o (.notText (Settings.update {} entries).logLevel.kind)
  | longRead {path text : String} {digits : Nat} :
      path ∈ (Line.run task o).paths disk.directory → disk.read path = .ok text →
      Text.LongRun digits text.toList → Escapes disk solver task o (.longRead digits)
  | longNumber {path text : String} {config : Config} {p q : Program Empty} {n : Int} :
      .value path ∈ task.files → disk.read path = .ok text →
      (o.settings disk).trace.1 = .ok config → readProgram text.toList = .ok p →
      lowered config p = .ok q → q.HasNumber n → Text.isTooLong n = true →
      Escapes disk solver task o .longWritten
  | longModel {config : Config} {script : Smt.Script Empty} {answer : Answer} {m : Model} :
      (o.settings disk).trace.1 = .ok config → solver config script false = .ok answer →
      m ∈ answer.allModels → (Value.object m).isTooLong = true →
      Escapes disk solver task o .longWritten

def Accounted (disk : Disk) (solver : Config → Solver) (task : Task) (o : Options) (e : Error) :
    Prop :=
  e.Told ∨ Escapes disk solver task o e

section

variable {disk : Disk} {solver : Config → Solver} {task : Task} {o : Options}

theorem path_accounted {name : Given String} (member : name ∈ task.files ++ o.config.toList) :
    Errs (Accounted disk solver task o) name.path := by
  cases name with
  | value path => exact errs_ok path
  | leftOut => exact errs_error (.inr (.leftOut member))

theorem config_path {path : Given String} (given : o.config = some path) :
    path.toList ⊆ (Line.run task o).paths disk.directory := by
  unfold Line.paths
  simp only [given]
  exact List.subset_append_right ..

theorem read_accounted {path : String} (member : path ∈ (Line.run task o).paths disk.directory) :
    Errs (Accounted disk solver task o) (disk.read path) :=
  errs_mono (disk.read_errs path) fun _ => Or.imp_right (.unreadable member)

theorem settingsOfText_ends {path text : String}
    (member : path ∈ (Line.run task o).paths disk.directory) (found : disk.read path = .ok text) :
    Ends (Accounted disk solver task o) Checked.Sound (Disk.settingsOfText path text) := by
  have spec := Value.ofJson_spec text.toList
  unfold Disk.settingsOfText
  split
  · rename_i digits readable
    rw [readable] at spec
    exact ends_throw (.inr (.longRead member found spec))
  · exact ends_throw (.inl (.inl rfl))
  · rename_i v readable
    rw [readable] at spec
    refine ends_bind (failsOnly_modify _) fun _ _ => ?_
    unfold Checked.ofValue
    split
    · rename_i entries
      have short : (Settings.update {} entries).Short :=
        Settings.short_default.update (Value.anyEntryTooLong_eq_false.mp spec)
      have checks : Ends (Accounted disk solver task o) Checked.Sound
          (Traced.ofExcept (Settings.update {} entries).checked) := by
        refine ends_ofExcept (Settings.checked_errs (errs_mono short.check_errs ?_))
          fun c checks => ?_
        · rintro e (told | ⟨rfl, other⟩)
          · exact .inl told
          · exact .inr (.level member found readable other)
        · obtain ⟨same, valid⟩ := Settings.checked_spec checks
          exact ⟨by rwa [same], by rwa [same]⟩
      dsimp only
      split
      · exact ends_bind (failsOnly_modify _) fun _ _ => checks
      · exact checks
    · exact ends_throw (.inl (.inl rfl))

theorem loadSettings_ends {path : String}
    (member : path ∈ (Line.run task o).paths disk.directory) :
    Ends (Accounted disk solver task o) Checked.Sound (disk.loadSettings path) := by
  unfold Disk.loadSettings
  split
  · exact ends_throw (.inl (.inl rfl))
  · rename_i e _ fails
    exact ends_throw (read_accounted member e fails)
  · rename_i text found
    exact settingsOfText_ends member found

theorem nearestSettings_ends {start : String} (here : start = ".") (unset : o.config = none) :
    Ends (Accounted disk solver task o) Checked.Sound (disk.nearestSettings start) := by
  unfold Disk.nearestSettings
  split
  · exact ends_pure ⟨rfl, Settings.short_default⟩
  · rename_i path found
    have member : path ∈ (Line.run task o).paths disk.directory := by
      unfold Line.paths
      simp only [unset, ← here]
      exact List.mem_append_right _ (List.mem_of_find?_eq_some found)
    exact ends_bind (ends_ofExcept (read_accounted member) fun _ => id) fun text read =>
      settingsOfText_ends member read

theorem Options.Short.settings_ends (short : o.Short) (disk : Disk) (solver : Config → Solver)
    (task : Task) :
    Ends (Accounted disk solver task o) (fun config => ∀ n, config.unrollDepth = some n → 0 < n)
      (o.settings disk) := by
  have rest : ∀ found : Checked, found.Sound →
      Ends (Accounted disk solver task o)
        (fun config => ∀ n, config.unrollDepth = some n → 0 < n) (do
          let checked ← Traced.ofExcept (found.settings.update o.changes).checked
          return checked.config : Traced Config) := by
    rintro found ⟨valid, small⟩
    have changed := small.update fun c member => (short.changes c member).2
    refine ends_bind (Q := fun c => ∀ n, c.config.unrollDepth = some n → 0 < n) ?_
      fun c deep => ends_pure deep
    refine ends_ofExcept (Settings.checked_errs (errs_mono changed.check_errs ?_))
      fun c checks n => Settings.check_depth (Settings.checked_spec checks).2
    rintro e (told | ⟨rfl, other⟩)
    · exact .inl told
    · obtain ⟨name, level⟩ := Settings.textLevel_of_check valid
      have kept := found.settings.update_logLevel _ fun c member => (short.changes c member).1
      exact (other ⟨name, kept.trans level⟩).elim
  unfold Options.settings
  cases given : o.config with
  | none =>
    -- behind a name the search for a file stays folded
    generalize here : "." = start
    exact ends_bind (nearestSettings_ends here.symm given) rest
  | some path =>
    refine ends_bind (Q := fun name => path = .value name)
      (ends_ofExcept (path_accounted (by simp [given])) fun _ => Given.eq_value) fun name same => ?_
    subst same
    have member : name ∈ (Line.run task o).paths disk.directory :=
      config_path given (List.mem_singleton_self name)
    exact ends_bind (loadSettings_ends member) rest

theorem file_path {name : Given String} (member : name ∈ task.files) :
    name.toList ⊆ (Line.run task o).paths disk.directory := by
  intro path inside
  apply List.mem_append_left
  cases task with
  | verify | compare => exact List.mem_flatMap.mpr ⟨name, member, inside⟩

theorem file_accounted {β : Type} {name : Given String} (member : name ∈ task.files)
    {next : String → Except Error β}
    (later : ∀ text, Errs (Accounted disk solver task o) (next text)) :
    Errs (Accounted disk solver task o) (name.path >>= fun path => disk.read path >>= next) := by
  refine errs_bind_ok (path_accounted (List.mem_append_left _ member)) fun path given => ?_
  obtain rfl := Given.eq_value given
  exact errs_bind (read_accounted (file_path member (List.mem_singleton_self path))) later

theorem request_accounted : Errs (Accounted disk solver task o) (task.request disk) := by
  cases task with
  | verify file => exact file_accounted (List.mem_singleton_self file) fun _ => errs_ok _
  | compare file1 file2 =>
    refine file_accounted (List.mem_cons_self ..) fun _ => ?_
    exact file_accounted (List.mem_cons_of_mem _ (List.mem_singleton_self _)) fun _ => errs_ok _

theorem Task.request_texts {request : Request} (found : task.request disk = .ok request) :
    ∀ text ∈ request.texts, ∃ path, .value path ∈ task.files ∧ disk.read path = .ok text := by
  cases task with
  | verify file =>
    obtain ⟨path, given, found⟩ := bind_eq_ok.mp found
    obtain ⟨text, read, same⟩ := bind_eq_ok.mp found
    cases same
    obtain rfl := Given.eq_value given
    exact List.forall_mem_singleton.mpr ⟨path, List.mem_singleton_self _, read⟩
  | compare file1 file2 =>
    obtain ⟨path, given, found⟩ := bind_eq_ok.mp found
    obtain ⟨text, read, found⟩ := bind_eq_ok.mp found
    obtain ⟨path', given', found⟩ := bind_eq_ok.mp found
    obtain ⟨text', read', same⟩ := bind_eq_ok.mp found
    cases same
    obtain rfl := Given.eq_value given
    obtain rfl := Given.eq_value given'
    exact List.forall_mem_cons.mpr ⟨⟨path, List.mem_cons_self .., read⟩,
      List.forall_mem_singleton.mpr
        ⟨path', List.mem_cons_of_mem _ (List.mem_singleton_self _), read'⟩⟩

section

variable {config : Config} (settings : (o.settings disk).trace.1 = .ok config)
include settings

theorem tooLong_escapes {path text : String} {p q : Program Empty}
    (named : .value path ∈ task.files) (read : disk.read path = .ok text)
    (reads : readProgram text.toList = .ok p) (lowers : lowered config p = .ok q)
    (long : q.TooLong) : Escapes disk solver task o .longWritten := by
  obtain ⟨n, stands, long⟩ := long
  exact .longNumber named read settings reads lowers stands long

theorem analysis_accounted (deep : ∀ n, config.unrollDepth = some n → 0 < n) {path text : String}
    {e : Error} (named : .value path ∈ task.files) (read : disk.read path = .ok text)
    (fault : Analysis.Fault config text e) : Accounted disk solver task o e := by
  cases fault with
  | reading fails =>
    cases readBlock_errs _ e fails with
    | form => exact .inl (.inl rfl)
    | long digits =>
      exact .inr (.longRead (file_path named (List.mem_singleton_self path)) read
        (readProgram_longRun fails))
  | lowering _ fails =>
    obtain ⟨q, lowers⟩ := lowered_ok deep _
    exact nomatch lowers.symm.trans fails
  | header reads faults => exact absurd (readBlock_ok_iff.mp reads).graphFaultsAll faults
  | long reads lowers long => exact .inr (tooLong_escapes settings named read reads lowers long)
  | conflict => exact .inl (.inl rfl)

theorem fault_accounted (deep : ∀ n, config.unrollDepth = some n → 0 < n)
    (lawful : ∀ script cancelled fault, solver config script cancelled = .error fault →
      fault.kind = .solver ∨ fault.kind = .contract)
    {request : Request} (found : task.request disk = .ok request) {e : Error}
    (fault : request.Fault (solver config) config false e) : Accounted disk solver task o e := by
  cases fault with
  | analysis member fault =>
    obtain ⟨path, named, read⟩ := Task.request_texts found _ member
    exact analysis_accounted settings deep named read fault
  | refused raised other =>
    have kind := (lawful _ _ _ raised).resolve_left other
    exact .inl (.inl (by rw [kind]; rfl))
  | noModel => exact .inl (.inl rfl)

theorem report_accounted (sections : List Section) {request : Request}
    (found : task.request disk = .ok request) {report : Report}
    (made : report.From (solver config) config false request) :
    ∀ l ∈ reportLines sections report, Errs (Accounted disk solver task o) l := by
  refine reportLines_errs sections report (fun a member title l shown => ?_) fun m member long => ?_
  · obtain ⟨text, stands, q, analyzed⟩ := made.analyses a member
    obtain ⟨path, named, read⟩ := Task.request_texts found text stands
    refine errs_mono (analysisLines_errs sections title analyzed l shown) ?_
    rintro e ⟨rfl, long⟩
    exact .inr (tooLong_escapes settings named read analyzed.reads analyzed.lowers long)
  · obtain ⟨script, answer, answered, shown⟩ := made.models m member
    exact .inr (.longModel settings answered shown long)

end

end

/-! Ends of runs. -/

/-- What a run comes to: a report that can be printed, or the first error on the way to it. -/
def conclusion (disk : Disk) (solver : Config → Solver) (task : Task) (o : Options) :
    Except Error Report := do
  let config ← (o.settings disk).trace.1
  let request ← task.request disk
  let report ← (request.run (solver config) config false).trace.1
  match (printed (reportLines o.sections report)).2 with
  | none => return report
  | some e => throw e

theorem conclusion_accounted (disk : Disk) {solver : Config → Solver}
    (lawful : ∀ config script cancelled fault, solver config script cancelled = .error fault →
      fault.kind = .solver ∨ fault.kind = .contract) (task : Task) {o : Options}
    (short : o.Short) : Errs (Accounted disk solver task o) (conclusion disk solver task o) := by
  have settings := short.settings_ends disk solver task
  refine errs_bind_ok settings.trace_errs fun config loads => ?_
  refine errs_bind_ok request_accounted fun request found => ?_
  have runs := request.run_ends (solver config) config false
  refine errs_bind_ok (errs_mono runs.trace_errs fun _ =>
    fault_accounted loads (settings.trace_ok loads) (lawful config) found) fun report done => ?_
  have shows := report_accounted loads o.sections found (runs.trace_ok done)
  split
  · exact errs_ok _
  · rename_i e fault
    exact errs_error (shows _ (printed_fault fault) e rfl)

theorem trace_ofExcept_bind {α β : Type} (r : Except Error α) (next : α → Traced β) :
    (Traced.ofExcept r >>= next).trace = match r with
      | .error e => (.error e, Trace.empty)
      | .ok a => (next a).trace := by
  cases r <;> rfl

theorem runTask_ends (disk : Disk) (solver : Config → Solver) (task : Task) (o : Options) :
    match conclusion disk solver task o with
    | .ok report => (runTask disk solver task o).status = .ok (exitCode report.outcome)
    | .error e => ∃ output shown, runTask disk solver task o = .ofError e output shown := by
  unfold conclusion runTask
  simp only [trace_ofExcept_bind]
  rcases (o.settings disk).trace with ⟨e | config, loading⟩
  · exact ⟨_, _, rfl⟩
  cases task.request disk with
  | error e => exact ⟨_, _, rfl⟩
  | ok request =>
    dsimp only [bind, Except.bind]
    rcases (request.run (solver config) config false).trace with ⟨e | report, trace⟩
    · exact ⟨_, _, rfl⟩
    dsimp only [Ended.ofReport]
    rcases printed (reportLines o.sections report) with ⟨text, none | e⟩
    · rfl
    · exact ⟨_, _, rfl⟩

theorem ending_of_told {e : Error} (told : e.Told) : ∃ message, ending e = some message := by
  unfold ending
  split
  · exact ⟨_, rfl⟩
  · split
    · exact ⟨_, rfl⟩
    · rw [if_pos (by simpa [Error.Told] using told)]
      exact ⟨_, rfl⟩

theorem Escapes.ending {disk : Disk} {solver : Config → Solver} {task : Task} {o : Options}
    {e : Error} (escapes : Escapes disk solver task o e) : ending e = none := by
  cases escapes with
  | leftOut | level | longRead | longNumber | longModel => rfl
  | unreadable _ unreadable => cases unreadable <;> rfl

/-- With a decision procedure that raises only its own errors, an accepted command line ends in
status 0, 1 or 2 by the outcome of its report, or tells an error of the analysis or of the disk and
ends in status 3, or hands on one of a few other errors. -/
theorem accepted_line_ends (disk : Disk) (solver : Config → Solver)
    (lawful : ∀ config script cancelled fault, solver config script cancelled = .error fault →
      fault.kind = .solver ∨ fault.kind = .contract)
    (args : List String) (task : Task) (o : Options) (accepted : Line.read args = .run task o) :
    (∃ report, conclusion disk solver task o = .ok report ∧
      (run disk solver args).status = .ok (exitCode report.outcome) ∧
      exitCode report.outcome ≤ 2) ∨
    (∃ e, conclusion disk solver task o = .error e ∧ e.Told ∧
      (run disk solver args).status = .ok 3 ∧
      ∃ shown message, ending e = some message ∧
        (run disk solver args).errors = shown ++ line message) ∨
    ∃ e, conclusion disk solver task o = .error e ∧ Escapes disk solver task o e ∧
      (run disk solver args).status = .error e := by
  have runs : run disk solver args = runTask disk solver task o := by
    rw [run, accepted]
  have ends := runTask_ends disk solver task o
  have short : (Line.run task o).Short := accepted ▸ Line.read_short args
  rw [runs]
  cases result : conclusion disk solver task o with
  | ok report =>
    rw [result] at ends
    refine .inl ⟨report, rfl, ends, ?_⟩
    cases report.outcome <;> decide
  | error e =>
    rw [result] at ends
    obtain ⟨output, shown, same⟩ := ends
    rw [same]
    unfold Ended.ofError
    rcases conclusion_accounted disk lawful task short e result with told | escapes
    · obtain ⟨message, ending⟩ := ending_of_told told
      refine .inr (.inl ⟨e, rfl, told, ?_⟩)
      rw [ending]
      exact ⟨rfl, shown, message, rfl, rfl⟩
    · refine .inr (.inr ⟨e, rfl, escapes, ?_⟩)
      rw [escapes.ending]

def oneProgram (settings : String) (program : List UInt8) : Disk where
  directory := "/"
  bytes path :=
    if path = "/.minilangrc.json" then .ok settings.toUTF8.toList
    else if path = "p.ml" then .ok program
    else .error .missing

def unsatisfied : Config → Solver := fun _ _ _ => .ok .unsat

theorem accepted_line_ends_oneProgram :
    let disk := oneProgram "\x7b\"log_level\": \"info\"\x7d" "assert(1);".toUTF8.toList
    ∃ report, conclusion disk unsatisfied (.verify (.value "p.ml")) {} = .ok report ∧
      (run disk unsatisfied ["verify", "p.ml"]).status = .ok (exitCode report.outcome) := by
  intro disk
  have status : (run disk unsatisfied ["verify", "p.ml"]).status.mapError Error.kind = .ok 0 := by
    decide +kernel
  rcases accepted_line_ends disk unsatisfied (fun _ _ _ _ raised => nomatch raised)
    ["verify", "p.ml"] (.verify (.value "p.ml")) {} rfl with
    ⟨report, concludes, ends, -⟩ | ⟨e, -, -, ends, -⟩ | ⟨e, -, -, ends⟩
  · exact ⟨report, concludes, ends⟩
  · rw [ends] at status
    exact nomatch status
  · rw [ends] at status
    exact nomatch status

/-- A number for the log level and a program that is no text are errors that end no run in a
status. -/
theorem settings_and_bytes_escape :
    Line.read ["verify", "p.ml"] = .run (.verify (.value "p.ml")) {} ∧
      (run (oneProgram "\x7b\"log_level\": 5\x7d" []) unsatisfied
        ["verify", "p.ml"]).status.mapError Error.kind = .error .attribute ∧
      (run (oneProgram "\x7b\x7d" [0x78, 0xff]) unsatisfied
        ["verify", "p.ml"]).status.mapError Error.kind = .error .encodedText :=
  ⟨rfl, by decide +kernel, by decide +kernel⟩

end Command

end Assay
