import Assay.Command.Run
import Assay.Proofs.Requests

/-! What a run is given. The numbers in the options of a command line and in settings can be
written, so that every fault of settings is told, but for a level that is no text. Reading a file
fails with an error of the disk, or its path or its bytes are no text. -/
namespace Assay

/-! Options. -/

namespace Command

/-- The numbers given as options can be written. -/
structure Options.Short (o : Options) : Prop where
  unroll : ∀ n ∈ o.unroll, n.setting.isTooLong = false
  timeout : ∀ n ∈ o.timeout, n.setting.isTooLong = false
  models : ∀ n ∈ o.models, n.setting.isTooLong = false

def Line.Short : Line → Prop
  | .run _ o => o.Short
  | _ => True

/-- Reading goes on with such a result, or it ends with a line whose numbers can be written. -/
def Keeps {α : Type} (Q : α → Prop) : Except Line α → Prop
  | .ok a => Q a
  | .error line => line.Short

theorem Keeps.bind {α β : Type} {Q : α → Prop} {R : β → Prop} {r : Except Line α}
    {next : α → Except Line β} (first : Keeps Q r) (later : ∀ a, Q a → Keeps R (next a)) :
    Keeps R (r >>= next) := by
  cases r with
  | error line => exact first
  | ok a => exact later a first

theorem Keeps.ok {α : Type} {Q : α → Prop} {r : Except Line α} {a : α} (keeps : Keeps Q r)
    (found : r = .ok a) : Q a := by
  subst found
  exact keeps

theorem Keeps.error {α : Type} {Q : α → Prop} {r : Except Line α} {line : Line}
    (keeps : Keeps Q r) (ends : r = .error line) : line.Short := by
  subst ends
  exact keeps

section

variable (program : String)

theorem givenInteger_keeps (flag : Flag) (given : Given String) :
    Keeps (fun n => n.setting.isTooLong = false) (givenInteger program flag given) := by
  cases given with
  | leftOut => exact rfl
  | value text =>
    unfold givenInteger
    dsimp only
    split
    · rename_i n reads
      exact Text.readInteger_short reads
    · trivial

theorem givenSections_keeps (flag : Flag) (given : Given String) :
    Keeps (fun _ => True) (givenSections program flag given) := by
  cases given with
  | leftOut => trivial
  | value text =>
    unfold givenSections
    dsimp only
    split <;> trivial

theorem Options.Short.set {o : Options} (short : o.Short) (flag : Flag) (given : Given String) :
    Keeps Options.Short (o.set program flag given) := by
  have integer := givenInteger_keeps program flag given
  cases flag with
  | help | version => trivial
  | unroll =>
    refine integer.bind fun n fits => ⟨?_, short.timeout, short.models⟩
    rintro _ ⟨⟩
    exact fits
  | timeout =>
    refine integer.bind fun n fits => ⟨short.unroll, ?_, short.models⟩
    rintro _ ⟨⟩
    exact fits
  | models =>
    refine integer.bind fun n fits => ⟨short.unroll, short.timeout, ?_⟩
    rintro _ ⟨⟩
    exact fits
  | shows =>
    exact (givenSections_keeps program _ given).bind fun _ _ =>
      ⟨short.unroll, short.timeout, short.models⟩
  | noOptimize | encodeOptimized | config | verbose =>
    exact ⟨short.unroll, short.timeout, short.models⟩

theorem Gathered.step_keeps {g : Gathered} (short : g.options.Short) (event : Event) :
    Keeps (fun g => g.options.Short) (g.step program event) := by
  cases event with
  | option flag value => exact (short.set program flag value).bind fun _ next => next
  | name | extra => exact short
  | fault => trivial

theorem gather_keeps (roles args : List String) :
    Keeps (fun g => g.options.Short) (gather program roles args) := by
  have run : ∀ (events : List Event) (g : Gathered), g.options.Short →
      Keeps (fun g => g.options.Short) (events.foldlM (Gathered.step program) g) := by
    intro events
    induction events with
    | nil => exact fun g short => short
    | cons event events ih =>
      intro g short
      rw [List.foldlM_cons]
      exact (g.step_keeps program short event).bind ih
  unfold gather
  dsimp only
  split
  · trivial
  · exact run _ _ ⟨nofun, nofun, nofun⟩

end

theorem readTask_short (extras : List String) (name : String) (args : List String) :
    (readTask extras name args).Short := by
  unfold readTask
  dsimp only
  split
  case h_3 => trivial
  all_goals
    split
    · rename_i line ends
      exact (gather_keeps _ _ args).error ends
    · rename_i g found
      have short := (gather_keeps _ _ args).ok found
      repeat' split
      all_goals first | exact short | trivial

theorem readWords_short (extras : List String) (ws : List (Word × String)) :
    (readWords extras ws).Short := by
  fun_induction readWords extras ws with
  | case1 | case2 | case7 | case8 | case9 | case10 => trivial
  | case3 => exact readTask_short ..
  | case4 | case6 | case11 =>
    rename_i ih
    exact ih
  | case5 => exact readTask_short ..

theorem Line.read_short (args : List String) : (Line.read args).Short := by
  unfold Line.read
  dsimp only
  split
  · trivial
  · exact readWords_short ..

theorem Options.Short.changes {o : Options} (short : o.Short) :
    ∀ c ∈ o.changes, c.1 ≠ "log_level" ∧ c.2.isTooLong = false := by
  intro c member
  unfold Options.changes at member
  simp only [List.mem_append, List.mem_map, Option.mem_toList] at member
  rcases member with (((⟨n, given, rfl⟩ | ⟨n, given, rfl⟩) | ⟨n, given, rfl⟩) | switched) | switched
  · exact ⟨by simp, short.unroll n given⟩
  · exact ⟨by simp, short.timeout n given⟩
  · exact ⟨by simp, short.models n given⟩
  · split at switched
    · rcases List.mem_cons.mp switched with rfl | member
      · exact ⟨by simp, rfl⟩
      · obtain rfl := List.mem_singleton.mp member
        exact ⟨by simp, rfl⟩
    · exact absurd switched List.not_mem_nil
  · split at switched
    · obtain rfl := List.mem_singleton.mp switched
      exact ⟨by simp, rfl⟩
    · exact absurd switched List.not_mem_nil

theorem Given.eq_value {name : Given String} {path : String} (given : name.path = .ok path) :
    name = .value path := by
  cases name with
  | value other => rw [Except.ok.inj given]
  | leftOut => exact nomatch given

end Command

/-! Files. -/

/-- An error that is told: one of the analysis or of the disk. -/
def Error.Told (e : Error) : Prop := e.kind.isAnalysis = true ∨ e.kind.isDisk = true

/-- The errors of reading a file that are not of the disk. -/
inductive Disk.Unreadable (disk : Disk) (path : String) : Error → Prop where
  | halves {fault : Text.HalfFault} :
      Text.halfFault? 0 path.toList = some fault → Unreadable disk path (.halves fault)
  | nullByte : path.toList.contains '\x00' = true → Unreadable disk path .nullByte
  | bytes {content : List UInt8} {fault : Text.Utf8Fault} : disk.bytes path = .ok content →
      Text.readUtf8 content = .error fault → Unreadable disk path (.bytes fault)

theorem Disk.read_errs (disk : Disk) (path : String) :
    Errs (fun e => e.Told ∨ disk.Unreadable path e) (disk.read path) := by
  unfold read
  cases half : Text.halfFault? 0 path.toList with
  | some fault => exact errs_error (Or.inr (.halves half))
  | none =>
    cases null : path.toList.contains '\x00' with
    | true => exact errs_error (Or.inr (.nullByte null))
    | false =>
      cases found : disk.bytes path with
      | error cause =>
        refine errs_error (Or.inl (.inr ?_))
        cases cause <;> rfl
      | ok content =>
        dsimp only [Bind.bind, Except.bind]
        cases decoded : Text.readUtf8 content with
        | error fault => exact errs_error (.inr (.bytes found decoded))
        | ok text => exact errs_ok _

/-! Settings. -/

namespace Settings

def TextLevel (s : Settings) : Prop := ∃ name, s.logLevel = .text name

structure Short (s : Settings) : Prop where
  depth : s.unrollDepth.isTooLong = false
  timeout : s.timeout.isTooLong = false
  models : s.maxModels.isTooLong = false

theorem short_default : Short {} := ⟨rfl, by decide +kernel, by decide +kernel⟩

theorem Short.set? {s : Settings} (short : s.Short) (key : String) {v : Value}
    (small : v.isTooLong = false) : ((s.set? key v).getD s).Short := by
  obtain ⟨depth, timeout, models⟩ := short
  unfold Settings.set?
  split <;> dsimp only [Option.getD] <;> constructor <;> assumption

theorem Short.update {s : Settings} (short : s.Short) {changes : Entries Value}
    (small : ∀ c ∈ changes, c.2.isTooLong = false) : (s.update changes).Short := by
  induction changes generalizing s with
  | nil => exact short
  | cons change changes ih =>
    obtain ⟨first, rest⟩ := List.forall_mem_cons.mp small
    exact ih (short.set? change.1 first) rest

theorem reject_told {α : Type} {given : Value} (short : given.isTooLong = false)
    (fault : Value → SettingFault) : Errs Error.Told (reject given fault : Except Error α) := by
  refine errs_error ?_
  rw [short]
  exact .inl rfl

theorem atLeastOne_told (fault : Value → SettingFault) {v : Value}
    (short : v.isTooLong = false) : Errs Error.Told (atLeastOne fault v) := by
  unfold atLeastOne
  split
  · exact errs_ok _
  · exact reject_told short fault

theorem depth_told {v : Value} (short : v.isTooLong = false) : Errs Error.Told (depth v) := by
  unfold depth
  split
  · exact errs_ok _
  · split
    · exact errs_ok _
    · exact reject_told short _

theorem suffixText_told (v : Value) : Errs Error.Told (suffixText v) := by
  have told : (Error.settings .suffix).Told := .inl rfl
  unfold suffixText
  split
  · split
    · split
      · exact errs_error told
      · exact errs_ok _
    · exact errs_error told
  · exact errs_error told

theorem threshold_errs (v : Value) :
    Errs (fun e => e.Told ∨ e = .notText v.kind ∧ ∀ name, v ≠ .text name) (threshold v) := by
  unfold threshold
  split
  · split
    · exact errs_ok _
    · exact errs_error (.inl (.inl rfl))
  · rename_i other
    exact errs_error (.inr ⟨rfl, other⟩)

/-- Faults of settings are told, but for a level that is no text. -/
theorem Short.check_errs {s : Settings} (short : s.Short) :
    Errs (fun e => e.Told ∨ e = .notText s.logLevel.kind ∧ ¬ s.TextLevel) s.check := by
  have early : ∀ e : Error, e.Told → e.Told ∨ e = .notText s.logLevel.kind ∧ ¬ s.TextLevel :=
    fun _ => .inl
  unfold check
  refine errs_bind (errs_mono (depth_told short.depth) early) fun _ => ?_
  refine errs_bind (errs_mono (atLeastOne_told _ short.timeout) early) fun _ => ?_
  refine errs_bind (errs_mono (atLeastOne_told _ short.models) early) fun _ => ?_
  refine errs_bind (errs_mono (suffixText_told _) early) fun _ => ?_
  dsimp only
  split
  · exact errs_error (.inl (.inl rfl))
  · refine errs_bind (errs_mono (threshold_errs _) ?_) fun _ => errs_ok _
    rintro e (told | ⟨rfl, other⟩)
    · exact .inl told
    · exact .inr ⟨rfl, fun ⟨name, text⟩ => other name text⟩

theorem textLevel_of_check {s : Settings} {config : Config} (valid : s.check = .ok config) :
    s.TextLevel := by
  have found := (check_parts valid).2.2
  unfold threshold at found
  split at found
  · rename_i name level
    exact ⟨name, level⟩
  · exact nomatch found

theorem checked_spec {s : Settings} {c : Checked} (checks : s.checked = .ok c) :
    c.settings = s ∧ s.check = .ok c.config := by
  obtain ⟨config, valid, done⟩ := bind_eq_ok.mp checks
  cases done
  exact ⟨rfl, valid⟩

theorem checked_errs {P : Error → Prop} {s : Settings} (errs : Errs P s.check) :
    Errs P s.checked := errs_bind errs fun _ => errs_ok _

theorem update_logLevel (s : Settings) (changes : Entries Value)
    (others : ∀ c ∈ changes, c.1 ≠ "log_level") : (s.update changes).logLevel = s.logLevel := by
  induction changes generalizing s with
  | nil => rfl
  | cons change changes ih =>
    obtain ⟨other, others⟩ := List.forall_mem_cons.mp others
    have step : ((s.set? change.1 change.2).getD s).logLevel = s.logLevel := by
      unfold set?
      split <;> first | rfl | contradiction
    exact (ih _ others).trans step

end Settings

structure Checked.Sound (c : Checked) : Prop where
  valid : c.settings.check = .ok c.config
  short : c.settings.Short

end Assay
