import Assay.Proofs.Reading
import Assay.Proofs.ScriptReading

/-! The suffix that keeps two programs apart. No renamed symbol is a symbol of the first program, as
long as the suffix is one that the settings allow. The text of the script is another matter: there a
character that no symbol can have ends the symbol, or the command, where it stands. So the text
keeps the programs apart where all characters of the suffix can stand in a symbol, and where nothing
is renamed. -/
namespace Assay

open Smt Sexp

/-! Symbols of the language, with a suffix. -/

section

variable {x suffix : String}

theorem isWord_suffixed (name : Text.isName x.toList = true) (n : Nat)
    (chars : ∀ c ∈ suffix.toList, isWordChar c = true) : IsWord (symbol x n ++ suffix) := by
  obtain ⟨some, word⟩ := (isSymbol_version name n).spelled
  rw [IsWord, String.toList_append, List.forall_mem_append]
  exact ⟨List.append_ne_nil_of_left_ne_nil some _, word, chars⟩

theorem isSimple_suffixed (name : Text.isName x.toList = true) (n : Nat)
    (chars : ∀ c ∈ suffix.toList, isWordChar c = true) : IsSimple (symbol x n ++ suffix) := by
  refine ⟨isWord_suffixed name n chars, fun c first => ?_⟩
  obtain ⟨d, ds, letters, ⟨-, plain⟩, -⟩ := Expr.isName_start name
  rw [String.toList_append, symbol_toList, letters] at first
  cases first
  exact plain

theorem isSymbol_suffixed (name : Text.isName x.toList = true) (n : Nat)
    (chars : ∀ c ∈ suffix.toList, isWordChar c = true) : IsSymbol (symbol x n ++ suffix) := by
  refine isSymbol_of_lowLine (isWord_suffixed name n chars) ?_
  simp [String.toList_append, symbol_toList]

end

def Stream.Named (s : Stream Empty) : Prop :=
  ∀ y ∈ s.mentions, VersionOf (fun x => Text.isName x.toList = true) y

theorem Stream.Named.simplified {s : Stream Empty} (named : s.Named) : s.simplified.Named :=
  fun y stands => named y (mentions_simplified stands)

/-! What the script of a comparison asserts. -/

theorem assumed_assertions (conditions : List (Condition Empty)) (script : Script Empty) :
    (conditions.foldl (fun s c => s.add (.assume c)) script).assertions =
      script.assertions ++ conditions.map .assume := by
  induction conditions generalizing script with
  | nil => exact (List.append_nil _).symm
  | cons c conditions ih =>
    rw [List.foldl_cons, ih, Script.add, List.append_assoc]
    rfl

theorem tieInput_declarations (suffix : String) (inputs : Entries String)
    (state : Script Empty × List String) (tie : String × String) :
    (tieInput suffix inputs state tie).1.declarations = state.1.declarations := by
  rcases tieInput_cases suffix inputs state tie.1 tie.2 with ⟨idle, -⟩ | ⟨z, k, -, -, ties⟩
  · rw [idle]
  · rw [ties]
    rfl

theorem tieInputs_assertions (suffix : String) (inputs ties : Entries String)
    (state : Script Empty × List String) {a : Assertion Empty}
    (asserted : a ∈ (ties.foldl (tieInput suffix inputs) state).1.assertions) :
    a ∈ state.1.assertions ∨ ∃ x y z k, (x, y) ∈ ties ∧ inputs.get? x = some z ∧
      commonSort? state.1.declarations y (z ++ suffix) = some k ∧ a = .tie k y (z ++ suffix) := by
  induction ties generalizing state with
  | nil => exact .inl asserted
  | cons tie ties ih =>
    obtain ⟨x, y⟩ := tie
    rcases ih _ asserted with old | ⟨x', y', z, k, later, found, sort, same⟩
    · rcases tieInput_cases suffix inputs state x y with ⟨idle, -⟩ | ⟨z, k, found, sort, ties⟩
      · rw [idle] at old
        exact .inl old
      · rw [ties] at old
        rcases List.mem_append.mp old with old | new
        · exact .inl old
        · exact .inr ⟨x, y, z, k, List.mem_cons_self .., found, sort, List.mem_singleton.mp new⟩
    · rw [tieInput_declarations] at sort
      exact .inr ⟨x', y', z, k, List.mem_cons_of_mem _ later, found, sort, same⟩

/-- The assertions of a comparison: those of both streams, their conditions, the ties of their
inputs and the question. -/
inductive ComparisonAsserts (s t : Stream Empty) (suffix : String) (e : Encoder Empty) :
    Assertion Empty → Prop where
  | define {a : Assertion Empty} : a ∈ e.script.assertions → ComparisonAsserts s t suffix e a
  | assume {c : Condition Empty} : c ∈ e.conditions → ComparisonAsserts s t suffix e (.assume c)
  | tie {y z : String} {k : VarSort Empty} : y ∈ s.mentions → z ∈ t.mentions →
      commonSort? e.script.declarations y (z ++ suffix) = some k →
      ComparisonAsserts s t suffix e (.tie k y (z ++ suffix))
  | differ {pairs : List (String × String)} :
      (∀ p ∈ pairs, ∃ x z, s.Assigns x ∧ t.Assigns x ∧ Stream.last? x s = some p.1 ∧
        Stream.last? x t = some z ∧ p.2 = z ++ suffix) →
      ComparisonAsserts s t suffix e (.differ pairs)

namespace Stream

variable {s t : Stream Empty} {suffix : String} {result : Comparing Empty}

theorem mentions_of_last? {x y : String} (last : last? x s = some y) : y ∈ s.mentions := by
  obtain ⟨-, i, member, defines⟩ := last?_mem last
  exact mem_mentions member (List.mem_append_left _ (Option.mem_toList.mpr defines))

theorem mentions_of_read {y : String} (read : y ∈ readSymbols s) : y ∈ s.mentions := by
  obtain ⟨i, member, reads⟩ := List.mem_flatMap.mp read
  exact mem_mentions member (List.mem_append_right _ reads)

theorem Regular.comparison_asserts (regular : s.Regular) (regular' : t.Regular)
    (ok : compareStreams s t suffix = .ok result) :
    ∃ u e, Encoding.Yields (pairWork s t suffix) .empty u e ∧
      result.script.declarations = e.script.declarations ∧
      ∀ a ∈ result.script.assertions, ComparisonAsserts s t suffix e a := by
  obtain ⟨o, outputs, distinct, names, entries⟩ := regular.outputs
  obtain ⟨o', outputs', distinct', names', entries'⟩ := regular'.outputs
  obtain ⟨i, inputs, single, found⟩ := regular.inputs
  obtain ⟨i', inputs', -, found'⟩ := regular'.inputs
  rw [compareStreams_eq outputs outputs' inputs inputs'] at ok
  by_cases agree : sameNames o o' = true
  · rw [if_pos agree] at ok
    rcases work : Encoding.on .empty (pairWork s t suffix) with ⟨fault | u, e⟩
    · rw [work] at ok
      contradiction
    · rw [work] at ok
      cases ok
      obtain ⟨assumedSorts, -⟩ := assumed_spec e.conditions e.script
      obtain ⟨tiedSorts, -⟩ := tieInputs_spec suffix i' i
        (e.conditions.foldl (fun s c => s.add (.assume c)) e.script, [])
      refine ⟨u, e, work, tiedSorts.trans assumedSorts, fun a asserted => ?_⟩
      rcases List.mem_append.mp asserted with earlier | question
      · rcases tieInputs_assertions suffix i' i _ earlier with
          old | ⟨x, y, z, k, tied, read', sort, rfl⟩
        · rw [assumed_assertions] at old
          rcases List.mem_append.mp old with defined | assumed
          · exact .define defined
          · obtain ⟨c, inside, rfl⟩ := List.mem_map.mp assumed
            exact .assume inside
        · obtain ⟨-, read⟩ := (found x y).mp (Entries.get?_of_mem single tied)
          obtain ⟨-, read'⟩ := (found' x z).mp read'
          rw [assumedSorts] at sort
          exact .tie (mentions_of_read read) (mentions_of_read read') sort
      · obtain rfl := List.mem_singleton.mp question
        refine .differ fun p pair => ?_
        simp only [outputPairs, List.map_map, List.mem_map] at pair
        obtain ⟨⟨x, y⟩, member, rfl⟩ := pair
        have key : x ∈ o'.keys := ((sameNames_iff distinct distinct').mp agree x).mp
          (List.mem_map_of_mem (f := fun e => e.1) member)
        obtain ⟨z, second⟩ := Option.ne_none_iff_exists'.mp (Entries.mem_keys.mp key)
        obtain ⟨assigns, last⟩ := (entries x y).mp member
        obtain ⟨assigns', last'⟩ := (entries' x z).mp (Entries.mem_of_get? second)
        exact ⟨x, z, assigns, assigns', last, last', by simp [second]⟩
  · rw [if_neg agree] at ok
    contradiction

theorem guardsPick_renamed (suffix : String) (guards : ∀ i ∈ t, i.GuardsPick) :
    ∀ i ∈ t.renamed suffix, i.GuardsPick := by
  intro i member r xs g same
  obtain ⟨j, origin, rfl⟩ := List.mem_map.mp member
  cases j with
  | phi r' xs' guard =>
    cases guard with
    | none => exact nomatch (Instr.phi.inj same).2.2
    | some g' =>
      obtain ⟨a, b, rfl⟩ := guards _ origin r' xs' g' rfl
      cases same
      exact ⟨_, _, rfl⟩
  | assign | assert => contradiction
  | stray part => exact part.elim

theorem Regular.writable (regular : s.Regular) (named : s.Named) : s.Writable := by
  refine ⟨regular.guardsPick, fun y stands => ?_⟩
  obtain ⟨x, n, rfl, name⟩ := named y stands
  exact isSymbol_version name n

theorem Regular.writable_renamed (regular : t.Regular) (named : t.Named)
    (chars : ∀ z ∈ t.mentions, ∀ c ∈ suffix.toList, isWordChar c = true) :
    (t.renamed suffix).Writable := by
  refine ⟨guardsPick_renamed suffix regular.guardsPick, fun y stands => ?_⟩
  obtain ⟨z, origin, rfl⟩ := mem_mentions_renamed.mp stands
  obtain ⟨x, n, rfl, name⟩ := named z origin
  exact isSymbol_suffixed name n (chars _ origin)

theorem pairWork_text {u : Unit} {e : Encoder Empty}
    (done : Encoding.Yields (pairWork s t suffix) .empty u e) :
    e.script.declarations.keys.Nodup ∧ ∃ sort sort',
      e.script.assertions =
        (s.added sort).assertions ++ ((t.renamed suffix).added sort').assertions ∧
      e.conditions = (s.added sort).conditions ++ ((t.renamed suffix).added sort').conditions ∧
      (∀ u ∈ (s.added sort).uses, e.script.sorts u.1 = some u.2) ∧
      ∀ u ∈ ((t.renamed suffix).added sort').uses, e.script.sorts u.1 = some u.2 := by
  obtain ⟨e₂, first, second⟩ := pairWork_yields.mp done
  have extension := Encoding.define_extends first
  have extension' := Encoding.define_extends second
  refine ⟨extension'.distinct (extension.distinct List.nodup_nil), sortIn (addNames [] s.arrays),
    sortIn (addNames e₂.arrays (t.renamed suffix).arrays), ?_, ?_,
    fun u used => extension'.kept _ _ (extension.used u used), extension'.used⟩
  · rw [extension'.assertions]
    change e₂.script.assertions ++ _ = _
    rw [extension.assertions]
    rfl
  · rw [extension'.conditions]
    change e₂.conditions ++ _ = _
    rw [extension.conditions]
    rfl

theorem pairWork_declares {u : Unit} {e : Encoder Empty} (writable : s.Writable)
    (writable' : (t.renamed suffix).Writable)
    (done : Encoding.Yields (pairWork s t suffix) .empty u e) :
    (∀ a ∈ e.script.assertions, e.script.sorts.Declare a.uses) ∧
      ∀ c ∈ e.conditions, e.script.sorts.Declare c.uses := by
  obtain ⟨-, sort, sort', assertions, conditions, used, used'⟩ := pairWork_text done
  rw [assertions, conditions, List.forall_mem_append, List.forall_mem_append]
  exact ⟨⟨writable.declares_constraints used, writable'.declares_constraints used'⟩,
    writable.declares_conditions used, writable'.declares_conditions used'⟩

namespace Regular

theorem comparison_declares (regular : s.Regular) (regular' : t.Regular) (apart : Separates suffix)
    (ok : compareStreams s t suffix = .ok result) :
    result.script.declarations.keys.Nodup ∧ ∀ y, y ∈ result.script.declarations.keys ↔
      y ∈ s.mentions ∨ ∃ z ∈ t.mentions, y = z ++ suffix := by
  obtain ⟨u, e, work, same, -⟩ := regular.comparison_asserts regular' ok
  obtain ⟨-, compared, -⟩ := regular.compares regular' apart ok
  refine ⟨same ▸ (pairWork_text work).1, fun y => ?_⟩
  rw [Entries.mem_keys, Option.ne_none_iff_exists']
  constructor
  · rintro ⟨k, declared⟩
    exact compared.only y k declared
  · rintro (stands | ⟨z, stands, rfl⟩)
    · obtain ⟨i, member, stands⟩ := List.mem_flatMap.mp stands
      obtain ⟨k, used⟩ := (regular.guardsPick i member).exists_use _ stands
      exact ⟨k, compared.sorted i member (y, k) used⟩
    · obtain ⟨i, member, stands⟩ := List.mem_flatMap.mp stands
      obtain ⟨k, used⟩ := (regular'.guardsPick i member).exists_use _ stands
      exact ⟨k, compared.sorted' i member (z, k) used⟩

theorem comparison_spelled (regular : s.Regular) (regular' : t.Regular)
    (ok : compareStreams s t suffix = .ok result) (writable : s.Writable)
    (writable' : (t.renamed suffix).Writable) :
    ∀ a ∈ result.script.assertions, a.sexp.Spelled := by
  obtain ⟨u, e, work, -, asserts⟩ := regular.comparison_asserts regular' ok
  obtain ⟨defines, assumes⟩ := pairWork_declares writable writable' work
  have first : ∀ y ∈ s.mentions, IsWord y := fun y stands => (writable.symbols y stands).spelled
  have second : ∀ z ∈ t.mentions, IsWord (z ++ suffix) := fun z stands =>
    (writable'.symbols _ (mem_mentions_renamed.mpr ⟨z, stands, rfl⟩)).spelled
  intro a asserted
  cases asserts a asserted with
  | define defined => exact (a.sorted (defines a defined)).1
  | assume assumed => exact (Assertion.sorted (.assume _) (assumes _ assumed)).1
  | tie stands stands' => exact spelled_equation (first _ stands) (second _ stands')
  | differ pairs =>
    refine spelled_refuted fun f member => ?_
    obtain ⟨p, pair, rfl⟩ := List.mem_map.mp member
    obtain ⟨x, z, -, -, last, last', same⟩ := pairs p pair
    rw [same]
    exact spelled_equation (first _ (mentions_of_last? last)) (second z (mentions_of_last? last'))

theorem comparison_readsBack_iff (regular : s.Regular) (regular' : t.Regular)
    (apart : Separates suffix) (named : s.Named) (named' : t.Named)
    (ok : compareStreams s t suffix = .ok result) :
    result.script.ReadsBack ↔
      t.mentions = [] ∨ ∀ c ∈ suffix.toList, isWordChar c = true := by
  obtain ⟨distinct, declared⟩ := regular.comparison_declares regular' apart ok
  constructor
  · intro reads
    rw [or_iff_not_imp_left]
    intro some c inside
    obtain ⟨z, stands⟩ := List.exists_mem_of_ne_nil _ some
    have word := (reads.simple _ ((declared _).mpr (.inr ⟨z, stands, rfl⟩))).1.2
    rw [String.toList_append, List.forall_mem_append] at word
    exact word.2 c inside
  · intro words
    have plain : ∀ c ∈ ("" : String).toList, isWordChar c = true := nofun
    have chars : ∀ z ∈ t.mentions, ∀ c ∈ suffix.toList, isWordChar c = true := by
      rcases words with none | chars
      · rw [none]
        exact nofun
      · exact fun _ _ => chars
    refine Script.readsBack (fun y member => ?_) distinct (regular.comparison_spelled regular' ok
      (regular.writable named) (regular'.writable_renamed named' chars))
    rcases (declared y).mp member with stands | ⟨z, stands, rfl⟩
    · obtain ⟨x, n, rfl, name⟩ := named y stands
      simpa using isSimple_suffixed name n plain
    · obtain ⟨x, n, rfl, name⟩ := named' z stands
      exact isSimple_suffixed name n (chars _ stands)

end Regular

end Stream

theorem Program.last_int (p : Program Empty) {sorts : Sorts} (sorted : p.stream.Sorted sorts)
    {x y : String} (assigns : p.stream.Assigns x) (last : Stream.last? x p.stream = some y) :
    sorts y = some .int := by
  have all : p.stream.filter (fun _ => true) = p.stream := List.filter_true _
  refine p.typed.last sorts sorted (fun _ => true) (fun _ _ _ => rfl) x y ?_ ?_
  · exact all.symm ▸ assigns
  · exact all.symm ▸ last

/-- The text of a comparison of two programs asks what the script does, where the suffix can stand
in a symbol. -/
theorem Program.comparison_means {p q : Program Empty} {suffix : String} {result : Comparing Empty}
    (regular : p.stream.Regular) (regular' : q.stream.Regular) (named : p.stream.Named)
    (named' : q.stream.Named) (apart : Separates suffix)
    (chars : ∀ c ∈ suffix.toList, isWordChar c = true)
    (ok : compareStreams p.stream q.stream suffix = .ok result) (v : Valuation) :
    result.script.Models v ↔ ∀ text ∈ result.script.assertionTexts, ∃ e, read? text = some e ∧
      e.eval? result.script.sorts.kinds v = some (.bool true) := by
  have writable := regular.writable named
  have writable' := regular'.writable_renamed named' fun _ _ => chars
  obtain ⟨u, e, work, same, asserts⟩ := regular.comparison_asserts regular' ok
  obtain ⟨-, compared, -⟩ := regular.compares regular' apart ok
  obtain ⟨-, declared⟩ := regular.comparison_declares regular' apart ok
  obtain ⟨defines, assumes⟩ := Stream.pairWork_declares writable writable' work
  have sorts : e.script.sorts = result.script.sorts := by
    unfold Script.sorts
    rw [same]
  rw [sorts] at defines assumes
  have renamed : ∀ z ∈ q.stream.mentions, IsSymbol (z ++ suffix) := fun z stands =>
    writable'.symbols _ (Stream.mem_mentions_renamed.mpr ⟨z, stands, rfl⟩)
  refine Script.models_iff_texts (fun a asserted => ?_) v
  cases asserts a asserted with
  | define defined => exact defines a defined
  | assume assumed => exact assumes _ assumed
  | @tie y z k stands stands' sort =>
    have known : ∀ x ∈ result.script.declarations.keys, result.script.declarations.get? x ≠ none :=
      fun x member => Entries.mem_keys.mp member
    rw [← same, commonSort?_eq_some] at sort
    obtain ⟨sorted, sorted'⟩ := sort.resolve_left fun absent =>
      known y ((declared y).mpr (.inl stands)) absent.1
    exact Sorts.declare_pair.mpr ⟨⟨writable.symbols y stands, sorted⟩, renamed z stands', sorted'⟩
  | differ pairs =>
    intro u used
    obtain ⟨⟨y, _⟩, pair, used⟩ := List.mem_flatMap.mp used
    obtain ⟨x, z, assigns, assigns', last, last', rfl⟩ := pairs _ pair
    have first := writable.symbols y (Stream.mentions_of_last? last)
    have second := renamed z (Stream.mentions_of_last? last')
    have both : result.script.sorts.Declare [(y, .int), (z ++ suffix, .int)] :=
      Sorts.declare_pair.mpr ⟨⟨first, p.last_int compared.sorted assigns last⟩,
        second, q.last_int compared.sorted' assigns' last'⟩
    exact both u used

/-! Requests. -/

/-- A suffix that the settings allow keeps renamed symbols apart from plain ones. -/
theorem Settings.check_separates {settings : Settings} {config : Config}
    (valid : settings.check = .ok config) : Separates config.suffix := by
  have allowed := (check_parts valid).2.1
  unfold suffixText at allowed
  split at allowed
  · split at allowed
    · rename_i c last
      split at allowed
      · contradiction
      · rename_i other
        cases allowed
        refine ⟨c, last, (Bool.not_eq_true _).mp fun digit => other ?_⟩
        obtain ⟨low, high⟩ := Text.digit_bounds digit
        exact List.any_eq_true.mpr ⟨(0x30, 0x39), List.mem_cons_self .., by simp; omega⟩
    · contradiction
  · contradiction

theorem analyze_encodes (config : Config) (text : String) :
    Ends (fun _ => True) (fun a => a.encoded.Regular ∧ a.encoded.Named) (analyze config text) := by
  refine ends_mono (analyze_ends config text) (fun _ _ => trivial) ?_
  rintro a ⟨q, made⟩
  have named : q.stream.Named := Program.mentions_version q fun x stands =>
    readBlock_names made.reads x (lowered_names made.lowers x stands)
  exact ⟨made.regular, made.encoded named named.simplified nofun⟩

theorem prepareComparison_asks (config : Config) (text text' : String) :
    Ends (fun _ => True) (fun prepared => ∀ q, prepared = .asked q → ∃ first second result,
        q.analyses = [first, second] ∧ q.script = result.script ∧
        (first.encoded.Regular ∧ first.encoded.Named) ∧
        (second.encoded.Regular ∧ second.encoded.Named) ∧
        compareStreams first.encoded second.encoded config.suffix = .ok result)
      (prepareComparison config text text') := by
  refine ends_bind (analyze_encodes config text) fun first good =>
    ends_bind (analyze_encodes config text') fun second good' =>
      ends_tryCatch (R := fun _ => True) ?_ fun fault _ => ?_
  · refine ends_bind (ends_bind (ends_ofExcept (fun _ _ => trivial) fun _ compared => compared)
      fun result compared => ends_bind (failsOnly_modify _) fun _ _ => ends_pure compared)
      fun result compared => ends_pure ?_
    intro q same
    cases same
    exact ⟨first, second, result, rfl, rfl, good, good', compared⟩
  · split
    · exact ends_bind (failsOnly_modify _) fun _ _ => ends_pure nofun
    · exact ends_throw trivial

/-- With valid settings the question of a comparison declares the symbols of both programs, the
second ones with the suffix behind them, and none of the second is one of the first. Its text is
read back, each symbol as one symbol and none declared twice, exactly where all characters of the
suffix can stand in a symbol or the second program has no symbols. -/
theorem comparison_reads_back_iff (settings : Settings) (config : Config)
    (valid : settings.check = .ok config) (text text' : String) (q : Question)
    (asked : (prepareComparison config text text').trace.1 = .ok (.asked q)) :
    ∃ first second, q.analyses = [first, second] ∧
      (∀ y, y ∈ q.script.declarations.keys ↔ y ∈ first.encoded.mentions ∨
        ∃ z ∈ second.encoded.mentions, y = z ++ config.suffix) ∧
      (∀ y ∈ first.encoded.mentions, ∀ z, y ≠ z ++ config.suffix) ∧
      (q.script.ReadsBack ↔ second.encoded.mentions = [] ∨
        ∀ c ∈ config.suffix.toList, isWordChar c = true) := by
  have apart := settings.check_separates valid
  obtain ⟨first, second, result, analyses, script, ⟨regular, named⟩, ⟨regular', named'⟩, ok⟩ :=
    (prepareComparison_asks config text text').trace_ok asked q rfl
  rw [script]
  refine ⟨first, second, analyses, (regular.comparison_declares regular' apart ok).2, ?_,
    regular.comparison_readsBack_iff regular' apart named named' ok⟩
  intro y stands z
  obtain ⟨x, n, rfl, -⟩ := named y stands
  exact symbol_ne_append apart x z n

def question? : Except Error Prepared → Option Question
  | .ok (.asked q) => some q
  | _ => none

theorem question?_eq_some {r : Except Error Prepared} {q : Question} :
    question? r = some q ↔ r = .ok (.asked q) := by
  constructor
  · intro found
    unfold question? at found
    split at found
    · cases found
      rfl
    · contradiction
  · rintro rfl
    rfl

theorem comparison_reads_back_iff_signs :
    let settings : Settings := { suffix := .text "-2nd?", encodeOptimized := .bool true }
    ∃ config q, settings.check = .ok config ∧
      (prepareComparison config "x := a[i] / 2;\nassert(x > 0);"
        "x := a[i];\nassert(x > 1);").trace.1 = .ok (.asked q) ∧ q.script.ReadsBack := by
  intro settings
  let config : Config := ⟨true, true, none, 10000, 1, "-2nd?", 30⟩
  have valid : settings.check = .ok config := by rfl
  have asks : (question? (prepareComparison config "x := a[i] / 2;\nassert(x > 0);"
      "x := a[i];\nassert(x > 1);").trace.1).isSome = true := by decide +kernel
  obtain ⟨q, found⟩ := Option.isSome_iff_exists.mp asks
  have asked := question?_eq_some.mp found
  obtain ⟨first, second, -, -, -, reads⟩ :=
    comparison_reads_back_iff settings config valid _ _ q asked
  have chars : IsWord config.suffix := by decide +kernel
  exact ⟨config, q, valid, asked, reads.mpr (.inr chars.2)⟩

/-- A blank as suffix is allowed, and the text then declares one symbol for both programs. -/
theorem blank_suffix_declares_twice :
    let settings : Settings := { suffix := .text " " }
    ∃ config q commands, settings.check = .ok config ∧
      (prepareComparison config "x := 1;" "x := 2;").trace.1 = .ok (.asked q) ∧
      readAll? q.script.toText = some commands ∧
      commands.filterMap declared? = ["x_1", "x_1"] ∧ ¬ q.script.ReadsBack := by
  intro settings
  let config : Config := ⟨true, false, none, 10000, 1, " ", 30⟩
  have found : ((question? (prepareComparison config "x := 1;" "x := 2;").trace.1).bind fun q =>
      (readAll? q.script.toText).map (List.filterMap declared?)) = some ["x_1", "x_1"] := by
    decide +kernel
  obtain ⟨q, asked, reads⟩ := Option.bind_eq_some_iff.mp found
  obtain ⟨commands, reads, twice⟩ := Option.map_eq_some_iff.mp reads
  refine ⟨config, q, commands, by rfl, question?_eq_some.mp asked, reads, twice, fun back => ?_⟩
  obtain ⟨others, same, keys⟩ := back.read
  obtain rfl := Option.some.inj (reads.symm.trans same)
  have distinct := back.distinct
  rw [← keys, twice] at distinct
  exact absurd distinct (by decide)

end Assay
