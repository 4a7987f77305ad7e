import Assay.Expr.Text
import Assay.Proofs.Readable
import Assay.Value.Reader
import Assay.Value.Text

/-! Numbers with too many digits. One that is read is a run of digits in the text. The numbers in a
value that was read can be written. -/
namespace Assay

namespace Text

def HasRun (digits : Nat) (cs : List Char) : Prop :=
  ∃ run, run <:+: cs ∧ run.length = digits ∧ ∀ c ∈ run, isAsciiDigit c = true

theorem HasRun.mono {digits : Nat} {cs ds : List Char} (stands : HasRun digits cs)
    (inside : cs <:+: ds) : HasRun digits ds := by
  obtain ⟨run, within, size, all⟩ := stands
  exact ⟨run, within.trans inside, size, all⟩

def LongRun (digits : Nat) (cs : List Char) : Prop := digitLimit < digits ∧ HasRun digits cs

theorem decimalValue?_le {c : Char} {d : Nat} (found : decimalValue? c = some d) : d ≤ 9 := by
  obtain ⟨z, run, rfl⟩ := Option.map_eq_some_iff.mp found
  have bounds := List.find?_some run
  simp only [Bool.and_eq_true, decide_eq_true_eq] at bounds
  omega

theorem digitValues?_le {cs : List Char} {ds : List Nat} (found : digitValues? cs = some ds) :
    ∀ d ∈ ds, d ≤ 9 := by
  induction cs using digitValues?.induct generalizing ds with
  | case1 => simp [digitValues?] at found
  | case2 c =>
    obtain ⟨d, value, rfl⟩ := Option.map_eq_some_iff.mp found
    exact List.forall_mem_singleton.mpr (decimalValue?_le value)
  | case3 c cs ih =>
    simp only [digitValues?, Option.bind_eq_bind, Option.bind_eq_some_iff] at found
    obtain ⟨d, value, ds, rest, same⟩ := found
    cases same
    exact List.forall_mem_cons.mpr ⟨decimalValue?_le value, ih rest⟩
  | case4 c cs some_digit plain ih =>
    rw [digitValues?] at found
    · simp only [Option.bind_eq_bind, Option.bind_eq_some_iff] at found
      obtain ⟨d, value, ds, rest, same⟩ := found
      cases same
      exact List.forall_mem_cons.mpr ⟨decimalValue?_le value, ih rest⟩
    · exact some_digit
    · exact plain

theorem readInteger_short {cs : List Char} {n : Int} (reads : readInteger cs = .ok n) :
    isTooLong n = false := by
  unfold readInteger at reads
  dsimp only at reads
  split at reads
  · cases reads
  · rename_i digits found
    split at reads
    · cases reads
    · rename_i short
      split at reads
      · rw [← Except.ok.inj reads]
        exact isTooLong_foldl (digitValues?_le found) short _ rfl
      · cases reads

end Text

theorem Expr.isTooLong_iff {e : Expr Empty} :
    e.isTooLong = true ↔ ∃ n, .number n ∈ e.leaves ∧ Text.isTooLong n = true := by
  unfold isTooLong
  rw [List.any_eq_true]
  constructor
  · rintro ⟨leaf, stands, long⟩
    cases leaf with
    | number n => exact ⟨n, stands, long⟩
    | name | array => contradiction
    | stray part => exact part.elim
  · rintro ⟨n, stands, long⟩
    exact ⟨_, stands, long⟩

/-! Values. -/

theorem Entries.forall_mem_put {α : Type} {P : α → Prop} {key : String} {value : α}
    {m : Entries α} (new : P value) (old : ∀ e ∈ m, P e.2) : ∀ e ∈ m.put key value, P e.2 := by
  induction m with
  | nil => exact List.forall_mem_singleton.mpr new
  | cons e m ih =>
    obtain ⟨first, rest⟩ := List.forall_mem_cons.mp old
    unfold put
    split
    · exact List.forall_mem_cons.mpr ⟨new, rest⟩
    · exact List.forall_mem_cons.mpr ⟨first, ih rest⟩

namespace Value

theorem anyTooLong_eq_false {vs : List Value} :
    anyTooLong vs = false ↔ ∀ v ∈ vs, v.isTooLong = false := by
  induction vs with
  | nil => simp [anyTooLong]
  | cons v vs ih => rw [anyTooLong, Bool.or_eq_false_iff, ih, List.forall_mem_cons]

theorem anyEntryTooLong_eq_false {es : List (String × Value)} :
    anyEntryTooLong es = false ↔ ∀ e ∈ es, e.2.isTooLong = false := by
  induction es with
  | nil => simp [anyEntryTooLong]
  | cons e es ih => rw [anyEntryTooLong, Bool.or_eq_false_iff, ih, List.forall_mem_cons]

end Value

namespace Json

/-- How reading from a place ends: at a number with too many digits, which stands in what is left
there, at another fault, or with such a result and a rest of the text. -/
def Reads {α : Type} (cs : List Char) (Q : α → Prop) : Except JsonFault (α × Place) → Prop
  | .error (.tooLong digits) => Text.LongRun digits cs
  | .error (.malformed ..) => True
  | .ok (a, q) => Q a ∧ q.rest <:+ cs

section

variable {α β : Type} {Q : α → Prop} {R : β → Prop} {cs ds : List Char}

theorem Reads.mono {r : Except JsonFault (α × Place)} (reads : Reads cs Q r) (inside : cs <:+ ds) :
    Reads ds Q r := by
  match r with
  | .error (.tooLong digits) => exact ⟨reads.1, reads.2.mono inside.isInfix⟩
  | .error (.malformed ..) => trivial
  | .ok (a, q) => exact ⟨reads.1, reads.2.trans inside⟩

theorem Reads.bind {r : Except JsonFault (α × Place)}
    {next : α × Place → Except JsonFault (β × Place)} (first : Reads cs Q r)
    (later : ∀ a q, Q a → Reads q.rest R (next (a, q))) : Reads cs R (r >>= next) := by
  match r with
  | .error (.tooLong digits) => exact first
  | .error (.malformed ..) => trivial
  | .ok (a, q) => exact (later a q first.1).mono first.2

end

theorem Place.drop_suffix (p : Place) (n : Nat) : (p.drop n).rest <:+ p.rest :=
  List.drop_suffix n p.rest

theorem Place.skipSpace_suffix (p : Place) : p.skipSpace.rest <:+ p.rest := p.drop_suffix _

theorem readUnit_malformed {position : Nat} {cs : List Char} {fault : JsonFault}
    (fails : readUnit position cs = .error fault) :
    ∃ cause place, fault = .malformed cause place := by
  unfold readUnit fail at fails
  dsimp only at fails
  repeat' split at fails
  all_goals cases fails
  all_goals exact ⟨_, _, rfl⟩

theorem readString_reads (start fuel : Nat) (done : List Char) (p : Place) :
    Reads p.rest (fun _ => True) (readString start fuel done p) := by
  induction fuel generalizing done p with
  | zero => trivial
  | succ fuel ih =>
    have later : ∀ (u : Char) (n : Nat), Reads p.rest (fun _ => True)
        (readString start fuel (u :: done) (p.drop n)) := fun u n =>
      (ih _ _).mono (p.drop_suffix n)
    unfold readString
    split
    · trivial
    · split
      · exact ⟨trivial, p.drop_suffix 1⟩
      · split
        · split
          · trivial
          · rename_i _ more _
            split
            · cases unit : readUnit (p.position + 1) more with
              | error fault =>
                obtain ⟨cause, place, rfl⟩ := readUnit_malformed unit
                trivial
              | ok found => exact later _ _
            · split
              · trivial
              · exact later _ _
        · split
          · trivial
          · exact later _ _

theorem wholeDigits_spec (cs : List Char) :
    wholeDigits cs <+: cs ∧ ∀ c ∈ wholeDigits cs, Text.isAsciiDigit c = true := by
  unfold wholeDigits
  split
  · exact ⟨⟨_, rfl⟩, List.forall_mem_singleton.mpr rfl⟩
  · exact ⟨List.takeWhile_prefix _, fun c member => List.mem_takeWhile_imp member⟩

theorem readNumber_reads (p : Place) :
    Reads p.rest (fun v => v.isTooLong = false) (readNumber p) := by
  unfold readNumber
  obtain ⟨negative, signed⟩ := minus p.rest
  obtain ⟨start, all⟩ := wholeDigits_spec (p.rest.drop signed)
  have inside := start.isInfix.trans (List.drop_suffix signed p.rest).isInfix
  dsimp only
  split
  · trivial
  · generalize fractionDigits _ = fraction
    generalize exponent? _ = exponent
    split
    · split
      · rename_i long
        exact ⟨long, _, inside, rfl, all⟩
      · rename_i short
        exact ⟨Text.isTooLong_ofDigits all short negative, p.drop_suffix _⟩
    · exact ⟨rfl, p.drop_suffix _⟩

theorem named?_short {cs : List Char} {v : Value} {n : Nat} (found : named? cs = some (v, n)) :
    v.isTooLong = false := by
  obtain ⟨entry, listed, same⟩ := Option.map_eq_some_iff.mp found
  cases same
  have member := List.mem_of_find?_eq_some listed
  simp only [List.mem_cons, List.not_mem_nil, or_false] at member
  rcases member with rfl | rfl | rfl | rfl | rfl | rfl <;> rfl

theorem Place.next_suffix (p : Place) : ((p.drop 1).skipSpace).rest <:+ p.rest :=
  (skipSpace_suffix _).trans (p.drop_suffix 1)

theorem reads_short (fuel : Nat) :
    (∀ p : Place, Reads p.rest (fun v => v.isTooLong = false) (readValue fuel p)) ∧
    (∀ done (p : Place), (∀ v ∈ done, v.isTooLong = false) →
      Reads p.rest (fun v => v.isTooLong = false) (readItems fuel done p)) ∧
    ∀ done (p : Place), (∀ e ∈ done, e.2.isTooLong = false) →
      Reads p.rest (fun v => v.isTooLong = false) (readEntries fuel done p) := by
  induction fuel with
  | zero => exact ⟨fun _ => trivial, fun _ _ _ => trivial, fun _ _ _ => trivial⟩
  | succ fuel ih =>
    obtain ⟨value, items, entries⟩ := ih
    refine ⟨fun p => ?_, fun done p short => ?_, fun done p short => ?_⟩
    · have close := (Place.drop_suffix _ 1).trans p.next_suffix
      unfold readValue
      split
      · trivial
      · split
        · refine ((readString_reads _ _ _ _).mono (p.drop_suffix 1)).bind fun s q _ => ?_
          exact ⟨rfl, List.suffix_refl _⟩
        · split
          · dsimp only
            split
            · exact ⟨rfl, close⟩
            · exact (entries [] _ nofun).mono p.next_suffix
          · split
            · dsimp only
              split
              · exact ⟨rfl, close⟩
              · exact (items [] _ nofun).mono p.next_suffix
            · split
              · rename_i v n found
                exact ⟨named?_short found, p.drop_suffix n⟩
              · exact readNumber_reads p
    · unfold readItems
      refine (value p).bind fun v q found => ?_
      have all : ∀ w ∈ v :: done, w.isTooLong = false := List.forall_mem_cons.mpr ⟨found, short⟩
      refine Reads.mono ?_ q.skipSpace_suffix
      dsimp only
      split
      · refine ⟨Value.anyTooLong_eq_false.mpr fun w member => ?_, Place.drop_suffix _ 1⟩
        exact all w (List.mem_reverse.mp member)
      · exact (items _ _ all).mono (Place.next_suffix _)
      · trivial
    · unfold readEntries
      split
      · refine ((readString_reads _ _ _ _).mono (p.drop_suffix 1)).bind fun key q _ => ?_
        refine Reads.mono ?_ q.skipSpace_suffix
        dsimp only
        split
        · refine ((value _).mono (Place.next_suffix _)).bind fun v q found => ?_
          have all : ∀ e ∈ Entries.put key v done, e.2.isTooLong = false :=
            Entries.forall_mem_put (P := fun v : Value => v.isTooLong = false) found short
          refine Reads.mono ?_ q.skipSpace_suffix
          dsimp only
          split
          · exact ⟨Value.anyEntryTooLong_eq_false.mpr all, Place.drop_suffix _ 1⟩
          · exact (entries _ _ all).mono (Place.next_suffix _)
          · trivial
        · trivial
      · trivial

end Json

/-- The numbers in a value that is read can be written, and a number with too many digits stands in
the text. -/
theorem Value.ofJson_spec (cs : List Char) :
    match ofJson cs with
    | .ok v => v.isTooLong = false
    | .error (.tooLong digits) => Text.LongRun digits cs
    | .error (.malformed ..) => True := by
  unfold ofJson
  by_cases mark : (cs.head? == some (Char.ofNat 0xFEFF)) = true
  · rw [if_pos mark]
    trivial
  · rw [if_neg mark]
    have reads := ((Json.reads_short (2 * cs.length + 2)).1 _).mono
      (Json.Place.skipSpace_suffix ⟨cs, 0⟩)
    rcases found : Json.readValue (2 * cs.length + 2) (Json.Place.mk cs 0).skipSpace with
      (_ | digits) | ⟨v, q⟩
    · trivial
    · rw [found] at reads
      exact reads
    · rw [found] at reads
      dsimp only [bind, Except.bind]
      by_cases whole : q.skipSpace.rest.isEmpty = true
      · rw [if_pos whole]
        exact reads.1
      · rw [if_neg whole]
        trivial

end Assay
