import Assay.Program.Layout
import Assay.Proofs.Splitting

/-! The lines of a text as reading keeps them. How blanks are laid out between them does not
matter, and a block taken from the lines is the block of the text: its body and what remains are
the lines of the text inside and behind the matching brace. -/
namespace Assay

namespace Text

theorem isBlank_of_isBreak {c : Char} (ends : isBreak c = true) : isBlank c = true := by
  simp only [isBreak, Bool.or_eq_true, Bool.and_eq_true, decide_eq_true_eq, beq_iff_eq] at ends
  simp only [isBlank, Bool.or_eq_true, Bool.and_eq_true, decide_eq_true_eq, beq_iff_eq]
  omega

/-- A line is kept without the blanks around it, unless it has only blanks. -/
def row (cs : List Char) : List (List Char) := if (trim cs).isEmpty then [] else [trim cs]

def rows (text : List Char) : List (List Char) := (lines text).flatMap row

/-- No line ends inside the text. -/
def Inline (cs : List Char) : Prop := ∀ c ∈ cs, isBreak c = false

def Ending (text : List Char) : Prop := AllBlank (text.takeWhile (!isBreak ·))

/-- A line ends in the blanks that start the text. -/
def Breaks (text : List Char) : Prop := ∃ c ∈ text.takeWhile isBlank, isBreak c = true

/-! Trimming. -/

theorem trim_blank_front {bs : List Char} (blank : AllBlank bs) (cs : List Char) :
    trim (bs ++ cs) = trim cs := by
  unfold trim
  rw [trimLeft_blank blank]

theorem trim_blank_back {bs : List Char} (blank : AllBlank bs) (cs : List Char) :
    trim (cs ++ bs) = trim cs := by
  have gone : bs.dropWhile isBlank = [] := List.dropWhile_eq_nil_iff.mpr blank
  unfold trim trimLeft
  rw [List.dropWhile_append]
  split
  · rename_i empty
    rw [gone, List.isEmpty_iff.mp empty]
  · exact trimRight_blank blank _

theorem trim_solid_append {cs : List Char} (solid : Solid cs) (nonempty : cs ≠ [])
    (more : List Char) : trim (cs ++ more) = cs ++ trimRight more := by
  have front : trimLeft (cs ++ more) = cs ++ more := by
    obtain ⟨c, cs, rfl⟩ := List.exists_cons_of_ne_nil nonempty
    exact trimLeft_eq_self fun d head => solid.1 d head
  have back : cs.reverse.dropWhile isBlank = cs.reverse := by
    rw [← List.reverse_inj, List.reverse_reverse]
    exact trimRight_eq_self solid.2
  unfold trim
  rw [front, trimRight, List.reverse_append, List.dropWhile_append, back]
  unfold trimRight
  split
  · rename_i empty
    rw [List.isEmpty_iff.mp empty, List.reverse_reverse, List.reverse_nil, List.append_nil]
  · rw [List.reverse_append, List.reverse_reverse]

theorem row_nil : row [] = [] := rfl

theorem row_solid {cs : List Char} (solid : Solid cs) (nonempty : cs ≠ []) : row cs = [cs] := by
  unfold row
  rw [trim_eq_self solid, if_neg (by simpa using nonempty)]

theorem row_blank_front {bs : List Char} (blank : AllBlank bs) (cs : List Char) :
    row (bs ++ cs) = row cs := by
  unfold row
  rw [trim_blank_front blank]

theorem row_blank_back {bs : List Char} (blank : AllBlank bs) (cs : List Char) :
    row (cs ++ bs) = row cs := by
  unfold row
  rw [trim_blank_back blank]

/-! Rows. -/

theorem lines_break {c : Char} (ends : isBreak c = true) (cs : List Char) :
    ∃ more, lines (c :: cs) = [] :: more ∧ more.flatMap row = rows cs := by
  rw [lines.eq_def]
  split
  · contradiction
  · rename_i behind same
    obtain ⟨rfl, rfl⟩ := List.cons.inj same
    -- The line feed behind a carriage return opens no line of its own.
    refine ⟨_, rfl, ?_⟩
    rw [rows, lines]
    · rfl
    · rintro cs' same
      cases same
  · rename_i same
    obtain ⟨rfl, rfl⟩ := List.cons.inj same
    rw [if_pos ends]
    exact ⟨_, rfl, rfl⟩

theorem rows_break {c : Char} (ends : isBreak c = true) (cs : List Char) :
    rows (c :: cs) = rows cs := by
  obtain ⟨more, split, rest⟩ := lines_break ends cs
  rw [rows, split, List.flatMap_cons, row_nil, List.nil_append, rest]

theorem lines_inline {c : Char} (inside : isBreak c = false) (cs : List Char) :
    lines (c :: cs) = match lines cs with
      | [] => [[c]]
      | l :: ls => (c :: l) :: ls := by
  rw [lines.eq_def]
  split
  · contradiction
  · rename_i same
    cases same
    contradiction
  · rename_i same
    cases same
    refine (if_neg (by simp [inside])).trans ?_
    cases lines cs <;> rfl

theorem lines_append {l more : List Char} (inside : Inline l) (nonempty : l ≠ [])
    (ends : ∀ c ∈ more.head?, isBreak c = true) :
    lines (l ++ more) = l :: (lines more).tail := by
  induction l with
  | nil => contradiction
  | cons c l ih =>
    obtain ⟨here, inside⟩ := List.forall_mem_cons.mp inside
    rw [List.cons_append, lines_inline here]
    cases l with
    | nil =>
      cases more with
      | nil => rfl
      | cons d more =>
        obtain ⟨rest, split, -⟩ := lines_break (ends d rfl) more
        rw [List.nil_append, split]
        rfl
    | cons d l => rw [ih inside (List.cons_ne_nil _ _)]

theorem rows_append {l more : List Char} (inside : Inline l)
    (ends : ∀ c ∈ more.head?, isBreak c = true) : rows (l ++ more) = row l ++ rows more := by
  cases l with
  | nil => rfl
  | cons c l =>
    have rest : (lines more).tail.flatMap row = rows more := by
      cases more with
      | nil => rfl
      | cons d more =>
        obtain ⟨rest, split, -⟩ := lines_break (ends d rfl) more
        rw [rows, split]
        rfl
    rw [rows, lines_append inside (List.cons_ne_nil _ _) ends, List.flatMap_cons, rest]

theorem rows_inline {cs : List Char} (inside : Inline cs) : rows cs = row cs := by
  have whole := @rows_append cs [] inside nofun
  rwa [List.append_nil, show rows [] = [] from rfl, List.append_nil] at whole

theorem line_parts (text : List Char) :
    ∃ l more, text = l ++ more ∧ Inline l ∧ (∀ c ∈ more.head?, isBreak c = true) ∧
      l = text.takeWhile (!isBreak ·) := by
  refine ⟨_, text.dropWhile (!isBreak ·), List.takeWhile_append_dropWhile.symm, ?_, ?_, rfl⟩
  · intro c member
    simpa using List.mem_takeWhile_imp member
  · intro c head
    have stop := List.head?_dropWhile_not (!isBreak ·) text
    rw [head] at stop
    simpa using stop

theorem rows_blank_front {bs : List Char} (blank : AllBlank bs) (cs : List Char) :
    rows (bs ++ cs) = rows cs := by
  induction bs with
  | nil => rfl
  | cons b bs ih =>
    obtain ⟨first, blank⟩ := List.forall_mem_cons.mp blank
    rw [← ih blank, List.cons_append]
    generalize bs ++ cs = text
    by_cases ends : isBreak b = true
    · exact rows_break ends text
    · obtain ⟨l, more, rfl, inside, starts, -⟩ := line_parts text
      have here : Inline (b :: l) := List.forall_mem_cons.mpr ⟨by simpa using ends, inside⟩
      have trimmed : row (b :: l) = row l := row_blank_front (List.forall_mem_singleton.mpr first) l
      rw [← List.cons_append, rows_append here starts, rows_append inside starts, trimmed]

theorem rows_blank {bs : List Char} (blank : AllBlank bs) : rows bs = [] := by
  have gone := rows_blank_front blank []
  rwa [List.append_nil] at gone

theorem ending_of_breaks {text : List Char} (breaks : Breaks text) : Ending text := by
  obtain ⟨b, member, ends⟩ := breaks
  unfold Ending
  induction text with
  | nil => exact nofun
  | cons c text ih =>
    rw [List.takeWhile_cons] at member ⊢
    by_cases blank : isBlank c = true
    · rw [if_pos blank] at member
      split
      · rename_i inside
        rcases List.mem_cons.mp member with rfl | later
        · rw [ends] at inside
          contradiction
        · exact List.forall_mem_cons.mpr ⟨blank, ih later⟩
      · exact nofun
    · rw [if_neg blank] at member
      exact absurd member List.not_mem_nil

theorem ending_of_blank {text : List Char} (blank : AllBlank text) : Ending text :=
  fun c member => blank c (List.takeWhile_subset _ member)

theorem rows_ending {l more : List Char} (inside : Inline l) (ending : Ending more) :
    rows (l ++ more) = row l ++ rows more := by
  obtain ⟨bs, rest, parts, blanks, ends, first⟩ := line_parts more
  have blank : AllBlank bs := first ▸ ending
  have whole : Inline (l ++ bs) := fun c member =>
    (List.mem_append.mp member).elim (inside c) (blanks c)
  rw [parts, ← List.append_assoc, rows_append whole ends, row_blank_back blank,
    rows_blank_front blank]

theorem Inline.kept {cs : List Char} (inside : Inline cs) : ∀ c ∈ cs, (!isBreak c) = true :=
  fun c member => by rw [inside c member]; rfl

theorem ending_line {bs more : List Char} (blank : AllBlank bs) (inside : Inline bs)
    (ends : ∀ c ∈ more.head?, isBreak c = true) : Ending (bs ++ more) := by
  have stop : more.takeWhile (!isBreak ·) = [] := by
    cases more with
    | nil => rfl
    | cons c more => exact List.takeWhile_cons_of_neg (by simp [ends c rfl])
  unfold Ending
  rw [List.takeWhile_append_of_pos inside.kept, stop, List.append_nil]
  exact blank

theorem rows_solid {gap words : List Char} (blank : AllBlank gap) (inside : Inline words)
    (solid : Solid words) (nonempty : words ≠ []) (text : List Char) :
    ∃ chunk more, text = chunk ++ more ∧ Inline chunk ∧ Ending more ∧
      rows (gap ++ (words ++ text)) = (words ++ chunk) :: rows more := by
  obtain ⟨l, more, rfl, onLine, ends, -⟩ := line_parts text
  obtain ⟨bs, parts, back⟩ := trimRight_parts l
  have chunkLine : Inline (trimRight l) := fun c member =>
    onLine c (by rw [parts]; exact List.mem_append_left _ member)
  have gapLine : Inline bs := fun c member =>
    onLine c (by rw [parts]; exact List.mem_append_right _ member)
  refine ⟨trimRight l, bs ++ more, ?_, chunkLine, ending_line back gapLine ends, ?_⟩
  · rw [← List.append_assoc, ← parts]
  · have first : row (words ++ l) = [words ++ trimRight l] := by
      unfold row
      rw [trim_solid_append solid nonempty, if_neg (by simp [nonempty])]
    have whole : Inline (words ++ l) := fun c member =>
      (List.mem_append.mp member).elim (inside c) (onLine c)
    rw [rows_blank_front blank, ← List.append_assoc, rows_append whole ends, first,
      rows_blank_front back]
    rfl

theorem blank_or_solid (text : List Char) :
    AllBlank text ∨ ∃ gap c rest, text = gap ++ (c :: rest) ∧ AllBlank gap ∧ isBlank c = false := by
  have parts := List.takeWhile_append_dropWhile (p := isBlank) (l := text)
  have blank : AllBlank (text.takeWhile isBlank) := fun c member => List.mem_takeWhile_imp member
  have stop := List.head?_dropWhile_not isBlank text
  cases rest : text.dropWhile isBlank with
  | nil => exact .inl (List.dropWhile_eq_nil_iff.mp rest)
  | cons c rest' =>
    rw [rest] at parts stop
    exact .inr ⟨_, c, rest', parts.symm, blank, stop⟩

theorem isBreak_of_not_isBlank {c : Char} (solid : isBlank c = false) : isBreak c = false := by
  rw [← Bool.not_eq_true]
  exact fun ends => nomatch (isBlank_of_isBreak ends).symm.trans solid

theorem rows_first {gap : List Char} {c : Char} (blank : AllBlank gap) (solid : isBlank c = false)
    (text : List Char) :
    ∃ chunk more, text = chunk ++ more ∧ Inline chunk ∧ Ending more ∧
      rows (gap ++ (c :: text)) = (c :: chunk) :: rows more := by
  have single : Solid [c] := ⟨by simpa using solid, by simpa using solid⟩
  exact rows_solid blank (List.forall_mem_singleton.mpr (isBreak_of_not_isBlank solid)) single
    (List.cons_ne_nil _ _) text

theorem allBlank_of_rows {text : List Char} (none : rows text = []) : AllBlank text := by
  rcases blank_or_solid text with blank | ⟨gap, c, rest, rfl, blank, solid⟩
  · exact blank
  · obtain ⟨chunk, more, -, -, -, split⟩ := rows_first blank solid rest
    exact nomatch none.symm.trans split

theorem rows_eq_cons {text l : List Char} {ls : List (List Char)} (split : rows text = l :: ls)
    (ending : Ending text) :
    ∃ gap more, text = gap ++ (l ++ more) ∧ AllBlank gap ∧ (∃ b ∈ gap, isBreak b = true) ∧
      Inline l ∧ Ending more ∧ rows more = ls := by
  rcases blank_or_solid text with blank | ⟨gap, c, rest, rfl, blank, solid⟩
  · rw [rows_blank blank] at split
    contradiction
  · have inside := isBreak_of_not_isBlank solid
    obtain ⟨chunk, more, rfl, chunkLine, last, whole⟩ := rows_first blank solid rest
    obtain ⟨rfl, rfl⟩ := List.cons.inj (split.symm.trans whole)
    refine ⟨gap, more, rfl, blank, ?_, List.forall_mem_cons.mpr ⟨inside, chunkLine⟩, last, rfl⟩
    -- Without a break in the gap, the character would stand on the line that only has blanks.
    by_contra none
    have onLine : Inline gap := fun b member => by
      rw [← Bool.not_eq_true]
      exact fun ends => none ⟨b, member, ends⟩
    have reached : c ∈ (gap ++ c :: (chunk ++ more)).takeWhile (!isBreak ·) := by
      rw [List.takeWhile_append_of_pos onLine.kept, List.takeWhile_cons_of_pos (by simp [inside])]
      simp
    exact nomatch (ending c reached).symm.trans solid

end Text

/-! Blocks. -/

theorem followBraces_open (depth : Nat) (cs : List Char) :
    followBraces depth ('\x7b' :: cs) =
      (followBraces (depth + 1) cs).map fun p => ('\x7b' :: p.1, p.2) := by
  rw [followBraces.eq_def]
  rfl

theorem followBraces_close (depth : Nat) (cs : List Char) :
    followBraces depth ('\x7d' :: cs) =
      match depth with
      | 0 => .ok ([], cs)
      | d + 1 => (followBraces d cs).map fun p => ('\x7d' :: p.1, p.2) := by
  rw [followBraces.eq_def]
  rfl

theorem followBraces_plain {c : Char} (notOpen : c ≠ '\x7b') (notClose : c ≠ '\x7d') (depth : Nat)
    (cs : List Char) :
    followBraces depth (c :: cs) = (followBraces depth cs).map fun p => (c :: p.1, p.2) := by
  rw [followBraces.eq_def]
  dsimp only
  rw [if_neg notOpen, if_neg notClose]

theorem followBraces_step (depth : Nat) (c : Char) :
    (c = '\x7d' ∧ ∀ cs, followBraces depth (c :: cs) = .ok ([], cs)) ∨
      ∃ next, ∀ cs,
        followBraces depth (c :: cs) = (followBraces next cs).map fun p => (c :: p.1, p.2) := by
  by_cases opens : c = '\x7b'
  · subst opens
    exact .inr ⟨depth + 1, followBraces_open depth⟩
  · by_cases closes : c = '\x7d'
    · subst closes
      cases depth with
      | zero => exact .inl ⟨rfl, followBraces_close 0⟩
      | succ depth => exact .inr ⟨depth, followBraces_close (depth + 1)⟩
    · exact .inr ⟨depth, followBraces_plain opens closes depth⟩

theorem followBraces_parts {depth : Nat} {cs inside after : List Char}
    (closes : followBraces depth cs = .ok (inside, after)) : cs = inside ++ '\x7d' :: after := by
  induction cs generalizing depth inside with
  | nil => exact nomatch closes
  | cons c cs ih =>
    rcases followBraces_step depth c with ⟨rfl, closing⟩ | ⟨next, passes⟩
    · rw [closing] at closes
      cases closes
      rfl
    · rw [passes] at closes
      cases rest : followBraces next cs with
      | error unclosed =>
        rw [rest] at closes
        exact nomatch closes
      | ok p =>
        rw [rest] at closes
        cases closes
        rw [ih rest]
        rfl

theorem followBraces_ok_append {depth : Nat} {cs inside after : List Char}
    (closes : followBraces depth cs = .ok (inside, after)) (more : List Char) :
    followBraces depth (cs ++ more) = .ok (inside, after ++ more) := by
  induction cs generalizing depth inside with
  | nil => exact nomatch closes
  | cons c cs ih =>
    rcases followBraces_step depth c with ⟨-, closing⟩ | ⟨next, passes⟩
    · rw [closing] at closes
      cases closes
      exact closing _
    · rw [passes] at closes
      rw [List.cons_append, passes]
      cases rest : followBraces next cs with
      | error unclosed =>
        rw [rest] at closes
        exact nomatch closes
      | ok p =>
        rw [rest] at closes
        cases closes
        rw [ih rest]
        rfl

theorem followBraces_error_append {depth unclosed : Nat} {cs : List Char}
    (opens : followBraces depth cs = .error unclosed) (more : List Char) :
    followBraces depth (cs ++ more) =
      (followBraces unclosed more).map fun p => (cs ++ p.1, p.2) := by
  induction cs generalizing depth with
  | nil =>
    cases opens
    rw [List.nil_append]
    cases followBraces unclosed more <;> rfl
  | cons c cs ih =>
    rcases followBraces_step depth c with ⟨-, closing⟩ | ⟨next, passes⟩
    · rw [closing] at opens
      exact nomatch opens
    · rw [passes] at opens
      rw [List.cons_append, passes]
      cases rest : followBraces next cs with
      | ok p =>
        rw [rest] at opens
        exact nomatch opens
      | error =>
        rw [rest] at opens
        cases opens
        rw [ih rest]
        cases followBraces unclosed more <;> rfl

/-- Every brace that opens in the text is closed in it, and no other. -/
def Closed (cs : List Char) : Prop := ∀ depth, followBraces depth cs = .error depth

theorem Closed.append {cs ds : List Char} (first : Closed cs) (second : Closed ds) :
    Closed (cs ++ ds) := by
  intro depth
  rw [followBraces_error_append (first depth), second]
  rfl

theorem closed_plain {cs : List Char} (plain : ∀ c ∈ cs, c ≠ '\x7b' ∧ c ≠ '\x7d') :
    Closed cs := by
  intro depth
  induction cs with
  | nil => rfl
  | cons c cs ih =>
    obtain ⟨⟨notOpen, notClose⟩, plain⟩ := List.forall_mem_cons.mp plain
    rw [followBraces_plain notOpen notClose, ih plain]
    rfl

theorem closed_blank {cs : List Char} (blank : Text.AllBlank cs) : Closed cs := by
  refine closed_plain fun c member => ?_
  constructor <;> rintro rfl <;> exact absurd (blank _ member) (by decide)

theorem Closed.braced {cs : List Char} (inside : Closed cs) :
    Closed ('\x7b' :: (cs ++ ['\x7d'])) := by
  intro depth
  rw [followBraces_open, followBraces_error_append (inside _), followBraces_close]
  rfl

theorem Closed.block {cs : List Char} (inside : Closed cs) (after : List Char) :
    followBraces 0 (cs ++ '\x7d' :: after) = .ok (cs, after) := by
  rw [followBraces_error_append (inside 0), followBraces_close]
  simp [Except.map]

theorem ofText_row (number : Nat) (cs : List Char) :
    (Line.ofText number cs).map Prod.snd = Text.row cs := by
  unfold Line.ofText Text.row
  split <;> rfl

/-- The lines of a block are the lines of a text, and so is what remains. -/
structure Block.Spells (b : Block) (inside after : List Char) : Prop where
  body : b.body.map Prod.snd = Text.rows inside
  remaining : b.remaining.map Prod.snd = Text.rows after

theorem takeBlock_here {depth : Nat} {chunk front back more : List Char} {lines : List Line}
    (closes : followBraces depth chunk = .ok (front, back)) (onLine : Text.Inline chunk)
    (ending : Text.Ending more) (spells : lines.map Prod.snd = Text.rows more) (number : Nat) :
    ∃ b, takeBlock depth number chunk lines = some b ∧ b.Spells front (back ++ more) := by
  have parts := followBraces_parts closes
  have frontLine : Text.Inline front := fun c member =>
    onLine c (by rw [parts]; exact List.mem_append_left _ member)
  have backLine : Text.Inline back := fun c member =>
    onLine c (by rw [parts]; exact List.mem_append_right _ (List.mem_cons_of_mem _ member))
  refine ⟨⟨Line.ofText number front, Text.trim back, number, lines⟩, ?_, ?_, ?_⟩
  · cases lines <;> rw [takeBlock, closes]
  · rw [Text.rows_inline frontLine]
    exact ofText_row number front
  · rw [Text.rows_ending backLine ending, ← spells]
    unfold Block.remaining Text.row
    dsimp only
    split <;> rfl

/-- A block taken from the lines of a text is the block of that text. -/
theorem takeBlock_spells {depth : Nat} {chunk more inside after : List Char} {lines : List Line}
    (onLine : Text.Inline chunk) (ending : Text.Ending more)
    (spells : lines.map Prod.snd = Text.rows more)
    (closes : followBraces depth (chunk ++ more) = .ok (inside, after)) (number : Nat) :
    ∃ b, takeBlock depth number chunk lines = some b ∧ b.Spells inside after := by
  induction lines generalizing depth number chunk more inside with
  | nil =>
    cases here : followBraces depth chunk with
    | ok p =>
      rw [followBraces_ok_append here] at closes
      cases closes
      exact takeBlock_here here onLine ending spells number
    | error unclosed =>
      -- Only blanks follow, and they close nothing.
      have blank := Text.allBlank_of_rows spells.symm
      rw [followBraces_error_append here, closed_blank blank] at closes
      exact nomatch closes
  | cons line lines ih =>
    obtain ⟨n, l⟩ := line
    cases here : followBraces depth chunk with
    | ok p =>
      rw [followBraces_ok_append here] at closes
      cases closes
      exact takeBlock_here here onLine ending spells number
    | error unclosed =>
      obtain ⟨gap, rest, rfl, blank, ⟨c, member, ends⟩, rowLine, ending', spells'⟩ :=
        Text.rows_eq_cons spells.symm ending
      rw [followBraces_error_append here,
        followBraces_error_append (closed_blank blank _)] at closes
      cases later : followBraces unclosed (l ++ rest) with
      | error =>
        rw [later] at closes
        exact nomatch closes
      | ok p =>
        rw [later] at closes
        cases closes
        obtain ⟨b, taken, body, remaining⟩ := ih rowLine ending' spells'.symm later n
        refine ⟨{ b with body := Line.ofText number chunk ++ b.body }, ?_, ?_, remaining⟩
        · rw [takeBlock, here]
          dsimp only
          rw [taken]
          rfl
        · have breaks : Text.Breaks (gap ++ p.1) := by
            refine ⟨c, ?_, ends⟩
            rw [List.takeWhile_append_of_pos blank]
            exact List.mem_append_left _ member
          rw [Text.rows_ending onLine (Text.ending_of_breaks breaks), Text.rows_blank_front blank,
            List.map_append, ofText_row, body]

/-! Comments: no slash stands next to another. -/

def Spaced (cs : List Char) : Prop :=
  ∀ left right, cs = left ++ '/' :: right → ∃ more, right = ' ' :: more

theorem Spaced.append {cs ds : List Char} (first : Spaced cs) (second : Spaced ds) :
    Spaced (cs ++ ds) := by
  intro left right parts
  rcases append_eq_append_cons parts with ⟨more, front, rfl⟩ | ⟨more, rfl, behind⟩
  · obtain ⟨rest, rfl⟩ := first left more front
    exact ⟨rest ++ ds, rfl⟩
  · exact second more right behind

theorem spaced_plain {cs : List Char} (plain : ∀ c ∈ cs, c ≠ '/') : Spaced cs := by
  rintro left right rfl
  exact absurd rfl (plain '/' (by simp))

theorem Spaced.cons {c : Char} {cs : List Char} (plain : c ≠ '/') (spaced : Spaced cs) :
    Spaced (c :: cs) :=
  (spaced_plain (List.forall_mem_singleton.mpr plain)).append spaced

theorem withoutComment_plain {cs : List Char}
    (plain : ∀ left right, cs ≠ left ++ '/' :: '/' :: right) : Text.withoutComment cs = cs := by
  fun_induction Text.withoutComment cs with
  | case1 => rfl
  | case2 cs => exact absurd rfl (plain [] cs)
  | case3 c cs _ ih =>
    rw [ih fun left right parts => plain (c :: left) right (by rw [parts]; rfl)]

theorem starts_of_lines {text l : List Char} {ls : List (List Char)}
    (split : Text.lines text = l :: ls) : l <+: text := by
  fun_induction Text.lines text generalizing l ls with
  | case1 => exact nomatch split
  | case2 | case3 =>
    cases split
    exact List.nil_prefix
  | case4 c cs =>
    cases split
    exact ⟨cs, rfl⟩
  | case5 c cs _ _ l' ls' rest ih =>
    cases split
    exact List.cons_prefix_cons.mpr ⟨rfl, ih rest⟩

theorem inside_of_lines {text l : List Char} (member : l ∈ Text.lines text) : l <:+: text := by
  fun_induction Text.lines text generalizing l with
  | case1 => exact absurd member List.not_mem_nil
  | case2 cs ih =>
    rcases List.mem_cons.mp member with rfl | later
    · exact List.nil_infix
    · exact List.infix_cons (List.infix_cons (ih later))
  | case3 c cs _ _ ih =>
    rcases List.mem_cons.mp member with rfl | later
    · exact List.nil_infix
    · exact List.infix_cons (ih later)
  | case4 c cs =>
    rw [List.mem_singleton.mp member]
    exact ⟨[], cs, rfl⟩
  | case5 c cs _ _ l' ls' rest ih =>
    rcases List.mem_cons.mp member with rfl | later
    · exact (List.cons_prefix_cons.mpr ⟨rfl, starts_of_lines rest⟩).isInfix
    · exact List.infix_cons (ih (rest ▸ List.mem_cons_of_mem _ later))

/-- Without comments, the numbered lines of a text are its rows. -/
theorem numbered_rows {text : List Char} (spaced : Spaced text) (n : Nat) :
    (Line.numbered n (Text.lines text)).map Prod.snd = Text.rows text := by
  have plain : ∀ l ∈ Text.lines text, Text.withoutComment l = l := by
    intro l member
    obtain ⟨front, back, whole⟩ := inside_of_lines member
    refine withoutComment_plain fun left right parts => ?_
    obtain ⟨more, same⟩ := spaced (front ++ left) ('/' :: right ++ back) (by
      rw [← whole, parts]
      simp)
    cases same
  unfold Text.rows
  generalize Text.lines text = ls at plain
  induction ls generalizing n with
  | nil => rfl
  | cons l ls ih =>
    obtain ⟨first, plain⟩ := List.forall_mem_cons.mp plain
    rw [Line.numbered, first, List.map_append, ofText_row, ih _ plain, List.flatMap_cons]

end Assay
