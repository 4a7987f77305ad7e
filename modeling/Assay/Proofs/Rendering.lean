import Assay.Proofs.Forms

/-! A program is read back from every text that shows it. The layout is free: statements are
separated by blanks of any kind, and only behind a statement without braces a line has to end,
unless the block ends there. -/
namespace Assay

/-! Programs that can be shown. -/

def Expr.Legible (e : Expr Empty) : Prop := ∃ line text, readExpr line text = .ok e

structure Assign.Legible (a : Assign Empty) : Prop where
  name : Text.isName a.target.toList = true
  value : a.value.Legible

/-- The names are names, the expressions are such as reading returns, and no assignment that
stands as a statement has a keyword as its target. -/
inductive Legible : Program Empty → Prop where
  | nil : Legible []
  | assign {a : Assign Empty} {rest : Program Empty} : a.Legible →
      (∀ k ∈ Keyword.all, a.target.toList ≠ k.text) → Legible rest → Legible (.assign a :: rest)
  | assert {cond : Expr Empty} {rest : Program Empty} : cond.Legible → Legible rest →
      Legible (.assert cond :: rest)
  | branch {cond : Expr Empty} {body other rest : Program Empty} : cond.Legible →
      Legible body → Legible other → Legible rest → Legible (.branch cond body other :: rest)
  | whileLoop {cond : Expr Empty} {body rest : Program Empty} : cond.Legible →
      Legible body → Legible rest → Legible (.whileLoop cond body :: rest)
  | forLoop {init update : Assign Empty} {cond : Expr Empty} {body rest : Program Empty} :
      init.Legible → cond.Legible → update.Legible → Legible body → Legible rest →
      Legible (.forLoop init cond update body :: rest)

/-- A text shows a program. Gaps are blanks of any kind, also none: spaces or line breaks behind
an opening brace and around a closing one, between statements, and in front of `else`, which is
left out where there is nothing to do. A line ends behind an assignment or assertion that another
statement follows. -/
inductive Shows : Program Empty → List Char → Prop where
  | done {gap : List Char} : Text.AllBlank gap → Shows [] gap
  | assign {a : Assign Empty} {rest : Program Empty} {gap text : List Char} :
      Text.AllBlank gap → Shows rest text → (rest = [] ∨ Text.Breaks text) →
      Shows (.assign a :: rest) (gap ++ ((Stmt.assignLine a).toList ++ text))
  | assert {cond : Expr Empty} {rest : Program Empty} {gap text : List Char} :
      Text.AllBlank gap → Shows rest text → (rest = [] ∨ Text.Breaks text) →
      Shows (.assert cond :: rest) (gap ++ ((Stmt.assertLine cond).toList ++ text))
  | branch {cond : Expr Empty} {body rest : Program Empty} {gap inside text : List Char} :
      Text.AllBlank gap → Shows body inside → Shows rest text →
      Shows (.branch cond body [] :: rest)
        (gap ++ ((Stmt.ifHead cond).toList ++ (inside ++ '\x7d' :: text)))
  | branchElse {cond : Expr Empty} {body other rest : Program Empty}
      {gap inside gap' inside' text : List Char} :
      Text.AllBlank gap → Shows body inside → Text.AllBlank gap' → other ≠ [] →
      Shows other inside' → Shows rest text →
      Shows (.branch cond body other :: rest)
        (gap ++ ((Stmt.ifHead cond).toList ++ (inside ++ '\x7d' ::
          (gap' ++ (Stmt.elseHead.toList ++ (inside' ++ '\x7d' :: text))))))
  | whileLoop {cond : Expr Empty} {body rest : Program Empty} {gap inside text : List Char} :
      Text.AllBlank gap → Shows body inside → Shows rest text →
      Shows (.whileLoop cond body :: rest)
        (gap ++ ((Stmt.whileHead cond).toList ++ (inside ++ '\x7d' :: text)))
  | forLoop {init update : Assign Empty} {cond : Expr Empty} {body rest : Program Empty}
      {gap inside text : List Char} :
      Text.AllBlank gap → Shows body inside → Shows rest text →
      Shows (.forLoop init cond update body :: rest)
        (gap ++ ((Stmt.forHead init cond update).toList ++ (inside ++ '\x7d' :: text)))

theorem Expr.Legible.readable {e : Expr Empty} (legible : e.Legible) : e.Readable := by
  obtain ⟨line, text, reads⟩ := legible
  exact (Expr.readTrimmed_readable reads).1

theorem Assign.Legible.readable {a : Assign Empty} (legible : a.Legible) : a.Readable :=
  ⟨legible.name, legible.value.readable⟩

theorem breaks_feed (text : List Char) : Text.Breaks ('\n' :: text) := by
  refine ⟨'\n', ?_, by decide⟩
  rw [List.takeWhile_cons_of_pos (by decide)]
  exact List.mem_cons_self ..

theorem exists_shows {p : Program Empty} (legible : Legible p) :
    ∃ text, Shows p ('\n' :: text) := by
  have space : Text.AllBlank [' '] := Text.allBlank_space
  have feed : Text.AllBlank ['\n'] := List.forall_mem_singleton.mpr (by decide)
  induction legible with
  | nil => exact ⟨[], .done feed⟩
  | assign _ _ _ rest =>
    obtain ⟨text, shown⟩ := rest
    exact ⟨_, .assign feed shown (.inr (breaks_feed text))⟩
  | assert _ _ rest =>
    obtain ⟨text, shown⟩ := rest
    exact ⟨_, .assert feed shown (.inr (breaks_feed text))⟩
  | @branch cond body other rest _ _ _ _ thenPart elsePart rest' =>
    obtain ⟨inside, first⟩ := thenPart
    obtain ⟨inside', second⟩ := elsePart
    obtain ⟨text, shown⟩ := rest'
    by_cases none : other = []
    · subst none
      exact ⟨_, .branch feed first shown⟩
    · exact ⟨_, .branchElse feed first space none second shown⟩
  | whileLoop _ _ _ body rest =>
    obtain ⟨inside, first⟩ := body
    obtain ⟨text, shown⟩ := rest
    exact ⟨_, .whileLoop feed first shown⟩
  | forLoop _ _ _ _ _ body rest =>
    obtain ⟨inside, first⟩ := body
    obtain ⟨text, shown⟩ := rest
    exact ⟨_, .forLoop feed first shown⟩

/-! Texts that show programs. -/

structure Whole (cs : List Char) : Prop where
  closed : Closed cs
  spaced : Spaced cs

theorem Whole.append {cs ds : List Char} (first : Whole cs) (second : Whole ds) :
    Whole (cs ++ ds) :=
  ⟨first.closed.append second.closed, first.spaced.append second.spaced⟩

theorem Phrase.whole {cs : List Char} (phrase : Phrase cs) : Whole cs :=
  ⟨closed_plain phrase.plain, phrase.spaced⟩

theorem whole_blank {gap : List Char} (blank : Text.AllBlank gap) : Whole gap := by
  refine ⟨closed_blank blank, spaced_plain ?_⟩
  rintro c member rfl
  exact absurd (blank _ member) (by decide)

theorem Whole.braced {cs : List Char} (inside : Whole cs) : Whole ('\x7b' :: (cs ++ ['\x7d'])) :=
  ⟨inside.closed.braced, .cons (by decide) (inside.spaced.append (spaced_plain (by simp)))⟩

section

variable {head gap text : List Char}

theorem Heading.line (heading : Heading head ';') (blank : Text.AllBlank gap) (rest : Whole text) :
    Whole (gap ++ (head ++ text)) := by
  obtain ⟨stem, rfl, phrase⟩ := heading.parts
  have mark : Phrase [';'] := phrase_plain (by decide)
  exact (whole_blank blank).append ((phrase.append mark).whole.append rest)

theorem Heading.block (heading : Heading head '\x7b') (blank : Text.AllBlank gap)
    {inside : List Char} (body : Whole inside) (rest : Whole text) :
    Whole (gap ++ (head ++ (inside ++ '\x7d' :: text))) := by
  obtain ⟨stem, rfl, phrase⟩ := heading.parts
  have block := phrase.whole.append (body.braced.append rest)
  exact (whole_blank blank).append (by simpa using block)

end

theorem Shows.whole {p : Program Empty} {text : List Char} (shown : Shows p text)
    (legible : Legible p) : Whole text := by
  induction shown with
  | done gap => exact whole_blank gap
  | assign gap _ _ ih =>
    cases legible with
    | assign a _ rest => exact (Stmt.assignLine_heading a.readable).line gap (ih rest)
  | assert gap _ _ ih =>
    cases legible with
    | assert cond rest => exact (Stmt.assertLine_heading cond.readable).line gap (ih rest)
  | branch gap _ _ body rest =>
    cases legible with
    | branch cond first _ last =>
      exact (Stmt.ifHead_heading cond.readable).block gap (body first) (rest last)
  | branchElse gap _ gap' _ _ _ body other rest =>
    cases legible with
    | branch cond first second last =>
      have behind := Stmt.elseHead_heading.block gap' (other second) (rest last)
      exact (Stmt.ifHead_heading cond.readable).block gap (body first) behind
  | whileLoop gap _ _ body rest =>
    cases legible with
    | whileLoop cond first last =>
      exact (Stmt.whileHead_heading cond.readable).block gap (body first) (rest last)
  | forLoop gap _ _ body rest =>
    cases legible with
    | forLoop i cond u first last =>
      exact (Stmt.forHead_heading i.readable cond.readable u.readable).block gap (body first)
        (rest last)

/-! Blocks of statements. -/

def Shape.stmt : Shape Empty → Except Error (Stmt Empty)
  | .simple s => .ok s
  | .branch c t e => do return .branch c (← readBlock t) (← readBlock e)
  | .whileLoop c b => do return .whileLoop c (← readBlock b)
  | .forLoop i c u b => do return .forLoop i c u (← readBlock b)

/-- The equation of reading, without the equalities that carry its termination. -/
theorem readBlock_cons (line : Line) (lines : List Line) :
    readBlock (ω := Empty) (line :: lines) = do
      let (shape, rest) ← readShape line lines
      let s ← shape.stmt
      let more ← readBlock rest
      return s :: more := by
  rw [readBlock]
  split
  · rename_i found
    rw [found]
    rfl
  · rename_i rest found
    rw [found]
    dsimp only [bind, Except.bind, Shape.stmt]
    cases readBlock (ω := Empty) rest <;> rfl
  · rename_i t e rest found
    rw [found]
    dsimp only [bind, Except.bind, Shape.stmt]
    cases readBlock (ω := Empty) t with
    | error x => rfl
    | ok t =>
      cases readBlock (ω := Empty) e with
      | error x => rfl
      | ok e => cases readBlock (ω := Empty) rest <;> rfl
  · rename_i b rest found
    rw [found]
    dsimp only [bind, Except.bind, Shape.stmt]
    cases readBlock (ω := Empty) b with
    | error x => rfl
    | ok b => cases readBlock (ω := Empty) rest <;> rfl
  · rename_i b rest found
    rw [found]
    dsimp only [bind, Except.bind, Shape.stmt]
    cases readBlock (ω := Empty) b with
    | error x => rfl
    | ok b => cases readBlock (ω := Empty) rest <;> rfl

theorem readBlock_step {line : Line} {lines rest : List Line} {shape : Shape Empty}
    {s : Stmt Empty} {more : Program Empty} (found : readShape line lines = .ok (shape, rest))
    (bodies : shape.stmt = .ok s) (later : readBlock rest = .ok more) :
    readBlock (line :: lines) = .ok (s :: more) := by
  rw [readBlock_cons, found]
  dsimp only [bind, Except.bind]
  rw [bodies]
  dsimp only
  rw [later]
  rfl

theorem keyword?_of_readBlock {n : Nat} {l : List Char} {lines : List Line} {p : Program Empty}
    (reads : readBlock ((n, l) :: lines) = .ok p) : keyword? l ≠ some .elseWord := by
  intro word
  have stops : readShape (ω := Empty) (n, l) lines = .error (.parse n .elseAlone) := by
    unfold readShape
    rw [word]
  rw [readBlock_cons, stops] at reads
  exact nomatch reads

/-! The lines that remain behind a block. -/

theorem Block.joinElse_remaining (b : Block) : b.joinElse.remaining = b.remaining := by
  unfold Block.joinElse
  split
  · rename_i n l ls empty rest
    split
    · rename_i starts
      cases l with
      | nil => contradiction
      | cons c l => simp [Block.remaining, empty, rest]
    · rfl
  · rfl

theorem readElse_none {b : Block} {p : Program Empty} (reads : readBlock b.remaining = .ok p) :
    readElse b.joinElse = .ok ([], b.remaining) := by
  have other : keyword? b.joinElse.trailing ≠ some .elseWord := by
    rw [← b.joinElse_remaining] at reads
    unfold Block.remaining at reads
    split at reads
    · rename_i empty
      rw [List.isEmpty_iff.mp empty]
      decide
    · exact keyword?_of_readBlock reads
  unfold readElse
  rw [if_neg other, b.joinElse_remaining]

theorem joinElse_line {b : Block} {n : Nat} {chunk : List Char} {lines : List Line}
    (remaining : b.remaining = (n, Stmt.elseHead.toList ++ chunk) :: lines) :
    b.joinElse.trailing = Stmt.elseHead.toList ++ chunk ∧ b.joinElse.closing = n ∧
      b.joinElse.rest = lines := by
  have starts : Keyword.elseWord.text.isPrefixOf (Stmt.elseHead.toList ++ chunk) = true := rfl
  unfold Block.remaining at remaining
  unfold Block.joinElse
  split at remaining
  · rename_i empty
    rw [List.isEmpty_iff.mp empty, remaining]
    dsimp only
    rw [if_pos starts]
    exact ⟨rfl, rfl, rfl⟩
  · rename_i nonempty
    obtain ⟨same, rfl⟩ := List.cons.inj remaining
    obtain ⟨rfl, trailing⟩ := Prod.mk.inj same
    split
    · rename_i empty _
      rw [empty] at nonempty
      contradiction
    · exact ⟨trailing, rfl, rfl⟩

theorem readElse_line {b e : Block} {n : Nat} {chunk : List Char} {lines : List Line}
    (remaining : b.remaining = (n, Stmt.elseHead.toList ++ chunk) :: lines)
    (opened : openBlock n chunk lines = .ok e) :
    readElse b.joinElse = .ok (e.body, e.remaining) := by
  obtain ⟨trailing, closing, rest⟩ := joinElse_line remaining
  have word : keyword? (Stmt.elseHead.toList ++ chunk) = some .elseWord :=
    keyword?_word .elseWord (by decide +kernel) _
  unfold readElse
  rw [trailing, closing, rest, if_pos word, matchElse?_head]
  dsimp only
  rw [opened]
  rfl

theorem Heading.opens {head gap inside text : List Char} {lines : List Line}
    (heading : Heading head '\x7b') (blank : Text.AllBlank gap) (closed : Closed inside)
    (spells : lines.map Prod.snd = Text.rows (gap ++ (head ++ (inside ++ '\x7d' :: text)))) :
    ∃ n chunk rest b, lines = (n, head ++ chunk) :: rest ∧ openBlock n chunk rest = .ok b ∧
      b.Spells inside text := by
  obtain ⟨chunk, more, parts, onLine, ending, split⟩ := Text.rows_solid blank
    (heading.onLine (by decide)) (heading.solid (by decide)) heading.ne_nil
    (inside ++ '\x7d' :: text)
  obtain ⟨⟨n, l⟩, rest, rfl, rfl, spells'⟩ := List.map_eq_cons_iff.mp (spells.trans split)
  obtain ⟨b, taken, block⟩ := takeBlock_spells onLine ending spells'
    (parts ▸ closed.block text) n
  refine ⟨n, chunk, rest, b, rfl, ?_, block⟩
  unfold openBlock
  rw [taken]

theorem Heading.alone {head gap text : List Char} {lines : List Line}
    (heading : Heading head ';') (blank : Text.AllBlank gap) (ending : Text.Ending text)
    (spells : lines.map Prod.snd = Text.rows (gap ++ (head ++ text))) :
    ∃ n rest, lines = (n, head) :: rest ∧ rest.map Prod.snd = Text.rows text := by
  rw [Text.rows_blank_front blank, Text.rows_ending (heading.onLine (by decide)) ending,
    Text.row_solid (heading.solid (by decide)) heading.ne_nil] at spells
  obtain ⟨⟨n, l⟩, rest, rfl, rfl, spells'⟩ := List.map_eq_cons_iff.mp spells
  exact ⟨n, rest, rfl, spells'⟩

theorem Shows.ending {rest : Program Empty} {text : List Char} (shown : Shows rest text)
    (ends : rest = [] ∨ Text.Breaks text) : Text.Ending text := by
  rcases ends with rfl | breaks
  · cases shown with
    | done blank => exact Text.ending_of_blank blank
  · exact Text.ending_of_breaks breaks

theorem Shows.reads {p : Program Empty} {text : List Char} (shown : Shows p text)
    (legible : Legible p) {lines : List Line} (spells : lines.map Prod.snd = Text.rows text) :
    readBlock lines = .ok p := by
  -- Along the text: a header is found on its line, and its block and what remains are again lines
  -- of shorter texts that show the body and the rest.
  induction shown generalizing lines with
  | done gap =>
    rw [Text.rows_blank gap, List.map_eq_nil_iff] at spells
    rw [spells, readBlock]
  | assign gap shown ends ih =>
    cases legible with
    | assign a other rest =>
      obtain ⟨n, lines, rfl, behind⟩ :=
        (Stmt.assignLine_heading a.readable).alone gap (shown.ending ends) spells
      exact readBlock_step (readShape_assign a.readable other) rfl (ih rest behind)
  | assert gap shown ends ih =>
    cases legible with
    | assert cond rest =>
      obtain ⟨n, lines, rfl, behind⟩ :=
        (Stmt.assertLine_heading cond.readable).alone gap (shown.ending ends) spells
      exact readBlock_step (readShape_assert cond.readable) rfl (ih rest behind)
  | branch gap shown _ ihBody ihRest =>
    cases legible with
    | branch cond body _ rest =>
      obtain ⟨n, chunk, lines, b, rfl, opened, inside, behind⟩ :=
        (Stmt.ifHead_heading cond.readable).opens gap (shown.whole body).closed spells
      have later := ihRest rest behind
      refine readBlock_step (readShape_if cond.readable opened (readElse_none later)) ?_ later
      rw [Shape.stmt, ihBody body inside, readBlock]
      rfl
  | branchElse gap shown gap' _ shown' _ ihBody ihElse ihRest =>
    cases legible with
    | branch cond body other rest =>
      obtain ⟨n, chunk, lines, b, rfl, opened, inside, behind⟩ :=
        (Stmt.ifHead_heading cond.readable).opens gap (shown.whole body).closed spells
      obtain ⟨n', chunk', lines', e, remaining, opened', inside', behind'⟩ :=
        Stmt.elseHead_heading.opens gap' (shown'.whole other).closed behind
      refine readBlock_step (readShape_if cond.readable opened
        (readElse_line remaining opened')) ?_ (ihRest rest behind')
      rw [Shape.stmt, ihBody body inside, ihElse other inside']
      rfl
  | whileLoop gap shown _ ihBody ihRest =>
    cases legible with
    | whileLoop cond body rest =>
      obtain ⟨n, chunk, lines, b, rfl, opened, inside, behind⟩ :=
        (Stmt.whileHead_heading cond.readable).opens gap (shown.whole body).closed spells
      refine readBlock_step (readShape_while cond.readable opened) ?_ (ihRest rest behind)
      rw [Shape.stmt, ihBody body inside]
      rfl
  | forLoop gap shown _ ihBody ihRest =>
    cases legible with
    | forLoop i cond u body rest =>
      obtain ⟨n, chunk, lines, b, rfl, opened, inside, behind⟩ :=
        (Stmt.forHead_heading i.readable cond.readable u.readable).opens gap
          (shown.whole body).closed spells
      refine readBlock_step (readShape_for i.readable cond.readable u.readable opened) ?_
        (ihRest rest behind)
      rw [Shape.stmt, ihBody body inside]
      rfl

/-- Every legible program can be shown, and every text that shows it is read as that program. -/
theorem parse_shown (p : Program Empty) (legible : Legible p) :
    (∃ text : String, Shows p text.toList) ∧
      ∀ text : String, Shows p text.toList → (parse text).trace.1 = .ok p := by
  constructor
  · obtain ⟨text, shown⟩ := exists_shows legible
    exact ⟨String.ofList ('\n' :: text), by rwa [String.toList_ofList]⟩
  · intro text shown
    have reads : readProgram text.toList = .ok p :=
      shown.reads legible (numbered_rows (shown.whole legible).spaced 1)
    unfold parse
    rw [reads]
    rfl

def markNegatives : Program Empty :=
  [.whileLoop (.binary (.compare .lt) (.var "i") (.lit 3))
    [.branch (.binary (.compare .lt) (.read "a" (.var "i")) (.lit (-1)))
      [.assign ⟨"x", .lit 1⟩, .assert (.unary .not (.var "b"))]
      [.forLoop ⟨"j", .lit 0⟩ (.binary (.compare .lt) (.var "j") (.var "i"))
        ⟨"j", .binary (.compute .add) (.var "j") (.lit 1)⟩
        [.assign ⟨"x", .binary (.compute .div) (.var "x") (.lit 2)⟩]],
      .assign ⟨"i", .binary (.compute .add) (.var "i") (.lit 1)⟩],
    .assign ⟨"elsewhere", .var "x"⟩]

/-- One text that shows it: an `else` at the start of a line, and blocks that share lines. -/
def markNegativesText : String :=
  "while (i < 3) \x7b if (a[i] < -1) \x7b\nx := 1;\nassert(!b); \x7d\n" ++
  "else \x7b for (j := 0; j < i; j := j + 1) \x7b x := x / 2; \x7d \x7d i := i + 1; \x7d " ++
  "elsewhere := x;"

theorem parse_shown_markNegatives :
    Legible markNegatives ∧ Shows markNegatives markNegativesText.toList ∧
      (parse markNegativesText).trace.1 = .ok markNegatives := by
  have read : ∀ {e : Expr Empty}, (readExpr 1 e.source.toList).toOption = some e → e.Legible :=
    fun reads => ⟨1, _, ok_of_toOption reads⟩
  have legible : Legible markNegatives :=
    .whileLoop (read (by decide +kernel))
      (.branch (read (by decide +kernel))
        (.assign ⟨by decide, read (by decide +kernel)⟩ (by decide)
          (.assert (read (by decide +kernel)) .nil))
        (.forLoop ⟨by decide, read (by decide +kernel)⟩ (read (by decide +kernel))
          ⟨by decide, read (by decide +kernel)⟩
          (.assign ⟨by decide, read (by decide +kernel)⟩ (by decide) .nil) .nil)
        (.assign ⟨by decide, read (by decide +kernel)⟩ (by decide) .nil))
      (.assign ⟨by decide, read (by decide +kernel)⟩ (by decide) .nil)
  have none := Text.allBlank_nil
  have space := Text.allBlank_space
  have feed : Text.AllBlank ['\n'] := List.forall_mem_singleton.mpr (by decide)
  obtain ⟨text, shown, same⟩ : ∃ text, Shows markNegatives text ∧ text = markNegativesText.toList :=
    ⟨_, .whileLoop none
      (.branchElse space
        (.assign feed (.assert feed (.done space) (.inl rfl)) (.inr (breaks_feed _)))
        feed (by decide)
        (.forLoop space (.assign space (.done space) (.inl rfl)) (.done space))
        (.assign space (.done space) (.inl rfl)))
      (.assign space (.done none) (.inl rfl)), by decide +kernel⟩
  rw [same] at shown
  exact ⟨legible, shown, (parse_shown markNegatives legible).2 _ shown⟩

end Assay
