import Assay.Proofs.Parts
import Assay.Proofs.ProgramNames
import Assay.Proofs.Rendering

/-! Texts that are accepted. A reader succeeds exactly when the readers of its parts do. So every
character of an accepted line is a blank, part of a name or of a number, or a mark of the
language. -/
namespace Assay

def Shape.lines : Shape Empty → List Line
  | .simple _ => []
  | .branch _ t e => t ++ e
  | .whileLoop _ b => b
  | .forLoop _ _ _ b => b

/-! What the readers ask of the parts. -/

section

variable {number : Nat} {cs : List Char} {lines rest : List Line} {shape : Shape Empty}

theorem readAssign_ok_iff {line : Int} {a : Assign Empty} :
    readAssign line cs = .ok a ↔ ∃ name value e,
      matchAssign? (Text.trim cs) = some (name, value) ∧ readExpr line value = .ok e ∧
      ⟨String.ofList name, e⟩ = a := by
  unfold readAssign
  cases matchAssign? (Text.trim cs) with
  | none => simp
  | some p => simp [bind_eq_ok, pure, Except.pure, Prod.ext_iff]

theorem openBlock_ok_iff {chunk : List Char} {b : Block} :
    openBlock number chunk lines = .ok b ↔ takeBlock 0 number chunk lines = some b := by
  unfold openBlock
  cases takeBlock 0 number chunk lines with
  | none => simp
  | some p => simp

theorem readElse_ok_iff {b : Block} {e : List Line} :
    readElse b = .ok (e, rest) ↔
      if keyword? b.trailing = some .elseWord then
        ∃ chunk b', matchElse? b.trailing = some chunk ∧
          openBlock b.closing chunk b.rest = .ok b' ∧ b'.body = e ∧ b'.remaining = rest
      else e = [] ∧ b.remaining = rest := by
  unfold readElse
  split
  · cases matchElse? b.trailing with
    | none => simp
    | some chunk => simp [bind_eq_ok, pure, Except.pure]
  · simp [eq_comm]

theorem readIf_ok_iff :
    readIf number cs lines = .ok (shape, rest) ↔ ∃ cond chunk c b e,
      matchHead? .ifWord cs = some (cond, chunk) ∧ readExpr number cond = .ok c ∧
      openBlock number chunk lines = .ok b ∧ readElse b.joinElse = .ok (e, rest) ∧
      .branch c b.body e = shape := by
  unfold readIf
  cases matchHead? .ifWord cs with
  | none => simp [badForm]
  | some p => simp [bind_eq_ok, pure, Except.pure, Prod.ext_iff]

theorem readWhile_ok_iff :
    readWhile number cs lines = .ok (shape, rest) ↔ ∃ cond chunk c b,
      matchHead? .whileWord cs = some (cond, chunk) ∧ readExpr number cond = .ok c ∧
      openBlock number chunk lines = .ok b ∧ .whileLoop c b.body = shape ∧
      b.remaining = rest := by
  unfold readWhile
  cases matchHead? .whileWord cs with
  | none => simp [badForm]
  | some p => simp [bind_eq_ok, pure, Except.pure, Prod.ext_iff]

theorem readFor_ok_iff :
    readFor number cs lines = .ok (shape, rest) ↔ ∃ init cond update chunk i c u b,
      matchFor? cs = some (init, cond, update, chunk) ∧ readAssign number init = .ok i ∧
      readExpr number cond = .ok c ∧
      readAssign number (dropSemicolons (Text.trim update)) = .ok u ∧
      openBlock number chunk lines = .ok b ∧ .forLoop i c u b.body = shape ∧
      b.remaining = rest := by
  unfold readFor
  cases matchFor? cs with
  | none => simp [badForm]
  | some p => simp [bind_eq_ok, pure, Except.pure, Prod.ext_iff]

theorem readAssertion_ok_iff :
    readAssertion number cs lines = .ok (shape, rest) ↔ ∃ cond c,
      matchAssert? cs = some cond ∧ readExpr number cond = .ok c ∧
      .simple (.assert c) = shape ∧ lines = rest := by
  unfold readAssertion
  cases matchAssert? cs with
  | none => simp [badForm]
  | some p => simp [bind_eq_ok, pure, Except.pure]

theorem readPlain_ok_iff :
    readPlain number cs lines = .ok (shape, rest) ↔ ∃ a,
      cs.head? ≠ some '\x7d' ∧ holdsAssign cs = true ∧ cs.getLast? = some ';' ∧
      readAssign number cs.dropLast = .ok a ∧ .simple (.assign a) = shape ∧ lines = rest := by
  unfold readPlain
  split
  · rename_i brace
    simp [brace]
  · rename_i brace
    split
    · rename_i assigns
      split
      · rename_i mark
        simp [brace, assigns, mark, bind_eq_ok, pure, Except.pure]
      · rename_i mark
        simp [mark]
    · rename_i assigns
      simp [assigns]

end

/-- The lines are read as the program, statement by statement. -/
inductive ReadsAs : List Line → Program Empty → Prop where
  | nil : ReadsAs [] []
  | simple {line : Line} {lines rest : List Line} {s : Stmt Empty} {more : Program Empty} :
      readShape line lines = .ok (.simple s, rest) → ReadsAs rest more →
      ReadsAs (line :: lines) (s :: more)
  | branch {line : Line} {lines thenLines elseLines rest : List Line} {c : Expr Empty}
      {t e more : Program Empty} :
      readShape line lines = .ok (.branch c thenLines elseLines, rest) → ReadsAs thenLines t →
      ReadsAs elseLines e → ReadsAs rest more → ReadsAs (line :: lines) (.branch c t e :: more)
  | whileLoop {line : Line} {lines body rest : List Line} {c : Expr Empty}
      {b more : Program Empty} :
      readShape line lines = .ok (.whileLoop c body, rest) → ReadsAs body b →
      ReadsAs rest more → ReadsAs (line :: lines) (.whileLoop c b :: more)
  | forLoop {line : Line} {lines body rest : List Line} {i u : Assign Empty} {c : Expr Empty}
      {b more : Program Empty} :
      readShape line lines = .ok (.forLoop i c u body, rest) → ReadsAs body b →
      ReadsAs rest more → ReadsAs (line :: lines) (.forLoop i c u b :: more)

theorem ReadsAs.readBlock {lines : List Line} {p : Program Empty} (reads : ReadsAs lines p) :
    readBlock lines = .ok p := by
  induction reads with
  | nil => rw [Assay.readBlock]
  | simple found _ more => exact readBlock_step found rfl more
  | branch found _ _ _ t e more =>
    refine readBlock_step found ?_ more
    rw [Shape.stmt, t, e]
    rfl
  | whileLoop found _ _ b more =>
    refine readBlock_step found ?_ more
    rw [Shape.stmt, b]
    rfl
  | forLoop found _ _ b more =>
    refine readBlock_step found ?_ more
    rw [Shape.stmt, b]
    rfl

theorem readBlock_ok_iff {lines : List Line} {p : Program Empty} :
    readBlock lines = .ok p ↔ ReadsAs lines p := by
  refine ⟨fun reads => ?_, ReadsAs.readBlock⟩
  fun_induction readBlock (ω := Empty) lines generalizing p with
  | case1 =>
    cases reads
    exact .nil
  | case4 line lines s rest found more readMore ihMore =>
    cases reads
    exact .simple found (ihMore readMore)
  | case8 line lines c thenLines elseLines rest found t readThen e readElse more readMore
      ihThen ihElse ihMore =>
    cases reads
    exact .branch found (ihThen readThen) (ihElse readElse) (ihMore readMore)
  | case11 line lines c body rest found b readBody more readMore ihBody ihMore =>
    cases reads
    exact .whileLoop found (ihBody readBody) (ihMore readMore)
  | case14 line lines i c u body rest found b readBody more readMore ihBody ihMore =>
    cases reads
    exact .forLoop found (ihBody readBody) (ihMore readMore)
  | case2 | case3 | case5 | case6 | case7 | case9 | case10 | case12 | case13 => contradiction

/-! Characters of code. -/

def marks : List Char :=
  ['(', ')', '[', ']', '\x7b', '\x7d', ';', ':'] ++ Expr.signContext

def Text.isCode (c : Char) : Bool := isBlank c || isNameChar c || marks.contains c

def OnlyCode (cs : List Char) : Prop := ∀ c ∈ cs, Text.isCode c = true

section

variable {cs ds : List Char}

theorem onlyCode_nil : OnlyCode [] := fun _ member => absurd member List.not_mem_nil

theorem onlyCode_append : OnlyCode (cs ++ ds) ↔ OnlyCode cs ∧ OnlyCode ds :=
  List.forall_mem_append

theorem onlyCode_cons {c : Char} : OnlyCode (c :: cs) ↔ Text.isCode c = true ∧ OnlyCode cs :=
  List.forall_mem_cons

theorem Text.AllBlank.onlyCode (blank : Text.AllBlank cs) : OnlyCode cs := by
  intro c member
  rw [Text.isCode, blank c member]
  rfl

theorem onlyCode_of_isNameChar (chars : ∀ c ∈ cs, Text.isNameChar c = true) : OnlyCode cs := by
  intro c member
  rw [Text.isCode, chars c member, Bool.or_true]
  rfl

theorem onlyCode_of_marks (inside : cs ⊆ marks) : OnlyCode cs := by
  intro c member
  rw [Text.isCode, List.contains_iff_mem.mpr (inside member), Bool.or_true]

theorem onlyCode_of_trim (trimmed : OnlyCode (Text.trim cs)) : OnlyCode cs := by
  obtain ⟨front, back, parts, blankFront, blankBack⟩ := Text.trim_parts cs
  rw [parts, onlyCode_append, onlyCode_append]
  exact ⟨⟨blankFront.onlyCode, trimmed⟩, blankBack.onlyCode⟩

theorem onlyCode_keyword (k : Keyword) : OnlyCode k.text :=
  onlyCode_of_isNameChar (Keyword.isNameChar_text k)

end

theorem readTrimmed_onlyCode {line : Int} {text : List Char} {e : Expr Empty}
    (reads : readTrimmed line text = .ok e) : OnlyCode text := by
  fun_induction readTrimmed (ω := Empty) line text generalizing e with
  | case2 text nonempty literal =>
    intro c member
    rcases Expr.isLiteral_chars literal c member with rfl | digit
    · decide
    · simp [Text.isCode, Text.isNameChar, digit]
  | case4 text _ _ name index found i inner ih =>
    obtain ⟨gap, parts, blank⟩ := Expr.splitRead?_parts found
    have named := onlyCode_of_isNameChar (Text.isNameChar_of_isName (Expr.splitRead?_name found))
    rw [parts]
    simp only [onlyCode_append, onlyCode_cons]
    exact ⟨named, blank.onlyCode, by decide, onlyCode_of_trim (ih inner), by decide, onlyCode_nil⟩
  | case7 text _ _ _ op left right found l readLeft r readRight ihLeft ihRight =>
    have parts := (Expr.splitOperator?_all_iff.mp found).1.parts
    have sign : OnlyCode op.text.toList := onlyCode_of_marks fun _ member =>
      List.mem_append_right _ (Expr.text_subset op member)
    rw [parts]
    simp only [onlyCode_append]
    exact ⟨⟨onlyCode_of_trim (ihLeft readLeft), sign⟩, onlyCode_of_trim (ihRight readRight)⟩
  | case9 text _ _ _ _ operand found e inner ih =>
    rw [Expr.splitNot?_eq_some found, onlyCode_cons]
    exact ⟨by decide, onlyCode_of_trim (ih inner)⟩
  | case10 text _ _ _ _ _ name => exact onlyCode_of_isNameChar (Text.isNameChar_of_isName name)
  | case1 | case3 | case5 | case6 | case8 | case11 => contradiction

theorem readExpr_onlyCode {line : Int} {cs : List Char} {e : Expr Empty}
    (reads : readExpr line cs = .ok e) : OnlyCode cs :=
  onlyCode_of_trim (readTrimmed_onlyCode reads)

theorem readAssign_onlyCode {line : Int} {cs : List Char} {a : Assign Empty}
    (reads : readAssign line cs = .ok a) : OnlyCode cs := by
  obtain ⟨name, value, e, found, inner, -⟩ := readAssign_ok_iff.mp reads
  obtain ⟨gap, parts, blank⟩ := matchAssign?_parts found
  have named := onlyCode_of_isNameChar (Text.isNameChar_of_isName (matchAssign?_name found))
  apply onlyCode_of_trim
  rw [parts]
  simp only [onlyCode_append, onlyCode_cons]
  exact ⟨named, blank.onlyCode, by decide, by decide, readExpr_onlyCode inner⟩

/-! Lines of code. The bodies of a statement and the lines behind it show what its own lines are. -/

def AllCode (lines : List Line) : Prop := ∀ l ∈ lines, OnlyCode l.2

theorem allCode_nil : AllCode [] := fun _ member => absurd member List.not_mem_nil

theorem allCode_cons {line : Line} {lines : List Line} :
    AllCode (line :: lines) ↔ OnlyCode line.2 ∧ AllCode lines :=
  List.forall_mem_cons

structure Block.AllCode (b : Block) : Prop where
  body : Assay.AllCode b.body
  trailing : OnlyCode b.trailing
  rest : Assay.AllCode b.rest

section

variable {number : Nat} {cs chunk : List Char} {lines rest : List Line} {b : Block}

theorem onlyCode_of_ofText (code : AllCode (Line.ofText number cs)) : OnlyCode cs := by
  apply onlyCode_of_trim
  unfold Line.ofText at code
  split at code
  · rename_i empty
    rw [List.isEmpty_iff.mp empty]
    exact onlyCode_nil
  · exact (allCode_cons.mp code).1

theorem takeBlock_allCode {depth : Nat} (taken : takeBlock depth number chunk lines = some b)
    (code : b.AllCode) : OnlyCode chunk ∧ AllCode lines := by
  have closed : ∀ {depth number chunk inside after},
      followBraces depth chunk = .ok (inside, after) → AllCode (Line.ofText number inside) →
        OnlyCode (Text.trim after) → OnlyCode chunk := by
    intro depth number chunk inside after closes front back
    rw [followBraces_parts closes, onlyCode_append, onlyCode_cons]
    exact ⟨onlyCode_of_ofText front, by decide, onlyCode_of_trim back⟩
  induction lines generalizing depth number chunk b with
  | nil =>
    unfold takeBlock at taken
    split at taken
    · rename_i closes
      cases taken
      exact ⟨closed closes code.body code.trailing, code.rest⟩
    · contradiction
  | cons line lines ih =>
    unfold takeBlock at taken
    split at taken
    · rename_i closes
      cases taken
      exact ⟨closed closes code.body code.trailing, code.rest⟩
    · obtain ⟨b', later, rfl⟩ := Option.map_eq_some_iff.mp taken
      obtain ⟨front, body⟩ := List.forall_mem_append.mp code.body
      exact ⟨onlyCode_of_ofText front,
        allCode_cons.mpr (ih later ⟨body, code.trailing, code.rest⟩)⟩

theorem allCode_of_remaining (code : AllCode b.remaining) : OnlyCode b.trailing ∧ AllCode b.rest := by
  unfold Block.remaining at code
  split at code
  · rename_i empty
    rw [List.isEmpty_iff.mp empty]
    exact ⟨onlyCode_nil, code⟩
  · exact allCode_cons.mp code

theorem allCode_of_joinElse (code : OnlyCode b.joinElse.trailing ∧ AllCode b.joinElse.rest) :
    OnlyCode b.trailing ∧ AllCode b.rest := by
  unfold Block.joinElse at code
  split at code
  · rename_i empty next
    split at code
    · rw [empty, next]
      exact ⟨onlyCode_nil, allCode_cons.mpr code⟩
    · exact code
  · exact code

theorem openBlock_allCode (opens : openBlock number chunk lines = .ok b) (body : AllCode b.body)
    (behind : AllCode b.remaining) : OnlyCode chunk ∧ AllCode lines := by
  obtain ⟨trailing, rest⟩ := allCode_of_remaining behind
  exact takeBlock_allCode (openBlock_ok_iff.mp opens) ⟨body, trailing, rest⟩

theorem readElse_allCode {e : List Line} (reads : readElse b = .ok (e, rest)) (body : AllCode e)
    (behind : AllCode rest) : OnlyCode b.trailing ∧ AllCode b.rest := by
  have found := readElse_ok_iff.mp reads
  split at found
  · rename_i word
    obtain ⟨chunk, b', header, opens, rfl, rfl⟩ := found
    obtain ⟨gap, parts, blank⟩ := matchElse?_parts (starts_of_keyword? word) header
    obtain ⟨inside, after⟩ := openBlock_allCode opens body behind
    rw [parts]
    simp only [onlyCode_append, onlyCode_cons]
    exact ⟨⟨onlyCode_keyword _, blank.onlyCode, by decide, inside⟩, after⟩
  · obtain ⟨-, rfl⟩ := found
    exact allCode_of_remaining behind

variable {shape : Shape Empty} (bodies : AllCode shape.lines) (behind : AllCode rest)

include bodies behind

theorem readIf_allCode (starts : Keyword.ifWord.text <+: cs)
    (reads : readIf number cs lines = .ok (shape, rest)) : OnlyCode cs ∧ AllCode lines := by
  obtain ⟨cond, chunk, c, b, e, head, condition, opens, other, rfl⟩ := readIf_ok_iff.mp reads
  obtain ⟨gap, gap', parts, blank, blank'⟩ := matchHead?_parts starts head
  obtain ⟨body, elseBody⟩ := List.forall_mem_append.mp bodies
  obtain ⟨trailing, after⟩ := allCode_of_joinElse (readElse_allCode other elseBody behind)
  obtain ⟨inside, followers⟩ :=
    takeBlock_allCode (openBlock_ok_iff.mp opens) ⟨body, trailing, after⟩
  rw [parts]
  simp only [onlyCode_append, onlyCode_cons]
  exact ⟨⟨onlyCode_keyword _, blank.onlyCode, by decide, readExpr_onlyCode condition, by decide,
    blank'.onlyCode, by decide, inside⟩, followers⟩

theorem readWhile_allCode (starts : Keyword.whileWord.text <+: cs)
    (reads : readWhile number cs lines = .ok (shape, rest)) : OnlyCode cs ∧ AllCode lines := by
  obtain ⟨cond, chunk, c, b, head, condition, opens, rfl, rfl⟩ := readWhile_ok_iff.mp reads
  obtain ⟨gap, gap', parts, blank, blank'⟩ := matchHead?_parts starts head
  obtain ⟨inside, followers⟩ := openBlock_allCode opens bodies behind
  rw [parts]
  simp only [onlyCode_append, onlyCode_cons]
  exact ⟨⟨onlyCode_keyword _, blank.onlyCode, by decide, readExpr_onlyCode condition, by decide,
    blank'.onlyCode, by decide, inside⟩, followers⟩

theorem readFor_allCode (starts : Keyword.forWord.text <+: cs)
    (reads : readFor number cs lines = .ok (shape, rest)) : OnlyCode cs ∧ AllCode lines := by
  obtain ⟨init, cond, update, chunk, i, c, u, b, head, first, condition, last, opens, rfl, rfl⟩ :=
    readFor_ok_iff.mp reads
  obtain ⟨gap, gap', parts, blank, blank'⟩ := matchFor?_parts starts head
  obtain ⟨inside, followers⟩ := openBlock_allCode opens bodies behind
  have updated : OnlyCode update := by
    obtain ⟨signs, whole, semicolons⟩ := dropSemicolons_parts (Text.trim update)
    apply onlyCode_of_trim
    rw [whole, onlyCode_append]
    exact ⟨readAssign_onlyCode last, fun c member => semicolons c member ▸ by decide⟩
  rw [parts]
  simp only [onlyCode_append, onlyCode_cons]
  exact ⟨⟨onlyCode_keyword _, blank.onlyCode, by decide, readAssign_onlyCode first, by decide,
    readExpr_onlyCode condition, by decide, updated, by decide, blank'.onlyCode, by decide,
    inside⟩, followers⟩

omit bodies in
theorem readAssertion_allCode (starts : Keyword.assertWord.text <+: cs)
    (reads : readAssertion number cs lines = .ok (shape, rest)) : OnlyCode cs ∧ AllCode lines := by
  obtain ⟨cond, c, head, condition, -, rfl⟩ := readAssertion_ok_iff.mp reads
  obtain ⟨gap, gap', parts, blank, blank'⟩ := matchAssert?_parts starts head
  rw [parts]
  simp only [onlyCode_append, onlyCode_cons]
  exact ⟨⟨onlyCode_keyword _, blank.onlyCode, by decide, readExpr_onlyCode condition, by decide,
    blank'.onlyCode, by decide, onlyCode_nil⟩, behind⟩

omit bodies in
theorem readPlain_allCode (reads : readPlain number cs lines = .ok (shape, rest)) :
    OnlyCode cs ∧ AllCode lines := by
  obtain ⟨a, -, -, mark, assign, -, rfl⟩ := readPlain_ok_iff.mp reads
  have parts : cs = cs.dropLast ++ [';'] := (List.dropLast_append_getLast? _ mark).symm
  rw [parts, onlyCode_append, onlyCode_cons]
  exact ⟨⟨readAssign_onlyCode assign, by decide, onlyCode_nil⟩, behind⟩

end

theorem readShape_allCode {line : Line} {lines rest : List Line} {shape : Shape Empty}
    (reads : readShape line lines = .ok (shape, rest)) (bodies : AllCode shape.lines)
    (behind : AllCode rest) : AllCode (line :: lines) := by
  apply allCode_cons.mpr
  unfold readShape at reads
  split at reads
  · rename_i word
    exact readIf_allCode bodies behind (starts_of_keyword? word) reads
  · rename_i word
    exact readWhile_allCode bodies behind (starts_of_keyword? word) reads
  · rename_i word
    exact readFor_allCode bodies behind (starts_of_keyword? word) reads
  · rename_i word
    exact readAssertion_allCode behind (starts_of_keyword? word) reads
  · contradiction
  · exact readPlain_allCode behind reads

theorem ReadsAs.allCode {lines : List Line} {p : Program Empty} (reads : ReadsAs lines p) :
    AllCode lines := by
  induction reads with
  | nil => exact allCode_nil
  | simple found _ more => exact readShape_allCode found allCode_nil more
  | branch found _ _ _ t e more =>
    exact readShape_allCode found (List.forall_mem_append.mpr ⟨t, e⟩) more
  | whileLoop found _ _ body more => exact readShape_allCode found body more
  | forLoop found _ _ body more => exact readShape_allCode found body more

theorem parse_result (text : String) :
    (parse (ω := Empty) text).trace.1 = readProgram text.toList := by
  unfold parse
  cases readProgram (ω := Empty) text.toList <;> rfl

end Assay
