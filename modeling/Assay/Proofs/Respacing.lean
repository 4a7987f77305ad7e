import Assay.Page
import Assay.Proofs.Accepting
import Mathlib.Data.List.Basic

/-! Other blanks in the same places. Where a text is cut depends on its marks, its names and on
which characters are blanks, never on which blanks they are. So a program stays what it is when
blanks are replaced by blanks; and what is no blank and no code stands in comments alone. -/
namespace Assay

/-- Blanks become blanks and all else stays. -/
structure Respaces (f : Char → Char) : Prop where
  blank : ∀ c, Text.isBlank c = true → Text.isBlank (f c) = true
  other : ∀ c, Text.isBlank c = false → f c = c

def Line.respaced (f : Char → Char) (l : Line) : Line := (l.1, l.2.map f)

def Block.respaced (f : Char → Char) (b : Block) : Block :=
  ⟨b.body.map (Line.respaced f), b.trailing.map f, b.closing, b.rest.map (Line.respaced f)⟩

def Shape.respaced (f : Char → Char) : Shape Empty → Shape Empty
  | .simple s => .simple s
  | .branch c t e => .branch c (t.map (Line.respaced f)) (e.map (Line.respaced f))
  | .whileLoop c b => .whileLoop c (b.map (Line.respaced f))
  | .forLoop i c u b => .forLoop i c u (b.map (Line.respaced f))

theorem Block.remaining_respaced (f : Char → Char) (b : Block) :
    (b.respaced f).remaining = b.remaining.map (Line.respaced f) := by
  unfold Block.remaining Block.respaced
  rw [List.isEmpty_map]
  split <;> rfl

/-! Cuts behind one character. -/

def Text.after? (d : Char) : List Char → Option (List Char)
  | [] => none
  | c :: cs => if c = d then some cs else none

theorem Text.after?_eq_some_iff {d : Char} {cs rest : List Char} :
    after? d cs = some rest ↔ cs = d :: rest := by
  cases cs with
  | nil => simp [after?]
  | cons c cs => simp [after?]

theorem Text.after?_self (d : Char) (cs : List Char) : after? d (d :: cs) = some cs :=
  after?_eq_some_iff.mpr rfl

theorem Text.after?_eq_none {d : Char} {cs : List Char} (other : ∀ rest, cs = d :: rest → False) :
    after? d cs = none :=
  Option.eq_none_iff_forall_ne_some.mpr fun rest found => other rest (after?_eq_some_iff.mp found)

namespace Expr

theorem splitNot?_eq (cs : List Char) : splitNot? cs = Text.after? '!' cs := by
  unfold splitNot?
  split
  · rw [Text.after?_self]
  · rename_i other
    rw [Text.after?_eq_none other]

theorem splitRead?_eq (cs : List Char) :
    splitRead? cs = (Text.splitName? cs).bind fun named =>
      (Text.after? '[' (Text.trimLeft named.2)).bind fun body =>
        (untilClosed 0 body).bind fun closed =>
          if closed.2.isEmpty then some (named.1, closed.1) else none := by
  unfold splitRead?
  cases Text.splitName? cs with
  | none => rfl
  | some named =>
    dsimp only [Option.bind_some]
    split
    · rename_i body opened
      rw [opened, Text.after?_self, Option.bind_some]
      cases untilClosed 0 body with
      | none => rfl
      | some closed =>
        obtain ⟨index, more⟩ := closed
        cases more <;> rfl
    · rename_i other
      rw [Text.after?_eq_none other, Option.bind_none]

end Expr

theorem matchAssign?_eq (cs : List Char) :
    matchAssign? cs = (Text.splitName? cs).bind fun named =>
      (Text.after? ':' (Text.trimLeft named.2)).bind fun rest =>
        (Text.after? '=' rest).map fun value => (named.1, value) := by
  unfold matchAssign?
  cases Text.splitName? cs with
  | none => rfl
  | some named =>
    dsimp only [bind, Option.bind_some]
    split
    · rename_i assigns
      rw [assigns, Text.after?_self, Option.bind_some, Text.after?_self, Option.map_some]
    · rename_i other
      cases colon : Text.after? ':' (Text.trimLeft named.2) with
      | none => rfl
      | some rest =>
        rw [Text.after?_eq_some_iff] at colon
        have noSign : ∀ value, rest = '=' :: value → False := fun value sign =>
          other value (by rw [colon, sign])
        rw [Option.bind_some, Text.after?_eq_none noSign, Option.map_none]

theorem afterOpen?_eq (k : Keyword) (cs : List Char) :
    afterOpen? k cs = Text.after? '(' (Text.trimLeft (cs.drop k.text.length)) := by
  unfold afterOpen?
  split
  · rename_i opened
    rw [opened, Text.after?_self]
  · rename_i other
    rw [Text.after?_eq_none other]

theorem matchElse?_eq (cs : List Char) :
    matchElse? cs =
      Text.after? '\x7b' (Text.trimLeft (cs.drop Keyword.elseWord.text.length)) := by
  unfold matchElse?
  split
  · rename_i opened
    rw [opened, Text.after?_self]
  · rename_i other
    rw [Text.after?_eq_none other]

theorem splitHead?_cons (c : Char) (cs : List Char) :
    splitHead? (c :: cs) =
      ((if c = ')' then Text.after? '\x7b' (Text.trimLeft cs) else none).map ([], ·)).or
        ((splitHead? cs).map fun p => (c :: p.1, p.2)) := by
  rw [splitHead?]
  split
  · split
    · rename_i opened
      rw [opened, Text.after?_self, Option.map_some, Option.some_or]
    · rename_i other
      rw [Text.after?_eq_none other, Option.map_none, Option.none_or]
  · rfl

theorem matchAssert?_eq (cs : List Char) :
    matchAssert? cs = (afterOpen? .assertWord cs).bind fun inside =>
      (Text.after? ';' inside.reverse).bind fun before =>
        (Text.after? ')' (Text.trimLeft before)).map List.reverse := by
  unfold matchAssert?
  cases afterOpen? .assertWord cs with
  | none => rfl
  | some inside =>
    dsimp only [bind, Option.bind_some]
    split
    · rename_i ends
      rw [ends, Text.after?_self, Option.bind_some]
      split
      · rename_i closed
        rw [closed, Text.after?_self, Option.map_some]
      · rename_i other
        rw [Text.after?_eq_none other, Option.map_none]
    · rename_i other
      rw [Text.after?_eq_none other, Option.bind_none]

/-! Names, literals and words have no blanks. -/

def Text.blankRanges : List (Nat × Nat) :=
  [(9, 13), (28, 32), (0x85, 0x85), (0xA0, 0xA0), (0x1680, 0x1680), (0x2000, 0x200A),
    (0x2028, 0x2029), (0x202F, 0x202F), (0x205F, 0x205F), (0x3000, 0x3000)]

theorem Text.isBlank_eq_within (c : Char) : isBlank c = within blankRanges c := by
  rw [Bool.eq_iff_iff]
  simp only [isBlank, within, blankRanges, List.any_cons, List.any_nil, Bool.or_eq_true,
    Bool.and_eq_true, decide_eq_true_eq, beq_iff_eq, Bool.or_false]
  omega

def Text.apart (rs ss : List (Nat × Nat)) : Bool :=
  rs.all fun r => ss.all fun s => r.2 < s.1 || s.2 < r.1

theorem Text.within_apart {rs ss : List (Nat × Nat)} (disjoint : apart rs ss = true) {c : Char}
    (inside : within rs c = true) : within ss c = false := by
  rw [Bool.eq_false_iff]
  intro other
  obtain ⟨r, memberR, boundsR⟩ := List.any_eq_true.mp inside
  obtain ⟨s, memberS, boundsS⟩ := List.any_eq_true.mp other
  have clear := List.all_eq_true.mp (List.all_eq_true.mp disjoint r memberR) s memberS
  simp only [Bool.and_eq_true, Bool.or_eq_true, decide_eq_true_eq] at boundsR boundsS clear
  omega

theorem Text.isBlank_of_isWord {c : Char} (word : isWord c = true) : isBlank c = false := by
  have low : apart wordRanges blankRanges = true := by decide +kernel
  have high : apart wordRangesAbove blankRanges = true := by decide +kernel
  rw [isBlank_eq_within]
  unfold isWord at word
  split at word
  · exact within_apart low word
  · exact within_apart high word

theorem Text.isBlank_of_isName {cs : List Char} (name : isName cs = true) :
    ∀ c ∈ cs, isBlank c = false :=
  fun c member => isBlank_of_isNameChar (isNameChar_of_isName name c member)

theorem Text.isBlank_of_isLiteral {cs : List Char} (literal : isLiteral cs = true) :
    ∀ c ∈ cs, isBlank c = false := by
  intro c member
  rcases Expr.isLiteral_chars literal c member with rfl | digit
  · decide
  · exact isBlank_of_isNameChar (by simp [isNameChar, digit])

theorem Text.dropWhile_map {f : Char → Char} {p : Char → Bool} (same : ∀ c, p (f c) = p c)
    (cs : List Char) : (cs.map f).dropWhile p = (cs.dropWhile p).map f := by
  rw [List.dropWhile_map, show p ∘ f = p from funext same]

namespace Respaces

variable {f : Char → Char} (respaces : Respaces f)

include respaces

theorem isBlank_apply (c : Char) : Text.isBlank (f c) = Text.isBlank c := by
  cases blank : Text.isBlank c with
  | true => exact respaces.blank c blank
  | false => rw [respaces.other c blank, blank]

theorem test_apply {p : Char → Bool} (solid : ∀ c, p c = true → Text.isBlank c = false)
    (c : Char) : p (f c) = p c := by
  cases blank : Text.isBlank c with
  | true =>
    have fails : ∀ d, Text.isBlank d = true → p d = false := fun d blank =>
      Bool.eq_false_iff.mpr fun passes => Bool.false_ne_true ((solid d passes).symm.trans blank)
    rw [fails c blank, fails (f c) (respaces.blank c blank)]
  | false => rw [respaces.other c blank]

theorem apply_eq_iff {c d : Char} (solid : Text.isBlank d = false) : f c = d ↔ c = d := by
  have same := respaces.test_apply (p := (· == d)) (fun c passes => eq_of_beq passes ▸ solid) c
  rw [← beq_iff_eq, ← beq_iff_eq (a := c), same]

theorem map_eq_self {cs : List Char} (solid : ∀ c ∈ cs, Text.isBlank c = false) :
    cs.map f = cs :=
  (List.map_congr_left fun c member => respaces.other c (solid c member)).trans (List.map_id' cs)

theorem solid_map {p : List Char → Bool}
    (solid : ∀ cs, p cs = true → ∀ c ∈ cs, Text.isBlank c = false) (cs : List Char) :
    p (cs.map f) = p cs := by
  rw [Bool.eq_iff_iff]
  constructor
  · intro passes
    have solidText : ∀ c ∈ cs, Text.isBlank c = false := fun c member => by
      rw [← respaces.isBlank_apply c]
      exact solid _ passes _ (List.mem_map_of_mem member)
    rwa [respaces.map_eq_self solidText] at passes
  · intro passes
    rwa [respaces.map_eq_self (solid cs passes)]

theorem trimLeft_map (cs : List Char) : Text.trimLeft (cs.map f) = (Text.trimLeft cs).map f :=
  Text.dropWhile_map respaces.isBlank_apply cs

theorem trim_map (cs : List Char) : Text.trim (cs.map f) = (Text.trim cs).map f := by
  unfold Text.trim Text.trimRight
  rw [respaces.trimLeft_map, ← List.map_reverse, Text.dropWhile_map respaces.isBlank_apply,
    List.map_reverse]

/-! Expressions. -/

theorem isName_map (cs : List Char) : Text.isName (cs.map f) = Text.isName cs :=
  respaces.solid_map (fun _ => Text.isBlank_of_isName) cs

theorem isLiteral_map (cs : List Char) : Text.isLiteral (cs.map f) = Text.isLiteral cs :=
  respaces.solid_map (fun _ => Text.isBlank_of_isLiteral) cs

theorem after?_map {d : Char} (solid : Text.isBlank d = false) (cs : List Char) :
    Text.after? d (cs.map f) = (Text.after? d cs).map (List.map f) := by
  cases cs with
  | nil => rfl
  | cons c cs =>
    simp only [List.map_cons, Text.after?, respaces.apply_eq_iff solid]
    split <;> rfl

theorem splitName?_map (cs : List Char) :
    Text.splitName? (cs.map f) = (Text.splitName? cs).map (Prod.map id (List.map f)) := by
  have solid : ∀ c, Text.isNameStart c = true → Text.isBlank c = false := fun c start =>
    Text.isBlank_of_isNameChar (by simp [Text.isNameChar, start])
  have sameChar := respaces.test_apply fun c => Text.isBlank_of_isNameChar (c := c)
  cases cs with
  | nil => rfl
  | cons c cs =>
    simp only [List.map_cons, Text.splitName?, respaces.test_apply solid]
    split
    · rename_i start
      have name : (cs.takeWhile Text.isNameChar).map f = cs.takeWhile Text.isNameChar :=
        respaces.map_eq_self fun c member =>
          Text.isBlank_of_isNameChar (List.mem_takeWhile_imp member)
      rw [respaces.other c (solid c start), Text.dropWhile_map sameChar, List.takeWhile_map,
        show Text.isNameChar ∘ f = Text.isNameChar from funext sameChar, name]
      rfl
    · rfl

theorem isSign_map (before : List Char) : Expr.isSign (before.map f) = Expr.isSign before := by
  have solid : ∀ c, Expr.signContext.contains c = true → Text.isBlank c = false := fun c sign =>
    (Expr.signContext_kind (List.contains_iff_mem.mp sign)).2.1
  unfold Expr.isSign
  rw [respaces.trimLeft_map]
  cases Text.trimLeft before with
  | nil => rfl
  | cons c cs => exact respaces.test_apply solid c

theorem isPrefixOf_map {word : List Char} (solid : ∀ c ∈ word, Text.isBlank c = false)
    (cs : List Char) : word.isPrefixOf (cs.map f) = word.isPrefixOf cs := by
  induction word generalizing cs with
  | nil => simp
  | cons d word ih =>
    obtain ⟨first, later⟩ := List.forall_mem_cons.mp solid
    cases cs with
    | nil => rfl
    | cons c cs =>
      have same : (d == f c) = (d == c) := by
        rw [Bool.eq_iff_iff, beq_iff_eq, beq_iff_eq, eq_comm, respaces.apply_eq_iff first, eq_comm]
      rw [List.map_cons, List.isPrefixOf, List.isPrefixOf, same, ih later]

theorem splitAt?_map {op : List Char} (solid : ∀ c ∈ op, Text.isBlank c = false) (depth : Int)
    (before cs : List Char) :
    Expr.splitAt? op depth (before.map f) (cs.map f) =
      (Expr.splitAt? op depth before cs).map (Prod.map (List.map f) (List.map f)) := by
  induction cs generalizing depth before with
  | nil => rfl
  | cons c cs ih =>
    have starts : op.isPrefixOf (f c :: cs.map f) = op.isPrefixOf (c :: cs) :=
      respaces.isPrefixOf_map solid (c :: cs)
    simp only [List.map_cons, Expr.splitAt?, starts, respaces.isSign_map,
      respaces.apply_eq_iff (d := '[') rfl, respaces.apply_eq_iff (d := ']') rfl]
    split
    · exact ih _ (c :: before)
    · split
      · exact ih _ (c :: before)
      · split
        · rw [← List.map_cons, ← List.map_drop, ← List.map_reverse]
          rfl
        · exact ih _ (c :: before)

theorem untilClosed_map (depth : Nat) (cs : List Char) :
    Expr.untilClosed depth (cs.map f) =
      (Expr.untilClosed depth cs).map (Prod.map (List.map f) (List.map f)) := by
  induction cs generalizing depth with
  | nil => rfl
  | cons c cs ih =>
    simp only [List.map_cons, Expr.untilClosed, ih, respaces.apply_eq_iff (d := '[') rfl,
      respaces.apply_eq_iff (d := ']') rfl]
    split
    · simp [Function.comp_def]
    · split
      · cases depth with
        | zero => rfl
        | succ depth => simp [Function.comp_def]
      · simp [Function.comp_def]

theorem splitRead?_map (cs : List Char) :
    Expr.splitRead? (cs.map f) = (Expr.splitRead? cs).map (Prod.map id (List.map f)) := by
  rw [Expr.splitRead?_eq, Expr.splitRead?_eq, respaces.splitName?_map]
  cases Text.splitName? cs with
  | none => rfl
  | some named =>
    simp only [Option.map_some, Option.bind_some, Prod.map, respaces.trimLeft_map,
      respaces.after?_map (d := '[') rfl]
    cases Text.after? '[' (Text.trimLeft named.2) with
    | none => rfl
    | some body =>
      simp only [Option.map_some, Option.bind_some, respaces.untilClosed_map]
      cases Expr.untilClosed 0 body with
      | none => rfl
      | some closed =>
        simp only [Option.map_some, Option.bind_some, Prod.map, List.isEmpty_map]
        split <;> rfl

theorem splitOperator?_map (cs : List Char) (ops : List (BinaryOp Empty)) :
    Expr.splitOperator? (cs.map f) ops =
      (Expr.splitOperator? cs ops).map (Prod.map id (Prod.map (List.map f) (List.map f))) := by
  induction ops with
  | nil => rfl
  | cons op ops ih =>
    have solid : ∀ c ∈ op.text.toList, Text.isBlank c = false := fun c member =>
      (Expr.signContext_kind (Expr.text_subset op member)).2.1
    have first := respaces.splitAt?_map solid 0 [] cs
    rw [List.map_nil] at first
    rw [Expr.splitOperator?, Expr.splitOperator?, first]
    cases Expr.splitAt? op.text.toList 0 [] cs with
    | none => exact ih
    | some sides => rfl

theorem readTrimmed_map_eq {line : Int} {text : List Char}
    (noLiteral : text ≠ [] ∧ ¬ Text.isLiteral text = true) :
    readTrimmed (ω := Empty) line (text.map f) =
      match Expr.splitRead? text with
      | some (name, index) =>
        (readTrimmed line ((Text.trim index).map f)).map (.read (String.ofList name))
      | none =>
        match Expr.splitOperator? text (BinaryOp.all : List (BinaryOp Empty)) with
        | some (op, left, right) => do
          let l ← readTrimmed line ((Text.trim left).map f)
          let r ← readTrimmed line ((Text.trim right).map f)
          return .binary op l r
        | none =>
          match Expr.splitNot? text with
          | some operand => (readTrimmed line ((Text.trim operand).map f)).map (.unary .not)
          | none =>
            if Text.isName text then .ok (.var (String.ofList (text.map f)))
            else .error (.parse line (.expression (String.ofList (text.map f)))) := by
  have noLiteral' : text.map f ≠ [] ∧ ¬ Text.isLiteral (text.map f) = true := by
    rwa [respaces.isLiteral_map, Ne, List.map_eq_nil_iff]
  rw [Expr.readTrimmed_eq noLiteral', respaces.splitRead?_map, respaces.splitOperator?_map,
    Expr.splitNot?_eq, Expr.splitNot?_eq, respaces.after?_map rfl, respaces.isName_map]
  simp only [← respaces.trim_map]
  cases Expr.splitRead? text with
  | some parts => rfl
  | none =>
    cases Expr.splitOperator? text BinaryOp.all with
    | some sides => rfl
    | none => cases Text.after? '!' text <;> rfl

theorem readTrimmed_map {line : Int} {text : List Char} {e : Expr Empty}
    (reads : readTrimmed line text = .ok e) : readTrimmed line (text.map f) = .ok e := by
  have splits : ∀ {text : List Char}, ¬ text.isEmpty = true → ¬ Text.isLiteral text = true →
      text ≠ [] ∧ ¬ Text.isLiteral text = true := fun nonempty noLiteral =>
    ⟨fun empty => nonempty (List.isEmpty_iff.mpr empty), noLiteral⟩
  fun_induction readTrimmed (ω := Empty) line text generalizing e with
  | case2 text nonempty literal =>
    rwa [respaces.map_eq_self (Text.isBlank_of_isLiteral literal),
      Expr.readTrimmed_literal literal]
  | case4 text nonempty noLiteral name index found i inner ih =>
    rw [respaces.readTrimmed_map_eq (splits nonempty noLiteral), found, ← reads]
    dsimp only
    rw [ih inner]
    rfl
  | case7 text nonempty noLiteral noRead op left right found l readLeft r readRight ihLeft ihRight =>
    rw [respaces.readTrimmed_map_eq (splits nonempty noLiteral), noRead, found, ← reads]
    dsimp only
    rw [ihLeft readLeft, ihRight readRight]
    rfl
  | case9 text nonempty noLiteral noRead noOperator operand found inner readInner ih =>
    rw [respaces.readTrimmed_map_eq (splits nonempty noLiteral), noRead, noOperator, found, ← reads]
    dsimp only
    rw [ih readInner]
    rfl
  | case10 text nonempty noLiteral noRead noOperator noNot name =>
    -- a name has no blanks, so that its text is the same
    rw [respaces.readTrimmed_map_eq (splits nonempty noLiteral), noRead, noOperator, noNot,
      respaces.map_eq_self (Text.isBlank_of_isName name), ← reads]
    exact if_pos name
  | case1 | case3 | case5 | case6 | case8 | case11 => contradiction

theorem readExpr_map {line : Int} {cs : List Char} {e : Expr Empty}
    (reads : readExpr line cs = .ok e) : readExpr line (cs.map f) = .ok e := by
  unfold readExpr
  rw [respaces.trim_map]
  exact respaces.readTrimmed_map reads

/-! Headers and simple statements. -/

theorem keyword?_map (cs : List Char) : keyword? (cs.map f) = keyword? cs := by
  have same : ∀ k : Keyword, k.opens (cs.map f) = k.opens cs := by
    intro k
    have solid : ∀ c ∈ k.text, Text.isBlank c = false := fun c member =>
      Text.isBlank_of_isNameChar (k.isNameChar_text c member)
    unfold Keyword.opens
    rw [respaces.isPrefixOf_map solid, ← List.map_drop]
    cases cs.drop k.text.length with
    | nil => rfl
    | cons c cs =>
      -- the keyword ends here unless the next character is one of a word, and no blank is
      simp only [List.map_cons, respaces.test_apply fun c => Text.isBlank_of_isWord (c := c)]
  unfold keyword?
  simp only [same]

theorem matchAssign?_map (cs : List Char) :
    matchAssign? (cs.map f) = (matchAssign? cs).map (Prod.map id (List.map f)) := by
  rw [matchAssign?_eq, matchAssign?_eq, respaces.splitName?_map]
  cases Text.splitName? cs with
  | none => rfl
  | some named =>
    simp only [Option.map_some, Option.bind_some, Prod.map, respaces.trimLeft_map,
      respaces.after?_map (d := ':') rfl]
    cases Text.after? ':' (Text.trimLeft named.2) with
    | none => rfl
    | some rest =>
      simp only [Option.map_some, Option.bind_some, respaces.after?_map (d := '=') rfl,
        Option.map_map]
      rfl

theorem afterOpen?_map (k : Keyword) (cs : List Char) :
    afterOpen? k (cs.map f) = (afterOpen? k cs).map (List.map f) := by
  rw [afterOpen?_eq, afterOpen?_eq, ← List.map_drop, respaces.trimLeft_map, respaces.after?_map rfl]

theorem matchElse?_map (cs : List Char) :
    matchElse? (cs.map f) = (matchElse? cs).map (List.map f) := by
  rw [matchElse?_eq, matchElse?_eq, ← List.map_drop, respaces.trimLeft_map, respaces.after?_map rfl]

theorem splitHead?_map (cs : List Char) :
    splitHead? (cs.map f) = (splitHead? cs).map (Prod.map (List.map f) (List.map f)) := by
  induction cs with
  | nil => rfl
  | cons c cs ih =>
    rw [List.map_cons, splitHead?_cons, splitHead?_cons, ih, Option.map_or, Option.map_map,
      Option.map_map, Option.map_map]
    congr 1
    simp only [respaces.apply_eq_iff (d := ')') rfl, respaces.trimLeft_map,
      respaces.after?_map (d := '\x7b') rfl]
    split
    · rw [Option.map_map]
      rfl
    · rfl

theorem splitSemicolon?_map (cs : List Char) :
    splitSemicolon? (cs.map f) = (splitSemicolon? cs).map (Prod.map (List.map f) (List.map f)) := by
  induction cs with
  | nil => rfl
  | cons c cs ih =>
    simp only [List.map_cons, splitSemicolon?, respaces.apply_eq_iff (d := ';') rfl, ih]
    split
    · rfl
    · rw [Option.map_map, Option.map_map]
      rfl

theorem matchHead?_map (k : Keyword) (cs : List Char) :
    matchHead? k (cs.map f) = (matchHead? k cs).map (Prod.map (List.map f) (List.map f)) := by
  unfold matchHead?
  rw [respaces.afterOpen?_map]
  cases afterOpen? k cs with
  | none => rfl
  | some inside => exact respaces.splitHead?_map inside

theorem matchFor?_map {cs init cond update chunk : List Char}
    (found : matchFor? cs = some (init, cond, update, chunk)) :
    matchFor? (cs.map f) = some (init.map f, cond.map f, update.map f, chunk.map f) := by
  simp only [matchFor?, Option.bind_eq_bind, Option.bind_eq_some_iff] at found
  obtain ⟨inside, opened, p, first, q, second, r, head, same⟩ := found
  cases same
  simp only [matchFor?, Option.bind_eq_bind, respaces.afterOpen?_map, respaces.splitSemicolon?_map,
    respaces.splitHead?_map, opened, first, second, head, Option.map_some, Option.bind_some,
    Prod.map]
  rfl

theorem matchAssert?_map (cs : List Char) :
    matchAssert? (cs.map f) = (matchAssert? cs).map (List.map f) := by
  rw [matchAssert?_eq, matchAssert?_eq, respaces.afterOpen?_map]
  cases afterOpen? .assertWord cs with
  | none => rfl
  | some inside =>
    simp only [Option.map_some, Option.bind_some, ← List.map_reverse,
      respaces.after?_map (d := ';') rfl]
    cases Text.after? ';' inside.reverse with
    | none => rfl
    | some before =>
      simp only [Option.map_some, Option.bind_some, respaces.trimLeft_map,
        respaces.after?_map (d := ')') rfl, Option.map_map]
      congr 1
      exact funext fun _ => List.map_reverse.symm

theorem dropSemicolons_map (cs : List Char) :
    dropSemicolons (cs.map f) = (dropSemicolons cs).map f := by
  have same : ∀ c, (f c == ';') = (c == ';') := fun c => by
    rw [Bool.eq_iff_iff, beq_iff_eq, beq_iff_eq, respaces.apply_eq_iff rfl]
  unfold dropSemicolons
  rw [← List.map_reverse, Text.dropWhile_map same, List.map_reverse]

theorem holdsAssign_map (cs : List Char) : holdsAssign (cs.map f) = holdsAssign cs := by
  fun_induction holdsAssign cs with
  | case1 cs =>
    rw [List.map_cons, List.map_cons, respaces.other ':' rfl, respaces.other '=' rfl, holdsAssign]
  | case2 c cs other ih =>
    rw [List.map_cons, holdsAssign, ih]
    intro tail colon sign
    obtain ⟨d, ds, rfl, equal, -⟩ := List.map_eq_cons_iff.mp sign
    obtain rfl := (respaces.apply_eq_iff rfl).mp equal
    exact other ds ((respaces.apply_eq_iff rfl).mp colon) rfl
  | case3 => rfl

theorem readAssign_map {line : Int} {cs : List Char} {a : Assign Empty}
    (reads : readAssign line cs = .ok a) : readAssign line (cs.map f) = .ok a := by
  obtain ⟨name, value, e, found, inner, rfl⟩ := readAssign_ok_iff.mp reads
  refine readAssign_ok_iff.mpr ⟨name, value.map f, e, ?_, respaces.readExpr_map inner, rfl⟩
  rw [respaces.trim_map, respaces.matchAssign?_map, found]
  rfl

/-! Blocks. -/

theorem followBraces_map (depth : Nat) (cs : List Char) :
    followBraces depth (cs.map f) =
      (followBraces depth cs).map (Prod.map (List.map f) (List.map f)) := by
  have passes : ∀ (c : Char) (r : Except Nat (List Char × List Char)),
      (r.map (Prod.map (List.map f) (List.map f))).map (fun p => (f c :: p.1, p.2)) =
        (r.map fun p => (c :: p.1, p.2)).map (Prod.map (List.map f) (List.map f)) := by
    intro c r
    cases r <;> rfl
  induction cs generalizing depth with
  | nil => rfl
  | cons c cs ih =>
    simp only [List.map_cons, followBraces, ih, respaces.apply_eq_iff (d := '\x7b') rfl,
      respaces.apply_eq_iff (d := '\x7d') rfl, passes]
    split
    · rfl
    · split
      · cases depth <;> rfl
      · rfl

theorem ofText_map (number : Nat) (cs : List Char) :
    Line.ofText number (cs.map f) = (Line.ofText number cs).map (Line.respaced f) := by
  unfold Line.ofText
  rw [respaces.trim_map, List.isEmpty_map]
  split <;> rfl

theorem takeBlock_map (depth number : Nat) (chunk : List Char) (lines : List Line) :
    takeBlock depth number (chunk.map f) (lines.map (Line.respaced f)) =
      (takeBlock depth number chunk lines).map (Block.respaced f) := by
  induction lines generalizing depth number chunk with
  | nil =>
    rw [List.map_nil, takeBlock, takeBlock, respaces.followBraces_map]
    cases followBraces depth chunk with
    | error unclosed => rfl
    | ok p => simp [Except.map, Block.respaced, respaces.ofText_map, respaces.trim_map]
  | cons line lines ih =>
    rw [List.map_cons, takeBlock, takeBlock, respaces.followBraces_map]
    cases followBraces depth chunk with
    | error unclosed =>
      dsimp only [Except.map, Line.respaced]
      rw [ih, Option.map_map, Option.map_map, respaces.ofText_map]
      congr 1
      funext b
      simp [Block.respaced]
    | ok p => simp [Except.map, Block.respaced, respaces.ofText_map, respaces.trim_map]

theorem joinElse_map (b : Block) : (b.respaced f).joinElse = b.joinElse.respaced f := by
  have solid : ∀ c ∈ Keyword.elseWord.text, Text.isBlank c = false := fun c member =>
    Text.isBlank_of_isNameChar (Keyword.elseWord.isNameChar_text c member)
  obtain ⟨body, trailing, closing, rest⟩ := b
  match trailing, rest with
  | [], [] => rfl
  | c :: trailing, rest => rfl
  | [], (n, l) :: rest =>
    simp only [Block.joinElse, Block.respaced, List.map_nil, List.map_cons, Line.respaced,
      respaces.isPrefixOf_map solid]
    split <;> rfl

theorem openBlock_map {number : Nat} {chunk : List Char} {lines : List Line} {b : Block}
    (opens : openBlock number chunk lines = .ok b) :
    openBlock number (chunk.map f) (lines.map (Line.respaced f)) = .ok (b.respaced f) := by
  rw [openBlock_ok_iff] at opens ⊢
  rw [respaces.takeBlock_map, opens]
  rfl

theorem readElse_map {b : Block} {e rest : List Line} (reads : readElse b = .ok (e, rest)) :
    readElse (b.respaced f) = .ok (e.map (Line.respaced f), rest.map (Line.respaced f)) := by
  have same : keyword? (b.respaced f).trailing = keyword? b.trailing :=
    respaces.keyword?_map b.trailing
  rw [readElse_ok_iff] at reads ⊢
  rw [same]
  split at reads
  · rename_i word
    obtain ⟨chunk, b', found, opens, rfl, rfl⟩ := reads
    rw [if_pos word]
    refine ⟨chunk.map f, b'.respaced f, ?_, respaces.openBlock_map opens, rfl,
      b'.remaining_respaced f⟩
    exact (respaces.matchElse?_map b.trailing).trans (congrArg _ found)
  · rename_i word
    obtain ⟨rfl, rfl⟩ := reads
    rw [if_neg word]
    exact ⟨rfl, b.remaining_respaced f⟩

/-! Statements. -/

section

variable {number : Nat} {cs : List Char} {lines rest : List Line} {shape : Shape Empty}

theorem readIf_map (reads : readIf number cs lines = .ok (shape, rest)) :
    readIf number (cs.map f) (lines.map (Line.respaced f)) =
      .ok (shape.respaced f, rest.map (Line.respaced f)) := by
  obtain ⟨cond, chunk, c, b, e, head, condition, opens, other, rfl⟩ := readIf_ok_iff.mp reads
  refine readIf_ok_iff.mpr ⟨cond.map f, chunk.map f, c, b.respaced f, e.map (Line.respaced f), ?_,
    respaces.readExpr_map condition, respaces.openBlock_map opens, ?_, rfl⟩
  · rw [respaces.matchHead?_map, head]
    rfl
  · rw [respaces.joinElse_map]
    exact respaces.readElse_map other

theorem readWhile_map (reads : readWhile number cs lines = .ok (shape, rest)) :
    readWhile number (cs.map f) (lines.map (Line.respaced f)) =
      .ok (shape.respaced f, rest.map (Line.respaced f)) := by
  obtain ⟨cond, chunk, c, b, head, condition, opens, rfl, rfl⟩ := readWhile_ok_iff.mp reads
  refine readWhile_ok_iff.mpr ⟨cond.map f, chunk.map f, c, b.respaced f, ?_,
    respaces.readExpr_map condition, respaces.openBlock_map opens, rfl, b.remaining_respaced f⟩
  rw [respaces.matchHead?_map, head]
  rfl

theorem readFor_map (reads : readFor number cs lines = .ok (shape, rest)) :
    readFor number (cs.map f) (lines.map (Line.respaced f)) =
      .ok (shape.respaced f, rest.map (Line.respaced f)) := by
  obtain ⟨init, cond, update, chunk, i, c, u, b, head, first, condition, last, opens, rfl, rfl⟩ :=
    readFor_ok_iff.mp reads
  refine readFor_ok_iff.mpr ⟨init.map f, cond.map f, update.map f, chunk.map f, i, c, u,
    b.respaced f, respaces.matchFor?_map head, respaces.readAssign_map first,
    respaces.readExpr_map condition, ?_, respaces.openBlock_map opens, rfl,
    b.remaining_respaced f⟩
  rw [respaces.trim_map, respaces.dropSemicolons_map]
  exact respaces.readAssign_map last

theorem readAssertion_map (reads : readAssertion number cs lines = .ok (shape, rest)) :
    readAssertion number (cs.map f) (lines.map (Line.respaced f)) =
      .ok (shape.respaced f, rest.map (Line.respaced f)) := by
  obtain ⟨cond, c, head, condition, rfl, rfl⟩ := readAssertion_ok_iff.mp reads
  refine readAssertion_ok_iff.mpr ⟨cond.map f, c, ?_, respaces.readExpr_map condition, rfl, rfl⟩
  rw [respaces.matchAssert?_map, head]
  rfl

theorem readPlain_map (reads : readPlain number cs lines = .ok (shape, rest)) :
    readPlain number (cs.map f) (lines.map (Line.respaced f)) =
      .ok (shape.respaced f, rest.map (Line.respaced f)) := by
  obtain ⟨a, brace, assigns, mark, assign, rfl, rfl⟩ := readPlain_ok_iff.mp reads
  refine readPlain_ok_iff.mpr ⟨a, ?_, ?_, ?_, ?_, rfl, rfl⟩
  · intro closes
    rw [List.head?_map] at closes
    obtain ⟨c, first, same⟩ := Option.map_eq_some_iff.mp closes
    exact brace (first.trans (congrArg some ((respaces.apply_eq_iff rfl).mp same)))
  · rw [respaces.holdsAssign_map, assigns]
  · rw [List.getLast?_map, mark, Option.map_some, respaces.other ';' rfl]
  · rw [← List.map_dropLast]
    exact respaces.readAssign_map assign

theorem readShape_map {line : Line} (reads : readShape line lines = .ok (shape, rest)) :
    readShape (line.respaced f) (lines.map (Line.respaced f)) =
      .ok (shape.respaced f, rest.map (Line.respaced f)) := by
  have same : keyword? (line.respaced f).2 = keyword? line.2 := respaces.keyword?_map line.2
  unfold readShape at reads ⊢
  rw [same]
  split at reads
  · exact respaces.readIf_map reads
  · exact respaces.readWhile_map reads
  · exact respaces.readFor_map reads
  · exact respaces.readAssertion_map reads
  · contradiction
  · exact respaces.readPlain_map reads

end

theorem readsAs_map {lines : List Line} {p : Program Empty} (reads : ReadsAs lines p) :
    ReadsAs (lines.map (Line.respaced f)) p := by
  induction reads with
  | nil => exact .nil
  | simple found _ more => exact .simple (respaces.readShape_map found) more
  | branch found _ _ _ t e more => exact .branch (respaces.readShape_map found) t e more
  | whileLoop found _ _ body more => exact .whileLoop (respaces.readShape_map found) body more
  | forLoop found _ _ body more => exact .forLoop (respaces.readShape_map found) body more

end Respaces

/-! Lines and comments of a text whose characters change. -/

section

variable {g : Char → Char}

theorem Text.lines_map (breaks : ∀ c, isBreak c = true → g c = c)
    (others : ∀ c, isBreak c = false → isBreak (g c) = false) (cs : List Char) :
    lines (cs.map g) = (lines cs).map (List.map g) := by
  fun_induction lines cs with
  | case1 => rfl
  | case2 cs ih =>
    rw [List.map_cons, List.map_cons, breaks '\r' rfl, breaks '\n' rfl, lines, ih]
    rfl
  | case3 c cs other ends ih =>
    rw [List.map_cons, breaks c ends, lines, if_pos ends, ih]
    · rfl
    · intro tail first second
      obtain ⟨d, ds, rfl, same, -⟩ := List.map_eq_cons_iff.mp second
      cases kind : isBreak d with
      | true => exact other ds first (by rw [← same, breaks d kind])
      | false => exact absurd (congrArg isBreak same) (ne_of_eq_of_ne (others d kind) (by decide))
  | case4 c cs other inside none ih =>
    rw [List.map_cons, lines_inline (others c (by simpa using inside)), ih, none]
    rfl
  | case5 c cs other inside l ls first ih =>
    rw [List.map_cons, lines_inline (others c (by simpa using inside)), ih, first]
    rfl

theorem Text.withoutComment_map (slash : ∀ c, g c = '/' ↔ c = '/') (cs : List Char) :
    withoutComment (cs.map g) = (withoutComment cs).map g := by
  fun_induction withoutComment cs with
  | case1 => rfl
  | case2 cs =>
    rw [List.map_cons, List.map_cons, (slash '/').mpr rfl, withoutComment]
    rfl
  | case3 c cs other ih =>
    rw [List.map_cons, withoutComment, ih]
    · rfl
    · intro tail first second
      obtain ⟨d, ds, rfl, same, -⟩ := List.map_eq_cons_iff.mp second
      obtain rfl := (slash d).mp same
      exact other ds ((slash c).mp first) rfl

end

namespace Page

def softChar (c : Char) : Char := if c = '\u00a0' then ' ' else c

theorem respaces_softChar : Respaces softChar where
  blank c blank := by
    unfold softChar
    split
    · decide
    · exact blank
  other c solid := by
    apply if_neg
    rintro rfl
    exact absurd solid (by decide)

theorem plainChar_cases (c : Char) :
    (c = '\u00a0' ∨ c = '\u200b') ∧ plainChar c = ' ' ∨ plainChar c = c := by
  unfold plainChar
  split
  · rename_i space
    exact .inl ⟨by simpa using space, rfl⟩
  · exact .inr rfl

theorem plainChar_eq_softChar {c : Char} (code : Text.isCode c = true) :
    plainChar c = softChar c := by
  have visible : c ≠ '\u200b' := by
    rintro rfl
    exact absurd code (by decide)
  simp [plainChar, softChar, visible]

theorem map_plainChar {cs : List Char} (code : OnlyCode cs) : cs.map plainChar = cs.map softChar :=
  List.map_congr_left fun c member => plainChar_eq_softChar (code c member)

theorem numbered_map {n : Nat} {ls : List (List Char)} (code : AllCode (Line.numbered n ls)) :
    Line.numbered n (ls.map (List.map plainChar)) =
      (Line.numbered n ls).map (Line.respaced softChar) := by
  have slash : ∀ c, plainChar c = '/' ↔ c = '/' := fun c => by
    rcases plainChar_cases c with ⟨rfl | rfl, -⟩ | same
    · decide
    · decide
    · rw [same]
  induction ls generalizing n with
  | nil => rfl
  | cons l ls ih =>
    obtain ⟨first, later⟩ := List.forall_mem_append.mp code
    rw [List.map_cons, Line.numbered, Line.numbered, ih later, Text.withoutComment_map slash,
      map_plainChar (onlyCode_of_ofText first), respaces_softChar.ofText_map, List.map_append]

theorem lines_plainChar (cs : List Char) :
    Text.lines (cs.map plainChar) = (Text.lines cs).map (List.map plainChar) := by
  refine Text.lines_map (fun c ends => ?_) (fun c inside => ?_) cs
  · rcases plainChar_cases c with ⟨rfl | rfl, -⟩ | same
    · exact absurd ends (by decide)
    · exact absurd ends (by decide)
    · exact same
  · rcases plainChar_cases c with ⟨-, space⟩ | same
    · rw [space]
      decide
    · rwa [same]

end Page

/-- A program that is accepted is the same program with plain spaces. -/
theorem parse_plainSpaces (text : String) (p : Program Empty)
    (accepted : (parse text).trace.1 = .ok p) :
    (parse (Page.plainSpaces text)).trace.1 = .ok p := by
  rw [parse_result] at accepted ⊢
  have reads := readBlock_ok_iff.mp accepted
  unfold readProgram
  rw [Page.plainSpaces, String.toList_ofList, Page.lines_plainChar, Page.numbered_map reads.allCode]
  exact (Page.respaces_softChar.readsAs_map reads).readBlock

/-- Hard spaces in code and at the start of a line, and an invisible one in a comment. -/
def hardSpaced : String :=
  "if (n\u00a0> 0) \x7b // above\u200bzero\n\u00a0 s := s +\u00a0a[n]; \x7d\n"

theorem parse_plainSpaces_hardSpaced :
    Page.plainSpaces hardSpaced ≠ hardSpaced ∧
    ∃ p : Program Empty, (parse hardSpaced).trace.1 = .ok p ∧
      (parse (Page.plainSpaces hardSpaced)).trace.1 = .ok p := by
  obtain ⟨p, accepted⟩ := exists_ok (x := (parse (ω := Empty) hardSpaced).trace.1)
    (by decide +kernel)
  exact ⟨by decide, p, accepted, parse_plainSpaces hardSpaced p accepted⟩

end Assay
