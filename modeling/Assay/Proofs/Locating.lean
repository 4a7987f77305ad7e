import Assay.Proofs.Accepting
import Assay.Proofs.DigitLimit
import Mathlib.Data.List.Nodup

/-! Where a text fails to be read. Every piece of text carries the number of the line it stands on:
through blocks, what follows their closing braces, `else` parts and the bodies inside. So an error
names a line that holds code, and what it quotes is a piece of that code. -/
namespace Assay

/-! What reading quotes. -/

namespace ParseReason

/-- What a message says in front of the program text that it quotes. -/
def openings : List String :=
  ["invalid if statement: ", "invalid else clause: ", "invalid while statement: ",
    "invalid for statement: ", "invalid assert statement: ", "expected ';' after assignment: ",
    "unrecognized statement: ", "invalid assignment: ", "invalid expression: "]

def silent : List String :=
  [ParseReason.elseAlone.message, ParseReason.braceAlone.message, ParseReason.operand.message,
    ParseReason.block.message]

def opening : ParseReason → String
  | .form f _ => "invalid " ++ f.name ++ ": "
  | .semicolon _ => "expected ';' after assignment: "
  | .statement _ => "unrecognized statement: "
  | .assignment _ => "invalid assignment: "
  | .expression _ => "invalid expression: "
  | r => r.message

theorem message_eq (r : ParseReason) : r.message = r.opening ++ r.quotes.getD "" := by
  cases r with
  | form | semicolon | statement | assignment | expression => rfl
  | elseAlone | braceAlone | operand | block => exact String.append_empty.symm

theorem form_opening (f : Form) : "invalid " ++ f.name ++ ": " ∈ openings := by
  cases f <;> decide

theorem opening_cases (r : ParseReason) :
    (r.opening ∈ openings ∧ r.quotes = some (r.quotes.getD "")) ∨ r.opening ∈ silent := by
  cases r with
  | form f text => exact .inl ⟨form_opening f, rfl⟩
  | semicolon text => exact .inl ⟨List.mem_of_getElem? (i := 5) rfl, rfl⟩
  | statement text => exact .inl ⟨List.mem_of_getElem? (i := 6) rfl, rfl⟩
  | assignment text => exact .inl ⟨List.mem_of_getElem? (i := 7) rfl, rfl⟩
  | expression text => exact .inl ⟨List.mem_of_getElem? (i := 8) rfl, rfl⟩
  | elseAlone => exact .inr (List.mem_of_getElem? (i := 0) rfl)
  | braceAlone => exact .inr (List.mem_of_getElem? (i := 1) rfl)
  | operand => exact .inr (List.mem_of_getElem? (i := 2) rfl)
  | block => exact .inr (List.mem_of_getElem? (i := 3) rfl)

/-- Twelve characters tell the openings apart, from each other and from messages without quotes. -/
def key (o : String) : List Char := o.toList.take 12

theorem keys_nodup : ((openings ++ silent).map key).Nodup := by decide +kernel

theorem key_append {o : String} (known : o ∈ openings ++ silent) (more : String) :
    key (o ++ more) = key o := by
  have long : ∀ o ∈ openings ++ silent, 12 ≤ o.toList.length := by decide +kernel
  unfold key
  rw [String.toList_append, List.take_append_of_le_length (long o known)]

theorem quotes_of_message {r : ParseReason} {o quoted : String} (quoting : o ∈ openings)
    (told : r.message = o ++ quoted) : r.quotes = some quoted := by
  have known : o ∈ openings ++ silent := List.mem_append_left _ quoting
  have own : r.opening ∈ openings ++ silent :=
    List.mem_append.mpr (r.opening_cases.imp_left And.left)
  have whole := (message_eq r).symm.trans told
  have keys := congrArg key whole
  rw [key_append own, key_append known] at keys
  obtain rfl := List.inj_on_of_nodup_map keys_nodup own known keys
  rcases r.opening_cases with ⟨-, quotes⟩ | silence
  · rw [String.append_right_inj] at whole
    rw [quotes, whole]
  · exact absurd silence (List.disjoint_of_nodup_append (.of_map _ keys_nodup) quoting)

end ParseReason

/-- The error names the line, and what it quotes stands in the text; so do digits that are too
many. -/
def Error.Within (line : Int) (cs : List Char) : Error → Prop
  | .parse named reason => named = line ∧ ∀ quoted ∈ reason.quotes, quoted.toList <:+: cs
  | .longRead digits => Text.LongRun digits cs
  | _ => True

theorem Error.Within.mono {line : Int} {cs ds : List Char} {fault : Error}
    (within : fault.Within line cs) (inside : cs <:+: ds) : fault.Within line ds := by
  cases fault with
  | parse named reason => exact ⟨within.1, fun q member => (within.2 q member).trans inside⟩
  | longRead digits => exact ⟨within.1, within.2.mono inside⟩
  | _ => trivial

theorem Error.within_quote {line : Int} {cs ds : List Char} {reason : ParseReason}
    (quotes : reason.quotes = some (String.ofList ds)) (inside : ds <:+: cs) :
    (Error.parse line reason).Within line cs := by
  refine ⟨rfl, fun quoted member => ?_⟩
  rw [quotes] at member
  cases member
  rwa [String.toList_ofList]

theorem Error.within_silent {line : Int} {cs : List Char} {reason : ParseReason}
    (quotes : reason.quotes = none) : (Error.parse line reason).Within line cs := by
  refine ⟨rfl, fun quoted member => ?_⟩
  rw [quotes] at member
  contradiction

theorem Text.splitSign_suffix {cs digits : List Char} {negative : Bool}
    (parts : Text.splitSign cs = (negative, digits)) : digits <:+ cs := by
  unfold splitSign at parts
  split at parts
  all_goals
    cases parts
    simp

section

variable {line : Int} {cs ds : List Char}

theorem readTrimmed_within (line : Int) (text : List Char) :
    Errs (Error.Within line text) (readTrimmed (ω := Empty) line text) := by
  fun_induction readTrimmed (ω := Empty) line text with
  | case1 => exact errs_error (Error.within_silent rfl)
  | case2 text _ literal =>
    obtain ⟨negative, digits, parts, all⟩ := Text.splitSign_literal literal
    unfold readLiteral
    rw [parts]
    dsimp only
    split
    · rename_i long
      have inside : digits <:+: text := (Text.splitSign_suffix parts).isInfix
      exact errs_error (show Text.LongRun _ text from ⟨long, digits, inside, rfl, all⟩)
    · exact errs_ok _
  | case3 text _ _ name index found fault fails ih =>
    obtain ⟨gap, parts, -⟩ := Expr.splitRead?_parts found
    have inside : index <:+: text := ⟨name ++ (gap ++ ['[']), [']'], by rw [parts]; simp⟩
    exact errs_error ((ih fault fails).mono ((Text.trim_inside index).trans inside))
  | case5 text _ _ _ op left right found fault fails ih =>
    have parts := (Expr.splitOperator?_all_iff.mp found).1.parts
    have inside : left <:+: text := ⟨[], op.text.toList ++ right, by rw [parts]; simp⟩
    exact errs_error ((ih fault fails).mono ((Text.trim_inside left).trans inside))
  | case6 text _ _ _ op left right found _ _ fault fails _ ih =>
    have parts := (Expr.splitOperator?_all_iff.mp found).1.parts
    have inside : right <:+: text := ⟨left ++ op.text.toList, [], by rw [parts]; simp⟩
    exact errs_error ((ih fault fails).mono ((Text.trim_inside right).trans inside))
  | case8 text _ _ _ _ operand found fault fails ih =>
    have inside : operand <:+: text := ⟨['!'], [], by rw [Expr.splitNot?_eq_some found]; simp⟩
    exact errs_error ((ih fault fails).mono ((Text.trim_inside operand).trans inside))
  | case11 text => exact errs_error (Error.within_quote rfl (List.infix_refl text))
  | case4 | case7 | case9 | case10 => exact errs_ok _

theorem readExpr_within (inside : ds <:+: cs) :
    Errs (Error.Within line cs) (readExpr (ω := Empty) line ds) :=
  errs_mono (readTrimmed_within line _) fun _ within =>
    within.mono ((Text.trim_inside ds).trans inside)

theorem readAssign_within (inside : ds <:+: cs) :
    Errs (Error.Within line cs) (readAssign (ω := Empty) line ds) := by
  have trimmed := (Text.trim_inside ds).trans inside
  unfold readAssign
  split
  · exact errs_error (Error.within_quote rfl trimmed)
  · rename_i name value found
    obtain ⟨gap, parts, -⟩ := matchAssign?_parts found
    have valueInside : value <:+: Text.trim ds :=
      ⟨name ++ (gap ++ [':', '=']), [], by rw [parts]; simp⟩
    exact errs_bind (readExpr_within (valueInside.trans trimmed)) fun _ => errs_ok _

end

/-! Pieces of lines. -/

/-- The line of this number has this code in front of its comment, and not only blanks. -/
def CodeLine (text : List Char) (number : Nat) (code : List Char) : Prop :=
  ∃ k l, number = k + 1 ∧ (Text.lines text)[k]? = some l ∧ code = Text.withoutComment l ∧
    ¬ Text.AllBlank code

def Line.StandsIn (text : List Char) (line : Line) : Prop :=
  ∃ code, CodeLine text line.1 code ∧ line.2 <:+: code

def AllStandIn (text : List Char) (lines : List Line) : Prop := ∀ l ∈ lines, l.StandsIn text

structure Block.StandsIn (text : List Char) (b : Block) : Prop where
  body : AllStandIn text b.body
  trailing : Line.StandsIn text (b.closing, b.trailing)
  rest : AllStandIn text b.rest

/-- The error names a line with code, and what it quotes is a piece of that code. -/
def Error.PointsInto (text : List Char) (fault : Error) : Prop :=
  ∃ number code, CodeLine text number code ∧ fault.Within number code

section

variable {text cs ds chunk : List Char} {number : Nat} {lines : List Line}

theorem Line.StandsIn.piece (stands : Line.StandsIn text (number, cs)) (inside : ds <:+: cs) :
    Line.StandsIn text (number, ds) := by
  obtain ⟨code, line, whole⟩ := stands
  exact ⟨code, line, inside.trans whole⟩

theorem Line.StandsIn.ofText (stands : Line.StandsIn text (number, cs)) :
    AllStandIn text (Line.ofText number cs) := by
  unfold Line.ofText
  split
  · exact nofun
  · exact List.forall_mem_singleton.mpr (stands.piece (Text.trim_inside cs))

theorem Line.StandsIn.points {fault : Error} (stands : Line.StandsIn text (number, cs))
    (within : fault.Within number cs) : fault.PointsInto text := by
  obtain ⟨code, line, whole⟩ := stands
  exact ⟨number, code, line, within.mono whole⟩

theorem Line.StandsIn.errs {α : Type} {r : Except Error α}
    (stands : Line.StandsIn text (number, cs)) (within : Errs (Error.Within number cs) r) :
    Errs (Error.PointsInto text) r :=
  errs_mono within fun _ => stands.points

theorem mem_numbered {n : Nat} {ls : List (List Char)} {line : Line}
    (member : line ∈ Line.numbered n ls) :
    ∃ k l, line.1 = n + k ∧ ls[k]? = some l ∧ line.2 = Text.trim (Text.withoutComment l) ∧
      line.2 ≠ [] := by
  induction ls generalizing n with
  | nil => exact absurd member List.not_mem_nil
  | cons l ls ih =>
    rcases List.mem_append.mp member with here | later
    · unfold Line.ofText at here
      split at here
      · exact absurd here List.not_mem_nil
      · rename_i kept
        obtain rfl := List.mem_singleton.mp here
        exact ⟨0, l, rfl, rfl, rfl, by simpa using kept⟩
    · obtain ⟨k, l', number, found, trimmed⟩ := ih later
      exact ⟨k + 1, l', by rw [number]; omega, found, trimmed⟩

theorem numbered_stand (text : List Char) :
    AllStandIn text (Line.numbered 1 (Text.lines text)) := by
  intro line member
  obtain ⟨k, l, number, found, trimmed, kept⟩ := mem_numbered member
  refine ⟨Text.withoutComment l, ⟨k, l, by omega, found, rfl, fun blank => kept ?_⟩, ?_⟩
  · rw [trimmed]
    exact Text.trim_blank_back blank []
  · rw [trimmed]
    exact Text.trim_inside _

/-! Blocks. -/

theorem takeBlock_stands {depth : Nat} {b : Block} (here : Line.StandsIn text (number, chunk))
    (behind : AllStandIn text lines) (taken : takeBlock depth number chunk lines = some b) :
    b.StandsIn text := by
  have closed : ∀ {depth number chunk inside after rest},
      Line.StandsIn text (number, chunk) → AllStandIn text rest →
      followBraces depth chunk = .ok (inside, after) →
      Block.StandsIn text ⟨Line.ofText number inside, Text.trim after, number, rest⟩ := by
    intro depth number chunk inside after rest here behind closes
    have parts := followBraces_parts closes
    have front : inside <:+: chunk := ⟨[], '\x7d' :: after, by rw [parts]; rfl⟩
    have back : after <:+: chunk := ⟨inside ++ ['\x7d'], [], by rw [parts]; simp⟩
    exact ⟨(here.piece front).ofText, here.piece ((Text.trim_inside after).trans back), behind⟩
  induction lines generalizing depth number chunk b with
  | nil =>
    unfold takeBlock at taken
    split at taken
    · rename_i closes
      cases taken
      exact closed here behind closes
    · contradiction
  | cons line lines ih =>
    obtain ⟨next, behind'⟩ := List.forall_mem_cons.mp behind
    unfold takeBlock at taken
    split at taken
    · rename_i closes
      cases taken
      exact closed here behind closes
    · obtain ⟨b', later, rfl⟩ := Option.map_eq_some_iff.mp taken
      obtain ⟨body, trailing, rest⟩ := ih next behind' later
      exact ⟨List.forall_mem_append.mpr ⟨here.ofText, body⟩, trailing, rest⟩

theorem Block.StandsIn.remaining {b : Block} (stands : b.StandsIn text) :
    AllStandIn text b.remaining := by
  unfold Block.remaining
  split
  · exact stands.rest
  · exact List.forall_mem_cons.mpr ⟨stands.trailing, stands.rest⟩

theorem Block.StandsIn.joinElse {b : Block} (stands : b.StandsIn text) :
    b.joinElse.StandsIn text := by
  unfold Block.joinElse
  split
  · rename_i _ _ _ _ behind
    split
    · have rest := stands.rest
      rw [behind] at rest
      obtain ⟨first, rest⟩ := List.forall_mem_cons.mp rest
      exact ⟨stands.body, first, rest⟩
    · exact stands
  · exact stands

end

/-! Statements. What is read fails inside its line or leaves pieces of lines. -/

def Gives {α : Type} (P : Error → Prop) (Q : α → Prop) : Except Error α → Prop
  | .error fault => P fault
  | .ok a => Q a

section

variable {α β : Type} {P : Error → Prop} {Q : α → Prop}

theorem Gives.of_errs {r : Except Error α} (errs : Errs P r) : Gives P (fun _ => True) r := by
  cases r with
  | error fault => exact errs fault rfl
  | ok a => trivial

theorem gives_bind {Q' : β → Prop} {r : Except Error α} {next : α → Except Error β}
    (first : Gives P Q r) (later : ∀ a, Q a → Gives P Q' (next a)) : Gives P Q' (r >>= next) := by
  cases r with
  | error fault => exact first
  | ok a => exact later a first

theorem errs_bind_gives {Q' : β → Prop} {r : Except Error α} {next : α → Except Error β}
    (first : Errs P r) (later : ∀ a, Gives P Q' (next a)) : Gives P Q' (r >>= next) :=
  gives_bind (.of_errs first) fun a _ => later a

end

def LeavesPieces (text : List Char) (result : Shape Empty × List Line) : Prop :=
  AllStandIn text (result.1.lines ++ result.2)

section

variable {text cs : List Char} {number : Nat} {lines : List Line}

theorem openBlock_gives {chunk : List Char} (here : Line.StandsIn text (number, chunk))
    (behind : AllStandIn text lines) :
    Gives (Error.PointsInto text) (Block.StandsIn text) (openBlock number chunk lines) := by
  unfold openBlock
  split
  · exact here.points (Error.within_silent rfl)
  · rename_i taken
    exact takeBlock_stands here behind taken

theorem readElse_gives {b : Block} (stands : b.StandsIn text) :
    Gives (Error.PointsInto text) (fun p => AllStandIn text (p.1 ++ p.2)) (readElse b) := by
  unfold readElse
  split
  · rename_i word
    split
    · exact stands.trailing.points (Error.within_quote rfl (List.infix_refl _))
    · rename_i chunk header
      obtain ⟨gap, parts, -⟩ := matchElse?_parts (starts_of_keyword? word) header
      have inside : chunk <:+: b.trailing :=
        ⟨Keyword.elseWord.text ++ (gap ++ ['\x7b']), [], by rw [parts]; simp⟩
      refine gives_bind (openBlock_gives (stands.trailing.piece inside) stands.rest) ?_
      exact fun e inner => List.forall_mem_append.mpr ⟨inner.body, inner.remaining⟩
  · exact stands.remaining

theorem badForm_gives {α : Type} {Q : α → Prop} {form : Form}
    (here : Line.StandsIn text (number, cs)) :
    Gives (Error.PointsInto text) Q (badForm number form cs) :=
  here.points (Error.within_quote rfl (List.infix_refl cs))

theorem matchHead?_inside {k : Keyword} {cond chunk : List Char} (starts : k.text <+: cs)
    (found : matchHead? k cs = some (cond, chunk)) : cond <:+: cs ∧ chunk <:+: cs := by
  obtain ⟨gap, gap', parts, -⟩ := matchHead?_parts starts found
  constructor
  · exact ⟨k.text ++ (gap ++ ['(']), ')' :: (gap' ++ '\x7b' :: chunk), by rw [parts]; simp⟩
  · exact ⟨k.text ++ (gap ++ '(' :: (cond ++ ')' :: (gap' ++ ['\x7b']))), [], by rw [parts]; simp⟩

variable (here : Line.StandsIn text (number, cs)) (behind : AllStandIn text lines)

include here behind

theorem readIf_gives (starts : Keyword.ifWord.text <+: cs) :
    Gives (Error.PointsInto text) (LeavesPieces text) (readIf number cs lines) := by
  unfold readIf
  split
  · exact badForm_gives here
  · rename_i found
    obtain ⟨cond, chunk⟩ := matchHead?_inside starts found
    refine errs_bind_gives (here.errs (readExpr_within cond)) fun c => ?_
    refine gives_bind (openBlock_gives (here.piece chunk) behind) fun b block => ?_
    refine gives_bind (readElse_gives block.joinElse) fun ⟨e, rest⟩ others => ?_
    change AllStandIn text (b.body ++ e ++ rest)
    rw [List.append_assoc]
    exact List.forall_mem_append.mpr ⟨block.body, others⟩

theorem readWhile_gives (starts : Keyword.whileWord.text <+: cs) :
    Gives (Error.PointsInto text) (LeavesPieces text) (readWhile number cs lines) := by
  unfold readWhile
  split
  · exact badForm_gives here
  · rename_i found
    obtain ⟨cond, chunk⟩ := matchHead?_inside starts found
    refine errs_bind_gives (here.errs (readExpr_within cond)) fun c => ?_
    refine gives_bind (openBlock_gives (here.piece chunk) behind) fun b block => ?_
    exact List.forall_mem_append.mpr ⟨block.body, block.remaining⟩

theorem readFor_gives (starts : Keyword.forWord.text <+: cs) :
    Gives (Error.PointsInto text) (LeavesPieces text) (readFor number cs lines) := by
  unfold readFor
  split
  · exact badForm_gives here
  · rename_i init cond update chunk found
    obtain ⟨gap, gap', parts, -⟩ := matchFor?_parts starts found
    let front := Keyword.forWord.text ++ (gap ++ ['('])
    let back := ')' :: (gap' ++ '\x7b' :: chunk)
    have initInside : init <:+: cs :=
      ⟨front, ';' :: (cond ++ ';' :: (update ++ back)), by rw [parts]; simp [front, back]⟩
    have condInside : cond <:+: cs :=
      ⟨front ++ (init ++ [';']), ';' :: (update ++ back), by rw [parts]; simp [front, back]⟩
    have updateInside : update <:+: cs :=
      ⟨front ++ (init ++ ';' :: (cond ++ [';'])), back, by rw [parts]; simp [front, back]⟩
    have chunkInside : chunk <:+: cs :=
      ⟨front ++ (init ++ ';' :: (cond ++ ';' :: (update ++ ')' :: (gap' ++ ['\x7b'])))), [], by
        rw [parts]; simp [front]⟩
    have updated : dropSemicolons (Text.trim update) <:+: cs := by
      obtain ⟨marks, whole, -⟩ := dropSemicolons_parts (Text.trim update)
      have trimmed := (Text.trim_inside update).trans updateInside
      rw [whole] at trimmed
      exact (List.infix_append [] _ marks).trans trimmed
    refine errs_bind_gives (here.errs (readAssign_within initInside)) fun i => ?_
    refine errs_bind_gives (here.errs (readExpr_within condInside)) fun c => ?_
    refine errs_bind_gives (here.errs (readAssign_within updated)) fun u => ?_
    refine gives_bind (openBlock_gives (here.piece chunkInside) behind) fun b block => ?_
    exact List.forall_mem_append.mpr ⟨block.body, block.remaining⟩

theorem readAssertion_gives (starts : Keyword.assertWord.text <+: cs) :
    Gives (Error.PointsInto text) (LeavesPieces text) (readAssertion number cs lines) := by
  unfold readAssertion
  split
  · exact badForm_gives here
  · rename_i cond found
    obtain ⟨gap, gap', parts, -⟩ := matchAssert?_parts starts found
    have inside : cond <:+: cs :=
      ⟨Keyword.assertWord.text ++ (gap ++ ['(']), ')' :: (gap' ++ [';']), by rw [parts]; simp⟩
    exact errs_bind_gives (here.errs (readExpr_within inside)) fun c => behind

theorem readPlain_gives :
    Gives (Error.PointsInto text) (LeavesPieces text) (readPlain number cs lines) := by
  unfold readPlain
  split
  · exact here.points (Error.within_silent rfl)
  · split
    · split
      · have inside : cs.dropLast <:+: cs := (List.dropLast_prefix cs).isInfix
        exact errs_bind_gives (here.errs (readAssign_within inside)) fun a => behind
      · exact here.points (Error.within_quote rfl (List.infix_refl cs))
    · exact here.points (Error.within_quote rfl (List.infix_refl cs))

end

section

variable {text : List Char} {lines : List Line}

theorem readShape_gives {line : Line} (stand : AllStandIn text (line :: lines)) :
    Gives (Error.PointsInto text) (LeavesPieces text) (readShape line lines) := by
  obtain ⟨here, behind⟩ := List.forall_mem_cons.mp stand
  unfold readShape
  split
  · rename_i word
    exact readIf_gives here behind (starts_of_keyword? word)
  · rename_i word
    exact readWhile_gives here behind (starts_of_keyword? word)
  · rename_i word
    exact readFor_gives here behind (starts_of_keyword? word)
  · rename_i word
    exact readAssertion_gives here behind (starts_of_keyword? word)
  · exact here.points (Error.within_silent rfl)
  · exact readPlain_gives here behind

theorem readShape_pieces {line : Line} (stand : AllStandIn text (line :: lines))
    {shape : Shape Empty} {rest : List Line} (found : readShape line lines = .ok (shape, rest)) :
    AllStandIn text shape.lines ∧ AllStandIn text rest := by
  have gives := readShape_gives stand
  rw [found] at gives
  exact List.forall_mem_append.mp gives

theorem readBlock_points (stand : AllStandIn text lines) :
    Errs (Error.PointsInto text) (readBlock (ω := Empty) lines) := by
  fun_induction readBlock (ω := Empty) lines with
  | case2 line lines fault found =>
    have gives := readShape_gives stand
    rw [found] at gives
    exact errs_error gives
  | case3 line lines s rest found fault fails ih =>
    exact errs_error (ih (readShape_pieces stand found).2 fault fails)
  | case5 line lines c thenLines elseLines rest found fault fails ih =>
    have bodies := List.forall_mem_append.mp (readShape_pieces stand found).1
    exact errs_error (ih bodies.1 fault fails)
  | case6 line lines c thenLines elseLines rest found t readThen fault fails _ ih =>
    have bodies := List.forall_mem_append.mp (readShape_pieces stand found).1
    exact errs_error (ih bodies.2 fault fails)
  | case7 line lines c thenLines elseLines rest found t readThen e readElse fault fails _ _ ih =>
    exact errs_error (ih (readShape_pieces stand found).2 fault fails)
  | case9 line lines c body rest found fault fails ih =>
    exact errs_error (ih (readShape_pieces stand found).1 fault fails)
  | case10 line lines c body rest found b readBody fault fails _ ih =>
    exact errs_error (ih (readShape_pieces stand found).2 fault fails)
  | case12 line lines i c u body rest found fault fails ih =>
    exact errs_error (ih (readShape_pieces stand found).1 fault fails)
  | case13 line lines i c u body rest found b readBody fault fails _ ih =>
    exact errs_error (ih (readShape_pieces stand found).2 fault fails)
  | case1 | case4 | case8 | case11 | case14 => exact errs_ok _

end

/-! Digits that are too many. -/

theorem Text.lines_inside (cs : List Char) :
    (∀ l ∈ (lines cs).head?, l <+: cs) ∧ ∀ l ∈ lines cs, l <:+: cs := by
  fun_induction lines cs with
  | case1 => simp
  | case2 cs ih =>
    refine ⟨?_, List.forall_mem_cons.mpr ⟨List.nil_infix, fun l member => ?_⟩⟩
    · rintro _ ⟨⟩
      exact List.nil_prefix
    · exact List.infix_cons (List.infix_cons (ih.2 l member))
  | case3 c cs _ _ ih =>
    refine ⟨?_, List.forall_mem_cons.mpr ⟨List.nil_infix, fun l member => ?_⟩⟩
    · rintro _ ⟨⟩
      exact List.nil_prefix
    · exact List.infix_cons (ih.2 l member)
  | case4 c cs _ _ none ih =>
    have front : [c] <+: c :: cs := List.prefix_append [c] cs
    refine ⟨?_, List.forall_mem_singleton.mpr front.isInfix⟩
    rintro _ ⟨⟩
    exact front
  | case5 c cs _ _ l ls found ih =>
    rw [found] at ih
    have front : c :: l <+: c :: cs := (List.prefix_cons_inj c).mpr (ih.1 l rfl)
    refine ⟨?_, List.forall_mem_cons.mpr ⟨front.isInfix, fun m member => ?_⟩⟩
    · rintro _ ⟨⟩
      exact front
    · exact List.infix_cons (ih.2 m (List.mem_cons_of_mem _ member))

theorem Text.withoutComment_front (cs : List Char) : withoutComment cs <+: cs := by
  fun_induction withoutComment cs with
  | case1 | case2 => exact List.nil_prefix
  | case3 c cs _ ih => exact (List.prefix_cons_inj c).mpr ih

theorem readProgram_longRun {text : List Char} {digits : Nat}
    (fails : readProgram (ω := Empty) text = .error (.longRead digits)) :
    Text.LongRun digits text := by
  obtain ⟨number, code, ⟨k, l, -, found, rfl, -⟩, long, run⟩ :=
    readBlock_points (numbered_stand text) _ fails
  have line := (Text.lines_inside text).2 l (List.mem_of_getElem? found)
  exact ⟨long, run.mono ((Text.withoutComment_front l).isInfix.trans line)⟩

/-- A text that is refused for its form is refused on a line that has code, by its number from 1 on,
and all program text that the reason quotes is a piece of the code on that line. -/
theorem refusal_points_at_line (text : String) (line : Int) (reason : ParseReason)
    (refused : (parse (ω := Empty) text).trace.1 = .error (.parse line reason)) :
    ∃ (k : Nat) (l : List Char), (Text.lines text.toList)[k]? = some l ∧ line = k + 1 ∧
      Text.trim (Text.withoutComment l) ≠ [] ∧
      ∀ opening ∈ ParseReason.openings, ∀ quoted, reason.message = opening ++ quoted →
        quoted.toList <:+: Text.withoutComment l := by
  rw [parse_result] at refused
  obtain ⟨number, code, ⟨k, l, rfl, found, rfl, solid⟩, rfl, pieces⟩ :=
    readBlock_points (numbered_stand text.toList) _ refused
  refine ⟨k, l, found, Int.natCast_succ k, fun blank => solid ?_, ?_⟩
  · obtain ⟨front, back, parts, blankFront, blankBack⟩ := Text.trim_parts (Text.withoutComment l)
    rw [blank, List.append_nil] at parts
    rw [parts]
    exact List.forall_mem_append.mpr ⟨blankFront, blankBack⟩
  · intro opening quoting quoted told
    exact pieces quoted (ParseReason.quotes_of_message quoting told)

def refusal? (text : String) : Option (Int × ParseReason) :=
  match (parse (ω := Empty) text).trace.1 with
  | .error (.parse line reason) => some (line, reason)
  | _ => none

theorem refused_of_refusal? {text : String} {line : Int} {reason : ParseReason}
    (found : refusal? text = some (line, reason)) :
    (parse (ω := Empty) text).trace.1 = .error (.parse line reason) := by
  unfold refusal? at found
  split at found
  · cases found
    assumption
  · contradiction

/-- The last statement shares its line with the end of an `else` block and with a comment. -/
def badNumber : String :=
  "// start\nif (a > 0) \x7b\n  b := 1;\n\x7d else \x7b c := 2; \x7d d := 3x; // 3x\n"

theorem refusal_points_at_line_badNumber :
    (parse (ω := Empty) badNumber).trace.1 = .error (.parse 4 (.expression "3x")) ∧
    ∃ (k : Nat) (l : List Char), (Text.lines badNumber.toList)[k]? = some l ∧ (4 : Int) = k + 1 ∧
      "3x".toList <:+: Text.withoutComment l := by
  have refused : (parse (ω := Empty) badNumber).trace.1 = .error (.parse 4 (.expression "3x")) :=
    refused_of_refusal? (by decide +kernel)
  obtain ⟨k, l, found, line, -, pieces⟩ := refusal_points_at_line badNumber 4 _ refused
  exact ⟨refused, k, l, found, line, pieces "invalid expression: " (by decide) "3x" rfl⟩

end Assay
