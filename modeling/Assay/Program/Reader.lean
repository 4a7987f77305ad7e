import Assay.Program.Basic
import Assay.Program.Layout
import Assay.Log

/-! Programs read from text. Each step recognises the statement that starts on a line and takes
the lines of its bodies; these weigh less than the line and its followers, so reading ends. -/
namespace Assay

/-- A statement whose bodies are still lines. -/
inductive Shape (ω : Type) where
  | simple (s : Stmt ω)
  | branch (cond : Expr ω) (thenLines elseLines : List Line)
  | whileLoop (cond : Expr ω) (lines : List Line)
  | forLoop (init : Assign ω) (cond : Expr ω) (update : Assign ω) (lines : List Line)

def Shape.weight {ω : Type} : Shape ω → Nat
  | .simple _ => 0
  | .branch _ t e => Line.weight t + Line.weight e
  | .whileLoop _ b => Line.weight b
  | .forLoop _ _ _ b => Line.weight b

variable {ω : Type}

def readAssign (line : Int) (cs : List Char) : Except Error (Assign ω) :=
  match matchAssign? (Text.trim cs) with
  | none => .error (.parse line (.assignment (String.ofList (Text.trim cs))))
  | some (name, value) => do return ⟨String.ofList name, ← readExpr line value⟩

def openBlock (number : Nat) (chunk : List Char) (lines : List Line) : Except Error Block :=
  match takeBlock 0 number chunk lines with
  | none => .error (.parse number .block)
  | some b => .ok b

def readElse (b : Block) : Except Error (List Line × List Line) :=
  if keyword? b.trailing = some .elseWord then
    match matchElse? b.trailing with
    | none => .error (.parse b.closing (.form .elseHead (String.ofList b.trailing)))
    | some chunk => do
      let e ← openBlock b.closing chunk b.rest
      return (e.body, e.remaining)
  else .ok ([], b.remaining)

def badForm {α : Type} (number : Nat) (form : Form) (cs : List Char) : Except Error α :=
  .error (.parse number (.form form (String.ofList cs)))

def readIf (number : Nat) (cs : List Char) (lines : List Line) :
    Except Error (Shape ω × List Line) :=
  match matchHead? .ifWord cs with
  | none => badForm number .ifHead cs
  | some (cond, chunk) => do
    let c ← readExpr number cond
    let b ← openBlock number chunk lines
    let (e, rest) ← readElse b.joinElse
    return (.branch c b.body e, rest)

def readWhile (number : Nat) (cs : List Char) (lines : List Line) :
    Except Error (Shape ω × List Line) :=
  match matchHead? .whileWord cs with
  | none => badForm number .whileHead cs
  | some (cond, chunk) => do
    let c ← readExpr number cond
    let b ← openBlock number chunk lines
    return (.whileLoop c b.body, b.remaining)

def readFor (number : Nat) (cs : List Char) (lines : List Line) :
    Except Error (Shape ω × List Line) :=
  match matchFor? cs with
  | none => badForm number .forHead cs
  | some (init, cond, update, chunk) => do
    let i ← readAssign number init
    let c ← readExpr number cond
    let u ← readAssign number (dropSemicolons (Text.trim update))
    let b ← openBlock number chunk lines
    return (.forLoop i c u b.body, b.remaining)

def readAssertion (number : Nat) (cs : List Char) (lines : List Line) :
    Except Error (Shape ω × List Line) :=
  match matchAssert? cs with
  | none => badForm number .assertion cs
  | some cond => do return (.simple (.assert (← readExpr number cond)), lines)

def readPlain (number : Nat) (cs : List Char) (lines : List Line) :
    Except Error (Shape ω × List Line) :=
  if cs.head? = some '\x7d' then .error (.parse number .braceAlone)
  else if holdsAssign cs then
    if cs.getLast? = some ';' then do
      return (.simple (.assign (← readAssign number cs.dropLast)), lines)
    else .error (.parse number (.semicolon (String.ofList cs)))
  else .error (.parse number (.statement (String.ofList cs)))

def readShape (line : Line) (lines : List Line) : Except Error (Shape ω × List Line) :=
  match keyword? line.2 with
  | some .ifWord => readIf line.1 line.2 lines
  | some .whileWord => readWhile line.1 line.2 lines
  | some .forWord => readFor line.1 line.2 lines
  | some .assertWord => readAssertion line.1 line.2 lines
  | some .elseWord => .error (.parse line.1 .elseAlone)
  | none => readPlain line.1 line.2 lines

theorem openBlock_weight (number : Nat) (chunk : List Char) (lines : List Line) (b : Block)
    (opened : openBlock number chunk lines = .ok b) :
    Line.weight b.body + (b.trailing.length + 1) + Line.weight b.rest ≤
      chunk.length + 1 + Line.weight lines := by
  unfold openBlock at opened
  split at opened
  · contradiction
  · rename_i taken
    cases Except.ok.inj opened
    exact takeBlock_weight _ _ _ _ _ taken

theorem readElse_weight (b : Block) (e rest : List Line) (found : readElse b = .ok (e, rest)) :
    Line.weight e + Line.weight rest ≤ b.trailing.length + 1 + Line.weight b.rest := by
  unfold readElse at found
  split at found
  · split at found
    · contradiction
    · rename_i chunk header
      cases opened : openBlock b.closing chunk b.rest with
      | error x => simp [opened, bind, Except.bind] at found
      | ok e' =>
        simp only [opened, bind, Except.bind, pure, Except.pure, Except.ok.injEq,
          Prod.mk.injEq] at found
        have := openBlock_weight _ _ _ _ opened
        have := matchElse?_length _ _ header
        have := e'.weight_remaining
        rw [← found.1, ← found.2]
        omega
  · simp only [Except.ok.injEq, Prod.mk.injEq] at found
    have := b.weight_remaining
    rw [← found.1, ← found.2]
    simp only [Line.weight] at *
    omega

theorem readIf_weight (number : Nat) (cs : List Char) (lines rest : List Line) (shape : Shape ω)
    (found : readIf number cs lines = .ok (shape, rest)) :
    shape.weight + Line.weight rest < cs.length + 1 + Line.weight lines := by
  unfold readIf at found
  split at found
  · contradiction
  · rename_i cond chunk header
    cases hc : readExpr (ω := ω) number cond with
    | error x => simp [hc, bind, Except.bind] at found
    | ok c =>
      cases hb : openBlock number chunk lines with
      | error x => simp [hc, hb, bind, Except.bind] at found
      | ok b =>
        cases he : readElse b.joinElse with
        | error x => simp [hc, hb, he, bind, Except.bind] at found
        | ok p =>
          simp only [hc, hb, he, bind, Except.bind, pure, Except.pure, Except.ok.injEq,
            Prod.mk.injEq] at found
          have := matchHead?_length _ _ _ _ header
          have := openBlock_weight _ _ _ _ hb
          have := b.joinElse_weight
          have := readElse_weight _ p.1 p.2 he
          rw [← found.1, ← found.2]
          simp only [Shape.weight]
          omega

theorem readWhile_weight (number : Nat) (cs : List Char) (lines rest : List Line)
    (shape : Shape ω) (found : readWhile number cs lines = .ok (shape, rest)) :
    shape.weight + Line.weight rest < cs.length + 1 + Line.weight lines := by
  unfold readWhile at found
  split at found
  · contradiction
  · rename_i cond chunk header
    cases hc : readExpr (ω := ω) number cond with
    | error x => simp [hc, bind, Except.bind] at found
    | ok c =>
      cases hb : openBlock number chunk lines with
      | error x => simp [hc, hb, bind, Except.bind] at found
      | ok b =>
        simp only [hc, hb, bind, Except.bind, pure, Except.pure, Except.ok.injEq,
          Prod.mk.injEq] at found
        have := matchHead?_length _ _ _ _ header
        have := openBlock_weight _ _ _ _ hb
        have := b.weight_remaining
        rw [← found.1, ← found.2]
        simp only [Shape.weight]
        omega

theorem readFor_weight (number : Nat) (cs : List Char) (lines rest : List Line) (shape : Shape ω)
    (found : readFor number cs lines = .ok (shape, rest)) :
    shape.weight + Line.weight rest < cs.length + 1 + Line.weight lines := by
  unfold readFor at found
  split at found
  · contradiction
  · rename_i init cond update chunk header
    cases hi : readAssign (ω := ω) number init with
    | error x => simp [hi, bind, Except.bind] at found
    | ok i =>
      cases hc : readExpr (ω := ω) number cond with
      | error x => simp [hi, hc, bind, Except.bind] at found
      | ok c =>
        cases hu : readAssign (ω := ω) number (dropSemicolons (Text.trim update)) with
        | error x => simp [hi, hc, hu, bind, Except.bind] at found
        | ok u =>
          cases hb : openBlock number chunk lines with
          | error x => simp [hi, hc, hu, hb, bind, Except.bind] at found
          | ok b =>
            simp only [hi, hc, hu, hb, bind, Except.bind, pure, Except.pure, Except.ok.injEq,
              Prod.mk.injEq] at found
            have := matchFor?_length _ _ _ _ _ header
            have := openBlock_weight _ _ _ _ hb
            have := b.weight_remaining
            rw [← found.1, ← found.2]
            simp only [Shape.weight]
            omega

theorem readAssertion_weight (number : Nat) (cs : List Char) (lines rest : List Line)
    (shape : Shape ω) (found : readAssertion number cs lines = .ok (shape, rest)) :
    shape.weight + Line.weight rest = Line.weight lines := by
  unfold readAssertion at found
  split at found
  · contradiction
  · rename_i cond header
    cases hc : readExpr (ω := ω) number cond with
    | error x => simp [hc, bind, Except.bind] at found
    | ok c =>
      simp only [hc, bind, Except.bind, pure, Except.pure, Except.ok.injEq,
        Prod.mk.injEq] at found
      simp [← found.1, ← found.2, Shape.weight]

theorem readPlain_weight (number : Nat) (cs : List Char) (lines rest : List Line)
    (shape : Shape ω) (found : readPlain number cs lines = .ok (shape, rest)) :
    shape.weight + Line.weight rest = Line.weight lines := by
  unfold readPlain at found
  split at found
  · contradiction
  · split at found
    · split at found
      · cases ha : readAssign (ω := ω) number cs.dropLast with
        | error x => simp [ha, bind, Except.bind] at found
        | ok a =>
          simp only [ha, bind, Except.bind, pure, Except.pure, Except.ok.injEq,
            Prod.mk.injEq] at found
          simp [← found.1, ← found.2, Shape.weight]
      · contradiction
    · contradiction

theorem readShape_weight (line : Line) (lines rest : List Line) (shape : Shape ω)
    (found : readShape line lines = .ok (shape, rest)) :
    shape.weight + Line.weight rest < Line.weight (line :: lines) := by
  rw [Line.weight_cons]
  unfold readShape at found
  split at found
  · exact readIf_weight _ _ _ _ _ found
  · exact readWhile_weight _ _ _ _ _ found
  · exact readFor_weight _ _ _ _ _ found
  · have := readAssertion_weight _ _ _ _ _ found
    omega
  · contradiction
  · have := readPlain_weight _ _ _ _ _ found
    omega

/-- Reads the statements of a block. A statement's header comes before its bodies, and these
before the next statement. -/
def readBlock : List Line → Except Error (List (Stmt ω))
  | [] => .ok []
  | line :: lines =>
    match _found : readShape (ω := ω) line lines with
    | .error e => .error e
    | .ok (.simple s, rest) =>
      match readBlock rest with
      | .error e => .error e
      | .ok more => .ok (s :: more)
    | .ok (.branch c thenLines elseLines, rest) =>
      match readBlock thenLines with
      | .error e => .error e
      | .ok t =>
        match readBlock elseLines with
        | .error e => .error e
        | .ok e =>
          match readBlock rest with
          | .error e => .error e
          | .ok more => .ok (.branch c t e :: more)
    | .ok (.whileLoop c body, rest) =>
      match readBlock body with
      | .error e => .error e
      | .ok b =>
        match readBlock rest with
        | .error e => .error e
        | .ok more => .ok (.whileLoop c b :: more)
    | .ok (.forLoop i c u body, rest) =>
      match readBlock body with
      | .error e => .error e
      | .ok b =>
        match readBlock rest with
        | .error e => .error e
        | .ok more => .ok (.forLoop i c u b :: more)
termination_by lines => Line.weight lines
decreasing_by
  all_goals
    have := readShape_weight _ _ _ _ _found
    simp only [Shape.weight] at this
    omega

def readProgram (text : List Char) : Except Error (Program ω) :=
  readBlock (Line.numbered 1 (Text.lines text))

def parse (text : String) : Traced (Program ω) := do
  let p ← Traced.ofExcept (readProgram text.toList)
  Traced.report .debug .parser ("parsed " ++ toString p.length ++ " top-level statements")
  return p

end Assay
