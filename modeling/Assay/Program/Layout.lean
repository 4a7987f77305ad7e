import Assay.Expr.Reader
import Assay.Text.Word

/-! The layout of program text: numbered lines without comments, the fixed forms of headers,
and blocks. A block opens with a brace on its header's line and ends at the matching brace,
wherever that stands. A bound for the text behind a brace comes with each form. -/
namespace Assay

abbrev Line := Nat × List Char

namespace Line

def ofText (number : Nat) (cs : List Char) : List Line :=
  if (Text.trim cs).isEmpty then [] else [(number, Text.trim cs)]

def numbered (n : Nat) : List (List Char) → List Line
  | [] => []
  | l :: ls => ofText n (Text.withoutComment l) ++ numbered (n + 1) ls

/-- A bound for the steps that reading takes. -/
def weight : List Line → Nat
  | [] => 0
  | l :: ls => l.2.length + 1 + weight ls

end Line

inductive Keyword where
  | ifWord
  | elseWord
  | whileWord
  | forWord
  | assertWord
  deriving DecidableEq, Repr

def Keyword.text : Keyword → List Char
  | .ifWord => ['i', 'f']
  | .elseWord => ['e', 'l', 's', 'e']
  | .whileWord => ['w', 'h', 'i', 'l', 'e']
  | .forWord => ['f', 'o', 'r']
  | .assertWord => ['a', 's', 's', 'e', 'r', 't']

def Keyword.all : List Keyword := [.ifWord, .elseWord, .whileWord, .forWord, .assertWord]

def Keyword.opens (k : Keyword) (cs : List Char) : Bool :=
  k.text.isPrefixOf cs &&
    match cs.drop k.text.length with
    | [] => true
    | c :: _ => !Text.isWord c

def keyword? (cs : List Char) : Option Keyword := Keyword.all.find? (·.opens cs)

/-- The text inside the parentheses of a header and the text behind its brace: the first closing
parenthesis that blanks and a brace follow. -/
def splitHead? : List Char → Option (List Char × List Char)
  | [] => none
  | c :: cs =>
    let further := (splitHead? cs).map fun p => (c :: p.1, p.2)
    if c = ')' then
      match Text.trimLeft cs with
      | '\x7b' :: rest => some ([], rest)
      | _ => further
    else further

def afterOpen? (k : Keyword) (cs : List Char) : Option (List Char) :=
  match Text.trimLeft (cs.drop k.text.length) with
  | '(' :: rest => some rest
  | _ => none

def matchHead? (k : Keyword) (cs : List Char) : Option (List Char × List Char) :=
  (afterOpen? k cs).bind splitHead?

def matchElse? (cs : List Char) : Option (List Char) :=
  match Text.trimLeft (cs.drop Keyword.elseWord.text.length) with
  | '\x7b' :: rest => some rest
  | _ => none

def splitSemicolon? : List Char → Option (List Char × List Char)
  | [] => none
  | c :: cs => if c = ';' then some ([], cs) else (splitSemicolon? cs).map fun p => (c :: p.1, p.2)

def matchFor? (cs : List Char) : Option (List Char × List Char × List Char × List Char) := do
  let inside ← afterOpen? .forWord cs
  let (init, rest) ← splitSemicolon? inside
  let (cond, rest) ← splitSemicolon? rest
  let (update, rest) ← splitHead? rest
  return (init, cond, update, rest)

/-- The condition of an assertion: its line ends in a closing parenthesis, blanks and a
semicolon. -/
def matchAssert? (cs : List Char) : Option (List Char) := do
  let inside ← afterOpen? .assertWord cs
  match inside.reverse with
  | ';' :: before =>
    match Text.trimLeft before with
    | ')' :: cond => some cond.reverse
    | _ => none
  | _ => none

def matchAssign? (cs : List Char) : Option (List Char × List Char) := do
  let (name, rest) ← Text.splitName? cs
  match Text.trimLeft rest with
  | ':' :: '=' :: value => some (name, value)
  | _ => none

def dropSemicolons (cs : List Char) : List Char := (cs.reverse.dropWhile (· == ';')).reverse

def holdsAssign : List Char → Bool
  | ':' :: '=' :: _ => true
  | _ :: cs => holdsAssign cs
  | [] => false

/-- Follows the braces of a text with `depth` braces open around the innermost one: either the
text inside and behind the outermost closing brace, or the depth at the end. -/
def followBraces : Nat → List Char → Except Nat (List Char × List Char)
  | depth, [] => .error depth
  | depth, c :: cs =>
    if c = '\x7b' then (followBraces (depth + 1) cs).map fun p => (c :: p.1, p.2)
    else if c = '\x7d' then
      match depth with
      | 0 => .ok ([], cs)
      | d + 1 => (followBraces d cs).map fun p => (c :: p.1, p.2)
    else (followBraces depth cs).map fun p => (c :: p.1, p.2)

/-- The lines of a block, the text behind its closing brace with that brace's line number, and
the lines that follow. -/
structure Block where
  body : List Line
  trailing : List Char
  closing : Nat
  rest : List Line

def takeBlock (depth number : Nat) (chunk : List Char) : List Line → Option Block
  | [] =>
    match followBraces depth chunk with
    | .ok (inside, after) => some ⟨Line.ofText number inside, Text.trim after, number, []⟩
    | .error _ => none
  | (n, l) :: ls =>
    match followBraces depth chunk with
    | .ok (inside, after) =>
      some ⟨Line.ofText number inside, Text.trim after, number, (n, l) :: ls⟩
    | .error unclosed =>
      (takeBlock unclosed n l ls).map fun b => { b with body := Line.ofText number chunk ++ b.body }

/-- Lines to read after a block: a statement may share the line of the closing brace. -/
def Block.remaining (b : Block) : List Line :=
  if b.trailing.isEmpty then b.rest else (b.closing, b.trailing) :: b.rest

/-- Without text behind its closing brace, a block may be followed by an `else` line. -/
def Block.joinElse (b : Block) : Block :=
  match b.trailing, b.rest with
  | [], (n, l) :: ls => if Keyword.elseWord.text.isPrefixOf l then { b with
      trailing := l, closing := n, rest := ls } else b
  | _, _ => b

theorem followBraces_length (depth : Nat) (cs inside after : List Char)
    (closed : followBraces depth cs = .ok (inside, after)) :
    inside.length + after.length < cs.length := by
  induction cs generalizing depth inside after with
  | nil => simp [followBraces] at closed
  | cons c cs ih =>
    have step : ∀ d, (followBraces d cs).map (fun p => (c :: p.1, p.2)) = .ok (inside, after) →
        inside.length + after.length < (c :: cs).length := by
      intro d h
      cases hd : followBraces d cs with
      | error e => simp [hd, Except.map] at h
      | ok p =>
        simp only [hd, Except.map, Except.ok.injEq, Prod.mk.injEq] at h
        have := ih d p.1 p.2 hd
        simp only [← h.1, ← h.2, List.length_cons]
        omega
    unfold followBraces at closed
    split at closed
    · exact step _ closed
    · split at closed
      · split at closed
        · simp only [Except.ok.injEq, Prod.mk.injEq] at closed
          simp [← closed.1, ← closed.2]
        · exact step _ closed
      · exact step _ closed

theorem Line.weight_ofText (number : Nat) (cs : List Char) :
    Line.weight (Line.ofText number cs) ≤ cs.length + 1 := by
  have := Expr.length_trim_le cs
  simp only [Line.ofText]
  split <;> simp [Line.weight]
  omega

theorem Line.weight_cons (l : Line) (ls : List Line) :
    Line.weight (l :: ls) = l.2.length + 1 + Line.weight ls := rfl

theorem Line.weight_append (ls ms : List Line) :
    Line.weight (ls ++ ms) = Line.weight ls + Line.weight ms := by
  induction ls with
  | nil => simp [Line.weight]
  | cons l ls ih => simp [Line.weight, ih, Nat.add_assoc]

theorem takeBlock_weight (depth number : Nat) (chunk : List Char) (lines : List Line) (b : Block)
    (taken : takeBlock depth number chunk lines = some b) :
    Line.weight b.body + (b.trailing.length + 1) + Line.weight b.rest ≤
      chunk.length + 1 + Line.weight lines := by
  have closed : ∀ inside after rest, followBraces depth chunk = .ok (inside, after) →
      Line.weight (Line.ofText number inside) + ((Text.trim after).length + 1) +
        Line.weight rest ≤ chunk.length + 1 + Line.weight rest := by
    intro inside after rest h
    have := followBraces_length depth chunk inside after h
    have := Line.weight_ofText number inside
    have := Expr.length_trim_le after
    omega
  induction lines generalizing depth number chunk b with
  | nil =>
    unfold takeBlock at taken
    split at taken
    · rename_i h
      cases Option.some.inj taken
      exact closed _ _ [] h
    · contradiction
  | cons l ls ih =>
    obtain ⟨n, l⟩ := l
    unfold takeBlock at taken
    split at taken
    · rename_i h
      cases Option.some.inj taken
      exact closed _ _ _ h
    · obtain ⟨b', hb, rfl⟩ := Option.map_eq_some_iff.mp taken
      have := ih _ _ _ b' hb (by
        intro inside after rest h
        have := followBraces_length _ _ inside after h
        have := Line.weight_ofText n inside
        have := Expr.length_trim_le after
        omega)
      have := Line.weight_ofText number chunk
      rw [Line.weight_append, Line.weight_cons]
      simp only at *
      omega

theorem Block.weight_remaining (b : Block) :
    Line.weight b.remaining ≤ b.trailing.length + 1 + Line.weight b.rest := by
  unfold Block.remaining
  split
  · omega
  · exact Nat.le_of_eq (Line.weight_cons ..)

theorem Block.joinElse_weight (b : Block) :
    b.joinElse.trailing.length + Line.weight b.joinElse.rest ≤
      b.trailing.length + Line.weight b.rest := by
  unfold Block.joinElse
  split
  · rename_i n l ls trailing rest
    split
    · simp only [rest, Line.weight_cons]
      omega
    · exact Nat.le_refl _
  · exact Nat.le_refl _

theorem splitHead?_length (cs inside rest : List Char)
    (found : splitHead? cs = some (inside, rest)) : rest.length < cs.length := by
  induction cs generalizing inside rest with
  | nil => simp [splitHead?] at found
  | cons c cs ih =>
    have step : (splitHead? cs).map (fun p => (c :: p.1, p.2)) = some (inside, rest) →
        rest.length < (c :: cs).length := by
      intro h
      obtain ⟨p, hp, heq⟩ := Option.map_eq_some_iff.mp h
      simp only [Prod.mk.injEq] at heq
      have := ih p.1 p.2 hp
      simp only [← heq.2, List.length_cons]
      omega
    simp only [splitHead?] at found
    split at found
    · split at found
      · rename_i opened
        simp only [Option.some.injEq, Prod.mk.injEq] at found
        have := Expr.length_dropWhile_le Text.isBlank cs
        rw [← Text.trimLeft, opened, List.length_cons] at this
        simp only [← found.2, List.length_cons]
        omega
      · exact step found
    · exact step found

theorem splitSemicolon?_length (cs before rest : List Char)
    (found : splitSemicolon? cs = some (before, rest)) : rest.length < cs.length := by
  induction cs generalizing before rest with
  | nil => simp [splitSemicolon?] at found
  | cons c cs ih =>
    simp only [splitSemicolon?] at found
    split at found
    · simp only [Option.some.injEq, Prod.mk.injEq] at found
      simp [← found.2]
    · obtain ⟨p, hp, heq⟩ := Option.map_eq_some_iff.mp found
      simp only [Prod.mk.injEq] at heq
      have := ih p.1 p.2 hp
      simp only [← heq.2, List.length_cons]
      omega

theorem afterOpen?_length (k : Keyword) (cs rest : List Char)
    (found : afterOpen? k cs = some rest) : rest.length < cs.length := by
  unfold afterOpen? at found
  split at found
  · rename_i opened
    cases Option.some.inj found
    have := Expr.length_dropWhile_le Text.isBlank (cs.drop k.text.length)
    rw [← Text.trimLeft, opened, List.length_cons, List.length_drop] at this
    omega
  · contradiction

theorem matchHead?_length (k : Keyword) (cs cond chunk : List Char)
    (found : matchHead? k cs = some (cond, chunk)) : chunk.length < cs.length := by
  obtain ⟨inside, opened, head⟩ := Option.bind_eq_some_iff.mp found
  have := afterOpen?_length k cs inside opened
  have := splitHead?_length inside cond chunk head
  omega

theorem matchFor?_length (cs init cond update chunk : List Char)
    (found : matchFor? cs = some (init, cond, update, chunk)) : chunk.length < cs.length := by
  simp only [matchFor?, Option.bind_eq_bind, Option.bind_eq_some_iff] at found
  obtain ⟨inside, opened, p, first, q, second, r, head, same⟩ := found
  simp only [Option.pure_def, Option.some.injEq, Prod.mk.injEq] at same
  have := afterOpen?_length _ cs inside opened
  have := splitSemicolon?_length inside p.1 p.2 first
  have := splitSemicolon?_length p.2 q.1 q.2 second
  have := splitHead?_length q.2 r.1 r.2 head
  rw [← same.2.2.2]
  omega

theorem matchElse?_length (cs chunk : List Char) (found : matchElse? cs = some chunk) :
    chunk.length < cs.length := by
  unfold matchElse? at found
  split at found
  · rename_i opened
    cases Option.some.inj found
    have := Expr.length_dropWhile_le Text.isBlank (cs.drop Keyword.elseWord.text.length)
    rw [← Text.trimLeft, opened, List.length_cons, List.length_drop] at this
    omega
  · contradiction

end Assay
