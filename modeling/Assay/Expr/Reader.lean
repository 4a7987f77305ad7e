import Assay.Expr.Basic
import Assay.Text.Blank
import Assay.Text.Integer

/-! Expressions read from text. There is no precedence: the first operator of `BinaryOp.all`
that occurs outside brackets splits the text at its first occurrence, and both sides are read
in the same way. -/
namespace Assay

namespace Text

def isNameStart (c : Char) : Bool :=
  let n := c.toNat
  (0x41 ≤ n && n ≤ 0x5A) || n == 0x5F || (0x61 ≤ n && n ≤ 0x7A)

def isNameChar (c : Char) : Bool := isNameStart c || isAsciiDigit c

def splitName? : List Char → Option (List Char × List Char)
  | [] => none
  | c :: cs =>
    if isNameStart c then some (c :: cs.takeWhile isNameChar, cs.dropWhile isNameChar) else none

def isName (cs : List Char) : Bool :=
  match splitName? cs with
  | some (_, []) => true
  | _ => false

def isLiteral (cs : List Char) : Bool :=
  let digits := match cs with
    | '-' :: ds => ds
    | ds => ds
  !digits.isEmpty && digits.all isAsciiDigit

end Text

namespace Expr

/-- A minus sign behind one of these, or behind nothing, belongs to a number. -/
def signContext : List Char := ['=', '!', '<', '>', '+', '-', '*', '/', '%']

/-- `before` is the text in front of the place, reversed. -/
def isSign (before : List Char) : Bool :=
  match Text.trimLeft before with
  | [] => true
  | c :: _ => signContext.contains c

/-- The two sides of the first `op` outside brackets that is no sign. -/
def splitAt? (op : List Char) : Int → List Char → List Char → Option (List Char × List Char)
  | _, _, [] => none
  | depth, before, c :: cs =>
    if c = '[' then splitAt? op (depth + 1) (c :: before) cs
    else if c = ']' then splitAt? op (depth - 1) (c :: before) cs
    else if depth = 0 ∧ op.isPrefixOf (c :: cs) ∧ ¬(op = ['-'] ∧ isSign before) then
      some (before.reverse, (c :: cs).drop op.length)
    else splitAt? op depth (c :: before) cs

/-- The text up to the bracket that closes the one already open, and what follows it. -/
def untilClosed : Nat → List Char → Option (List Char × List Char)
  | _, [] => none
  | depth, c :: cs =>
    if c = '[' then (untilClosed (depth + 1) cs).map fun p => (c :: p.1, p.2)
    else if c = ']' then
      match depth with
      | 0 => some ([], cs)
      | d + 1 => (untilClosed d cs).map fun p => (c :: p.1, p.2)
    else (untilClosed depth cs).map fun p => (c :: p.1, p.2)

def splitRead? (cs : List Char) : Option (List Char × List Char) :=
  match Text.splitName? cs with
  | none => none
  | some (name, rest) =>
    match Text.trimLeft rest with
    | '[' :: body =>
      match untilClosed 0 body with
      | some (index, []) => some (name, index)
      | _ => none
    | _ => none

def splitOperator? {ω : Type} (cs : List Char) :
    List (BinaryOp ω) → Option (BinaryOp ω × List Char × List Char)
  | [] => none
  | op :: ops =>
    match splitAt? op.text.toList 0 [] cs with
    | some sides => some (op, sides)
    | none => splitOperator? cs ops

def splitNot? : List Char → Option (List Char)
  | '!' :: operand => some operand
  | _ => none

theorem splitNot?_shorter (cs operand : List Char) (found : splitNot? cs = some operand) :
    operand.length < cs.length := by
  unfold splitNot? at found
  split at found
  · cases Option.some.inj found
    simp
  · contradiction

theorem splitAt?_shorter {op : List Char} (nonempty : op ≠ []) (depth : Int)
    (before cs left right : List Char) (found : splitAt? op depth before cs = some (left, right)) :
    left.length < before.length + cs.length ∧ right.length < cs.length := by
  induction cs generalizing depth before with
  | nil => simp [splitAt?] at found
  | cons c cs ih =>
    have positive : 0 < op.length := List.length_pos_iff.mpr nonempty
    rw [splitAt?] at found
    split at found
    · have h := ih _ _ found
      simp only [List.length_cons] at h ⊢
      omega
    · split at found
      · have h := ih _ _ found
        simp only [List.length_cons] at h ⊢
        omega
      · split at found
        · simp only [Option.some.injEq, Prod.mk.injEq] at found
          obtain ⟨rfl, rfl⟩ := found
          simp only [List.length_reverse, List.length_cons, List.length_drop]
          omega
        · have h := ih _ _ found
          simp only [List.length_cons] at h ⊢
          omega

theorem untilClosed_shorter (depth : Nat) (cs inside rest : List Char)
    (found : untilClosed depth cs = some (inside, rest)) : inside.length < cs.length := by
  induction cs generalizing depth inside rest with
  | nil => simp [untilClosed] at found
  | cons c cs ih =>
    have step : ∀ d, (untilClosed d cs).map (fun p => (c :: p.1, p.2)) = some (inside, rest) →
        inside.length < (c :: cs).length := by
      intro d h
      obtain ⟨p, hp, heq⟩ := Option.map_eq_some_iff.mp h
      simp only [Prod.mk.injEq] at heq
      have := ih d p.1 p.2 hp
      simp [← heq.1]
      omega
    unfold untilClosed at found
    split at found
    · exact step _ found
    · split at found
      · split at found
        · simp only [Option.some.injEq, Prod.mk.injEq] at found
          simp [← found.1]
        · exact step _ found
      · exact step _ found

theorem length_dropWhile_le (p : Char → Bool) (cs : List Char) :
    (cs.dropWhile p).length ≤ cs.length := by
  induction cs with
  | nil => simp
  | cons c cs ih =>
    rw [List.dropWhile_cons]
    split
    · simp only [List.length_cons]; omega
    · simp

theorem length_trim_le (cs : List Char) : (Text.trim cs).length ≤ cs.length := by
  have left := length_dropWhile_le Text.isBlank cs
  have right := length_dropWhile_le Text.isBlank (Text.trimLeft cs).reverse
  simp only [Text.trim, Text.trimRight, List.length_reverse] at *
  simp only [Text.trimLeft] at *
  omega

theorem splitRead?_shorter (cs name index : List Char)
    (found : splitRead? cs = some (name, index)) : index.length < cs.length := by
  unfold splitRead? at found
  split at found
  · contradiction
  · rename_i name' rest split_name
    have rest_le : rest.length ≤ cs.length := by
      cases cs with
      | nil => simp [Text.splitName?] at split_name
      | cons c cs =>
        simp only [Text.splitName?] at split_name
        split at split_name
        · simp only [Option.some.injEq, Prod.mk.injEq] at split_name
          have := length_dropWhile_le Text.isNameChar cs
          simp only [← split_name.2, List.length_cons]
          omega
        · contradiction
    split at found
    · rename_i body opened
      have body_le := length_dropWhile_le Text.isBlank rest
      rw [← Text.trimLeft, opened, List.length_cons] at body_le
      split at found
      · rename_i index' closed
        simp only [Option.some.injEq, Prod.mk.injEq] at found
        have := untilClosed_shorter 0 body index' [] closed
        rw [← found.2]
        omega
      · contradiction
    · contradiction

theorem BinaryOp.text_toList_ne_nil {ω : Type} (op : BinaryOp ω) (known : op ∈ BinaryOp.all) :
    op.text.toList ≠ [] := by
  simp only [BinaryOp.all, List.mem_cons, List.not_mem_nil, or_false] at known
  rcases known with rfl | rfl | rfl | rfl | rfl | rfl | rfl | rfl | rfl | rfl | rfl <;>
    simp [BinaryOp.text, Comparison.text, Arithmetic.text]

theorem splitOperator?_shorter {ω : Type} (cs left right : List Char) (op : BinaryOp ω)
    (ops : List (BinaryOp ω)) (known : ∀ o ∈ ops, o ∈ BinaryOp.all)
    (found : splitOperator? cs ops = some (op, left, right)) :
    left.length < cs.length ∧ right.length < cs.length := by
  induction ops with
  | nil => simp [splitOperator?] at found
  | cons o ops ih =>
    unfold splitOperator? at found
    split at found
    · rename_i sides at_first
      simp only [Option.some.injEq, Prod.mk.injEq] at found
      obtain ⟨_, hs⟩ := found
      subst hs
      have := splitAt?_shorter (BinaryOp.text_toList_ne_nil o (known o (by simp))) 0 [] cs
        left right at_first
      simpa using this
    · exact ih (fun p hp => known p (List.mem_cons_of_mem _ hp)) found

end Expr

def readLiteral {ω : Type} (cs : List Char) : Except Error (Expr ω) :=
  let (negative, digits) := Text.splitSign cs
  if Text.digitLimit < digits.length then .error (.longRead digits.length)
  else
    let n : Int := Text.ofDigits digits
    .ok (.lit (if negative then -n else n))

/-- Reads an expression whose text has no blanks around it. -/
def readTrimmed {ω : Type} (line : Int) (text : List Char) : Except Error (Expr ω) :=
  if text.isEmpty then .error (.parse line .operand)
  else if Text.isLiteral text then readLiteral text
  else match _found : Expr.splitRead? text with
    | some (name, index) =>
      match readTrimmed line (Text.trim index) with
      | .error e => .error e
      | .ok i => .ok (.read (String.ofList name) i)
    | none =>
      match _found : Expr.splitOperator? text (BinaryOp.all : List (BinaryOp ω)) with
      | some (op, left, right) =>
        match readTrimmed line (Text.trim left) with
        | .error e => .error e
        | .ok l =>
          match readTrimmed line (Text.trim right) with
          | .error e => .error e
          | .ok r => .ok (.binary op l r)
      | none =>
        match _found : Expr.splitNot? text with
        | some operand =>
          match readTrimmed line (Text.trim operand) with
          | .error e => .error e
          | .ok e => .ok (.unary .not e)
        | none =>
          if Text.isName text then .ok (.var (String.ofList text))
          else .error (.parse line (.expression (String.ofList text)))
termination_by text.length
decreasing_by
  · have := Expr.splitRead?_shorter _ _ _ _found
    have := Expr.length_trim_le index
    omega
  · have := Expr.splitOperator?_shorter _ _ _ _ _ (fun _ h => h) _found
    have := Expr.length_trim_le left
    omega
  · have := Expr.splitOperator?_shorter _ _ _ _ _ (fun _ h => h) _found
    have := Expr.length_trim_le right
    omega
  · have := Expr.splitNot?_shorter _ _ _found
    have := Expr.length_trim_le operand
    omega

def readExpr {ω : Type} (line : Int) (cs : List Char) : Except Error (Expr ω) :=
  readTrimmed line (Text.trim cs)

end Assay
