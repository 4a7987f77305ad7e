import Assay.Text.Blank
import Assay.Text.Digit

/-! Integers as decimal text. Text of more than `digitLimit` digits is neither read nor
written, whatever number it stands for. -/
namespace Assay.Text

def digitLimit : Nat := 4300

/-- Numbers whose decimal text passes the limit; a sign does not count. -/
def isTooLong (n : Int) : Bool := decide (Nat.pow 10 digitLimit ≤ n.natAbs)

inductive IntegerFault where
  | malformed
  | tooLong (digits : Nat)
  deriving DecidableEq, Repr

def ofDigits (cs : List Char) : Nat :=
  cs.foldl (fun n c => 10 * n + (c.toNat - 0x30)) 0

/-- Blanks allowed around a number: those of a text without the four separators below the
space. -/
def isNumberBlank (c : Char) : Bool := isBlank c && !(28 ≤ c.toNat && c.toNat ≤ 31)

def isNumeral (c : Char) : Bool := (decimalValue? c).isSome || c == '_'

/-- The digit values of a run in which single low lines may separate digits. -/
def digitValues? : List Char → Option (List Nat)
  | [] => none
  | [c] => (decimalValue? c).map ([·])
  | c :: '_' :: cs => do return (← decimalValue? c) :: (← digitValues? cs)
  | c :: cs => do return (← decimalValue? c) :: (← digitValues? cs)

def splitSign : List Char → Bool × List Char
  | '-' :: cs => (true, cs)
  | '+' :: cs => (false, cs)
  | cs => (false, cs)

/-- Reads a number with an optional sign between optional blanks. The length of the digit run
is judged before what follows it. -/
def readInteger (cs : List Char) : Except IntegerFault Int :=
  let (negative, body) := splitSign (cs.dropWhile isNumberBlank)
  match digitValues? (body.takeWhile isNumeral) with
  | none => .error .malformed
  | some digits =>
    if digitLimit < digits.length then .error (.tooLong digits.length)
    else if (body.dropWhile isNumeral).all isNumberBlank then
      let n : Int := (digits.foldl (fun n d => 10 * n + d) 0 : Nat)
      .ok (if negative then -n else n)
    else .error .malformed

end Assay.Text
