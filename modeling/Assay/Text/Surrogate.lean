/-! Halves of surrogate pairs that stand alone. JSON can write such a half, but no character is
one. It is kept as a stand-in from a plane in which no characters are assigned, and every writer
turns the stand-in back into the half. A text that holds one of these unassigned numbers itself
is read as if the half stood there. -/
namespace Assay.Text

def isHighHalf (n : Nat) : Bool := 0xD800 ≤ n && n ≤ 0xDBFF
def isLowHalf (n : Nat) : Bool := 0xDC00 ≤ n && n ≤ 0xDFFF
def isHalf (n : Nat) : Bool := isHighHalf n || isLowHalf n

def standInOffset : Nat := 0xA0000

def ofUnit (n : Nat) : Char := Char.ofNat (if isHalf n then n + standInOffset else n)

def joinHalves (high low : Nat) : Nat := 0x10000 + (high - 0xD800) * 1024 + (low - 0xDC00)

def half? (c : Char) : Option Nat :=
  let n := c.toNat - standInOffset
  if isHalf n then some n else none

def code (c : Char) : Nat := (half? c).getD c.toNat

def precedes : List Char → List Char → Bool
  | [], _ => true
  | _ :: _, [] => false
  | a :: as, b :: bs => code a < code b || (code a == code b && precedes as bs)

/-- Halves that a path can hold: each stands for a byte that is no text. -/
def isByteHalf (c : Char) : Bool :=
  match half? c with
  | some n => 0xDC80 ≤ n && n ≤ 0xDCFF
  | none => false

/-- A run of halves from position `first` up to `stop` that no bytes stand for. -/
structure HalfFault where
  first : Nat
  stop : Nat
  half : Nat
  deriving DecidableEq, Repr

def halfFault? (position : Nat) : List Char → Option HalfFault
  | [] => none
  | c :: cs =>
    match half? c with
    | none => halfFault? (position + 1) cs
    | some half =>
      if isByteHalf c then halfFault? (position + 1) cs
      else
        let run := cs.takeWhile fun c => (half? c).isSome
        some ⟨position, position + 1 + run.length, half⟩

def byteSize (s : String) : Nat := s.utf8ByteSize - 3 * s.toList.countP isByteHalf

end Assay.Text
