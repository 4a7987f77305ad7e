/-! Bytes read as UTF-8. A fault names the bytes that cannot be read and why. -/
namespace Assay.Text

inductive Utf8Cause where
  | start
  | continuation
  | truncated
  deriving DecidableEq, Repr

/-- Bytes `first` up to `stop`, which stands behind the last of them; `byte` is the first. -/
structure Utf8Fault where
  byte : UInt8
  first : Nat
  stop : Nat
  cause : Utf8Cause
  deriving DecidableEq, Repr

/-- A character of which the lead byte has been read: the bytes still due, the least and the
greatest next byte, and the value so far. -/
structure Utf8Open where
  lead : UInt8
  first : Nat
  due : Nat
  least : UInt8 := 0x80
  greatest : UInt8 := 0xBF
  value : Nat

def openUtf8 (b : UInt8) (position : Nat) : Option Utf8Open :=
  let n := b.toNat
  if 0xC2 ≤ n ∧ n ≤ 0xDF then some ⟨b, position, 1, 0x80, 0xBF, n - 0xC0⟩
  else if n = 0xE0 then some ⟨b, position, 2, 0xA0, 0xBF, 0⟩
  else if n = 0xED then some ⟨b, position, 2, 0x80, 0x9F, 13⟩
  else if 0xE1 ≤ n ∧ n ≤ 0xEF then some ⟨b, position, 2, 0x80, 0xBF, n - 0xE0⟩
  else if n = 0xF0 then some ⟨b, position, 3, 0x90, 0xBF, 0⟩
  else if 0xF1 ≤ n ∧ n ≤ 0xF3 then some ⟨b, position, 3, 0x80, 0xBF, n - 0xF0⟩
  else if n = 0xF4 then some ⟨b, position, 3, 0x80, 0x8F, 4⟩
  else none

def readUtf8From (position : Nat) : Option Utf8Open → List UInt8 → Except Utf8Fault (List Char)
  | none, [] => .ok []
  | some o, [] => .error ⟨o.lead, o.first, position, .truncated⟩
  | none, b :: bs =>
    if b < 0x80 then (Char.ofNat b.toNat :: ·) <$> readUtf8From (position + 1) none bs
    else match openUtf8 b position with
      | none => .error ⟨b, position, position + 1, .start⟩
      | some o => readUtf8From (position + 1) (some o) bs
  | some o, b :: bs =>
    if b < o.least ∨ o.greatest < b then .error ⟨o.lead, o.first, position, .continuation⟩
    else
      let value := o.value * 64 + (b.toNat - 0x80)
      if o.due ≤ 1 then (Char.ofNat value :: ·) <$> readUtf8From (position + 1) none bs
      else readUtf8From (position + 1) (some ⟨o.lead, o.first, o.due - 1, 0x80, 0xBF, value⟩) bs

def readUtf8 (bytes : List UInt8) : Except Utf8Fault String :=
  String.ofList <$> readUtf8From 0 none bytes

end Assay.Text
