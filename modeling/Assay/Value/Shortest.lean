/-! The shortest decimal that reads back as a given binary floating-point number, and its
layout. A finite number is m · 2^q; the decimals that round to it fill an interval around it,
whose ends belong to it when m is even. Of each grid 1, 2, ... 17 digits wide the number's two
neighbours are tried, and the first grid with a hit wins. -/
namespace Assay.Shortest

/-- m · 2^q, with the width of the gap below it halved where m is the least of its binade. -/
structure Binary where
  m : Nat
  q : Int
  closeBelow : Bool

def ofBits (bits : UInt64) : Binary :=
  let exponent := ((bits >>> 52) &&& 0x7FF).toNat
  let fraction := (bits &&& 0xFFFFFFFFFFFFF).toNat
  if exponent = 0 then ⟨fraction, -1074, false⟩
  else ⟨fraction + 0x10000000000000, (exponent : Int) - 1075, fraction = 0 && 1 < exponent⟩

def Binary.whole (b : Binary) : Nat := b.m * Nat.pow 2 b.q.toNat / Nat.pow 2 (-b.q).toNat

/-- The number, and the ends of its interval, as quotients by `den`. -/
structure Interval where
  low : Nat
  value : Nat
  high : Nat
  den : Nat
  closed : Bool

def Binary.interval (b : Binary) : Interval :=
  let scale := Nat.pow 2 b.q.toNat
  let den := 4 * Nat.pow 2 (-b.q).toNat
  let gap := if b.closeBelow then 1 else 2
  ⟨(4 * b.m - gap) * scale, 4 * b.m * scale, (4 * b.m + 2) * scale, den, b.m % 2 = 0⟩

/-- d · 10^e lies in the interval. -/
def Interval.holds (i : Interval) (d : Nat) (e : Int) : Bool :=
  let x := d * Nat.pow 10 e.toNat * i.den
  let unit := Nat.pow 10 (-e).toNat
  if i.closed then i.low * unit ≤ x && x ≤ i.high * unit
  else i.low * unit < x && x < i.high * unit

/-- The number of digits in front of the point; zero or less for a number below one tenth. -/
def magnitude (num den : Nat) : Int :=
  if den ≤ num then (Nat.toDigits 10 (num / den)).length
  else
    let rec up : Nat → Nat → Int
      | 0, _ => 0
      | fuel + 1, n => if den ≤ 10 * n then 0 else up fuel (10 * n) - 1
    up 400 num

/-- Digits and exponent of the nearer neighbour on the grid of unit 10^e that lies in the
interval; of two equally near ones the even one. -/
def Interval.neighbour? (i : Interval) (e : Int) : Option Nat :=
  let num := i.value * Nat.pow 10 (-e).toNat
  let den := i.den * Nat.pow 10 e.toNat
  let d := num / den
  let rest := 2 * (num % den)
  let below := i.holds d e
  let above := i.holds (d + 1) e
  if below && above then
    some (if rest < den || (rest == den && d % 2 == 0) then d else d + 1)
  else if below then some d
  else if above then some (d + 1)
  else none

def Interval.shortest (i : Interval) : Nat × Int :=
  let k := magnitude i.value i.den
  let rec search : Nat → Nat → Nat × Int
    | 0, n => (i.value / i.den, n)
    | fuel + 1, n =>
      let e := k - n
      match i.neighbour? e with
      | some d => (d, e)
      | none => search fuel (n + 1)
  search 18 1

def dropZeros : Nat → Nat → Int → Nat × Int
  | 0, d, e => (d, e)
  | fuel + 1, d, e => if d != 0 && d % 10 == 0 then dropZeros fuel (d / 10) (e + 1) else (d, e)

/-- Positional from 10^-4 up to 10^16, else one digit, a point and an exponent of at least two
digits. -/
def layout (d : Nat) (e : Int) : String :=
  let digits := Nat.toDigits 10 d
  let point : Int := digits.length + e
  if -4 < point ∧ point ≤ 16 then
    let p := point.toNat
    if point ≤ 0 then
      String.ofList (['0', '.'] ++ List.replicate (-point).toNat '0' ++ digits)
    else if digits.length ≤ p then
      String.ofList (digits ++ List.replicate (p - digits.length) '0' ++ ['.', '0'])
    else String.ofList (digits.take p ++ ['.'] ++ digits.drop p)
  else
    let fraction := match digits.drop 1 with | [] => [] | ds => '.' :: ds
    let exponent := point - 1
    let size := Nat.toDigits 10 exponent.natAbs
    let sign := if exponent < 0 then '-' else '+'
    String.ofList (digits.take 1 ++ fraction ++ ['e', sign] ++
      List.replicate (2 - size.length) '0' ++ size)

end Assay.Shortest

namespace Assay

def floatText (x : Float) : String :=
  if x.isNaN then "nan"
  else
    let bits := x.toBits
    let sign := if bits >>> 63 = 1 then "-" else ""
    if x.isInf then sign ++ "inf"
    else
      let b := Shortest.ofBits (bits &&& 0x7FFFFFFFFFFFFFFF)
      if b.m = 0 then sign ++ "0.0"
      else
        let (d, e) := b.interval.shortest
        let (d, e) := Shortest.dropZeros 20 d e
        sign ++ Shortest.layout d e

def floatOfDecimal (negative : Bool) (d : Nat) (e : Int) : Float :=
  let size : Int := (Nat.toDigits 10 d).length + e
  let x :=
    if d = 0 ∨ size < -400 then 0
    else if 400 < size then 1.0 / 0.0
    else Float.ofScientific d (e < 0) e.natAbs
  if negative then -x else x

end Assay
