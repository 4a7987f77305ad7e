import Assay.Value.Basic
import Assay.Value.Shortest
import Assay.Entries
import Assay.Text.Integer
import Assay.Text.Surrogate

/-! JSON text read as a value. Beside the standard the names `NaN`, `Infinity` and `-Infinity`
are numbers, and of several entries with one key the last counts, at the place of the first.
A fault gives its cause and the number of characters in front of it. -/
namespace Assay

inductive JsonCause where
  | byteOrderMark
  | value
  | propertyName
  | colon
  | comma
  | extraData
  | unterminatedString
  | controlCharacter
  | escape
  | unicodeEscape
  deriving DecidableEq, Repr

def JsonCause.message : JsonCause → String
  | .byteOrderMark => "Unexpected UTF-8 BOM (decode using utf-8-sig)"
  | .value => "Expecting value"
  | .propertyName => "Expecting property name enclosed in double quotes"
  | .colon => "Expecting ':' delimiter"
  | .comma => "Expecting ',' delimiter"
  | .extraData => "Extra data"
  | .unterminatedString => "Unterminated string starting at"
  | .controlCharacter => "Invalid control character at"
  | .escape => "Invalid \\escape"
  | .unicodeEscape => "Invalid \\uXXXX escape"

inductive JsonFault where
  | malformed (cause : JsonCause) (position : Nat)
  | tooLong (digits : Nat)
  deriving DecidableEq, Repr

def locate (cs : List Char) (position : Nat) : String :=
  let before := cs.take position
  let line := before.count '\n' + 1
  let column := (before.reverse.takeWhile (· != '\n')).length + 1
  "line " ++ toString line ++ " column " ++ toString column ++ " (char " ++ toString position ++ ")"

namespace Json

structure Place where
  rest : List Char
  position : Nat

def Place.drop (p : Place) (n : Nat) : Place := ⟨p.rest.drop n, p.position + n⟩

def isSpace (c : Char) : Bool := c == ' ' || c == '\t' || c == '\n' || c == '\r'

def Place.skipSpace (p : Place) : Place := p.drop (p.rest.takeWhile isSpace).length

def fail {α : Type} (cause : JsonCause) (position : Nat) : Except JsonFault α :=
  .error (.malformed cause position)

def hexValue? (c : Char) : Option Nat :=
  let n := c.toNat
  if 0x30 ≤ n ∧ n ≤ 0x39 then some (n - 0x30)
  else if 0x41 ≤ n ∧ n ≤ 0x46 then some (n - 0x37)
  else if 0x61 ≤ n ∧ n ≤ 0x66 then some (n - 0x57)
  else none

def hexUnit? (cs : List Char) : Option Nat :=
  cs.foldlM (fun n c => (hexValue? c).map (16 * n + ·)) 0

/-- What follows `\u`; `position` is that of the `u`. Four digits must be followed by more text,
and a pair by more text than its second half. -/
def readUnit (position : Nat) (cs : List Char) : Except JsonFault (Char × Nat) :=
  if cs.length ≤ 4 then fail .unicodeEscape position
  else match hexUnit? (cs.take 4) with
    | none => fail .unicodeEscape position
    | some u =>
      let more := cs.drop 4
      if Text.isHighHalf u && 6 < more.length && more.take 2 == ['\\', 'u'] then
        match hexUnit? ((more.drop 2).take 4) with
        | none => fail .unicodeEscape (position + 6)
        | some v =>
          if Text.isLowHalf v then .ok (Char.ofNat (Text.joinHalves u v), 10)
          else .ok (Text.ofUnit u, 4)
      else .ok (Text.ofUnit u, 4)

def simpleEscape? (c : Char) : Option Char :=
  if c = '"' ∨ c = '\\' ∨ c = '/' then some c
  else if c = 'b' then some (Char.ofNat 8)
  else if c = 'f' then some (Char.ofNat 12)
  else if c = 'n' then some '\n'
  else if c = 'r' then some '\r'
  else if c = 't' then some '\t'
  else none

def readString (start : Nat) : Nat → List Char → Place → Except JsonFault (String × Place)
  | 0, _, _ => fail .unterminatedString start
  | fuel + 1, done, p =>
    match p.rest with
    | [] => fail .unterminatedString start
    | c :: cs =>
      if c = '"' then .ok (String.ofList done.reverse, p.drop 1)
      else if c = '\\' then
        match cs with
        | [] => fail .unterminatedString start
        | e :: more =>
          if e = 'u' then do
            let (u, n) ← readUnit (p.position + 1) more
            readString start fuel (u :: done) (p.drop (2 + n))
          else match simpleEscape? e with
            | none => fail .escape p.position
            | some u => readString start fuel (u :: done) (p.drop 2)
      else if c.toNat < 32 then fail .controlCharacter p.position
      else readString start fuel (c :: done) (p.drop 1)

def digitRun (cs : List Char) : List Char := cs.takeWhile Text.isAsciiDigit

/-- The digits in front of the point: a zero stands alone. -/
def wholeDigits : List Char → List Char
  | '0' :: _ => ['0']
  | cs => digitRun cs

def fractionDigits : List Char → List Char
  | '.' :: cs => digitRun cs
  | _ => []

def exponent? : List Char → Option (Bool × List Char × Nat)
  | c :: cs =>
    if c = 'e' ∨ c = 'E' then
      let (negative, signed) := match cs with
        | '-' :: _ => (true, 1)
        | '+' :: _ => (false, 1)
        | _ => (false, 0)
      let digits := digitRun (cs.drop signed)
      if digits.isEmpty then none else some (negative, digits, 1 + signed + digits.length)
    else none
  | [] => none

def minus : List Char → Bool × Nat
  | '-' :: _ => (true, 1)
  | _ => (false, 0)

def readNumber (p : Place) : Except JsonFault (Value × Place) :=
  let (negative, signed) := minus p.rest
  let body := p.rest.drop signed
  let whole := wholeDigits body
  if whole.isEmpty then fail .value p.position
  else
    let afterWhole := body.drop whole.length
    let fraction := fractionDigits afterWhole
    let pointed := if fraction.isEmpty then 0 else fraction.length + 1
    let afterFraction := afterWhole.drop pointed
    let exponent := exponent? afterFraction
    if fraction.isEmpty && exponent.isNone then
      if Text.digitLimit < whole.length then .error (.tooLong whole.length)
      else
        let n : Int := Text.ofDigits whole
        .ok (.int (if negative then -n else n), p.drop (signed + whole.length))
    else
      let (down, digits, length) := exponent.getD (false, [], 0)
      let e : Int := Text.ofDigits digits
      let scale := (if down then -e else e) - fraction.length
      .ok (.float (floatOfDecimal negative (Text.ofDigits (whole ++ fraction)) scale),
        p.drop (signed + whole.length + pointed + length))

def named? (cs : List Char) : Option (Value × Nat) :=
  let names : List (String × Value) :=
    [("null", .null), ("true", .bool true), ("false", .bool false), ("NaN", .float (0.0 / 0.0)),
      ("Infinity", .float (1.0 / 0.0)), ("-Infinity", .float (-1.0 / 0.0))]
  (names.find? fun n => n.1.toList.isPrefixOf cs).map fun n => (n.2, n.1.length)

mutual

def readValue : Nat → Place → Except JsonFault (Value × Place)
  | 0, p => fail .value p.position
  | fuel + 1, p =>
    match p.rest with
    | [] => fail .value p.position
    | c :: _ =>
      if c = '"' then do
        let (s, q) ← readString p.position (fuel + 1) [] (p.drop 1)
        return (.text s, q)
      else if c = '\x7b' then
        let q := (p.drop 1).skipSpace
        if q.rest.head? == some '\x7d' then .ok (.object [], q.drop 1)
        else readEntries fuel [] q
      else if c = '[' then
        let q := (p.drop 1).skipSpace
        if q.rest.head? == some ']' then .ok (.list [], q.drop 1)
        else readItems fuel [] q
      else match named? p.rest with
        | some (v, n) => .ok (v, p.drop n)
        | none => readNumber p

def readItems : Nat → List Value → Place → Except JsonFault (Value × Place)
  | 0, _, p => fail .value p.position
  | fuel + 1, done, p => do
    let (v, q) ← readValue fuel p
    let q := q.skipSpace
    match q.rest with
    | ']' :: _ => return (.list (v :: done).reverse, q.drop 1)
    | ',' :: _ => readItems fuel (v :: done) (q.drop 1).skipSpace
    | _ => fail .comma q.position

def readEntries : Nat → List (String × Value) → Place → Except JsonFault (Value × Place)
  | 0, _, p => fail .propertyName p.position
  | fuel + 1, done, p =>
    match p.rest with
    | '"' :: _ => do
      let (key, q) ← readString p.position (fuel + 1) [] (p.drop 1)
      let q := q.skipSpace
      match q.rest with
      | ':' :: _ =>
        let (v, q) ← readValue fuel (q.drop 1).skipSpace
        let q := q.skipSpace
        let done := Entries.put key v done
        match q.rest with
        | '\x7d' :: _ => return (.object done, q.drop 1)
        | ',' :: _ => readEntries fuel done (q.drop 1).skipSpace
        | _ => fail .comma q.position
      | _ => fail .colon q.position
    | _ => fail .propertyName p.position

end

end Json

/-- Reads a whole text as one value. Each step takes a character or descends into a part that
does, so twice the length of the text is fuel enough. -/
def Value.ofJson (cs : List Char) : Except JsonFault Value :=
  if cs.head? == some (Char.ofNat 0xFEFF) then Json.fail .byteOrderMark 0
  else do
    let (v, p) ← Json.readValue (2 * cs.length + 2) (Json.Place.mk cs 0).skipSpace
    let p := p.skipSpace
    if p.rest.isEmpty then return v else Json.fail .extraData p.position

end Assay
