import Assay.Text.Printable
import Assay.Text.Surrogate

/-! Quoted text as it stands in messages. The quote is single unless the text holds a single
quote and no double one; the quote in use, the backslash and hidden characters are escaped. -/
namespace Assay.Text

def hex (width n : Nat) : List Char :=
  let digits := Nat.toDigits 16 n
  List.replicate (width - digits.length) '0' ++ digits

def escapeHidden (c : Char) : List Char :=
  let n := code c
  if n < 0x100 then ['\\', 'x'] ++ hex 2 n
  else if n < 0x10000 then ['\\', 'u'] ++ hex 4 n
  else ['\\', 'U'] ++ hex 8 n

def escapeIn (quote c : Char) : List Char :=
  if c = '\\' ∨ c = quote then ['\\', c]
  else if c = '\n' then ['\\', 'n']
  else if c = '\r' then ['\\', 'r']
  else if c = '\t' then ['\\', 't']
  else if isPrintable c then [c]
  else escapeHidden c

def quoteFor (cs : List Char) : Char :=
  if cs.contains '\'' && !cs.contains '"' then '"' else '\''

def quoted (s : String) : String :=
  let quote := quoteFor s.toList
  String.ofList ([quote] ++ s.toList.flatMap (escapeIn quote) ++ [quote])

def bracketed (items : List String) : String := "[" ++ ", ".intercalate items ++ "]"

def quotedList (names : List String) : String := bracketed (names.map quoted)

end Assay.Text
