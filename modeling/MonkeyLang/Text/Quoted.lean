import MonkeyLang.Text.Printable

/-!
Quoted text, in which every character can be seen.
-/

namespace MonkeyLang

namespace Quoted

/-- The quote around a text: the single one, unless only the single one occurs in the text. -/
def mark (text : List Char) : Char :=
  if text.contains '\'' && !text.contains '"' then '"' else '\''

def hexDigits (count code : Nat) : List Char := (Nat.toDigits 16 code).leftpad count '0'

/-- A character by its code, in the shortest of three forms of fixed length. -/
def escapeCode (code : Nat) : List Char :=
  if code < 0x100 then '\\' :: 'x' :: hexDigits 2 code
  else if code < 0x10000 then '\\' :: 'u' :: hexDigits 4 code
  else '\\' :: 'U' :: hexDigits 8 code

/-- One character of a text quoted by `quote`. -/
def escape (quote c : Char) : List Char :=
  if c == quote || c == '\\' then ['\\', c]
  else if c == '\n' then ['\\', 'n']
  else if c == '\r' then ['\\', 'r']
  else if c == '\t' then ['\\', 't']
  else if isPrintable c then [c]
  else escapeCode c.toNat

end Quoted

/-- The text between quotes, with escapes for the quote, the backslash and what cannot be seen. -/
def quoted (text : String) : String :=
  let quote := Quoted.mark text.toList
  String.ofList (quote :: text.toList.flatMap (Quoted.escape quote) ++ [quote])

end MonkeyLang
