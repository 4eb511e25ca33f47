import Covenant.Text.Hidden

/-!
# Quoted text

Messages and values show strings between double quotes and single characters between single
quotes. The surrounding quote, the backslash and the characters that cannot be seen are written as
escapes, so that the quoted form is legible and on one line.
-/

namespace Covenant.Text

/-- A code point in braces, in hexadecimal without leading zeros. -/
def codePoint (c : Char) : String :=
  "\\u\x7b" ++ String.ofList (Nat.toDigits 16 c.toNat) ++ "\x7d"

/-- A character inside a pair of quotes. Only the quote that surrounds the text needs an escape. -/
def escape (quote c : Char) : String :=
  if c = '\x00' then "\\0"
  else if c = '\t' then "\\t"
  else if c = '\r' then "\\r"
  else if c = '\n' then "\\n"
  else if c = '\\' then "\\\\"
  else if c = quote then String.ofList ['\\', quote]
  else if isHidden c then codePoint c
  else c.toString

def quoteString (s : String) : String :=
  "\"" ++ String.join (s.toList.map (escape '"')) ++ "\""

def quoteChar (c : Char) : String :=
  "'" ++ escape '\'' c ++ "'"

end Covenant.Text
