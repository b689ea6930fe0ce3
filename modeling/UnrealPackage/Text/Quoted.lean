import UnrealPackage.Text.Digits
import UnrealPackage.Text.Printable
/-!
# Quoted text

A text in double quotes in which every character can be told from the page: quotes, backslashes
and the common controls take a short escape, any other character without a glyph of its own is
written by its code point.
-/

namespace UnrealPackage

/-- One character as it stands between the quotes. -/
def quoteChar (c : Char) : String :=
  if c = '"' then "\\\""
  else if c = '\\' then "\\\\"
  else if c = '\n' then "\\n"
  else if c = '\r' then "\\r"
  else if c = '\t' then "\\t"
  else if c = '\x00' then "\\0"
  else if isPrintable c then c.toString
  else "\\u\x7b" ++ hex c.toNat ++ "\x7d"

/-- The text between double quotes. -/
def quoted (s : String) : String :=
  "\"" ++ String.join (s.toList.map quoteChar) ++ "\""

end UnrealPackage
