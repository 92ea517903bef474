import OfficePreview.Text.Invisible
/-!
# Quoted — text between quotes, for messages

A quoted text shows where it starts and ends and which characters it holds: quotes and backslashes are escaped, the
common controls have their letters, and every other character without a shape of its own is written by its number.
-/
namespace OfficePreview.Text

/-- How a character stands between quotes. -/
def quoteChar (c : Char) : String :=
  if c = '"' then "\\\""
  else if c = '\\' then "\\\\"
  else if c = '\t' then "\\t"
  else if c = '\n' then "\\n"
  else if c = '\r' then "\\r"
  else if c = '\x00' then "\\0"
  else if isInvisible c then "\\u\x7b" ++ String.ofList (Nat.toDigits 16 c.toNat) ++ "\x7d"
  else c.toString

def quote (s : String) : String := "\"" ++ String.join (s.toList.map quoteChar) ++ "\""

end OfficePreview.Text
