import KlvMetadata.Text.Shapeless

/-!
# Quoted Text

Text in descriptions of values stands between double quotes. Quotes and
backslashes inside it are escaped, the common controls have short names, and
a character that cannot be seen on its own is written as its code point.

## Main definitions

* `escaped`: The spelling of one character inside quotes.
* `quoted`: A whole text between quotes.
-/

namespace KlvMetadata

namespace Text

/-- The spelling of one character inside quotes. -/
def escaped (c : Char) : List Char :=
  if c = '\x00' then ['\\', '0']
  else if c = '\t' then ['\\', 't']
  else if c = '\n' then ['\\', 'n']
  else if c = '\r' then ['\\', 'r']
  else if c = '"' then ['\\', '"']
  else if c = '\\' then ['\\', '\\']
  else if isShapeless c then
    ['\\', 'u', '\x7b'] ++ Nat.toDigits 16 c.toNat ++ ['\x7d']
  else [c]

/-- A text between quotes. -/
def quoted (text : String) : String :=
  String.ofList ('"' :: text.toList.flatMap escaped ++ ['"'])

end Text

end KlvMetadata
