/-!
# JSON Text

Data printed for other programs. Each element of a list and each field of an
object has a line of its own, two spaces deeper than what it belongs to; an
empty list is written as such. Fields appear in the order they are given.

## Main definitions

* `JsonValue`: Texts, whole numbers, lists and objects.
* `JsonValue.render`: The text.
-/

namespace KlvMetadata

/-- Data as JSON knows it. -/
inductive JsonValue where
  | text (s : String)
  | number (n : Nat)
  | list (elements : List JsonValue)
  | object (fields : List (String × JsonValue))

namespace JsonValue

/-- Two lower-case hexadecimal digits after `\u00`. -/
def controlEscape (c : Char) : List Char :=
  ['\\', 'u', '0', '0', Nat.digitChar (c.toNat / 16), Nat.digitChar (c.toNat % 16)]

/-- The spelling of one character inside quotes; characters above the controls
    stand for themselves. -/
def escaped (c : Char) : List Char :=
  if c = '"' then ['\\', '"']
  else if c = '\\' then ['\\', '\\']
  else if c = '\n' then ['\\', 'n']
  else if c = '\r' then ['\\', 'r']
  else if c = '\t' then ['\\', 't']
  else if c = '\x08' then ['\\', 'b']
  else if c = '\x0c' then ['\\', 'f']
  else if c.toNat < 32 then controlEscape c
  else [c]

/-- A text between quotes. -/
def quoted (s : String) : String := String.ofList ('"' :: s.toList.flatMap escaped ++ ['"'])

/-- A new line with its indentation. -/
def newline (depth : Nat) : String := "\n" ++ String.ofList (List.replicate (2 * depth) ' ')

/-- Lines between brackets, one step deeper than the brackets. -/
def block (opening closing : String) (depth : Nat) (lines : List String) : String :=
  if lines.isEmpty then opening ++ closing
  else
    opening ++ newline (depth + 1) ++ ("," ++ newline (depth + 1)).intercalate lines ++
      newline depth ++ closing

mutual

/-- The text at a depth. -/
def renderAt (depth : Nat) : JsonValue → String
  | .text s => quoted s
  | .number n => toString n
  | .list elements => block "[" "]" depth (renderElements (depth + 1) elements)
  | .object fields => block "\x7b" "\x7d" depth (renderFields (depth + 1) fields)

def renderElements (depth : Nat) : List JsonValue → List String
  | [] => []
  | v :: rest => v.renderAt depth :: renderElements depth rest

def renderFields (depth : Nat) : List (String × JsonValue) → List String
  | [] => []
  | (name, v) :: rest => (quoted name ++ ": " ++ v.renderAt depth) :: renderFields depth rest

end

/-- The text. -/
def render (v : JsonValue) : String := v.renderAt 0

end JsonValue

end KlvMetadata
