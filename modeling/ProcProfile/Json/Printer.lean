import ProcProfile.Json

/-!
# Writing JSON

Documents are written with two blanks for each level, one item or field to a line; an array or object
without items is written as its two brackets.  Quotes, backslashes and characters below the blank are
escaped, all other characters stand for themselves.  The compact form has no blanks and line ends.

Main definitions: `Json.pretty`, `Json.compact`.
-/

namespace ProcProfile

namespace Json

/-! ### Texts and numbers -/

/-- A character inside a quoted text. -/
def escape (c : Char) : List Char :=
  if c = '"' then ['\\', '"']
  else if c = '\\' then ['\\', '\\']
  else if c = '\n' then ['\\', 'n']
  else if c = '\r' then ['\\', 'r']
  else if c = '\t' then ['\\', 't']
  else if c = '\x08' then ['\\', 'b']
  else if c = '\x0c' then ['\\', 'f']
  else if c.toNat < 0x20 then
    ['\\', 'u', '0', '0', Nat.digitChar (c.toNat / 16), Nat.digitChar (c.toNat % 16)]
  else [c]

/-- A quoted text. -/
def quote (s : String) : List Char := '"' :: (s.toList.flatMap escape ++ ['"'])

/-- A number as it is written. -/
def writeNumber (n : JsonNumber) : List Char :=
  let sign := if n.negative then ['-'] else []
  let point := if n.fraction.isEmpty then [] else '.' :: n.fraction
  let exponent :=
    match n.exponent with
    | none => []
    | some e => 'e' :: (if e.negative then '-' else '+') :: e.digits
  sign ++ (n.whole ++ (point ++ exponent))

/-! ### The two layouts -/

/-- The start of a line at a level. -/
def newline (level : Nat) : List Char := '\n' :: List.replicate (2 * level) ' '

mutual

/-- A value whose closing bracket stands at a level. -/
def writePretty (level : Nat) : Json → List Char
  | .null => ['n', 'u', 'l', 'l']
  | .bool true => ['t', 'r', 'u', 'e']
  | .bool false => ['f', 'a', 'l', 's', 'e']
  | .number n => writeNumber n
  | .string s => quote s
  | .array [] => ['[', ']']
  | .array (item :: rest) =>
    '[' :: (newline (level + 1) ++ (writePretty (level + 1) item ++ prettyItems (level + 1) rest ++
      (newline level ++ [']'])))
  | .object [] => ['\x7b', '\x7d']
  | .object ((name, value) :: rest) =>
    '\x7b' :: (newline (level + 1) ++ (quote name ++ (':' :: ' ' :: writePretty (level + 1) value) ++
      prettyFields (level + 1) rest ++ (newline level ++ ['\x7d'])))
  | .illFormed => ['"', '\\', 'u', 'd', '8', '0', '0', '"']

/-- The further items of an array. -/
def prettyItems (level : Nat) : List Json → List Char
  | [] => []
  | item :: rest => ',' :: (newline level ++ (writePretty level item ++ prettyItems level rest))

/-- The further fields of an object. -/
def prettyFields (level : Nat) : List (String × Json) → List Char
  | [] => []
  | (name, value) :: rest =>
    ',' :: (newline level ++ (quote name ++ (':' :: ' ' :: writePretty level value) ++
      prettyFields level rest))

end

mutual

/-- A value without blanks. -/
def writeCompact : Json → List Char
  | .null => ['n', 'u', 'l', 'l']
  | .bool true => ['t', 'r', 'u', 'e']
  | .bool false => ['f', 'a', 'l', 's', 'e']
  | .number n => writeNumber n
  | .string s => quote s
  | .array [] => ['[', ']']
  | .array (item :: rest) => '[' :: (writeCompact item ++ (compactItems rest ++ [']']))
  | .object [] => ['\x7b', '\x7d']
  | .object ((name, value) :: rest) =>
    '\x7b' :: (quote name ++ (':' :: writeCompact value) ++ (compactFields rest ++ ['\x7d']))
  | .illFormed => ['"', '\\', 'u', 'd', '8', '0', '0', '"']

/-- The further items of an array. -/
def compactItems : List Json → List Char
  | [] => []
  | item :: rest => ',' :: (writeCompact item ++ compactItems rest)

/-- The further fields of an object. -/
def compactFields : List (String × Json) → List Char
  | [] => []
  | (name, value) :: rest =>
    ',' :: (quote name ++ (':' :: writeCompact value) ++ compactFields rest)

end

/-- The document of a value. -/
def pretty (j : Json) : String := String.ofList (writePretty 0 j)

/-- The value on one line. -/
def compact (j : Json) : String := String.ofList (writeCompact j)

end Json

end ProcProfile
