import ProcProfile.Json

/-!
# Reading JSON

The reader accepts exactly the JSON grammar: blanks between tokens, no comments, no comma before a
closing bracket, no zeros in front of a number.  Escaped characters beyond the first 65536 come as
pairs of halves; a text with a half on its own is ill-formed, and so is one with a byte that is no part
of a character.

Main definitions: `Json.Sign`, `Json.readValue`, `Json.parse`, `Json.parseBytes`.
-/

namespace ProcProfile

namespace Json

/-- A sign of a document: a character, or none for a byte that is no part of one. -/
abbrev Sign := Option Char

/-- Reads bytes from position `i` on as signs, `fuel` of them at most; `passed` are those before it, the
last one in front. -/
def signsFrom (b : ByteArray) : (fuel : Nat) → (i : Nat) → (passed : List Sign) → List Sign
  | 0, _, passed => passed.reverse
  | fuel + 1, i, passed =>
    if b.size ≤ i then passed.reverse
    else
      match b.utf8DecodeChar? i with
      | some c => signsFrom b fuel (i + c.utf8Size) (some c :: passed)
      | none => signsFrom b fuel (i + 1) (none :: passed)

/-- The signs that bytes stand for. -/
def signs (b : ByteArray) : List Sign := signsFrom b b.size 0 []

def isBlank (c : Char) : Bool := c = ' ' || c = '\n' || c = '\t' || c = '\r'

def skipBlanks (cs : List Sign) : List Sign := cs.dropWhile fun c => c.any isBlank

/-! ### Texts -/

/-- The value of a hexadecimal digit. -/
def hexValue? (c : Char) : Option Nat :=
  if '0' ≤ c ∧ c ≤ '9' then some (c.toNat - '0'.toNat)
  else if 'a' ≤ c ∧ c ≤ 'f' then some (c.toNat - 'a'.toNat + 10)
  else if 'A' ≤ c ∧ c ≤ 'F' then some (c.toNat - 'A'.toNat + 10)
  else none

/-- The value of four hexadecimal digits. -/
def hex4? (a b c d : Sign) : Option Nat := do
  let high := (← a >>= hexValue?) * 16 + (← b >>= hexValue?)
  let low := (← c >>= hexValue?) * 16 + (← d >>= hexValue?)
  return high * 256 + low

/-- The character of an escape by one letter. -/
def unescape? (c : Char) : Option Char :=
  if c = '"' then some '"'
  else if c = '\\' then some '\\'
  else if c = '/' then some '/'
  else if c = 'b' then some '\x08'
  else if c = 'f' then some '\x0c'
  else if c = 'n' then some '\n'
  else if c = 'r' then some '\r'
  else if c = 't' then some '\t'
  else none

def isHighHalf (n : Nat) : Bool := decide (0xd800 ≤ n ∧ n < 0xdc00)

def isLowHalf (n : Nat) : Bool := decide (0xdc00 ≤ n ∧ n < 0xe000)

/-- The character of two halves. -/
def joinHalves (high low : Nat) : Char :=
  Char.ofNat (0x10000 + (high - 0xd800) * 0x400 + (low - 0xdc00))

/-- What an escape or a sign of a quoted text stands for. -/
inductive TextUnit where
  | char (c : Char)
  /-- Half of a character. -/
  | half (n : Nat)
  /-- A byte that is no part of a character. -/
  | stray
  deriving DecidableEq, Repr

/-- The unit that four hexadecimal digits stand for. -/
def TextUnit.ofCode (n : Nat) : TextUnit :=
  if isHighHalf n || isLowHalf n then .half n else .char (Char.ofNat n)

/-- The units of a quoted text, after its opening quote, and what follows it; `passed` are the units
before, the last one in front. -/
def readUnits (passed : List TextUnit) : List Sign → Option (List TextUnit × List Sign)
  | [] => none
  | none :: rest => readUnits (.stray :: passed) rest
  | some '"' :: rest => some (passed.reverse, rest)
  | some '\\' :: some 'u' :: a :: b :: c :: d :: rest =>
    match hex4? a b c d with
    | none => none
    | some n => readUnits (.ofCode n :: passed) rest
  | some '\\' :: some c :: rest =>
    match unescape? c with
    | none => none
    | some c => readUnits (.char c :: passed) rest
  | some c :: rest =>
    if c.toNat < 0x20 || c = '\\' then none else readUnits (.char c :: passed) rest

/-- The text of some units: a high half and the low half after it are one character.  There is no text if
a half or a byte stands on its own.  `passed` are the characters before, the last one in front. -/
def joinUnits (passed : List Char) : List TextUnit → Option (List Char)
  | [] => some passed.reverse
  | .char c :: rest => joinUnits (c :: passed) rest
  | .half high :: .half low :: rest =>
    if isHighHalf high && isLowHalf low then joinUnits (joinHalves high low :: passed) rest else none
  | _ :: _ => none

/-- The rest of a quoted text, after its opening quote, and what follows it. -/
def readText (cs : List Sign) : Option (Option (List Char) × List Sign) :=
  (readUnits [] cs).map fun (units, rest) => (joinUnits [] units, rest)

/-- The value of a quoted text. -/
def ofText : Option (List Char) → Json
  | some text => .string (String.ofList text)
  | none => .illFormed

/-- One more field in front of those before it.  There are no fields if the name of one is ill-formed. -/
def addField (name : Option (List Char)) (value : Json) (passed : Option (List (String × Json))) :
    Option (List (String × Json)) := do
  return (String.ofList (← name), value) :: (← passed)

/-- The value of the fields of an object, the last one in front. -/
def ofFields : Option (List (String × Json)) → Json
  | some passed => .object passed.reverse
  | none => .illFormed

/-! ### Numbers -/

/-- The digits at the front, and what follows them. -/
def readDigits (cs : List Sign) : List Char × List Sign :=
  ((cs.takeWhile fun c => c.any Char.isDigit).filterMap id, cs.dropWhile fun c => c.any Char.isDigit)

/-- The fraction of a number, if there is a point. -/
def readFraction : List Sign → Option (List Char × List Sign)
  | some '.' :: cs =>
    let (digits, rest) := readDigits cs
    if digits.isEmpty then none else some (digits, rest)
  | cs => some ([], cs)

/-- The sign and digits of an exponent. -/
def readExponentDigits (negative : Bool) (cs : List Sign) : Option (Option JsonExponent × List Sign) :=
  let (digits, rest) := readDigits cs
  if digits.isEmpty then none else some (some ⟨negative, digits⟩, rest)

/-- The exponent of a number, if there is one. -/
def readExponent : List Sign → Option (Option JsonExponent × List Sign)
  | c :: cs =>
    if c = some 'e' || c = some 'E' then
      match cs with
      | some '+' :: cs => readExponentDigits false cs
      | some '-' :: cs => readExponentDigits true cs
      | cs => readExponentDigits false cs
    else some (none, c :: cs)
  | [] => some (none, [])

/-- A number after its sign. -/
def readMagnitude (negative : Bool) (cs : List Sign) : Option (JsonNumber × List Sign) := do
  let (whole, rest) := readDigits cs
  if whole.isEmpty || (whole.length ≠ 1 && whole.head? == some '0') then none
  else
    let (fraction, rest) ← readFraction rest
    let (exponent, rest) ← readExponent rest
    return (⟨negative, whole, fraction, exponent⟩, rest)

/-- A number and what follows it. -/
def readNumber : List Sign → Option (JsonNumber × List Sign)
  | some '-' :: cs => readMagnitude true cs
  | cs => readMagnitude false cs

/-! ### Values -/

mutual

/-- A value and what follows it. -/
def readValue : (fuel : Nat) → List Sign → Option (Json × List Sign)
  | 0, _ => none
  | fuel + 1, cs =>
    match skipBlanks cs with
    | some 'n' :: some 'u' :: some 'l' :: some 'l' :: rest => some (.null, rest)
    | some 't' :: some 'r' :: some 'u' :: some 'e' :: rest => some (.bool true, rest)
    | some 'f' :: some 'a' :: some 'l' :: some 's' :: some 'e' :: rest => some (.bool false, rest)
    | some '"' :: rest => do
      let (text, rest) ← readText rest
      return (ofText text, rest)
    | some '[' :: rest =>
      match skipBlanks rest with
      | some ']' :: rest => some (.array [], rest)
      | rest => readItems fuel [] rest
    | some '\x7b' :: rest =>
      match skipBlanks rest with
      | some '\x7d' :: rest => some (.object [], rest)
      | rest => readFields fuel (some []) rest
    | rest => do
      let (n, rest) ← readNumber rest
      return (.number n, rest)

/-- An array after the items `passed`, the last one in front, and what follows it. -/
def readItems : (fuel : Nat) → (passed : List Json) → List Sign → Option (Json × List Sign)
  | 0, _, _ => none
  | fuel + 1, passed, cs =>
    match readValue fuel cs with
    | none => none
    | some (item, rest) =>
      match skipBlanks rest with
      | some ',' :: rest => readItems fuel (item :: passed) rest
      | some ']' :: rest => some (.array (item :: passed).reverse, rest)
      | _ => none

/-- An object after the fields `passed`, the last one in front, and what follows it. -/
def readFields : (fuel : Nat) → (passed : Option (List (String × Json))) → List Sign →
    Option (Json × List Sign)
  | 0, _, _ => none
  | fuel + 1, passed, cs =>
    match skipBlanks cs with
    | some '"' :: rest =>
      match readText rest with
      | none => none
      | some (name, rest) =>
        match skipBlanks rest with
        | some ':' :: rest =>
          match readValue fuel rest with
          | none => none
          | some (value, rest) =>
            match skipBlanks rest with
            | some ',' :: rest => readFields fuel (addField name value passed) rest
            | some '\x7d' :: rest => some (ofFields (addField name value passed), rest)
            | _ => none
        | _ => none
    | _ => none

end

/-- The value of a document: one value and nothing else but blanks. -/
def parseSigns (cs : List Sign) : Option Json := do
  let (value, rest) ← readValue (cs.length + 1) cs
  if (skipBlanks rest).isEmpty then return value else none

/-- The value of a document that is a text. -/
def parse (text : String) : Option Json := parseSigns (text.toList.map some)

/-- The value of a document that is kept as bytes. -/
def parseBytes (b : ByteArray) : Option Json :=
  match String.fromUTF8? b with
  | some text => parse text
  | none => parseSigns (signs b)

end Json

end ProcProfile
