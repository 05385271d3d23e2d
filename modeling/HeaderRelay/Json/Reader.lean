import HeaderRelay.Json
import HeaderRelay.Text
import HeaderRelay.Bytes.Hex

set_option autoImplicit false

namespace HeaderRelay.Json

/-- The four blank characters that may stand between tokens. -/
def isBlank (c : Char) : Bool := c = ' ' || c = '\t' || c = '\n' || c = '\r'

def skipBlanks (chars : List Char) : List Char := chars.dropWhile isBlank

/-- The value of four hexadecimal digits. -/
def readUnit (a b c d : Char) : Option Nat := do
  let a ← Hex.digitValue? a
  let b ← Hex.digitValue? b
  let c ← Hex.digitValue? c
  let d ← Hex.digitValue? d
  return ((a * 16 + b) * 16 + c) * 16 + d

def shortEscape : Char → Option Char
  | '"' => some '"'
  | '\\' => some '\\'
  | '/' => some '/'
  | 'b' => some '\x08'
  | 'f' => some '\x0c'
  | 'n' => some '\n'
  | 'r' => some '\r'
  | 't' => some '\t'
  | _ => none

/-- Reads the second half of a surrogate pair and joins it to the first. -/
def readTrail (lead : Nat) : List Char → Option (Char × List Char)
  | '\\' :: 'u' :: a :: b :: c :: d :: rest =>
    match readUnit a b c d with
    | none => none
    | some trail =>
      if 0xDC00 ≤ trail ∧ trail < 0xE000 then
        some (Char.ofNat (0x10000 + (lead - 0xD800) * 0x400 + (trail - 0xDC00)), rest)
      else none
  | _ => none

/-- Reads an escape after its backslash. A surrogate needs its partner. -/
def readEscape : List Char → Option (Char × List Char)
  | 'u' :: a :: b :: c :: d :: rest =>
    match readUnit a b c d with
    | none => none
    | some unit =>
      if unit < 0xD800 ∨ 0xE000 ≤ unit then some (Char.ofNat unit, rest)
      else if unit < 0xDC00 then readTrail unit rest
      else none
  | c :: rest => (shortEscape c).map (·, rest)
  | [] => none

/-- Reads a string after its opening quote. What was read so far stands reversed in `done`. -/
def readChars : Nat → List Char → List Char → Option (List Char × List Char)
  | 0, _, _ => none
  | _ + 1, _, [] => none
  | fuel + 1, done, c :: rest =>
    if c = '"' then some (done.reverse, rest)
    else if c = '\\' then
      match readEscape rest with
      | none => none
      | some (escaped, rest) => readChars fuel (escaped :: done) rest
    else if c.toNat < 32 then none
    else readChars fuel (c :: done) rest

/-- Reads a string after its opening quote; `bound` exceeds the length of the text. -/
def readString (bound : Nat) (chars : List Char) : Option (String × List Char) :=
  (readChars bound [] chars).map fun (read, rest) => (String.ofList read, rest)

/-- Digits, and what follows them; at least one digit must stand there. -/
def readDigits (chars : List Char) : Option (List Char × List Char) :=
  match chars.takeWhile Char.isDigit with
  | [] => none
  | digits => some (digits, chars.dropWhile Char.isDigit)

/-- The text of a fraction, possibly absent, and what follows it. -/
def readFraction : List Char → Option (List Char × List Char)
  | '.' :: chars => (readDigits chars).map fun (digits, rest) => ('.' :: digits, rest)
  | chars => some ([], chars)

/-- The text of an exponent after its mark: an optional sign and digits. -/
def readPower (mark : Char) : List Char → Option (List Char × List Char)
  | '+' :: chars => (readDigits chars).map fun (digits, rest) => (mark :: '+' :: digits, rest)
  | '-' :: chars => (readDigits chars).map fun (digits, rest) => (mark :: '-' :: digits, rest)
  | chars => (readDigits chars).map fun (digits, rest) => (mark :: digits, rest)

/-- The text of an exponent, possibly absent, and what follows it. -/
def readExponent : List Char → Option (List Char × List Char)
  | 'e' :: chars => readPower 'e' chars
  | 'E' :: chars => readPower 'E' chars
  | chars => some ([], chars)

def signed (negative : Bool) (magnitude : Nat) : Int :=
  if negative then -(magnitude : Int) else magnitude

structure Limits where
  depth : Nat
  /-- How many digits a number may have before its fraction and its exponent. -/
  length : Nat

/-- Reads a number after its sign. It has no leading zeros; with a fraction or an exponent it is a
decimal. -/
def readMagnitude (limits : Limits) (negative : Bool) (chars : List Char) :
    Option (Json × List Char) := do
  let (digits, chars) ← readDigits chars
  let (fraction, chars) ← readFraction chars
  let (exponent, chars) ← readExponent chars
  if digits.head? = some '0' ∧ digits ≠ ['0'] then none
  else if limits.length < digits.length then none
  else if fraction = [] ∧ exponent = [] then
    some (.integer (signed negative (Text.naturalValue digits)), chars)
  else
    let sign : List Char := if negative then ['-'] else []
    some (.decimal (String.ofList (sign ++ digits ++ fraction ++ exponent)), chars)

/-- Reads a number or the name of one that is not finite. -/
def readNumber (limits : Limits) : List Char → Option (Json × List Char)
  | 'N' :: 'a' :: 'N' :: rest => some (.decimal "NaN", rest)
  | 'I' :: 'n' :: 'f' :: 'i' :: 'n' :: 'i' :: 't' :: 'y' :: rest =>
    some (.decimal "Infinity", rest)
  | '-' :: 'I' :: 'n' :: 'f' :: 'i' :: 'n' :: 'i' :: 't' :: 'y' :: rest =>
    some (.decimal "-Infinity", rest)
  | '-' :: rest => readMagnitude limits true rest
  | chars => readMagnitude limits false chars

mutual

/-- Reads a value that starts at once. `depth` says how many containers may still be opened, and
`bound` exceeds the length of the text. -/
def readValue (limits : Limits) (bound : Nat) : Nat → Nat → List Char → Option (Json × List Char)
  | 0, _, _ => none
  | fuel + 1, depth, chars =>
    match chars with
    | 'n' :: 'u' :: 'l' :: 'l' :: rest => some (.null, rest)
    | 't' :: 'r' :: 'u' :: 'e' :: rest => some (.bool true, rest)
    | 'f' :: 'a' :: 'l' :: 's' :: 'e' :: rest => some (.bool false, rest)
    | '"' :: rest => (readString bound rest).map fun (value, rest) => (.string value, rest)
    | '[' :: rest =>
      match skipBlanks rest with
      | ']' :: rest => some (.array [], rest)
      | rest =>
        match depth with
        | 0 => none
        | depth + 1 =>
          (readItems limits bound fuel depth rest).map fun (items, rest) => (.array items, rest)
    | '{' :: rest =>
      match skipBlanks rest with
      | '}' :: rest => some (.object [], rest)
      | rest =>
        match depth with
        | 0 => none
        | depth + 1 =>
          (readMembers limits bound fuel depth rest).map fun (members, rest) =>
            (.object members, rest)
    | chars => readNumber limits chars

/-- Reads one item and those after it, up to the closing bracket. -/
def readItems (limits : Limits) (bound : Nat) :
    Nat → Nat → List Char → Option (List Json × List Char)
  | 0, _, _ => none
  | fuel + 1, depth, chars =>
    match readValue limits bound fuel depth chars with
    | none => none
    | some (item, rest) =>
      match skipBlanks rest with
      | ']' :: rest => some ([item], rest)
      | ',' :: rest =>
        (readItems limits bound fuel depth (skipBlanks rest)).map fun (items, rest) =>
          (item :: items, rest)
      | _ => none

/-- Reads one member and those after it, up to the closing brace. -/
def readMembers (limits : Limits) (bound : Nat) :
    Nat → Nat → List Char → Option (Members × List Char)
  | 0, _, _ => none
  | fuel + 1, depth, chars =>
    match chars with
    | '"' :: rest =>
      match readString bound rest with
      | none => none
      | some (key, rest) =>
        match skipBlanks rest with
        | ':' :: rest =>
          match readValue limits bound fuel depth (skipBlanks rest) with
          | none => none
          | some (value, rest) =>
            match skipBlanks rest with
            | '}' :: rest => some ([(key, value)], rest)
            | ',' :: rest =>
              (readMembers limits bound fuel depth (skipBlanks rest)).map fun (members, rest) =>
                ((key, value) :: members, rest)
            | _ => none
        | _ => none
    | _ => none

end

/-- Reads a whole text as one value. -/
def parseWithin? (limits : Limits) (text : String) : Option Json :=
  let chars := text.toList
  let bound := chars.length + 1
  match readValue limits bound bound limits.depth (skipBlanks chars) with
  | some (value, rest) => if (skipBlanks rest).isEmpty then some value else none
  | none => none

end HeaderRelay.Json
