import HeaderRelay.Bytes

set_option autoImplicit false

namespace HeaderRelay.Hex

/-- The value of a hexadecimal digit of either case. -/
def digitValue? (c : Char) : Option Nat :=
  if '0' ≤ c ∧ c ≤ '9' then some (c.toNat - '0'.toNat)
  else if 'a' ≤ c ∧ c ≤ 'f' then some (c.toNat - 'a'.toNat + 10)
  else if 'A' ≤ c ∧ c ≤ 'F' then some (c.toNat - 'A'.toNat + 10)
  else none

def pair (byte : UInt8) : List Char :=
  [Nat.digitChar (byte.toNat / 16), Nat.digitChar (byte.toNat % 16)]

/-- Two lowercase digits for each byte. -/
def encode (bytes : Bytes) : List Char := bytes.flatMap pair

def text (bytes : Bytes) : String := String.ofList (encode bytes)

/-- The text of the reversed bytes, the order in which hashes are displayed. -/
def displayText (bytes : Bytes) : String := text bytes.reverse

/-- The six blank characters of ASCII, which may stand between two pairs. -/
def isBlank (c : Char) : Bool :=
  c = ' ' || ('\x09' ≤ c && c ≤ '\x0d')

/-- Reads ASCII text from a position on. An error is the position of the first character that is not
the digit expected there, possibly the end of the text. -/
def decodeAt (position : Nat) : List Char → Except Nat Bytes
  | [] => .ok []
  | [c] =>
    if isBlank c then .ok []
    else if (digitValue? c).isSome then .error (position + 1)
    else .error position
  | c :: d :: rest =>
    if isBlank c then decodeAt (position + 1) (d :: rest)
    else
      match digitValue? c, digitValue? d with
      | none, _ => .error position
      | some _, none => .error (position + 1)
      | some high, some low =>
        (decodeAt (position + 2) rest).map (UInt8.ofNat (16 * high + low) :: ·)

/-- Reads hexadecimal text. A character outside ASCII fails first, wherever it stands. -/
def decode (chars : List Char) : Except Nat Bytes :=
  match chars.findIdx? (128 ≤ ·.toNat) with
  | some position => .error position
  | none => decodeAt 0 chars

/-- Takes off one leading `0x`. -/
def dropMarker : List Char → List Char
  | '0' :: 'x' :: rest => rest
  | chars => chars

/-- Reads hexadecimal text with or without a leading `0x`, which positions do not count. -/
def ofText (source : String) : Except Nat Bytes :=
  decode (dropMarker source.toList)

/-- Whether a group of bytes begins at a position: groups count from the right end when the size is
positive and from the left end when it is negative; size zero makes no groups. -/
def beginsGroup (size : Int) (length position : Nat) : Bool :=
  if position = 0 ∨ size = 0 then false
  else if 0 < size then (length - position) % size.toNat = 0
  else position % size.natAbs = 0

/-- Hexadecimal text with a separator between groups of bytes. -/
def grouped (separator : Char) (size : Int) (bytes : Bytes) : String :=
  String.ofList <| bytes.zipIdx.flatMap fun (byte, position) =>
    if beginsGroup size bytes.length position then separator :: pair byte else pair byte

inductive GroupingError where
  | separator
  | size
deriving DecidableEq

/-- As `grouped`, for a separator given as text. The size is looked at first. -/
def groupedBy (separator : String) (size : Int) (bytes : Bytes) : Except GroupingError String :=
  if size < -0x80000000 ∨ 0x80000000 ≤ size then .error .size
  else
    match separator.toList with
    | [c] => if c.toNat < 128 then .ok (grouped c size bytes) else .error .separator
    | _ => .error .separator

end HeaderRelay.Hex
