import HeaderRelay.Bytes.Hex
import HeaderRelay.Json
import HeaderRelay.Text

set_option autoImplicit false

namespace HeaderRelay

/-- A byte string of a given length. -/
structure SizedBytes (length : Nat) where
  bytes : Bytes
  length_eq : bytes.length = length
deriving DecidableEq

/-- A 32-byte hash in internal byte order: a block hash, a transaction identifier, a Merkle node. -/
abbrev Digest := SizedBytes 32

namespace SizedBytes

variable {length : Nat}

@[ext] theorem ext_bytes {x y : SizedBytes length} (same : x.bytes = y.bytes) : x = y := by
  cases x
  cases y
  cases same
  rfl

def zero (length : Nat) : SizedBytes length :=
  ⟨List.replicate length 0, List.length_replicate⟩

/-- The first bytes after an offset, where enough of them follow. -/
def slice (bytes : Bytes) (offset : Nat) (within : offset + length ≤ bytes.length) :
    SizedBytes length :=
  ⟨(bytes.drop offset).take length, by
    rw [List.length_take, List.length_drop]
    omega⟩

def hex (x : SizedBytes length) : String := Hex.text x.bytes

/-- Hexadecimal text of the reversed bytes, as explorers show hashes. -/
def display (x : SizedBytes length) : String := Hex.displayText x.bytes

/-- Unsigned lexicographic order. -/
instance : LT (SizedBytes length) := ⟨fun x y => x.bytes < y.bytes⟩

instance (x y : SizedBytes length) : Decidable (x < y) :=
  inferInstanceAs (Decidable (x.bytes < y.bytes))

instance : LE (SizedBytes length) := ⟨fun x y => x.bytes ≤ y.bytes⟩

instance (x y : SizedBytes length) : Decidable (x ≤ y) :=
  inferInstanceAs (Decidable (x.bytes ≤ y.bytes))

end SizedBytes

def Digest.zero : Digest := SizedBytes.zero 32

inductive ConversionError where
  | unexpectedCharacter (position : Nat)
  | wrongLength (kind : String) (expected : Int) (actual : Nat)
  /-- The kind fixes no length, so it has no members. -/
  | lengthUndefined (kind : String)
  | lengthUnknown
  | outOfRange
  /-- A count does not fit a signed word of 64 bits, or exceeds the length of every byte string. -/
  | countTooWide
  | memoryExhausted
  | unsupported
deriving DecidableEq

def ConversionError.message? : ConversionError → Option String
  | .unexpectedCharacter position =>
    some ("non-hexadecimal number found in fromhex() arg at position " ++ Text.integer position)
  | .wrongLength kind expected actual =>
    some (kind ++ " expects exactly " ++ Text.integer expected ++ " bytes, got " ++
      Text.integer actual)
  | .lengthUndefined kind => some (kind ++ " must define LENGTH")
  | .lengthUnknown | .outOfRange | .countTooWide | .memoryExhausted | .unsupported => none

inductive ByteSource where
  | bytes (value : Bytes)
  | text (value : String)
  /-- A list of numbers; an absent number is an item of another form. -/
  | items (values : List (Option Int))
  | count (value : Int)
  | other

namespace ByteSource

/-- A number or a truth value, which counts as one or zero. -/
def numberOf? : Json → Option Int
  | .integer n => some n
  | .bool b => some (if b then 1 else 0)
  | _ => none

/-- What a document value holds. An empty object has no items, another one has named items. -/
def ofJson : Json → ByteSource
  | .string value => .text value
  | .array values => .items (values.map numberOf?)
  | .object members => .items (members.map fun _ => none)
  | value =>
    match numberOf? value with
    | some n => .count n
    | none => .other

/-- The bytes of list items; the first item that is no byte decides the error. -/
def bytesOfItems : List (Option Int) → Except ConversionError Bytes
  | [] => .ok []
  | none :: _ => .error .unsupported
  | some n :: rest =>
    if 0 ≤ n ∧ n < 256 then (bytesOfItems rest).map (UInt8.ofNat n.toNat :: ·)
    else .error .outOfRange

end ByteSource

/-- A kind of byte string: those of one length, or the base kind, which fixes no length. -/
structure ByteKind where
  length : Option Int

namespace ByteKind

def name (kind : ByteKind) : String :=
  match kind.length with
  | some n => "Bytes" ++ Text.integer n
  | none => "BaseBytes"

/-- Accepts so many bytes, delivered on demand, if the kind asks for that many. -/
def accept (kind : ByteKind) (count : Nat) (bytes : Unit → Bytes) : Except ConversionError Bytes :=
  match kind.length with
  | none => .error (.lengthUndefined kind.name)
  | some expected =>
    if (count : Int) = expected then .ok (bytes ())
    else .error (.wrongLength kind.name expected count)

/-- Whether a count does not fit a signed word of 64 bits. -/
def isTooWide (count : Int) : Bool :=
  count < -0x8000000000000000 || 0x8000000000000000 ≤ count

/-- The longest byte string that can be counted out: a signed word of 64 bits also counts the 33
bytes stored beside it. -/
def longest : Int := 0x7FFFFFFFFFFFFFDE

/-- As many bytes as there may be memory for. -/
def memory : Nat := 0x10000000000

def acceptZeros (kind : ByteKind) (count : Nat) : Except ConversionError Bytes :=
  if memory ≤ count then .error .memoryExhausted
  else kind.accept count fun _ => List.replicate count 0

/-- Makes a byte string of a kind. The kind must fix a length before the value is looked at. -/
def make (kind : ByteKind) (source : ByteSource) : Except ConversionError Bytes :=
  match kind.length with
  | none => .error (.lengthUndefined kind.name)
  | some _ =>
    match source with
    | .bytes value => kind.accept value.length fun _ => value
    | .text value =>
      match Hex.ofText value with
      | .error position => .error (.unexpectedCharacter position)
      | .ok value => kind.accept value.length fun _ => value
    | .items values =>
      match ByteSource.bytesOfItems values with
      | .error cause => .error cause
      | .ok value => kind.accept value.length fun _ => value
    | .count n =>
      if isTooWide n || longest < n then .error .countTooWide
      else if n < 0 then .error .outOfRange
      else kind.acceptZeros n.toNat
    | .other => .error .unsupported

def zeros (kind : ByteKind) : Except ConversionError Bytes :=
  match kind.length with
  | none => .error .lengthUnknown
  | some n => if isTooWide n then .error .countTooWide else kind.acceptZeros n.toNat

/-- Reads text in display order, that is with the bytes reversed. The text is read first. -/
def ofDisplay (kind : ByteKind) (text : String) : Except ConversionError Bytes :=
  match Hex.ofText text with
  | .error position => .error (.unexpectedCharacter position)
  | .ok value => kind.accept value.length fun _ => value.reverse

def literal (kind : ByteKind) (bytes : Bytes) : String :=
  kind.name ++ "(" ++ Hex.text bytes ++ ")"

end ByteKind

def Digest.kind : ByteKind := ⟨some 32⟩

def Digest.ofBytes (bytes : Bytes) : Except ConversionError Digest :=
  if sized : bytes.length = 32 then .ok ⟨bytes, sized⟩
  else .error (.wrongLength Digest.kind.name 32 bytes.length)

def Digest.ofText (text : String) : Except ConversionError Digest :=
  match Hex.ofText text with
  | .error position => .error (.unexpectedCharacter position)
  | .ok bytes => Digest.ofBytes bytes

end HeaderRelay
