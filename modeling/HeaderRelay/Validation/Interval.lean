import HeaderRelay.Document

set_option autoImplicit false

namespace HeaderRelay

open Fields (required)

/-- Bounds of a time in seconds. The relay reads no clock. -/
structure Interval where
  /-- The earliest time, which is stamped on accepted blocks. -/
  lower : BitVec 64
  /-- The latest time, which limits the timestamps of headers. -/
  upper : BitVec 64
  ordered : lower ≤ upper
deriving DecidableEq

namespace Interval

def ofBounds (lower upper : BitVec 64) : Checked Interval :=
  if ordered : lower ≤ upper then .valid ⟨lower, upper, ordered⟩
  else .flawed <| .broken <|
    "lower bound " ++ Text.integer lower.toNat ++ " exceeds upper bound " ++
      Text.integer upper.toNat

def ofCheckedBounds : Checked (BitVec 64 × BitVec 64) → Checked Interval
  | .valid (lower, upper) => ofBounds lower upper
  | .invalid faults => .invalid faults

/-- An interval of two numbers, which must be in range and in order. -/
def make (lower upper : Int) : Checked Interval :=
  ofCheckedBounds <|
    .ofFaults (BitVec.ofInt 64 lower, BitVec.ofInt 64 upper) <|
      unsignedFaults 64 [.key "lower"] lower ++ unsignedFaults 64 [.key "upper"] upper

def toJson (interval : Interval) : Json :=
  .object [("lower", .integer interval.lower.toNat),
    ("upper", .integer interval.upper.toNat)]

def fields : Fields (BitVec 64 × BitVec 64) :=
  Prod.mk <$> required (.plain "lower") (Reader.word 64)
    <*> required (.plain "upper") (Reader.word 64)

def ofJson (json : Json) : Checked Interval :=
  ofCheckedBounds (fields.readObject json)

instance : Document Interval := ⟨toJson, ofJson⟩

end Interval

end HeaderRelay
