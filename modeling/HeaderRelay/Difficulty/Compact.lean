import HeaderRelay.Error
import HeaderRelay.Params

/- The compact form of a target is a byte of exponent over three bytes of mantissa, whose top bit is
a sign. The target is the mantissa times 256 to the power of the exponent less three. -/

set_option autoImplicit false

namespace HeaderRelay.Compact

/-- Why compact bits are no target that a header may claim. -/
inductive Defect where
  | negative
  | overflow
  | zero
  | aboveLimit
deriving DecidableEq

def Defect.detail : Defect → String
  | .negative => "negative target"
  | .overflow => "target overflows 256 bits"
  | .zero => "target is zero"
  | .aboveLimit => "target above proof-of-work limit"

def refusal (bits : Int) (defect : Defect) : RelayError :=
  .difficultyEncoding bits defect.detail

/-- Everything above the lowest three bytes. -/
def exponent (bits : Int) : Int := bits / 0x1000000

/-- The lowest twenty-three bits. -/
def mantissa (bits : Int) : Nat := (bits % 0x800000).toNat

/-- Whether bit 23 is set, which marks a mantissa as negative. -/
def hasSign (bits : Int) : Bool := bits / 0x800000 % 2 = 1

/-- Whether mantissa and exponent denote 256 bits or more. -/
def overflows (mantissa : Nat) (exponent : Int) : Bool :=
  mantissa ≠ 0 &&
    (34 < exponent || (0xFF < mantissa && 33 < exponent) || (0xFFFF < mantissa && 32 < exponent))

/-- The target of compact bits. A small exponent drops whole bytes of the mantissa. -/
def decode (bits : Int) : Except RelayError Int :=
  let e := exponent bits
  let m := mantissa bits
  if hasSign bits then .error (refusal bits .negative)
  else if e ≤ 3 then .ok (m >>> (8 * (3 - e).toNat) : Nat)
  else if overflows m e then .error (refusal bits .overflow)
  else if m = 0 then .ok 0
  else .ok (m <<< (8 * (e - 3).toNat) : Nat)

/-- The target that a header may claim with compact bits: positive and within the limit of the
network. -/
def target (params : Params) (bits : Int) : Except RelayError Int :=
  match decode bits with
  | .error error => .error error
  | .ok target =>
    if target = 0 then .error (refusal bits .zero)
    else if params.powLimit.toNat < target then .error (refusal bits .aboveLimit)
    else .ok target

/-- How many bytes the magnitude of a number takes. -/
def byteLength (n : Nat) : Nat := if n = 0 then 0 else n.log2 / 8 + 1

/-- The three leading bytes of a number of so many bytes. -/
def leadingBytes (value : Int) (size : Nat) : Int :=
  if size ≤ 3 then value * (1 <<< (8 * (3 - size)) : Nat)
  else value / (1 <<< (8 * (size - 3)) : Nat)

/-- Joins a size to the mantissa below it. A negative mantissa has every higher bit set already. -/
def join (size : Nat) (mantissa : Int) : Int :=
  if mantissa < 0 then mantissa else size * 0x1000000 + mantissa

/-- The compact bits of a target, of which the three leading bytes are kept. A mantissa that would
read as negative gives up its last byte. -/
def encode (target : Int) : Int :=
  let size := byteLength target.natAbs
  let leading := leadingBytes target size
  if target = 0 then 0
  else if hasSign leading then join (size + 1) (leading / 0x100)
  else join size leading

end HeaderRelay.Compact
