set_option autoImplicit false

namespace HeaderRelay.Text

def natural (n : Nat) : List Char := Nat.toDigits 10 n

/-- Decimal text: a minus sign where needed, and the digits of the magnitude. -/
def decimal : Int → List Char
  | .ofNat n => natural n
  | .negSucc n => '-' :: natural (n + 1)

def integer (n : Int) : String := String.ofList (decimal n)

/-- Lowercase hexadecimal text after a marker, filled with zeros between the marker and the digits
up to a width that counts the sign and the marker. -/
def paddedHex (marker : List Char) (width : Nat) (n : Int) : String :=
  let sign : List Char := if n < 0 then ['-'] else []
  let digits := Nat.toDigits 16 n.natAbs
  let zeros := width - (sign.length + marker.length + digits.length)
  String.ofList (sign ++ marker ++ List.replicate zeros '0' ++ digits)

/-- Compact bits as messages show them, such as `0x1d00ffff`: ten characters unless more are
needed. -/
def compactBits (bits : Int) : String := paddedHex ['0', 'x'] 10 bits

/-- A target as messages show it: sixty-four digits unless more are needed. -/
def target (value : Int) : String := paddedHex [] 64 value

/-- The value of a run of decimal digits. -/
def naturalValue (digits : List Char) : Nat := Nat.ofDigitChars 10 digits 0

/-- Reads the digits that `natural` writes. -/
theorem naturalValue_natural (n : Nat) : naturalValue (natural n) = n :=
  Nat.ofDigitChars_ten_toDigits

end HeaderRelay.Text
