import HeaderRelay.Text.Hidden

set_option autoImplicit false

namespace HeaderRelay.Text

/-- So many hexadecimal digits of a number, filled with zeros. -/
def fixedHex (width n : Nat) : List Char :=
  let digits := Nat.toDigits 16 n
  List.replicate (width - digits.length) '0' ++ digits

/-- A character inside a literal: escapes are as short as the code point allows. -/
def literalChar (quote c : Char) : List Char :=
  if c = quote || c = '\\' then ['\\', c]
  else if c = '\n' then ['\\', 'n']
  else if c = '\r' then ['\\', 'r']
  else if c = '\t' then ['\\', 't']
  else if isHidden c then
    if c.toNat < 0x100 then '\\' :: 'x' :: fixedHex 2 c.toNat
    else if c.toNat < 0x10000 then '\\' :: 'u' :: fixedHex 4 c.toNat
    else '\\' :: 'U' :: fixedHex 8 c.toNat
  else [c]

/-- The quote around a literal: double only where the text has single quotes and no double ones. -/
def literalQuote (chars : List Char) : Char :=
  if chars.contains '\'' && !chars.contains '"' then '"' else '\''

def literal (text : String) : String :=
  let quote := literalQuote text.toList
  String.ofList (quote :: text.toList.flatMap (literalChar quote) ++ [quote])

end HeaderRelay.Text
