import HeaderRelay.Document.Field
import HeaderRelay.Json.Reader
import HeaderRelay.Json.Writer

set_option autoImplicit false

namespace HeaderRelay

/-- Values that are written as documents and read back from them. -/
class Document (α : Type) where
  toJson : α → Json
  ofJson : Json → Checked α

namespace Document

variable {α : Type} [Document α]

def encode (value : α) : String := (toJson value).text

def limits : Json.Limits := ⟨200, 4300⟩

def decode (text : String) : Checked α :=
  match Json.parseWithin? limits text with
  | some json => ofJson json
  | none => .flawed .notJson

end Document

def Digest.toJson (digest : Digest) : Json := .string digest.hex

def integersToJson (values : List Int) : Json := .array (values.map .integer)

end HeaderRelay
