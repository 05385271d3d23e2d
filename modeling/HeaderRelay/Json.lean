set_option autoImplicit false

namespace HeaderRelay

/-- A document value. A number with a fraction or an exponent is kept as it is written. -/
inductive Json where
  | null
  | bool (value : Bool)
  | integer (value : Int)
  | decimal (text : String)
  | string (value : String)
  | array (items : List Json)
  | object (members : List (String × Json))

namespace Json

/-- The members of an object in document order, repeated keys included. -/
abbrev Members := List (String × Json)

/-- The last member of a name, which is the one that counts. -/
def find? (members : Members) (name : String) : Option Json :=
  (members.reverse.find? fun entry => entry.1 == name).map Prod.snd

def hasKey (members : Members) (name : String) : Bool :=
  members.any fun entry => entry.1 == name

end Json

end HeaderRelay
