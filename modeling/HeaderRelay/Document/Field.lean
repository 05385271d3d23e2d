import HeaderRelay.Bytes.Sized
import HeaderRelay.Document.Fault

set_option autoImplicit false

namespace HeaderRelay

/-- What speaks against an integer as an unsigned one of so many bits. -/
def unsignedFlaw? (width : Nat) (value : Int) : Option Flaw :=
  if value < 0 then some .belowRange
  else if (1 <<< width : Nat) ≤ value then some .aboveRange
  else none

def naturalFlaw? (value : Int) : Option Flaw :=
  if value < 0 then some .belowRange else none

/-- The faults of an integer field that must be unsigned of so many bits. -/
def unsignedFaults (width : Nat) (place : List Step) (value : Int) : List Fault :=
  (unsignedFlaw? width value).toList.map (⟨place, ·⟩)

def unsignedListFaults (width : Nat) (name : String) (values : List Int) : List Fault :=
  values.zipIdx.flatMap fun (value, position) =>
    unsignedFaults width [.key name, .item position] value

namespace Reader

def integer (flaw? : Int → Option Flaw) : Json → Checked Int
  | .integer value =>
    match flaw? value with
    | none => .valid value
    | some flaw => .flawed flaw
  | _ => .flawed .notInteger

/-- An integer from zero to below `2 ^ width`. -/
def unsigned (width : Nat) : Json → Checked Int := integer (unsignedFlaw? width)

def natural : Json → Checked Int := integer naturalFlaw?

/-- An unsigned integer as a word of its width. -/
def word (width : Nat) (json : Json) : Checked (BitVec width) :=
  (unsigned width json).map (BitVec.ofInt width)

def text : Json → Checked String
  | .string value => .valid value
  | _ => .flawed .notText

/-- A digest: a text of sixty-four characters that converts to thirty-two bytes. -/
def digest : Json → Checked Digest
  | .string value =>
    if value.length < 64 then .flawed .textTooShort
    else if 64 < value.length then .flawed .textTooLong
    else
      match Digest.ofText value with
      | .ok digest => .valid digest
      | .error cause => .flawed (.broken (cause.message?.getD ""))
  | _ => .flawed .notText

def optionalDigest : Json → Checked (Option Digest)
  | .null => .valid none
  | json => (digest json).map some

variable {α : Type}

def items (read : Json → Checked α) (position : Nat) : List Json → Checked (List α)
  | [] => .valid []
  | json :: rest =>
    List.cons <$> (read json).under (.item position) <*> items read (position + 1) rest

def list (read : Json → Checked α) : Json → Checked (List α)
  | .array values => items read 0 values
  | _ => .flawed .notList

/-- A list with a first item. A list without any valid item has too few, beside the faults of its
items. -/
def nonempty (read : Json → Checked α) : Json → Checked (α × List α)
  | .array values =>
    let few := values.all fun json => !(read json).isValid
    match (items read 0 values).withFaults (if few then [Flaw.tooFew.here] else []) with
    | .valid (first :: rest) => .valid (first, rest)
    | .valid [] => .flawed .tooFew
    | .invalid faults => .invalid faults
  | _ => .flawed .notList

end Reader

/-- The two names of a field: the key it is written under and its plain name. -/
structure Label where
  key : String
  name : String

namespace Label

def plain (name : String) : Label := ⟨name, name⟩

/-- The name under which an object holds the field, and its value. -/
def find? (label : Label) (members : Json.Members) : Option (String × Json) :=
  match Json.find? members label.key with
  | some value => some (label.key, value)
  | none => (Json.find? members label.name).map (label.name, ·)

/-- Whether a member's key is the one under which the object holds the field. -/
def claims (label : Label) (members : Json.Members) (key : String) : Bool :=
  key == label.key || (key == label.name && !Json.hasKey members label.key)

end Label

/-- The faults of the members that belong to no field, in document order. A repeated key is at fault
once, where it stands first. -/
def unexpectedFaults (labels : List Label) (members : Json.Members) : List Fault :=
  let strays := (members.map Prod.fst).filter fun key =>
    !labels.any fun label => label.claims members key
  strays.eraseDups.map fun key => ⟨[.key key], .unexpected⟩

/-- The fields of an object: their labels in document order, and how they are read. -/
structure Fields (α : Type) where
  labels : List Label
  read : Json.Members → Checked α

namespace Fields

variable {α β : Type}

/-- A field that must be there. -/
def required (label : Label) (reader : Json → Checked α) : Fields α where
  labels := [label]
  read members :=
    match label.find? members with
    | some (key, value) => (reader value).under (.key key)
    | none => .invalid [⟨[.key label.key], .missing⟩]

/-- A field with a default. -/
def optional (label : Label) (default : α) (reader : Json → Checked α) : Fields α where
  labels := [label]
  read members :=
    match label.find? members with
    | some (key, value) => (reader value).under (.key key)
    | none => .valid default

def map (f : α → β) (fields : Fields α) : Fields β :=
  ⟨fields.labels, fun members => (fields.read members).map f⟩

/-- More fields after some, whose values are given to the function that those make. -/
def andThen (first : Fields (α → β)) (more : Fields α) : Fields β :=
  ⟨first.labels ++ more.labels, fun members => first.read members <*> more.read members⟩

instance : Functor Fields := ⟨map, fun value => map fun _ => value⟩

instance : Seq Fields := ⟨fun first more => andThen first (more ())⟩

/-- Reads an object: its fields, and then whatever else it has, which is at fault. -/
def readObject (fields : Fields α) : Json → Checked α
  | .object members => (fields.read members).withFaults (unexpectedFaults fields.labels members)
  | _ => .flawed .notObject

end Fields

end HeaderRelay
