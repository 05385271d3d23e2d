import HeaderRelay.Text

set_option autoImplicit false

namespace HeaderRelay

/-- One step from a document into a part of it. -/
inductive Step where
  | key (name : String)
  | item (position : Nat)
deriving DecidableEq

/-- What is wrong at a place of a document. -/
inductive Flaw where
  | notJson
  | notObject
  | missing
  | unexpected
  | notInteger
  | belowRange
  | aboveRange
  | notText
  | textTooShort
  | textTooLong
  | notList
  | tooFew
  | notListed
  /-- The parts are in order and the whole is not, for the reason given. -/
  | broken (reason : String)
deriving DecidableEq

def Flaw.code : Flaw → String
  | .notJson => "json_invalid"
  | .notObject => "model_type"
  | .missing => "missing"
  | .unexpected => "extra_forbidden"
  | .notInteger => "int_type"
  | .belowRange => "greater_than_equal"
  | .aboveRange => "less_than"
  | .notText => "string_type"
  | .textTooShort => "string_too_short"
  | .textTooLong => "string_too_long"
  | .notList => "tuple_type"
  | .tooFew => "too_short"
  | .notListed => "enum"
  | .broken _ => "value_error"

def Flaw.reason? : Flaw → Option String
  | .broken reason => some reason
  | _ => none

/-- A flaw and the way to it from the top of the document. -/
structure Fault where
  place : List Step
  flaw : Flaw
deriving DecidableEq

def Flaw.here (flaw : Flaw) : Fault := ⟨[], flaw⟩

def Fault.under (step : Step) (fault : Fault) : Fault :=
  { fault with place := step :: fault.place }

/-- A value, or every fault found instead. -/
inductive Checked (α : Type) where
  | valid (value : α)
  | invalid (faults : List Fault)
deriving DecidableEq

namespace Checked

variable {α β : Type}

def flawed (flaw : Flaw) : Checked α := .invalid [flaw.here]

def map (f : α → β) : Checked α → Checked β
  | .valid value => .valid (f value)
  | .invalid faults => .invalid faults

/-- Puts two parts together; the faults of the first stand before those of the second. -/
def both : Checked α → Checked β → Checked (α × β)
  | .valid first, .valid second => .valid (first, second)
  | .valid _, .invalid faults => .invalid faults
  | .invalid faults, .valid _ => .invalid faults
  | .invalid faults, .invalid more => .invalid (faults ++ more)

instance : Functor Checked := ⟨map, fun value => map fun _ => value⟩

instance : Pure Checked := ⟨.valid⟩

instance : Seq Checked := ⟨fun f value => (both f (value ())).map fun (f, value) => f value⟩

/-- Accepts a value when there are no faults. -/
def ofFaults (value : α) (faults : List Fault) : Checked α :=
  if faults.isEmpty then .valid value else .invalid faults

/-- Adds faults that were found beside the value. -/
def withFaults (checked : Checked α) (faults : List Fault) : Checked α :=
  (both checked (ofFaults () faults)).map Prod.fst

def under (step : Step) : Checked α → Checked α
  | .valid value => .valid value
  | .invalid faults => .invalid (faults.map (Fault.under step))

/-- Tests a valid value as a whole; the reason of a failure becomes the only fault. -/
def ensure (objection? : α → Option String) : Checked α → Checked α
  | .valid value =>
    match objection? value with
    | none => .valid value
    | some reason => flawed (.broken reason)
  | .invalid faults => .invalid faults

def toOption : Checked α → Option α
  | .valid value => some value
  | .invalid _ => none

def isValid (checked : Checked α) : Bool := checked.toOption.isSome

def faults : Checked α → List Fault
  | .valid _ => []
  | .invalid faults => faults

end Checked

end HeaderRelay
