import HeaderRelay.Bytes.Sized
import HeaderRelay.Document.Fault
import HeaderRelay.Text.Literal

set_option autoImplicit false

namespace HeaderRelay

/-- Why the relay refuses something. -/
inductive RelayError where
  /-- A refusal that says no more than its sentence. -/
  | general (message : String)
  | malformed (typeName detail : String)
  /-- A header breaks a consensus rule that has no case of its own. -/
  | headerRule (message : String)
  | discontinuous (expected actual : Digest)
  | difficultyEncoding (bits : Int) (detail : String)
  | insufficientWork (blockHash : Digest) (target : Int)
  | difficultyMismatch (expected actual : Int)
  | timestamp (time bound : Int) (detail : String)
  | obsoleteVersion (version minimum : Int)
  | unattached (prevHash : Digest)
  | duplicate (blockHash : Digest)
  | emptyBatch
  /-- A claimed state is not the recomputed one. -/
  | claimDiffers (detail : String)
deriving DecidableEq

namespace RelayError

/-- The published name of the kind of refusal. -/
def kind : RelayError → String
  | .general _ => "RelayError"
  | .malformed .. => "StructuralDecodeError"
  | .headerRule _ => "HeaderValidationError"
  | .discontinuous .. => "ContinuityError"
  | .difficultyEncoding .. => "DifficultyEncodingError"
  | .insufficientWork .. => "ProofOfWorkError"
  | .difficultyMismatch .. => "DifficultyMismatchError"
  | .timestamp .. => "TimestampError"
  | .obsoleteVersion .. => "VersionError"
  | .unattached _ => "ForkNotFoundError"
  | .duplicate _ => "DuplicateBlockError"
  | .emptyBatch => "EmptyBatchError"
  | .claimDiffers _ => "PromotionPolicyViolation"

/-- The sentence of a refusal. Hashes stand in display order. -/
def message : RelayError → String
  | .general message | .headerRule message => message
  | .malformed typeName detail => "Failed to decode " ++ typeName ++ ": " ++ detail
  | .discontinuous expected actual =>
    "Header extends " ++ actual.display ++ ", expected tip " ++ expected.display
  | .difficultyEncoding bits detail =>
    "Invalid compact bits " ++ Text.compactBits bits ++ ": " ++ detail
  | .insufficientWork blockHash target =>
    "Hash " ++ blockHash.display ++ " is above target " ++ Text.target target
  | .difficultyMismatch expected actual =>
    "Header bits " ++ Text.compactBits actual ++ " do not match expected " ++
      Text.compactBits expected
  | .timestamp time bound detail =>
    "Timestamp " ++ Text.integer time ++ " " ++ detail ++ " " ++ Text.integer bound
  | .obsoleteVersion version minimum =>
    "Header version " ++ Text.integer version ++ " is below " ++ Text.integer minimum
  | .unattached prevHash => "No branch tip or confirmed tip matches " ++ prevHash.display
  | .duplicate blockHash => "Block " ++ blockHash.display ++ " is already tracked"
  | .emptyBatch => "Header batch is empty"
  | .claimDiffers detail => "Claimed state rejected: " ++ detail

/-- What a refusal is about, by name: hashes as hexadecimal text, numbers as decimal text. -/
def details : RelayError → List (String × String)
  | .general _ | .headerRule _ | .emptyBatch => []
  | .malformed typeName detail => [("type_name", typeName), ("detail", detail)]
  | .discontinuous expected actual => [("expected", expected.hex), ("actual", actual.hex)]
  | .difficultyEncoding bits detail => [("bits", Text.integer bits), ("detail", detail)]
  | .insufficientWork blockHash target =>
    [("block_hash", blockHash.hex), ("target", Text.integer target)]
  | .difficultyMismatch expected actual =>
    [("expected", Text.integer expected), ("actual", Text.integer actual)]
  | .timestamp time bound detail =>
    [("timestamp", Text.integer time), ("bound", Text.integer bound), ("detail", detail)]
  | .obsoleteVersion version minimum =>
    [("version", Text.integer version), ("minimum", Text.integer minimum)]
  | .unattached prevHash => [("prev_hash", prevHash.hex)]
  | .duplicate blockHash => [("block_hash", blockHash.hex)]
  | .claimDiffers detail => [("detail", detail)]

/-- Whether a refusal says that a header breaks a consensus rule. -/
def concernsHeader : RelayError → Bool
  | .headerRule _ | .discontinuous .. | .difficultyEncoding .. | .insufficientWork ..
  | .difficultyMismatch .. | .timestamp .. | .obsoleteVersion .. => true
  | .general _ | .malformed .. | .unattached _ | .duplicate _ | .emptyBatch
  | .claimDiffers _ => false

def literal (error : RelayError) : String :=
  error.kind ++ "(" ++ Text.literal error.message ++ ")"

end RelayError

/-- How a step of the relay can fail. -/
inductive Failure where
  | refused (error : RelayError)
  | invalid (faults : List Fault)
  | divisionByZero
  | absentKey (key : Bytes)
deriving DecidableEq

def RelayError.orFail {α : Type} : Except RelayError α → Except Failure α
  | .ok value => .ok value
  | .error error => .error (.refused error)

def Checked.orFail {α : Type} : Checked α → Except Failure α
  | .valid value => .ok value
  | .invalid faults => .error (.invalid faults)

/-- Demands a condition, and refuses where it fails. -/
def demand (condition : Bool) (otherwise : RelayError) : Except Failure Unit :=
  if condition then .ok () else .error (.refused otherwise)

end HeaderRelay
