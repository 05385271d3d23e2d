import HeaderRelay.Error
import HeaderRelay.Hash

set_option autoImplicit false

namespace HeaderRelay.Transaction

/-- A place in a raw transaction: how many bytes were passed, and those still to come. -/
structure Cursor where
  offset : Nat
  rest : Bytes
deriving DecidableEq

def truncated (offset : Nat) : RelayError :=
  .malformed "Transaction" ("truncated at offset " ++ Text.integer offset)

def trailing : RelayError := .malformed "Transaction" "trailing bytes after lock time"

namespace Cursor

def skip (count : Nat) (cursor : Cursor) : Except RelayError Cursor :=
  if cursor.rest.length < count then .error (truncated cursor.offset)
  else .ok ⟨cursor.offset + count, cursor.rest.drop count⟩

/-- How many bytes after its first a variable-length count takes. -/
def countWidth (first : UInt8) : Nat :=
  if first < 0xFD then 0
  else if first = 0xFD then 2
  else if first = 0xFE then 4
  else 8

/-- Reads a variable-length count: one byte, or after a mark two, four or eight of them. -/
def readCount (cursor : Cursor) : Except RelayError (Nat × Cursor) :=
  match cursor.rest with
  | [] => .error (truncated cursor.offset)
  | first :: rest =>
    if first < 0xFD then .ok (first.toNat, ⟨cursor.offset + 1, rest⟩)
    else
      match skip (countWidth first) ⟨cursor.offset + 1, rest⟩ with
      | .error error => .error error
      | .ok after => .ok (Bytes.littleEndian (rest.take (countWidth first)), after)

def repeated (step : Cursor → Except RelayError Cursor) : Nat → Cursor → Except RelayError Cursor
  | 0, cursor => .ok cursor
  | count + 1, cursor =>
    match step cursor with
    | .error error => .error error
    | .ok cursor => repeated step count cursor

/-- Passes over a count and as many bytes as it says. -/
def skipSized (cursor : Cursor) : Except RelayError Cursor :=
  match cursor.readCount with
  | .error error => .error error
  | .ok (count, cursor) => cursor.skip count

/-- Passes over an input: the output it spends, a script, and a sequence number. -/
def skipInput (cursor : Cursor) : Except RelayError Cursor := do
  let cursor ← cursor.skip 36
  let cursor ← cursor.skipSized
  cursor.skip 4

/-- Passes over an output: a value and a script. -/
def skipOutput (cursor : Cursor) : Except RelayError Cursor := do
  let cursor ← cursor.skip 8
  cursor.skipSized

/-- Passes over the witness of one input: a count of items and the items. -/
def skipWitness (cursor : Cursor) : Except RelayError Cursor := do
  let (count, cursor) ← cursor.readCount
  repeated skipSized count cursor

end Cursor

/-- Whether a raw transaction has the witness form. -/
def hasWitness (raw : Bytes) : Bool :=
  raw.length > 5 && raw[4]? = some 0x00 && raw[5]? = some 0x01

/-- Where the parts of a transaction in the witness form end. -/
structure Extent where
  bodyEnd : Nat
  witnessEnd : Nat
deriving DecidableEq

/-- Passes over a whole transaction in the witness form. -/
def measure (raw : Bytes) : Except RelayError Extent := do
  let (inputs, cursor) ← Cursor.readCount ⟨6, raw.drop 6⟩
  let cursor ← Cursor.repeated Cursor.skipInput inputs cursor
  let (outputs, cursor) ← cursor.readCount
  let body ← Cursor.repeated Cursor.skipOutput outputs cursor
  let witness ← Cursor.repeated Cursor.skipWitness inputs body
  let last ← witness.skip 4
  if last.rest.isEmpty then .ok ⟨body.offset, witness.offset⟩ else .error trailing

/-- The legacy form of a raw transaction. A transaction without witness is its own. -/
def legacyForm (raw : Bytes) : Except RelayError Bytes :=
  if hasWitness raw then
    (measure raw).map fun extent =>
      raw.take 4 ++ (raw.take extent.bodyEnd).drop 6 ++ (raw.drop extent.witnessEnd).take 4
  else .ok raw

/-- The identifier of a raw transaction, in internal byte order. -/
def identifier (raw : Bytes) : Except RelayError Digest :=
  (legacyForm raw).map doubleSha256

end HeaderRelay.Transaction
