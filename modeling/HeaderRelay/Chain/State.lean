import HeaderRelay.Chain.Branch
import HeaderRelay.MedianTime
import HeaderRelay.Merkle.Accumulator

set_option autoImplicit false

namespace HeaderRelay

open Fields (required optional)

/-- What the relay keeps between transitions. -/
structure ChainState where
  confirmed : Snapshot
  /-- All confirmed block hashes, the first block of the relay at leaf 0. -/
  history : Merkle.Accumulator
  forks : List Branch
deriving DecidableEq

namespace ChainState

/-- How many recent timestamps a state holds at most. -/
def windowSpan : Nat := 11

/-- What speaks against recent timestamps taken by themselves. -/
def windowObjection? (window : List Int) : Option String :=
  if windowSpan < window.length then some "At most 11 recent timestamps are kept"
  else if MedianTime.isNewestFirst window then none
  else some "Recent timestamps must be sorted newest first"

/-- How many of the timestamps up to a height a window of some span holds. -/
def windowLength (span : Nat) (height : Int) : Int := min (height + 1) span

def wrongWindowLength (subject : String) (height expected : Int) (actual : Nat) : String :=
  subject ++ Text.integer height ++ " requires " ++ Text.integer expected ++
    " recent timestamps, got " ++ Text.integer actual

/-- What speaks against recent timestamps as those of the confirmed tip. -/
def tipObjection? (state : ChainState) : Option String :=
  let window := state.confirmed.recentTimestamps
  let expected := windowLength windowSpan state.confirmed.height
  if window.length ≠ expected then
    some (wrongWindowLength "Height " state.confirmed.height expected window.length)
  else if state.confirmed.timestamp ∈ window then none
  else some "Recent timestamps must include the confirmed timestamp"

def isAscending : List Digest → Bool
  | first :: second :: rest => first < second && isAscending (second :: rest)
  | _ => true

/-- What speaks against the order of the branches. -/
def orderObjection? (state : ChainState) : Option String :=
  if isAscending (state.forks.map Branch.tipHash) then none
  else some "Forks must be strictly ordered by tip hash"

/-- What is at fault with recent timestamps, by plain name. -/
def windowFaults (window : List Int) : List Fault :=
  match unsignedListFaults 32 "recent_timestamps" window with
  | [] =>
    (windowObjection? window).toList.map fun reason =>
      ⟨[.key "recent_timestamps"], .broken reason⟩
  | faults => faults

/-- The confirmed fields that are at fault, by plain name. -/
def faults (state : ChainState) : List Fault :=
  unsignedFaults 64 [.key "confirmed_height"] state.confirmed.height ++
    unsignedFaults 32 [.key "current_target"] state.confirmed.bits ++
    unsignedFaults 32 [.key "confirmed_timestamp"] state.confirmed.timestamp ++
    windowFaults state.confirmed.recentTimestamps ++
    unsignedFaults 32 [.key "epoch_start_timestamp"] state.confirmed.epochStart

/-- The state, if its confirmed fields and the order of its branches pass. -/
def checked (state : ChainState) : Checked ChainState :=
  ((Checked.ofFaults state state.faults).ensure tipObjection?).ensure orderObjection?

def toJson (state : ChainState) : Json :=
  .object [("confirmedHeight", .integer state.confirmed.height),
    ("confirmedHash", state.confirmed.tipHash.toJson),
    ("currentTarget", .integer state.confirmed.bits),
    ("confirmedTimestamp", .integer state.confirmed.timestamp),
    ("recentTimestamps", integersToJson state.confirmed.recentTimestamps),
    ("epochStartTimestamp", .integer state.confirmed.epochStart),
    ("confirmedAccumulator", state.history.toJson),
    ("forks", .array (state.forks.map Branch.toJson))]

def ofFields (height : Int) (tipHash : Digest) (bits timestamp : Int)
    (recentTimestamps : List Int) (epochStart : Int) (history : Merkle.Accumulator)
    (forks : List Branch) : ChainState where
  confirmed := ⟨height, bits, timestamp, recentTimestamps, epochStart, tipHash⟩
  history := history
  forks := forks

/-- Reads recent timestamps, which must be in order and not too many. -/
def readWindow (json : Json) : Checked (List Int) :=
  (Reader.list (Reader.unsigned 32) json).ensure windowObjection?

def fields : Fields ChainState :=
  ofFields <$> required ⟨"confirmedHeight", "confirmed_height"⟩ (Reader.unsigned 64)
    <*> required ⟨"confirmedHash", "confirmed_hash"⟩ Reader.digest
    <*> required ⟨"currentTarget", "current_target"⟩ (Reader.unsigned 32)
    <*> required ⟨"confirmedTimestamp", "confirmed_timestamp"⟩ (Reader.unsigned 32)
    <*> required ⟨"recentTimestamps", "recent_timestamps"⟩ readWindow
    <*> required ⟨"epochStartTimestamp", "epoch_start_timestamp"⟩ (Reader.unsigned 32)
    <*> required ⟨"confirmedAccumulator", "confirmed_accumulator"⟩ Merkle.Accumulator.ofJson
    <*> optional (.plain "forks") [] (Reader.list Branch.ofJson)

def ofJson (json : Json) : Checked ChainState :=
  ((fields.readObject json).ensure tipObjection?).ensure orderObjection?

instance : Document ChainState := ⟨toJson, ofJson⟩

end ChainState

end HeaderRelay
