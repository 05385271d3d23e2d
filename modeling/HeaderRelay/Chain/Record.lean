import HeaderRelay.Validation.Snapshot

set_option autoImplicit false

namespace HeaderRelay

open Fields (required)

/-- A block held by a branch. The snapshot lets the next header be checked without the blocks
before. -/
structure BlockRecord where
  tip : Snapshot
  prevHash : Digest
  /-- The lower bound of the interval in which the block was accepted. -/
  addedTime : Int
  work : Int
deriving DecidableEq

namespace BlockRecord

def hash (record : BlockRecord) : Digest := record.tip.tipHash

def height (record : BlockRecord) : Int := record.tip.height

/-- The fields that are out of their ranges, by plain name. -/
def faults (record : BlockRecord) : List Fault :=
  unsignedFaults 64 [.key "height"] record.height ++
    unsignedFaults 64 [.key "added_time"] record.addedTime ++
    unsignedFaults 256 [.key "work"] record.work ++
    unsignedFaults 32 [.key "bits"] record.tip.bits ++
    unsignedFaults 32 [.key "timestamp"] record.tip.timestamp ++
    unsignedListFaults 32 "recent_timestamps" record.tip.recentTimestamps ++
    unsignedFaults 32 [.key "epoch_start_timestamp"] record.tip.epochStart

def checked (record : BlockRecord) : Checked BlockRecord := .ofFaults record record.faults

def toJson (record : BlockRecord) : Json :=
  .object [("hash", record.hash.toJson), ("prevHash", record.prevHash.toJson),
    ("height", .integer record.height), ("addedTime", .integer record.addedTime),
    ("work", .integer record.work), ("bits", .integer record.tip.bits),
    ("timestamp", .integer record.tip.timestamp),
    ("recentTimestamps", integersToJson record.tip.recentTimestamps),
    ("epochStartTimestamp", .integer record.tip.epochStart)]

def ofFields (hash prevHash : Digest) (height addedTime work bits timestamp : Int)
    (recentTimestamps : List Int) (epochStart : Int) : BlockRecord where
  tip := ⟨height, bits, timestamp, recentTimestamps, epochStart, hash⟩
  prevHash := prevHash
  addedTime := addedTime
  work := work

def fields : Fields BlockRecord :=
  ofFields <$> required (.plain "hash") Reader.digest
    <*> required ⟨"prevHash", "prev_hash"⟩ Reader.digest
    <*> required (.plain "height") (Reader.unsigned 64)
    <*> required ⟨"addedTime", "added_time"⟩ (Reader.unsigned 64)
    <*> required (.plain "work") (Reader.unsigned 256)
    <*> required (.plain "bits") (Reader.unsigned 32)
    <*> required (.plain "timestamp") (Reader.unsigned 32)
    <*> required ⟨"recentTimestamps", "recent_timestamps"⟩ (Reader.list (Reader.unsigned 32))
    <*> required ⟨"epochStartTimestamp", "epoch_start_timestamp"⟩ (Reader.unsigned 32)

def ofJson : Json → Checked BlockRecord := fields.readObject

instance : Document BlockRecord := ⟨toJson, ofJson⟩

end BlockRecord

end HeaderRelay
