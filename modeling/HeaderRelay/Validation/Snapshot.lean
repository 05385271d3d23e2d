import HeaderRelay.Document

set_option autoImplicit false

namespace HeaderRelay

open Fields (required)

/-- The consensus context of a tip. -/
structure Snapshot where
  height : Int
  bits : Int
  timestamp : Int
  /-- Timestamps of the tip and the blocks before it, newest first. -/
  recentTimestamps : List Int
  /-- Timestamp of the first block of the tip's period of difficulty. -/
  epochStart : Int
  tipHash : Digest
deriving DecidableEq

namespace Snapshot

/-- The fields that are out of their ranges, by plain name. -/
def faults (snapshot : Snapshot) : List Fault :=
  unsignedFaults 64 [.key "height"] snapshot.height ++
    unsignedFaults 32 [.key "bits"] snapshot.bits ++
    unsignedFaults 32 [.key "timestamp"] snapshot.timestamp ++
    unsignedListFaults 32 "recent_timestamps" snapshot.recentTimestamps ++
    unsignedFaults 32 [.key "epoch_start_timestamp"] snapshot.epochStart

def checked (snapshot : Snapshot) : Checked Snapshot := .ofFaults snapshot snapshot.faults

def toJson (snapshot : Snapshot) : Json :=
  .object [("height", .integer snapshot.height), ("bits", .integer snapshot.bits),
    ("timestamp", .integer snapshot.timestamp),
    ("recentTimestamps", integersToJson snapshot.recentTimestamps),
    ("epochStartTimestamp", .integer snapshot.epochStart),
    ("tipHash", snapshot.tipHash.toJson)]

def fields : Fields Snapshot :=
  mk <$> required (.plain "height") (Reader.unsigned 64)
    <*> required (.plain "bits") (Reader.unsigned 32)
    <*> required (.plain "timestamp") (Reader.unsigned 32)
    <*> required ⟨"recentTimestamps", "recent_timestamps"⟩ (Reader.list (Reader.unsigned 32))
    <*> required ⟨"epochStartTimestamp", "epoch_start_timestamp"⟩ (Reader.unsigned 32)
    <*> required ⟨"tipHash", "tip_hash"⟩ Reader.digest

def ofJson : Json → Checked Snapshot := fields.readObject

instance : Document Snapshot := ⟨toJson, ofJson⟩

end Snapshot

end HeaderRelay
