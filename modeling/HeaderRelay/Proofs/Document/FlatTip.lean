import Mathlib
import HeaderRelay.Forks.Absorb
import HeaderRelay.Forks.Promotion
import HeaderRelay.Proofs.Document.Injective
import HeaderRelay.Proofs.Validation.Rules

set_option autoImplicit false

namespace HeaderRelay

/-- Keys for the fields of a tip. A record and a state have no document of their own for their tip:
its fields stand among the others, under keys that depend on whose tip it is. -/
structure TipKeys where
  height : String
  bits : String
  timestamp : String
  recentTimestamps : String
  epochStart : String
  tipHash : String

namespace TipKeys

def ofSnapshot : TipKeys :=
  ⟨"height", "bits", "timestamp", "recentTimestamps", "epochStartTimestamp", "tipHash"⟩

def ofRecord : TipKeys := { ofSnapshot with tipHash := "hash" }

def ofState : TipKeys :=
  ⟨"confirmedHeight", "currentTarget", "confirmedTimestamp", "recentTimestamps",
    "epochStartTimestamp", "confirmedHash"⟩

variable {keys : TipKeys} {json : Json} {tip other : Snapshot}

def flat (keys : TipKeys) (tip : Snapshot) : Json.Members :=
  [(keys.height, .integer tip.height), (keys.bits, .integer tip.bits),
    (keys.timestamp, .integer tip.timestamp),
    (keys.recentTimestamps, integersToJson tip.recentTimestamps),
    (keys.epochStart, .integer tip.epochStart), (keys.tipHash, tip.tipHash.toJson)]

/-- Each field of a tip stands in an object under its key. -/
def Hold (keys : TipKeys) (json : Json) (tip : Snapshot) : Prop :=
  ∃ members, json = .object members ∧
    ∀ field ∈ keys.flat tip, Json.find? members field.1 = some field.2

/-- The fields that stand in an object are those of one tip. -/
theorem Hold.unique (held : keys.Hold json tip) (heldToo : keys.Hold json other) : tip = other := by
  obtain ⟨members, rfl, fields⟩ := held
  obtain ⟨_, same, fieldsToo⟩ := heldToo
  cases same
  simp only [flat, List.forall_mem_cons, List.not_mem_nil, false_implies, implies_true,
    and_true] at fields fieldsToo
  obtain ⟨height, bits, timestamp, recent, epochStart, tipHash⟩ := fields
  simp only [height, bits, timestamp, recent, epochStart, tipHash, Option.some.injEq,
    Json.integer.injEq, integersToJson_injective.eq_iff, Digest.toJson_injective.eq_iff]
    at fieldsToo
  obtain ⟨sameHeight, sameBits, sameTimestamp, sameRecent, sameEpochStart, sameHash⟩ := fieldsToo
  cases tip
  cases other
  simp only at sameHeight sameBits sameTimestamp sameRecent sameEpochStart sameHash
  rw [sameHeight, sameBits, sameTimestamp, sameRecent, sameEpochStart, sameHash]

theorem Hold.iff_eq (held : keys.Hold json tip) : keys.Hold json other ↔ tip = other :=
  ⟨held.unique, fun same => same ▸ held⟩

end TipKeys

open TipKeys (ofSnapshot ofRecord ofState)

variable {tip : Snapshot}

theorem Snapshot.hold_toJson_iff (snapshot : Snapshot) :
    ofSnapshot.Hold snapshot.toJson tip ↔ snapshot = tip := by
  apply TipKeys.Hold.iff_eq
  refine ⟨_, rfl, ?_⟩
  simp [TipKeys.flat, ofSnapshot, Json.find?]

theorem BlockRecord.hold_toJson_iff (record : BlockRecord) :
    ofRecord.Hold record.toJson tip ↔ record.tip = tip := by
  apply TipKeys.Hold.iff_eq
  refine ⟨_, rfl, ?_⟩
  simp [TipKeys.flat, ofRecord, ofSnapshot, Json.find?, hash, height]

theorem ChainState.hold_toJson_iff (state : ChainState) :
    ofState.Hold state.toJson tip ↔ state.confirmed = tip := by
  apply TipKeys.Hold.iff_eq
  refine ⟨_, rfl, ?_⟩
  simp [TipKeys.flat, ofState, Json.find?]

/-- The record of an accepted header has the fields of the tip that its checks gave. -/
theorem BlockRecord.hold_recordAfter_iff {before : Snapshot} {header : Header}
    {interval : Interval} {params : Params} {record : BlockRecord}
    (made : ChainState.recordAfter before header interval params = .ok record) :
    ∃ next, before.validate header interval params = .ok next ∧
      ∀ tip, ofRecord.Hold record.toJson tip ↔ ofSnapshot.Hold next.toJson tip := by
  have extended := (ChainState.recordAfter_eq_ok before header interval params record).mp made
  refine ⟨record.tip, Snapshot.validate_eq_ok.mpr extended.follows, fun tip => ?_⟩
  rw [hold_toJson_iff, Snapshot.hold_toJson_iff]

/-- To confirm a block replaces the fields of the confirmed tip by those of the block. -/
theorem ChainState.hold_promoteOldest_iff (state : ChainState) (branch : Branch) :
    ofState.Hold (state.promoteOldest branch).toJson tip ↔
      ofRecord.Hold branch.oldest.toJson tip := by
  rw [ChainState.hold_toJson_iff, BlockRecord.hold_toJson_iff]
  rfl

end HeaderRelay
