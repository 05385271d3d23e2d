import HeaderRelay.Difficulty.Retarget
import HeaderRelay.Header
import HeaderRelay.MedianTime
import HeaderRelay.Validation.Interval
import HeaderRelay.Validation.Snapshot

set_option autoImplicit false

namespace HeaderRelay.Snapshot

def requireContinuity (tip : Snapshot) (header : Header) : Except Failure Unit :=
  demand (header.prevHash = tip.tipHash) (.discontinuous tip.tipHash header.prevHash)

def requireWork (header : Header) (target : Int) : Except Failure Unit :=
  demand (Header.hashValue header.hash.bytes ≤ target) (.insufficientWork header.hash target)

/-- The compact bits that the header after the tip must carry. -/
def requiredBits (tip : Snapshot) (params : Params) : Except Failure Int :=
  Difficulty.nextBits params tip.height tip.bits tip.timestamp tip.epochStart

def requireBits (header : Header) (expected : Int) : Except Failure Unit :=
  demand (header.bits.toNat = expected) (.difficultyMismatch expected header.bits.toNat)

def requireLater (tip : Snapshot) (header : Header) (params : Params) : Except Failure Unit :=
  let median := MedianTime.median params tip.recentTimestamps
  demand (median < header.timestamp.toNat)
    (.timestamp header.timestamp.toNat median "is not after median time past")

/-- The latest timestamp that an interval lets a header have. -/
def latestTimestamp (interval : Interval) (params : Params) : Int :=
  interval.upper.toNat + params.maxFutureBlockTime.toNat

def requireNotAhead (header : Header) (interval : Interval) (params : Params) :
    Except Failure Unit :=
  let latest := latestTimestamp interval params
  demand (header.timestamp.toNat ≤ latest)
    (.timestamp header.timestamp.toNat latest "is after latest allowed time")

def requireVersion (header : Header) (params : Params) : Except Failure Unit :=
  demand (params.minBlockVersion ≤ header.version)
    (.obsoleteVersion header.version.toNat params.minBlockVersion.toNat)

/-- The snapshot after a header of the given bits, which may open a period of difficulty. -/
def extended (tip : Snapshot) (header : Header) (params : Params) (bits : Int)
    (opensPeriod : Bool) : Snapshot where
  height := tip.height + 1
  bits := bits
  timestamp := header.timestamp.toNat
  recentTimestamps := MedianTime.insert params header.timestamp.toNat tip.recentTimestamps
  epochStart := if opensPeriod then header.timestamp.toNat else tip.epochStart
  tipHash := header.hash

/-- Checks a header as the successor of a tip, and gives the snapshot of the new tip. The first rule
that fails decides. -/
def validate (tip : Snapshot) (header : Header) (interval : Interval) (params : Params) :
    Except Failure Snapshot := do
  tip.requireContinuity header
  let target ← RelayError.orFail (Compact.target params header.bits.toNat)
  requireWork header target
  let bits ← tip.requiredBits params
  requireBits header bits
  tip.requireLater header params
  requireNotAhead header interval params
  requireVersion header params
  let opens ← Difficulty.opensPeriod params tip.height
  (tip.extended header params bits opens).checked.orFail

end HeaderRelay.Snapshot
