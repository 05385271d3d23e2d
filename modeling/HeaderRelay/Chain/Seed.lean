import HeaderRelay.Chain.State

set_option autoImplicit false

namespace HeaderRelay

/-- A trusted block. -/
structure Seed where
  height : Int
  hash : Digest
  bits : Int
  timestamp : Int
  /-- Timestamps of the block and of blocks before it, in any order. -/
  recentTimestamps : List Int
  epochStart : Int
deriving DecidableEq

inductive SeedError where
  | wrongWindowLength (height expected : Int) (actual : Nat)
  | timestampAbsent
  | invalid (faults : List Fault)
deriving DecidableEq

def SeedError.message? : SeedError → Option String
  | .wrongWindowLength height expected actual =>
    some (ChainState.wrongWindowLength "Seed at height " height expected actual)
  | .timestampAbsent => some "Seed timestamp must be one of its newest recent timestamps"
  | .invalid _ => none

namespace Seed

/-- The newest of the timestamps, as many as the network keeps, newest first. -/
def window (seed : Seed) (params : Params) : List Int :=
  (seed.recentTimestamps.mergeSort fun newer older => older ≤ newer).take params.span

def unchecked (seed : Seed) (params : Params) : ChainState where
  confirmed :=
    ⟨seed.height, seed.bits, seed.timestamp, seed.window params, seed.epochStart, seed.hash⟩
  history := Merkle.Accumulator.empty.append seed.hash
  forks := []

/-- The state of a trusted block: no branches, and a history of this block alone. -/
def start (seed : Seed) (params : Params) : Except SeedError ChainState :=
  let expected := ChainState.windowLength params.span seed.height
  let actual := (seed.window params).length
  if actual ≠ expected then .error (.wrongWindowLength seed.height expected actual)
  else if seed.timestamp ∈ seed.window params then
    match (seed.unchecked params).checked with
    | .valid state => .ok state
    | .invalid faults => .error (.invalid faults)
  else .error .timestampAbsent

end Seed

end HeaderRelay
