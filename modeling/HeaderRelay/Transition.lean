import HeaderRelay.Forks.Absorb
import HeaderRelay.Forks.Promotion

set_option autoImplicit false

namespace HeaderRelay

/-- What a transition does with a batch without headers. -/
inductive EmptyBatchPolicy where
  | reject
  | keep
deriving DecidableEq

/-- How a transition ends. -/
inductive Outcome where
  | accepted (state : ChainState) (promotions : Nat)
  /-- The reason of a refusal, which leaves the state as it was. -/
  | rejected (error : RelayError)
deriving DecidableEq

def readHeaders : List Bytes → Except RelayError (List Header)
  | [] => .ok []
  | raw :: rest =>
    match Header.ofWire raw with
    | .error error => .error error
    | .ok header => (readHeaders rest).map (header :: ·)

namespace ChainState

/-- Runs a batch: the new state, and how many blocks were confirmed. -/
def run (state : ChainState) (batch : List Bytes) (interval : Interval) (params : Params)
    (policy : EmptyBatchPolicy) : Except Failure (ChainState × Nat) :=
  match batch, policy with
  | [], .keep => .ok (state, 0)
  | [], .reject => .error (.refused .emptyBatch)
  | _, _ =>
    match readHeaders batch with
    | .error error => .error (.refused error)
    | .ok headers =>
      (state.absorbAll interval params headers).map fun grown => grown.promote interval params

def apply (state : ChainState) (batch : List Bytes) (interval : Interval) (params : Params)
    (policy : EmptyBatchPolicy) : Except Failure ChainState :=
  (state.run batch interval params policy).map Prod.fst

/-- The outcome of a batch. A refusal is an outcome; any other failure is not. -/
def transition (state : ChainState) (batch : List Bytes) (interval : Interval) (params : Params)
    (policy : EmptyBatchPolicy) : Except Failure Outcome :=
  match state.run batch interval params policy with
  | .ok (next, promotions) => .ok (.accepted next promotions)
  | .error (.refused error) => .ok (.rejected error)
  | .error failure => .error failure

def firstDifference? (expected claimed : ChainState) : Option String :=
  if expected.confirmed.height ≠ claimed.confirmed.height then some "confirmed_height"
  else if expected.confirmed.tipHash ≠ claimed.confirmed.tipHash then some "confirmed_hash"
  else if expected.confirmed.bits ≠ claimed.confirmed.bits then some "current_target"
  else if expected.confirmed.timestamp ≠ claimed.confirmed.timestamp then
    some "confirmed_timestamp"
  else if expected.confirmed.recentTimestamps ≠ claimed.confirmed.recentTimestamps then
    some "recent_timestamps"
  else if expected.confirmed.epochStart ≠ claimed.confirmed.epochStart then
    some "epoch_start_timestamp"
  else if expected.history ≠ claimed.history then some "confirmed_accumulator"
  else if expected.forks ≠ claimed.forks then some "forks"
  else none

def claimRefusal (expected claimed : ChainState) : RelayError :=
  .claimDiffers <|
    (expected.firstDifference? claimed).getD "encoding" ++ " differs from recomputation"

/-- Recomputes a transition and compares its state with a claimed one by their canonical texts. The
claim is accepted only when they are the same. -/
def verify (state : ChainState) (batch : List Bytes) (interval : Interval) (claimed : ChainState)
    (params : Params) (policy : EmptyBatchPolicy) : Except Failure Outcome :=
  match state.transition batch interval params policy with
  | .ok (.accepted expected promotions) =>
    if Document.encode expected = Document.encode claimed then .ok (.accepted claimed promotions)
    else .ok (.rejected (expected.claimRefusal claimed))
  | other => other

end ChainState

end HeaderRelay
