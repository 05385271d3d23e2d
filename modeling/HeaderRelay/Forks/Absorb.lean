import HeaderRelay.ByteMap
import HeaderRelay.Chain.State
import HeaderRelay.Validation.Rules

set_option autoImplicit false

namespace HeaderRelay.ChainState

def branchMap (state : ChainState) : ByteMap Branch :=
  ByteMap.ofList (state.forks.map fun branch => (branch.tipHash.bytes, branch))

def tracks (state : ChainState) (blockHash : Digest) : Bool :=
  state.forks.any fun branch => branch.blocks.any fun record => record.hash = blockHash

/-- The record of a header that is valid after a tip. -/
def recordAfter (tip : Snapshot) (header : Header) (interval : Interval) (params : Params) :
    Except Failure BlockRecord := do
  let tip ← tip.checked.orFail
  let next ← tip.validate header interval params
  let target ← RelayError.orFail (Compact.target params header.bits.toNat)
  let work ← Difficulty.work target
  let record : BlockRecord := ⟨next, header.prevHash, interval.lower.toNat, work⟩
  record.checked.orFail

def withoutBranch (branches : ByteMap Branch) (tipHash : Digest) :
    Except Failure (ByteMap Branch) :=
  match branches.erase? tipHash.bytes with
  | some rest => .ok rest
  | none => .error (.absentKey tipHash.bytes)

/-- The branches with one of them extended by a header. -/
def extendBranch (branches : ByteMap Branch) (parent : Branch) (header : Header)
    (interval : Interval) (params : Params) : Except Failure (ByteMap Branch) := do
  let record ← recordAfter parent.newest.tip header interval params
  let others ← withoutBranch branches parent.tipHash
  let branch ← (parent.extend record).orFail
  return others.insert branch.tipHash.bytes branch

/-- The branches and a new one that a header opens on the confirmed tip. -/
def openBranch (branches : ByteMap Branch) (confirmed : Snapshot) (header : Header)
    (interval : Interval) (params : Params) : Except Failure (ByteMap Branch) := do
  let record ← recordAfter confirmed header interval params
  let branch ← (Branch.start record).orFail
  return branches.insert branch.tipHash.bytes branch

/-- The branches after a header found its place among them. No branch is removed here, however
little work it has. -/
def attach (state : ChainState) (header : Header) (interval : Interval) (params : Params) :
    Except Failure (ByteMap Branch) :=
  match state.branchMap.find? header.prevHash.bytes with
  | some parent => extendBranch state.branchMap parent header interval params
  | none =>
    if header.prevHash = state.confirmed.tipHash then
      openBranch state.branchMap state.confirmed header interval params
    else .error (.refused (.unattached header.prevHash))

/-- The state after one more header. The confirmed part stays as it is. -/
def absorb (state : ChainState) (header : Header) (interval : Interval) (params : Params) :
    Except Failure ChainState :=
  if state.tracks header.hash then .error (.refused (.duplicate header.hash))
  else (state.attach header interval params).map fun branches =>
    { state with forks := branches.values }

/-- The state after some headers, attached in order. The first failure ends the work. -/
def absorbAll (state : ChainState) (interval : Interval) (params : Params) :
    List Header → Except Failure ChainState
  | [] => .ok state
  | header :: rest =>
    match state.absorb header interval params with
    | .error failure => .error failure
    | .ok state => state.absorbAll interval params rest

end HeaderRelay.ChainState
