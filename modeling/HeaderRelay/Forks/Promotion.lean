import HeaderRelay.ByteMap
import HeaderRelay.Chain.State

set_option autoImplicit false

namespace HeaderRelay.ChainState

/-- Whether a branch comes before another: it has more work, or as much and a smaller tip hash. -/
def outranks (branch rival : Branch) : Bool :=
  rival.chainwork < branch.chainwork ||
    (branch.chainwork = rival.chainwork && branch.tipHash < rival.tipHash)

/-- The first of the highest among some branches. -/
def highest : List Branch → Option Branch
  | [] => none
  | branch :: rest =>
    match highest rest with
    | none => some branch
    | some rival => if outranks rival branch then some rival else some branch

/-- The branch to confirm a block of. -/
def winner? (state : ChainState) (interval : Interval) (params : Params) : Option Branch :=
  highest (state.forks.filter fun branch => branch.isMature interval params)

/-- The branches that stay when the oldest block of one is confirmed: what remains of that one, and
the others that stand on the block. -/
def survivors (state : ChainState) (branch : Branch) : ByteMap Branch :=
  let (record, remaining) := branch.popOldest
  let others := state.forks.filter fun other =>
    other.tipHash ≠ branch.tipHash && other.rootHash = record.hash
  ByteMap.ofList ((remaining.toList ++ others).map fun kept => (kept.tipHash.bytes, kept))

/-- Confirms the oldest block of a branch. -/
def promoteOldest (state : ChainState) (branch : Branch) : ChainState where
  confirmed := branch.oldest.tip
  history := state.history.append branch.oldest.hash
  forks := (state.survivors branch).values

def trackedCount (state : ChainState) : Nat := (state.forks.flatMap Branch.blocks).length

/-- Confirms up to so many blocks, one after the other, and counts them. -/
def promoteUpTo (interval : Interval) (params : Params) : Nat → ChainState → ChainState × Nat
  | 0, state => (state, 0)
  | limit + 1, state =>
    match state.winner? interval params with
    | none => (state, 0)
    | some branch =>
      let (final, count) := promoteUpTo interval params limit (state.promoteOldest branch)
      (final, count + 1)

/-- Confirms blocks until no branch is mature, and counts them. Each confirmed block was tracked, so
there cannot be more of them than blocks tracked. -/
def promote (state : ChainState) (interval : Interval) (params : Params) : ChainState × Nat :=
  promoteUpTo interval params state.trackedCount state

end HeaderRelay.ChainState
