import HeaderRelay.Chain.State
import HeaderRelay.Header
import HeaderRelay.Merkle.Path

set_option autoImplicit false

namespace HeaderRelay.ChainState

/-- Whether a block is confirmed leaf number `index` of a state. -/
def includesBlock (state : ChainState) (blockHash : Digest) (index : Int)
    (siblings : List Digest) : Bool :=
  match Merkle.carriedIndex index state.history.leafCount with
  | .error _ => false
  | .ok pathIndex => Merkle.verifies pathIndex blockHash siblings state.history.root

/-- Whether a transaction is in a confirmed block: the header hashes to the leaf, and the
transaction reaches the root in the header. Anything malformed is not included. -/
def includesTransaction (state : ChainState) (txHash : Digest) (path : Merkle.Path) (index : Int)
    (siblings : List Digest) (rawHeader : Bytes) : Bool :=
  match Header.ofWire rawHeader with
  | .error _ => false
  | .ok header =>
    state.includesBlock header.hash index siblings && path.verify txHash header.merkleRoot

end HeaderRelay.ChainState
