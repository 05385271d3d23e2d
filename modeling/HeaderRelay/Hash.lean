import HeaderRelay.Bytes.Sized
import HeaderRelay.Hash.Sha256

set_option autoImplicit false

namespace HeaderRelay

def doubleSha256 (bytes : Bytes) : Digest :=
  ⟨Sha256.hash (Sha256.hash bytes), Sha256.length_hash _⟩

/-- The parent of two Merkle nodes, left node first. -/
def hashNodes (left right : Digest) : Digest :=
  doubleSha256 (left.bytes ++ right.bytes)

end HeaderRelay
