import HeaderRelay.Document
import HeaderRelay.Hash

set_option autoImplicit false

namespace HeaderRelay.Merkle

open Fields (required)

/-- Folds siblings over a leaf. At each level an even index puts the running hash on the left, an
odd one on the right, and the index is halved. -/
def fold (index : Int) (leaf : Digest) : List Digest → Digest
  | [] => leaf
  | sibling :: rest =>
    if index % 2 = 0 then fold (index / 2) (hashNodes leaf sibling) rest
    else fold (index / 2) (hashNodes sibling leaf) rest

def verifies (index : Int) (leaf : Digest) (siblings : List Digest) (root : Digest) : Bool :=
  fold index leaf siblings = root

structure Path where
  /-- Bit `k` is set when the sibling at level `k` stands on the left. -/
  index : Nat
  siblings : List Digest
deriving DecidableEq

namespace Path

def root (path : Path) (leaf : Digest) : Digest := fold path.index leaf path.siblings

def verify (path : Path) (leaf root : Digest) : Bool :=
  verifies path.index leaf path.siblings root

def toJson (path : Path) : Json :=
  .object [("index", .integer path.index),
    ("siblings", .array (path.siblings.map Digest.toJson))]

def fields : Fields Path :=
  mk <$> Int.toNat <$> required (.plain "index") Reader.natural
    <*> required (.plain "siblings") (Reader.list Reader.digest)

def ofJson : Json → Checked Path := fields.readObject

instance : Document Path := ⟨toJson, ofJson⟩

/-- A path with a given index, which must not be negative. -/
def make (index : Int) (siblings : List Digest) : Checked Path :=
  .ofFaults ⟨index.toNat, siblings⟩ ((naturalFlaw? index).toList.map (⟨[.key "index"], ·⟩))

end Path

/-- A position that a list of leaves or a level of a tree does not have. -/
inductive PositionError where
  | leaf (index count : Int)
  /-- A stored level ends before the node that the path needs. -/
  | node
deriving DecidableEq

def PositionError.message? : PositionError → Option String
  | .leaf index count =>
    some ("Leaf index " ++ Text.integer index ++ " out of range for " ++ Text.integer count ++
      " leaves")
  | .node => none

/-- The path bits of a position in a level of some width, for a tree that carries odd nodes upward:
a level on which the node is carried gives no bit. -/
def carriedBits (position width : Nat) : List Bool :=
  if width ≤ 1 then []
  else
    let above := carriedBits (position / 2) ((width + 1) / 2)
    if position = width - 1 ∧ width % 2 = 1 then above
    else (position % 2 = 1) :: above
termination_by width

/-- The number that binary digits denote, lowest digit first. -/
def bitsValue : List Bool → Nat
  | [] => 0
  | bit :: rest => bit.toNat + 2 * bitsValue rest

/-- Turns the index of a leaf into the path index of a tree that carries odd nodes upward. -/
def carriedIndex (index leafCount : Int) : Except PositionError Nat :=
  if 0 ≤ index ∧ index < leafCount then
    .ok (bitsValue (carriedBits index.toNat leafCount.toNat))
  else .error (.leaf index leafCount)

end HeaderRelay.Merkle
