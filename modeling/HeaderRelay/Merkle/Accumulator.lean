import HeaderRelay.Document
import HeaderRelay.Hash

set_option autoImplicit false

namespace HeaderRelay.Merkle

open Fields (optional)

/-- The slots of an accumulator, lowest first. Slot `i` is empty or holds the root of `2 ^ i`
consecutive leaves, like the digits of a binary counter. -/
structure Accumulator where
  slots : List (Option Digest)
deriving DecidableEq

namespace Accumulator

def empty : Accumulator := ⟨[]⟩

/-- How many leaves some slots cover. -/
def countSlots : List (Option Digest) → Nat
  | [] => 0
  | slot :: rest => slot.isSome.toNat + 2 * countSlots rest

def leafCount (accumulator : Accumulator) : Nat := countSlots accumulator.slots

/-- Adds a node to the slots. An occupied slot joins the node, on its left, and passes it on. -/
def carryInto (node : Digest) : List (Option Digest) → List (Option Digest)
  | [] => [some node]
  | none :: rest => some node :: rest
  | some occupant :: rest => none :: carryInto (hashNodes occupant node) rest

/-- Appends a leaf. -/
def append (accumulator : Accumulator) (leaf : Digest) : Accumulator :=
  ⟨carryInto leaf accumulator.slots⟩

def ofLeaves (leaves : List Digest) : Accumulator := leaves.foldl append empty

/-- Joins the occupied slots to what the lower slots gave, each on its left. -/
def joinSlots (below : Option Digest) : List (Option Digest) → Option Digest
  | [] => below
  | none :: rest => joinSlots below rest
  | some node :: rest =>
    match below with
    | none => joinSlots (some node) rest
    | some joined => joinSlots (some (hashNodes node joined)) rest

/-- The root over all leaves; that of no leaves is the zero hash. -/
def root (accumulator : Accumulator) : Digest :=
  (joinSlots none accumulator.slots).getD Digest.zero

def slotToJson : Option Digest → Json
  | some node => node.toJson
  | none => .null

def toJson (accumulator : Accumulator) : Json :=
  .object [("slots", .array (accumulator.slots.map slotToJson))]

def fields : Fields Accumulator :=
  mk <$> optional (.plain "slots") [] (Reader.list Reader.optionalDigest)

def ofJson : Json → Checked Accumulator := fields.readObject

instance : Document Accumulator := ⟨toJson, ofJson⟩

end Accumulator

end HeaderRelay.Merkle
