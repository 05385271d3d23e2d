import HeaderRelay.Chain.Record
import HeaderRelay.Params
import HeaderRelay.Validation.Interval

set_option autoImplicit false

namespace HeaderRelay

open Fields (required)

/-- A chain of at least one unconfirmed block. -/
structure Branch where
  tipHash : Digest
  tipHeight : Int
  chainwork : Int
  newest : BlockRecord
  /-- The other blocks, from newer to older. -/
  older : List BlockRecord
deriving DecidableEq

namespace Branch

/-- The blocks, newest first. -/
def blocks (branch : Branch) : List BlockRecord := branch.newest :: branch.older

/-- The oldest block, which is the next to be confirmed. -/
def oldest (branch : Branch) : BlockRecord := branch.older.getLast?.getD branch.newest

/-- The hash of the block on which the branch stands. -/
def rootHash (branch : Branch) : Digest := branch.oldest.prevHash

/-- Speaks against tip fields that are not those of the newest block. -/
def objection? (branch : Branch) : Option String :=
  if branch.newest.hash = branch.tipHash ∧ branch.newest.height = branch.tipHeight then none
  else some "Branch tip fields do not match its newest block."

/-- The fields that are out of their ranges, by plain name. -/
def faults (branch : Branch) : List Fault :=
  unsignedFaults 64 [.key "tip_height"] branch.tipHeight ++
    (naturalFlaw? branch.chainwork).toList.map (⟨[.key "tip_chainwork"], ·⟩)

/-- The branch, if its fields are in their ranges and fit its newest block. -/
def checked (branch : Branch) : Checked Branch :=
  (Checked.ofFaults branch branch.faults).ensure objection?

def start (record : BlockRecord) : Checked Branch :=
  checked ⟨record.hash, record.height, record.work, record, []⟩

def extend (branch : Branch) (record : BlockRecord) : Checked Branch :=
  checked ⟨record.hash, record.height, branch.chainwork + record.work, record, branch.blocks⟩

/-- Detaches the oldest block. Nothing remains of a branch of one block. What remains is not
checked again. -/
def popOldest (branch : Branch) : BlockRecord × Option Branch :=
  match branch.older.getLast? with
  | none => (branch.newest, none)
  | some oldest =>
    (oldest, some
      { branch with
        chainwork := branch.chainwork - oldest.work
        older := branch.older.dropLast })

/-- Whether the oldest block may be confirmed: the branch is deep enough, and the block has been
visible for long enough. -/
def isMature (branch : Branch) (interval : Interval) (params : Params) : Bool :=
  params.maturationDepth.toNat ≤ branch.blocks.length &&
    (params.challengeAging.toNat : Int) ≤ interval.lower.toNat - branch.oldest.addedTime

def toJson (branch : Branch) : Json :=
  .object [("tipHash", branch.tipHash.toJson),
    ("tipHeight", .integer branch.tipHeight),
    ("tipChainwork", .integer branch.chainwork),
    ("blocks", .array (branch.blocks.map BlockRecord.toJson))]

def ofFields (tipHash : Digest) (tipHeight chainwork : Int)
    (blocks : BlockRecord × List BlockRecord) : Branch :=
  ⟨tipHash, tipHeight, chainwork, blocks.1, blocks.2⟩

def fields : Fields Branch :=
  ofFields <$> required ⟨"tipHash", "tip_hash"⟩ Reader.digest
    <*> required ⟨"tipHeight", "tip_height"⟩ (Reader.unsigned 64)
    <*> required ⟨"tipChainwork", "tip_chainwork"⟩ Reader.natural
    <*> required (.plain "blocks") (Reader.nonempty BlockRecord.ofJson)

def ofJson (json : Json) : Checked Branch :=
  (fields.readObject json).ensure objection?

instance : Document Branch := ⟨toJson, ofJson⟩

end Branch

end HeaderRelay
