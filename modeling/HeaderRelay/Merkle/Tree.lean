import HeaderRelay.Merkle.Path

set_option autoImplicit false

namespace HeaderRelay.Merkle

open Fields (required)

/-- How a level with an odd number of nodes is closed. -/
inductive OddPolicy where
  | carry
  | duplicate
deriving DecidableEq

namespace OddPolicy

def name : OddPolicy → String
  | .carry => "carry"
  | .duplicate => "duplicate"

def ofName? (name : String) : Option OddPolicy :=
  if name = "carry" then some .carry
  else if name = "duplicate" then some .duplicate
  else none

/-- The parent of a node without a partner. -/
def close : OddPolicy → Digest → Digest
  | .carry, last => last
  | .duplicate, last => hashNodes last last

def ofJson : Json → Checked OddPolicy
  | .string name =>
    match ofName? name with
    | some policy => .valid policy
    | none => .flawed .notListed
  | _ => .flawed .notListed

end OddPolicy

/-- The level above a level. -/
def parents (policy : OddPolicy) : List Digest → List Digest
  | left :: right :: rest => hashNodes left right :: parents policy rest
  | [last] => [policy.close last]
  | [] => []

theorem length_parents (policy : OddPolicy) (level : List Digest) :
    (parents policy level).length = (level.length + 1) / 2 := by
  induction level using parents.induct with
  | case1 left right rest ih => simp only [parents, List.length_cons, ih]; omega
  | case2 last => simp only [parents, List.length_cons, List.length_nil]
  | case3 => rfl

/-- A level and all levels above it. -/
def levelsFrom (policy : OddPolicy) (level : List Digest) : List (List Digest) :=
  if level.length ≤ 1 then [level]
  else level :: levelsFrom policy (parents policy level)
termination_by level.length
decreasing_by
  rw [length_parents]
  omega

/-- A Merkle tree. Level 0 holds the leaves and the last level the root alone; a tree without
leaves has no levels. -/
structure Tree where
  policy : OddPolicy
  levels : List (List Digest)
deriving DecidableEq

namespace Tree

/-- The tree over some leaves. -/
def ofLeaves (policy : OddPolicy) : List Digest → Tree
  | [] => ⟨policy, []⟩
  | leaf :: rest => ⟨policy, levelsFrom policy (leaf :: rest)⟩

def leafCount (tree : Tree) : Nat := (tree.levels.head?.getD []).length

/-- The root. A tree without levels has the zero hash. -/
def root (tree : Tree) : Digest :=
  (tree.levels.getLast?.bind List.head?).getD Digest.zero

/-- The side and the sibling at each level on the way up from a position; the side is true when the
sibling stands on the left. A carried node has no sibling, a node paired with itself is its own. -/
def stepsFrom (policy : OddPolicy) (position : Nat) :
    List (List Digest) → Except PositionError (List (Bool × Digest))
  | [] => .ok []
  | [_] => .ok []
  | level :: above :: rest =>
    let onward := stepsFrom policy (position / 2) (above :: rest)
    match level[position ^^^ 1]?, policy with
    | some sibling, _ => onward.map ((decide (position % 2 = 1), sibling) :: ·)
    | none, .carry => onward
    | none, .duplicate =>
      match level[position]? with
      | some node => onward.map ((false, node) :: ·)
      | none => .error .node

def prove (tree : Tree) (index : Int) : Except PositionError Path :=
  if 0 ≤ index ∧ index < tree.leafCount then
    (stepsFrom tree.policy index.toNat tree.levels).map fun steps =>
      ⟨bitsValue (steps.map Prod.fst), steps.map Prod.snd⟩
  else .error (.leaf index tree.leafCount)

/-- What speaks against the levels of a tree. -/
def objection? (tree : Tree) : Option String :=
  match tree.levels.getLast? with
  | some top =>
    if top.length = 1 then none
    else some "The top level of a Merkle tree must hold exactly one node."
  | none => none

def toJson (tree : Tree) : Json :=
  .object [("policy", .string tree.policy.name),
    ("levels", .array (tree.levels.map fun level => .array (level.map Digest.toJson)))]

def fields : Fields Tree :=
  mk <$> required (.plain "policy") OddPolicy.ofJson
    <*> required (.plain "levels") (Reader.list (Reader.list Reader.digest))

def ofJson (json : Json) : Checked Tree :=
  (fields.readObject json).ensure objection?

instance : Document Tree := ⟨toJson, ofJson⟩

end Tree

def rootOf (policy : OddPolicy) (leaves : List Digest) : Digest :=
  (Tree.ofLeaves policy leaves).root

end HeaderRelay.Merkle
