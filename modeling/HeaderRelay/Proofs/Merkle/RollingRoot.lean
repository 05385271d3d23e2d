import Mathlib
import HeaderRelay.Merkle.Accumulator
import HeaderRelay.Proofs.Merkle.Levels

set_option autoImplicit false

namespace HeaderRelay.Merkle

/-- The parents of the pairs of a level; a node without a partner is left out. -/
def pairUp : List Digest → List Digest
  | left :: right :: rest => hashNodes left right :: pairUp rest
  | [_] => []
  | [] => []

/-- The last node of a level with an odd number of nodes. -/
def unpaired? : List Digest → Option Digest
  | _ :: _ :: rest => unpaired? rest
  | [last] => some last
  | [] => none

theorem length_pairUp (level : List Digest) : (pairUp level).length = level.length / 2 := by
  induction level using pairUp.induct with
  | case1 left right rest ih =>
    simp only [pairUp, List.length_cons, ih]
    omega
  | case2 last => simp only [pairUp, List.length_cons, List.length_nil]
  | case3 => rfl

/-- An unpaired node beside a node on its right: their parent, or the one of them that is there. -/
def joined : Option Digest → Option Digest → Option Digest
  | none, below => below
  | some last, none => some last
  | some last, some node => some (hashNodes last node)

/-- A level with a node more has the parents of its pairs, and above the new node its parent with
the node that had no partner. -/
theorem parents_append (level : List Digest) (below : Option Digest) :
    parents .carry (level ++ below.toList) =
      pairUp level ++ (joined (unpaired? level) below).toList := by
  induction level using parents.induct with
  | case1 left right rest ih =>
    simp only [List.cons_append, parents, pairUp, unpaired?, ih]
  | case2 last => cases below <;> rfl
  | case3 => cases below <;> rfl

/-- Going up a level keeps the root, also from a level of at most one node. -/
theorem rootOf_carry_parents (level : List Digest) :
    rootOf .carry (parents .carry level) = rootOf .carry level := by
  match level with
  | [] => rfl
  | [node] => rfl
  | left :: right :: rest => exact rootOf_parents .carry _ (by simp)

namespace Accumulator

def addAll (slots : List (Option Digest)) (nodes : List Digest) : List (Option Digest) :=
  nodes.foldl (fun slots node => carryInto node slots) slots

theorem slots_ofLeaves (leaves : List Digest) : (ofLeaves leaves).slots = addAll [] leaves := by
  have same : ∀ start : Accumulator,
      (leaves.foldl append start).slots = addAll start.slots leaves := by
    induction leaves with
    | nil => intro start; rfl
    | cons leaf rest ih => intro start; exact ih (start.append leaf)
  exact same empty

/-- An empty lowest slot takes what is left over of the nodes, and every pair is carried on. -/
theorem addAll_none (slots : List (Option Digest)) (nodes : List Digest) :
    addAll (none :: slots) nodes = unpaired? nodes :: addAll slots (pairUp nodes) := by
  induction nodes using parents.induct generalizing slots with
  | case1 left right rest ih => exact ih (carryInto (hashNodes left right) slots)
  | case2 last => rfl
  | case3 => rfl

/-- The slots over some nodes: the one left over, and above it the slots over the pairs. -/
theorem addAll_nil (nodes : List Digest) (nonempty : nodes ≠ []) :
    addAll [] nodes = unpaired? nodes :: addAll [] (pairUp nodes) := by
  match nodes, nonempty with
  | node :: rest, _ =>
    -- the first node is put into the same place of no slots and of one empty slot
    have start : addAll [] (node :: rest) = addAll [none] (node :: rest) := rfl
    rw [start, addAll_none]

theorem joinSlots_cons (below slot : Option Digest) (rest : List (Option Digest)) :
    joinSlots below (slot :: rest) = joinSlots (joined slot below) rest := by
  cases slot <;> cases below <;> rfl

/-- Folding slots from a node on gives the root of the tree in which that node stands behind the
leaves. -/
theorem joinSlots_addAll (nodes : List Digest) (below : Option Digest) :
    (joinSlots below (addAll [] nodes)).getD Digest.zero =
      rootOf .carry (nodes ++ below.toList) := by
  induction size : nodes.length using Nat.strongRecOn generalizing nodes below with
  | ind width ih =>
    by_cases empty : nodes = []
    · subst empty
      cases below with
      | none => rfl
      | some node => exact (rootOf_singleton .carry node).symm
    · have positive : 0 < nodes.length := List.length_pos_iff.mpr empty
      have smaller : (pairUp nodes).length < width := by
        rw [length_pairUp]
        omega
      rw [addAll_nil nodes empty, joinSlots_cons, ih _ smaller (pairUp nodes) _ rfl,
        ← parents_append, rootOf_carry_parents]

/-- Slots over some leaves have the root of the tree over these leaves. -/
theorem root_of_slots (accumulator : Accumulator) (leaves : List Digest)
    (built : accumulator.slots = addAll [] leaves) :
    accumulator.root = rootOf .carry leaves := by
  rw [root, built, joinSlots_addAll leaves none]
  simp only [Option.toList_none, List.append_nil]

/-- The rolling accumulator and the tree that carries odd nodes upward agree on the root. -/
theorem root_ofLeaves (leaves : List Digest) :
    (ofLeaves leaves).root = rootOf .carry leaves :=
  root_of_slots _ leaves (slots_ofLeaves leaves)

theorem countSlots_carryInto (node : Digest) (slots : List (Option Digest)) :
    countSlots (carryInto node slots) = countSlots slots + 1 := by
  induction slots generalizing node with
  | nil => rfl
  | cons slot rest ih =>
    cases slot with
    | none =>
      change 1 + 2 * countSlots rest = 0 + 2 * countSlots rest + 1
      omega
    | some occupant =>
      change 0 + 2 * countSlots (carryInto (hashNodes occupant node) rest) =
        1 + 2 * countSlots rest + 1
      rw [ih]
      omega

/-- Appending counts one leaf more, whatever the slots hold. -/
theorem leafCount_append (accumulator : Accumulator) (leaf : Digest) :
    (accumulator.append leaf).leafCount = accumulator.leafCount + 1 :=
  countSlots_carryInto leaf accumulator.slots

theorem ofLeaves_append (leaves : List Digest) (leaf : Digest) :
    ofLeaves (leaves ++ [leaf]) = (ofLeaves leaves).append leaf := by
  simp only [ofLeaves, List.foldl_append, List.foldl_cons, List.foldl_nil]

theorem leafCount_ofLeaves (leaves : List Digest) :
    (ofLeaves leaves).leafCount = leaves.length := by
  induction leaves using List.reverseRecOn with
  | nil => rfl
  | append_singleton leaves leaf ih =>
    rw [ofLeaves_append, leafCount_append, ih, List.length_append, List.length_singleton]

end Accumulator

end HeaderRelay.Merkle
