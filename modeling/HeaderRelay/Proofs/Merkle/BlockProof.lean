import Mathlib
import HeaderRelay.Inclusion
import HeaderRelay.Proofs.Merkle.HashTree
import HeaderRelay.Proofs.Merkle.RollingRoot

set_option autoImplicit false

namespace HeaderRelay.Merkle

/-- The number of siblings on the path of a leaf in a tree that carries odd nodes upward. -/
def pathLength (position width : Nat) : Nat := (carriedBits position width).length

theorem carriedBits_narrow (position width : Nat) (narrow : width ≤ 1) :
    carriedBits position width = [] := by
  rw [carriedBits, if_pos narrow]

/-- The last node of an odd level is carried upward, which gives no bit. -/
theorem carriedBits_carried (position width : Nat) (wide : 2 ≤ width)
    (last : position = width - 1) (odd : width % 2 = 1) :
    carriedBits position width = carriedBits (position / 2) ((width + 1) / 2) := by
  rw [carriedBits, if_neg (by omega), if_pos ⟨last, odd⟩]

/-- A node with a partner gives the bit of its side. -/
theorem carriedBits_paired (position width : Nat) (partner : 2 * (position / 2) + 1 < width) :
    carriedBits position width =
      decide (position % 2 = 1) :: carriedBits (position / 2) ((width + 1) / 2) := by
  rw [carriedBits, if_neg (by omega), if_neg (by omega)]

theorem bitsValue_half (bit : Bool) (bits : List Bool) :
    ((bitsValue (bit :: bits) : Nat) : Int) / 2 = (bitsValue bits : Nat) := by
  cases bit <;> simp only [bitsValue, Bool.toNat_true, Bool.toNat_false] <;> omega

theorem bitsValue_side (bit : Bool) (bits : List Bool) :
    decide (((bitsValue (bit :: bits) : Nat) : Int) % 2 ≠ 0) = bit := by
  cases bit with
  | true =>
    apply decide_eq_true
    simp only [bitsValue, Bool.toNat_true]
    omega
  | false =>
    apply decide_eq_false
    simp only [bitsValue, Bool.toNat_false]
    omega

/-- A fold along given bits hashes the leaf and the first sibling as the first bit orders them. -/
theorem fold_bit (bit : Bool) (bits : List Bool) (leaf sibling : Digest) (rest : List Digest) :
    fold (bitsValue (bit :: bits) : Nat) leaf (sibling :: rest) =
      fold (bitsValue bits : Nat)
        (hashNodes (ordered bit leaf sibling).1 (ordered bit leaf sibling).2) rest := by
  rw [fold_ordered, bitsValue_half, bitsValue_side]

theorem foldStrings_bit (bit : Bool) (bits : List Bool) (leaf sibling : Digest)
    (rest : List Digest) :
    foldStrings (bitsValue (bit :: bits) : Nat) leaf (sibling :: rest) =
      nodeString (ordered bit leaf sibling).1 (ordered bit leaf sibling).2 ::
        foldStrings (bitsValue bits : Nat)
          (hashNodes (ordered bit leaf sibling).1 (ordered bit leaf sibling).2) rest := by
  rw [foldStrings_ordered, bitsValue_half, bitsValue_side]

/-- A node with a partner is the one that was hashed, on its side, for the node above it. -/
theorem node_of_pair {strings : List Bytes} (free : CollisionFree strings) (level : List Digest)
    (position : Nat) (start sibling : Digest) (partner : 2 * (position / 2) + 1 < level.length)
    (built : ∀ string ∈ parentStrings .carry level, string ∈ strings)
    (folded : nodeString (ordered (decide (position % 2 = 1)) start sibling).1
      (ordered (decide (position % 2 = 1)) start sibling).2 ∈ strings)
    (reached : (parents .carry level)[position / 2]? = some
      (hashNodes (ordered (decide (position % 2 = 1)) start sibling).1
        (ordered (decide (position % 2 = 1)) start sibling).2)) :
    level[position]? = some start := by
  have left : level[2 * (position / 2)]? = some level[2 * (position / 2)] :=
    List.getElem?_eq_getElem (by omega)
  have right : level[2 * (position / 2) + 1]? = some level[2 * (position / 2) + 1] :=
    List.getElem?_eq_getElem partner
  obtain ⟨above, hashed⟩ := parents_of_pair .carry level _ _ _ left right
  have children := children_eq free (built _ hashed) folded
    (Option.some.inj (above.symm.trans reached))
  by_cases side : position % 2 = 1
  · have place : position = 2 * (position / 2) + 1 := by omega
    simp only [ordered, side, decide_true, ↓reduceIte] at children
    rw [place, right, children.2]
  · have place : position = 2 * (position / 2) := by omega
    simp only [ordered, side, decide_false, Bool.false_eq_true, ↓reduceIte] at children
    rw [place, left, children.1]

/-- A node without a partner stands in the level above as well. -/
theorem parents_of_carried (level : List Digest) (position : Nat) (within : position < level.length)
    (alone : ¬ 2 * (position / 2) + 1 < level.length) :
    (parents .carry level)[position / 2]? = level[position]? := by
  have place : position = 2 * (position / 2) := by omega
  have there : level[2 * (position / 2)]? = some level[position] := by
    rw [← place]
    exact List.getElem?_eq_getElem within
  rw [parents_of_last .carry level _ _ there (by omega), List.getElem?_eq_getElem within]
  rfl

/-- A fold along the path bits of a position, with a sibling for each bit, that ends at the root
began at the node of that position. -/
theorem node_of_fold (level : List Digest) (position : Nat) (start : Digest)
    (siblings : List Digest) (within : position < level.length)
    (fits : siblings.length = pathLength position level.length)
    (free : CollisionFree (treeStrings .carry level ++
      foldStrings (bitsValue (carriedBits position level.length) : Nat) start siblings))
    (same : fold (bitsValue (carriedBits position level.length) : Nat) start siblings =
      rootOf .carry level) :
    level[position]? = some start := by
  induction level using level_induction .carry generalizing position start siblings with
  | nil => cases within
  | single node =>
    have first : position = 0 := by simpa using within
    subst first
    have direct : siblings = [] := by
      apply List.eq_nil_of_length_eq_zero
      rw [fits, pathLength, carriedBits_narrow _ _ (by simp)]
      rfl
    subst direct
    rw [rootOf_singleton] at same
    exact congrArg some same.symm
  | step level several ih =>
    rw [length_parents] at ih
    rw [treeStrings_eq .carry level several] at free
    rw [← rootOf_parents .carry level several] at same
    by_cases partner : 2 * (position / 2) + 1 < level.length
    · rw [pathLength, carriedBits_paired _ _ partner] at fits
      rw [carriedBits_paired _ _ partner] at free same
      cases siblings with
      | nil => cases fits
      | cons sibling rest =>
        rw [foldStrings_bit] at free
        rw [fold_bit] at same
        have reached := ih (position / 2) _ rest (by omega) (Nat.succ.inj fits)
          (free.mono fun string mem => (List.mem_append.mp mem).elim
            (fun mem => List.mem_append_left _ (List.mem_append_right _ mem))
            (fun mem => List.mem_append_right _ (List.mem_cons_of_mem _ mem))) same
        refine node_of_pair free level position start sibling partner ?_ ?_ reached
        · exact fun string mem => List.mem_append_left _ (List.mem_append_left _ mem)
        · exact List.mem_append_right _ List.mem_cons_self
    · have last : position = level.length - 1 := by omega
      have odd : level.length % 2 = 1 := by omega
      rw [pathLength, carriedBits_carried _ _ several last odd] at fits
      rw [carriedBits_carried _ _ several last odd] at free same
      rw [← parents_of_carried level position within partner]
      exact ih (position / 2) start siblings (by omega) fits
        (free.mono fun string mem => (List.mem_append.mp mem).elim
          (fun mem => List.mem_append_left _ (List.mem_append_right _ mem))
          (fun mem => List.mem_append_right _ mem)) same

theorem pathLength_narrow (position width : Nat) (narrow : width ≤ 1) :
    pathLength position width = 0 := by
  rw [pathLength, carriedBits_narrow position width narrow]
  rfl

theorem pathLength_carried (position width : Nat) (wide : 2 ≤ width)
    (last : position = width - 1) (odd : width % 2 = 1) :
    pathLength position width = pathLength (position / 2) ((width + 1) / 2) := by
  rw [pathLength, carriedBits_carried position width wide last odd, pathLength]

theorem pathLength_paired (position width : Nat) (partner : 2 * (position / 2) + 1 < width) :
    pathLength position width = pathLength (position / 2) ((width + 1) / 2) + 1 := by
  rw [pathLength, carriedBits_paired position width partner, pathLength, List.length_cons]

namespace HashTree

/-- A tree of the level above joins two trees side by side, or is the last one carried upward. -/
theorem parentTrees_cases (trees : List HashTree) (place : Nat) (above : HashTree)
    (there : (parentTrees .carry trees)[place]? = some above) :
    (∃ left right, above = join left right ∧ trees[2 * place]? = some left ∧
      trees[2 * place + 1]? = some right) ∨
    (trees[2 * place]? = some above ∧ trees.length = 2 * place + 1) := by
  induction trees using parentTrees.induct generalizing place with
  | case1 left right rest ih =>
    cases place with
    | zero =>
      cases Option.some.inj there
      exact Or.inl ⟨left, right, rfl, rfl, rfl⟩
    | succ place =>
      rcases ih place there with joined | ⟨last, ends⟩
      · exact Or.inl joined
      · refine Or.inr ⟨last, ?_⟩
        simp only [List.length_cons]
        omega
  | case2 last =>
    cases place with
    | zero => exact Or.inr ⟨there, rfl⟩
    | succ place => cases there
  | case3 => cases there

/-- A way down to a given digest ends in one of the trees of the level below, after as many steps
as the path of that tree has siblings. -/
theorem leaf_of_subtree? (trees : List HashTree) (tree : HashTree)
    (grown : top? .carry trees = some tree) (way : List Bool) (digest : Digest)
    (reached : tree.subtree? way = some (leaf digest)) :
    ∃ position part low, trees[position]? = some part ∧ part.subtree? low = some (leaf digest) ∧
      way.length = pathLength position trees.length + low.length := by
  induction trees using top?.induct .carry with
  | case1 trees narrow =>
    rw [top?, if_pos narrow] at grown
    refine ⟨0, tree, way, List.head?_eq_getElem?.symm.trans grown, reached, ?_⟩
    rw [pathLength_narrow 0 _ narrow, Nat.zero_add]
  | case2 trees wide ih =>
    rw [top?, if_neg wide] at grown
    obtain ⟨place, above, low, there, found, long⟩ := ih grown
    rw [length_parentTrees] at long
    rcases parentTrees_cases trees place above there with
      ⟨left, right, joined, first, second⟩ | ⟨last, ends⟩
    · subst joined
      have partner : 2 * place + 1 < trees.length := (List.getElem?_eq_some_iff.mp second).1
      cases low with
      | nil => cases found
      | cons goesRight low =>
        have half : (2 * place + goesRight.toNat) / 2 = place := by
          cases goesRight <;> simp only [Bool.toNat_true, Bool.toNat_false] <;> omega
        have one := pathLength_paired (2 * place + goesRight.toNat) trees.length (by omega)
        rw [half] at one
        refine ⟨2 * place + goesRight.toNat, left.child right goesRight, low, ?_, found, ?_⟩
        · cases goesRight with
          | true => exact second
          | false => exact first
        · rw [long, one, List.length_cons]
          omega
    · have up := pathLength_carried (2 * place) trees.length (by omega) (by omega) (by omega)
      have half : 2 * place / 2 = place := by omega
      rw [half] at up
      exact ⟨2 * place, above, low, last, found, by rw [long, up]⟩

/-- A way down the tree over some leaves that ends in a leaf is as long as the path of this leaf. -/
theorem leaf_of_way (leaves : List Digest) (tree : HashTree)
    (grown : top? .carry (leaves.map leaf) = some tree) (way : List Bool) (digest : Digest)
    (reached : tree.subtree? way = some (leaf digest)) :
    ∃ position, leaves[position]? = some digest ∧
      way.length = pathLength position leaves.length := by
  obtain ⟨position, part, low, there, found, long⟩ :=
    leaf_of_subtree? (leaves.map leaf) tree grown way digest reached
  rw [List.getElem?_map] at there
  obtain ⟨given, place, same⟩ := Option.map_eq_some_iff.mp there
  subst same
  cases low with
  | cons goesRight low => cases found
  | nil =>
    cases found
    refine ⟨position, place, ?_⟩
    rw [long, List.length_map, List.length_nil, Nat.add_zero]

end HashTree

/-- A fold of any number of siblings that ends at the root of a history, and goes through none of
its leaves, began at an inner node or at a leaf whose path has as many siblings. -/
theorem leaf_or_join_of_fold (leaves : List Digest) (nonempty : leaves ≠ []) (index : Int)
    (start : Digest) (siblings : List Digest)
    (free : CollisionFree (treeStrings .carry leaves ++ foldStrings index start siblings))
    (apart : ∀ digest ∈ leaves, ∀ string ∈ foldStrings index start siblings,
      doubleSha256 string ≠ digest)
    (same : fold index start siblings = rootOf .carry leaves) :
    (∃ position, leaves[position]? = some start ∧
      siblings.length = pathLength position leaves.length) ∨
    ∃ left right, nodeString left right ∈ treeStrings .carry leaves ∧
      hashNodes left right = start := by
  obtain ⟨tree, grown, root, strings⟩ := HashTree.exists_tree_over .carry leaves nonempty
  obtain ⟨way, sub, long, reached, found⟩ := subtree_of_fold tree index start siblings
    (free.mono fun string mem => (List.mem_append.mp mem).elim
      (fun mem => List.mem_append_left _ (strings string mem))
      (fun mem => List.mem_append_right _ mem))
    (fun way digest reached => by
      obtain ⟨position, there, _⟩ := HashTree.leaf_of_way leaves tree grown way digest reached
      exact apart digest (List.mem_of_getElem? there))
    (same.trans root.symm)
  cases sub with
  | join left right =>
    have hashed := HashTree.strings_of_subtree? reached _ List.mem_cons_self
    exact Or.inr ⟨left.root, right.root, strings _ hashed, found⟩
  | leaf digest =>
    cases found
    obtain ⟨position, there, fits⟩ := HashTree.leaf_of_way leaves tree grown way _ reached
    exact Or.inl ⟨position, there, long.symm.trans fits⟩

/-- A fold of siblings that ends at the root of some leaves, and began at a digest that is one of
them and no hash of a string at hand, has as many siblings as the path of a leaf with this digest,
provided that no leaf is the hash of a string at hand. -/
theorem length_of_fold (leaves : List Digest) (index : Int) (start : Digest)
    (siblings : List Digest)
    (free : CollisionFree (treeStrings .carry leaves ++ foldStrings index start siblings))
    (apart : ∀ digest ∈ leaves,
      ∀ string ∈ treeStrings .carry leaves ++ foldStrings index start siblings,
        doubleSha256 string ≠ digest)
    (mem : start ∈ leaves) (same : fold index start siblings = rootOf .carry leaves) :
    ∃ position, leaves[position]? = some start ∧
      siblings.length = pathLength position leaves.length := by
  have began := leaf_or_join_of_fold leaves (List.ne_nil_of_mem mem) index start siblings free
    (fun digest among string folded =>
      apart digest among string (List.mem_append_right _ folded)) same
  rcases began with found | ⟨left, right, hashed, clash⟩
  · exact found
  · exact absurd clash (apart start mem _ (List.mem_append_left _ hashed))

/-- The strings hashed while a proof of a block is folded. A position that is no leaf is refused
before anything is hashed. -/
def blockProofStrings (leafCount : Nat) (index : Int) (blockHash : Digest)
    (siblings : List Digest) : List Bytes :=
  match carriedIndex index leafCount with
  | .error _ => []
  | .ok pathIndex => foldStrings pathIndex blockHash siblings

/-- An accepted proof names a leaf, and its siblings lead from the block hash to the root along the
path bits of this leaf. -/
theorem fold_of_includesBlock (leaves : List Digest) (state : ChainState)
    (history : state.history = Accumulator.ofLeaves leaves) (blockHash : Digest) (index : Int)
    (siblings : List Digest) (accepted : state.includesBlock blockHash index siblings = true) :
    0 ≤ index ∧ index < leaves.length ∧
      blockProofStrings leaves.length index blockHash siblings =
        foldStrings (bitsValue (carriedBits index.toNat leaves.length) : Nat) blockHash siblings ∧
      fold (bitsValue (carriedBits index.toNat leaves.length) : Nat) blockHash siblings =
        rootOf .carry leaves := by
  have root := Accumulator.root_of_slots _ leaves (Accumulator.slots_ofLeaves leaves)
  rw [ChainState.includesBlock, history, Accumulator.leafCount_ofLeaves, root] at accepted
  by_cases within : 0 ≤ index ∧ index < leaves.length
  · have path : carriedIndex index leaves.length =
        .ok (bitsValue (carriedBits index.toNat leaves.length)) := by
      rw [carriedIndex, if_pos within, Int.toNat_natCast]
    rw [path] at accepted
    refine ⟨within.1, within.2, ?_, ?_⟩
    · rw [blockProofStrings, path]
    · exact of_decide_eq_true accepted
  · have outside : carriedIndex index leaves.length = .error (.leaf index leaves.length) := by
      rw [carriedIndex, if_neg within]
    rw [outside] at accepted
    cases accepted

/-- An accepted proof names a position of the history. If it has as many siblings as the path of
this position, the block hash is the leaf there. Where the leaves are distinct and none is a hash
of a string at hand, a proof of any other length is not about the leaf that it names. -/
theorem includesBlock_iff_pathLength (leaves : List Digest) (state : ChainState)
    (history : state.history = Accumulator.ofLeaves leaves) (blockHash : Digest) (index : Int)
    (siblings : List Digest)
    (free : CollisionFree
      (treeStrings .carry leaves ++ blockProofStrings leaves.length index blockHash siblings))
    (accepted : state.includesBlock blockHash index siblings = true) :
    0 ≤ index ∧ index < leaves.length ∧
      (siblings.length = pathLength index.toNat leaves.length →
        leaves[index.toNat]? = some blockHash) ∧
      (leaves.Nodup →
        (∀ leaf ∈ leaves, ∀ string ∈ treeStrings .carry leaves ++
          blockProofStrings leaves.length index blockHash siblings, doubleSha256 string ≠ leaf) →
        (leaves[index.toNat]? = some blockHash ↔
          siblings.length = pathLength index.toNat leaves.length)) := by
  obtain ⟨lower, upper, strings, same⟩ :=
    fold_of_includesBlock leaves state history blockHash index siblings accepted
  rw [strings] at free ⊢
  have names (fits : siblings.length = pathLength index.toNat leaves.length) :
      leaves[index.toNat]? = some blockHash :=
    node_of_fold leaves index.toNat blockHash siblings (by omega) fits free same
  refine ⟨lower, upper, names, fun distinct apart => ⟨fun there => ?_, names⟩⟩
  obtain ⟨position, there', fits⟩ := length_of_fold leaves _ blockHash siblings free apart
    (List.mem_of_getElem? there) same
  have sameLeaf : index.toNat = position :=
    (List.getElem?_inj (by omega) distinct).mp (there.trans there'.symm)
  rw [fits, sameLeaf]

def repeated (byte : UInt8) : Digest := ⟨List.replicate 32 byte, List.length_replicate⟩

def threeLeaves : List Digest := [repeated 1, repeated 2, repeated 3]

def threeBlocks : ChainState where
  confirmed := ⟨2, 0x207FFFFF, 30, [30, 20, 10], 10, repeated 3⟩
  history := Accumulator.ofLeaves threeLeaves
  forks := []

theorem second_leaf_accepted :
    threeBlocks.history = Accumulator.ofLeaves threeLeaves ∧
      CollisionFree (treeStrings .carry threeLeaves ++
        blockProofStrings 3 1 (repeated 2) [repeated 1, repeated 3]) ∧
      threeBlocks.includesBlock (repeated 2) 1 [repeated 1, repeated 3] = true ∧
      threeLeaves.Nodup ∧
      (∀ leaf ∈ threeLeaves, ∀ string ∈ treeStrings .carry threeLeaves ++
        blockProofStrings 3 1 (repeated 2) [repeated 1, repeated 3],
        doubleSha256 string ≠ leaf) ∧
      threeLeaves[1]? = some (repeated 2) := by
  have free : CollisionFree (treeStrings .carry threeLeaves ++
      blockProofStrings 3 1 (repeated 2) [repeated 1, repeated 3]) := by
    decide +kernel
  have accepted : threeBlocks.includesBlock (repeated 2) 1 [repeated 1, repeated 3] = true := by
    decide +kernel
  have distinct : threeLeaves.Nodup := by decide +kernel
  have apart : ∀ leaf ∈ threeLeaves, ∀ string ∈ treeStrings .carry threeLeaves ++
      blockProofStrings 3 1 (repeated 2) [repeated 1, repeated 3],
      doubleSha256 string ≠ leaf := by
    decide +kernel
  have fits : [repeated 1, repeated 3].length = pathLength 1 3 := by decide +kernel
  have names := includesBlock_iff_pathLength threeLeaves threeBlocks rfl _ _ _ free accepted
  exact ⟨rfl, free, accepted, distinct, apart, (names.2.2.2 distinct apart).mpr fits⟩

/-- The proof of the third of three blocks is accepted as one of the second: its only sibling is
the parent of the first two, and the path bits of the second leaf begin with those of the third. -/
theorem third_leaf_accepted_as_second :
    threeBlocks.history = Accumulator.ofLeaves threeLeaves ∧
      CollisionFree (treeStrings .carry threeLeaves ++
        blockProofStrings 3 1 (repeated 3) [hashNodes (repeated 1) (repeated 2)]) ∧
      threeBlocks.includesBlock (repeated 3) 1 [hashNodes (repeated 1) (repeated 2)] = true ∧
      threeLeaves[1]? ≠ some (repeated 3) := by
  refine ⟨rfl, ?_, ?_, ?_⟩
  · decide +kernel
  · decide +kernel
  · decide +kernel

end HeaderRelay.Merkle
