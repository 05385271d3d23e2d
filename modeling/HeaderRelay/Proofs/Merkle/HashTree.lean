import Mathlib
import HeaderRelay.Proofs.Merkle.HashedStrings

set_option autoImplicit false

namespace HeaderRelay.Merkle

/-- A digest that is given, or two trees joined by hashing. -/
inductive HashTree where
  | leaf (digest : Digest)
  | join (left right : HashTree)

namespace HashTree

def root : HashTree → Digest
  | leaf digest => digest
  | join left right => hashNodes left.root right.root

/-- The strings hashed for the digest at the top. -/
def strings : HashTree → List Bytes
  | leaf _ => []
  | join left right => nodeString left.root right.root :: (left.strings ++ right.strings)

def child (left right : HashTree) (goesRight : Bool) : HashTree := if goesRight then right else left

/-- What a way down leads to; each step says whether it goes to the right. -/
def subtree? : HashTree → List Bool → Option HashTree
  | tree, [] => some tree
  | leaf _, _ :: _ => none
  | join left right, goesRight :: way => (child left right goesRight).subtree? way

theorem strings_child (left right : HashTree) (goesRight : Bool) :
    ∀ string ∈ (child left right goesRight).strings, string ∈ (join left right).strings := by
  intro string mem
  cases goesRight with
  | true => exact List.mem_cons_of_mem _ (List.mem_append_right _ mem)
  | false => exact List.mem_cons_of_mem _ (List.mem_append_left _ mem)

theorem strings_of_subtree? {tree sub : HashTree} {way : List Bool}
    (reached : tree.subtree? way = some sub) : ∀ string ∈ sub.strings, string ∈ tree.strings := by
  induction way generalizing tree with
  | nil =>
    cases Option.some.inj reached
    exact fun string mem => mem
  | cons goesRight way ih =>
    cases tree with
    | leaf digest => cases reached
    | join left right =>
      intro string mem
      exact strings_child left right goesRight string (ih reached string mem)

end HashTree

/-- The node on the last step of a fold, whose sibling comes from the end of the list. -/
theorem fold_append (index : Int) (leaf sibling : Digest) (siblings : List Digest) :
    ∃ left right, fold index leaf (siblings ++ [sibling]) = hashNodes left right ∧
      nodeString left right ∈ foldStrings index leaf (siblings ++ [sibling]) ∧
      (left = fold index leaf siblings ∨ right = fold index leaf siblings) := by
  induction siblings generalizing index leaf with
  | nil =>
    obtain ⟨left, right, onward, strings, side⟩ := fold_cons index leaf sibling []
    refine ⟨left, right, onward, ?_, side.imp Eq.symm Eq.symm⟩
    rw [List.nil_append, strings]
    exact List.mem_cons_self
  | cons first siblings ih =>
    rw [List.cons_append, fold_ordered, foldStrings_ordered, fold_ordered]
    obtain ⟨left, right, same, hashed, onward⟩ := ih (index / 2) _
    exact ⟨left, right, same, List.mem_cons_of_mem _ hashed, onward⟩

theorem foldStrings_append (index : Int) (leaf sibling : Digest) (siblings : List Digest) :
    ∀ string ∈ foldStrings index leaf siblings,
      string ∈ foldStrings index leaf (siblings ++ [sibling]) := by
  induction siblings generalizing index leaf with
  | nil => intro string mem; cases mem
  | cons first siblings ih =>
    rw [List.cons_append, foldStrings_ordered, foldStrings_ordered]
    intro string mem
    rw [List.mem_cons] at mem ⊢
    exact mem.imp_right (ih _ _ string)

/-- A fold of any number of siblings that ends at the top of a tree began at a node of the tree, as
many steps below the top as there are siblings, unless it went through the hash of a leaf. -/
theorem subtree_of_fold (tree : HashTree) (index : Int) (start : Digest) (siblings : List Digest)
    (free : CollisionFree (tree.strings ++ foldStrings index start siblings))
    (apart : ∀ way digest, tree.subtree? way = some (.leaf digest) →
      ∀ string ∈ foldStrings index start siblings, doubleSha256 string ≠ digest)
    (same : fold index start siblings = tree.root) :
    ∃ way sub, way.length = siblings.length ∧ tree.subtree? way = some sub ∧ sub.root = start := by
  -- induction on the siblings from the last one down, while the tree is left for its subtrees
  induction siblings using List.reverseRecOn generalizing tree with
  | nil => exact ⟨[], tree, rfl, by cases tree <;> rfl, same.symm⟩
  | append_singleton siblings sibling ih =>
    obtain ⟨left, right, hashed, mem, onward⟩ := fold_append index start sibling siblings
    have shorter := foldStrings_append index start sibling siblings
    rw [hashed] at same
    cases tree with
    | leaf digest => exact absurd same (apart [] digest rfl _ mem)
    | join leftTree rightTree =>
      have below := children_eq free (List.mem_append_right _ mem)
        (List.mem_append_left _ List.mem_cons_self) same
      have side : ∃ goesRight, fold index start siblings =
          (leftTree.child rightTree goesRight).root := by
        rcases onward with isLeft | isRight
        · exact ⟨false, isLeft.symm.trans below.1⟩
        · exact ⟨true, isRight.symm.trans below.2⟩
      obtain ⟨goesRight, same⟩ := side
      have free : CollisionFree
          ((leftTree.child rightTree goesRight).strings ++ foldStrings index start siblings) :=
        free.mono fun string mem => (List.mem_append.mp mem).elim
          (fun mem => List.mem_append_left _ (HashTree.strings_child _ _ goesRight string mem))
          (fun mem => List.mem_append_right _ (shorter string mem))
      obtain ⟨way, sub, long, reached, found⟩ := ih (leftTree.child rightTree goesRight) free
        (fun way digest reached string mem =>
          apart (goesRight :: way) digest reached string (shorter string mem)) same
      refine ⟨goesRight :: way, sub, ?_, reached, found⟩
      simp only [List.length_cons, List.length_append, List.length_nil, long]

namespace HashTree

/-- The tree above a tree without a partner. -/
def close : OddPolicy → HashTree → HashTree
  | .carry, last => last
  | .duplicate, last => join last last

/-- The trees above a level of trees. -/
def parentTrees (policy : OddPolicy) : List HashTree → List HashTree
  | left :: right :: rest => join left right :: parentTrees policy rest
  | [last] => [close policy last]
  | [] => []

theorem length_parentTrees (policy : OddPolicy) (trees : List HashTree) :
    (parentTrees policy trees).length = (trees.length + 1) / 2 := by
  induction trees using parentTrees.induct with
  | case1 left right rest ih => simp only [parentTrees, List.length_cons, ih]; omega
  | case2 last => simp only [parentTrees, List.length_cons, List.length_nil]
  | case3 => rfl

/-- The tree that a level of trees grows into. -/
def top? (policy : OddPolicy) (trees : List HashTree) : Option HashTree :=
  if trees.length ≤ 1 then trees.head? else top? policy (parentTrees policy trees)
termination_by trees.length
decreasing_by
  rw [length_parentTrees]
  omega

theorem top?_isSome (policy : OddPolicy) (trees : List HashTree) (nonempty : trees ≠ []) :
    ∃ tree, top? policy trees = some tree := by
  induction trees using top?.induct policy with
  | case1 trees narrow =>
    match trees, nonempty with
    | first :: rest, _ => exact ⟨first, by rw [top?, if_pos narrow]; rfl⟩
  | case2 trees wide ih =>
    rw [top?, if_neg wide]
    apply ih
    intro gone
    have width := length_parentTrees policy trees
    rw [gone] at width
    simp only [List.length_nil] at width
    omega

theorem root_close (policy : OddPolicy) (last : HashTree) :
    (close policy last).root = policy.close last.root := by
  cases policy <;> rfl

theorem map_root_parentTrees (policy : OddPolicy) (trees : List HashTree) :
    (parentTrees policy trees).map root = parents policy (trees.map root) := by
  induction trees using parentTrees.induct with
  | case1 left right rest ih => simp only [parentTrees, parents, List.map_cons, root, ih]
  | case2 last => simp only [parentTrees, parents, List.map_cons, List.map_nil, root_close]
  | case3 => rfl

theorem root_of_top? (policy : OddPolicy) (trees : List HashTree) (tree : HashTree)
    (grown : top? policy trees = some tree) : tree.root = rootOf policy (trees.map root) := by
  induction trees using top?.induct policy with
  | case1 trees narrow =>
    rw [top?, if_pos narrow] at grown
    match trees, narrow with
    | [single], _ =>
      cases Option.some.inj grown
      exact (rootOf_singleton policy _).symm
  | case2 trees wide ih =>
    rw [top?, if_neg wide] at grown
    have several : 2 ≤ (trees.map root).length := by
      rw [List.length_map]
      omega
    rw [ih grown, map_root_parentTrees, rootOf_parents policy _ several]

/-- The trees of the level above hash what the trees below hash and the strings of their roots. -/
theorem strings_of_parentTrees (policy : OddPolicy) (trees : List HashTree) (above : HashTree)
    (mem : above ∈ parentTrees policy trees) : ∀ string ∈ above.strings,
      string ∈ parentStrings policy (trees.map root) ∨ ∃ tree ∈ trees, string ∈ tree.strings := by
  induction trees using parentTrees.induct with
  | case1 left right rest ih =>
    intro string hashed
    rcases List.mem_cons.mp mem with first | later
    · subst first
      rcases List.mem_cons.mp hashed with atTop | below
      · exact Or.inl (atTop ▸ List.mem_cons_self)
      · rcases List.mem_append.mp below with inLeft | inRight
        · exact Or.inr ⟨left, by simp, inLeft⟩
        · exact Or.inr ⟨right, by simp, inRight⟩
    · rcases ih later string hashed with atTop | ⟨tree, among, below⟩
      · exact Or.inl (List.mem_cons_of_mem _ atTop)
      · exact Or.inr ⟨tree, by simp [among], below⟩
  | case2 last =>
    intro string hashed
    cases List.mem_singleton.mp mem
    cases policy with
    | carry => exact Or.inr ⟨last, List.mem_cons_self, hashed⟩
    | duplicate =>
      rcases List.mem_cons.mp hashed with atTop | below
      · exact Or.inl (atTop ▸ List.mem_cons_self)
      · exact Or.inr ⟨last, List.mem_cons_self, (List.mem_append.mp below).elim id id⟩
  | case3 => cases mem

/-- What a tree over a level of trees hashes: the strings of the levels above, and what the trees
of the level hash themselves. -/
theorem strings_of_top? (policy : OddPolicy) (trees : List HashTree) (tree : HashTree)
    (grown : top? policy trees = some tree) : ∀ string ∈ tree.strings,
      string ∈ treeStrings policy (trees.map root) ∨ ∃ part ∈ trees, string ∈ part.strings := by
  induction trees using top?.induct policy with
  | case1 trees narrow =>
    rw [top?, if_pos narrow] at grown
    exact fun string mem => Or.inr ⟨tree, List.mem_of_mem_head? grown, mem⟩
  | case2 trees wide ih =>
    rw [top?, if_neg wide] at grown
    have several : 2 ≤ (trees.map root).length := by
      rw [List.length_map]
      omega
    intro string mem
    rw [treeStrings_eq policy _ several, List.mem_append]
    rcases ih grown string mem with high | ⟨above, among, low⟩
    · rw [map_root_parentTrees] at high
      exact Or.inl (Or.inr high)
    · rcases strings_of_parentTrees policy trees above among string low with here | below
      · exact Or.inl (Or.inl here)
      · exact Or.inr below

/-- The tree over some leaves has their root and hashes no other strings. -/
theorem exists_tree_over (policy : OddPolicy) (leaves : List Digest) (nonempty : leaves ≠ []) :
    ∃ tree, top? policy (leaves.map leaf) = some tree ∧ tree.root = rootOf policy leaves ∧
      ∀ string ∈ tree.strings, string ∈ treeStrings policy leaves := by
  have roots : (leaves.map leaf).map root = leaves := by
    rw [List.map_map]
    exact List.map_id leaves
  obtain ⟨tree, grown⟩ := top?_isSome policy (leaves.map leaf) (by simpa using nonempty)
  refine ⟨tree, grown, ?_, ?_⟩
  · rw [root_of_top? policy _ tree grown, roots]
  · intro string mem
    rcases strings_of_top? policy _ tree grown string mem with high | ⟨part, among, low⟩
    · rwa [roots] at high
    · obtain ⟨digest, _, same⟩ := List.mem_map.mp among
      subst same
      cases low

end HashTree

end HeaderRelay.Merkle
