import Mathlib
import HeaderRelay.Inclusion
import HeaderRelay.Proofs.HeaderWire
import HeaderRelay.Proofs.Merkle.BlockProof

set_option autoImplicit false

namespace HeaderRelay.Merkle

/-- A proof is accepted exactly when the header is read, its block is confirmed, and the path leads
from the transaction to the root in the header. -/
theorem includesTransaction_eq_true_iff (state : ChainState) (txHash : Digest) (path : Path)
    (index : Int) (siblings : List Digest) (rawHeader : Bytes) :
    state.includesTransaction txHash path index siblings rawHeader = true ↔
      ∃ header, Header.ofWire rawHeader = .ok header ∧
        state.includesBlock header.hash index siblings = true ∧
        path.root txHash = header.merkleRoot := by
  rw [ChainState.includesTransaction]
  cases read : Header.ofWire rawHeader with
  | error cause => simp
  | ok header => simp [Path.verify, verifies, Path.root]

/-- A header has another hash than the string of two nodes, for it is longer. -/
theorem hash_ne_of_sized {strings : List Bytes} (free : CollisionFree strings)
    {string rawHeader : Bytes} (mem : string ∈ strings) (mem' : rawHeader ∈ strings)
    (short : string.length = 64) (long : rawHeader.length = Header.size) :
    doubleSha256 string ≠ doubleSha256 rawHeader := by
  intro clash
  rw [free string mem rawHeader mem' clash, long] at short
  cases short

/-- Where the history is that of some headers, an accepted proof of a transaction comes with one of
these headers, and its path leads to the root there. The proof of the block may have any length. -/
theorem header_mem_of_includesTransaction (headers : List Bytes)
    (sized : ∀ header ∈ headers, header.length = Header.size) (state : ChainState)
    (history : state.history = Accumulator.ofLeaves (headers.map doubleSha256))
    (txHash : Digest) (path : Path) (index : Int) (siblings : List Digest) (rawHeader : Bytes)
    (free : CollisionFree (headers ++ rawHeader ::
      (treeStrings .carry (headers.map doubleSha256) ++
        blockProofStrings headers.length index (doubleSha256 rawHeader) siblings)))
    (accepted : state.includesTransaction txHash path index siblings rawHeader = true) :
    rawHeader ∈ headers ∧
      ∃ header, Header.ofWire rawHeader = .ok header ∧ path.root txHash = header.merkleRoot := by
  obtain ⟨header, read, confirmed, reached⟩ :=
    (includesTransaction_eq_true_iff state txHash path index siblings rawHeader).mp accepted
  refine ⟨?_, header, read, reached⟩
  rw [Header.hash_of_ofWire read] at confirmed
  obtain ⟨lower, upper, strings, same⟩ := fold_of_includesBlock (headers.map doubleSha256) state
    history (doubleSha256 rawHeader) index siblings confirmed
  rw [List.length_map] at upper strings same
  rw [strings] at free
  generalize ((bitsValue (carriedBits index.toNat headers.length) : Nat) : Int) = pathIndex
    at free same
  have nonempty : headers.map doubleSha256 ≠ [] := by
    intro none
    rw [List.map_eq_nil_iff.mp none, List.length_nil] at upper
    omega
  have apart : ∀ leaf ∈ headers.map doubleSha256,
      ∀ string ∈ foldStrings pathIndex (doubleSha256 rawHeader) siblings,
        doubleSha256 string ≠ leaf := by
    intro leaf mem string folded
    obtain ⟨other, among, hashed⟩ := List.mem_map.mp mem
    rw [← hashed]
    exact hash_ne_of_sized free (by simp [folded]) (by simp [among])
      (length_of_mem_foldStrings _ _ _ string folded) (sized other among)
  have shorter : CollisionFree (treeStrings .carry (headers.map doubleSha256) ++
      foldStrings pathIndex (doubleSha256 rawHeader) siblings) := by
    apply free.mono
    intro string mem
    exact List.mem_append_right _ (List.mem_cons_of_mem _ mem)
  have began := leaf_or_join_of_fold (headers.map doubleSha256) nonempty pathIndex _ siblings
    shorter apart same
  rcases began with ⟨position, there, _⟩ | ⟨left, right, inTree, clash⟩
  · obtain ⟨other, among, hashed⟩ := List.mem_map.mp (List.mem_of_getElem? there)
    rw [← free other (by simp [among]) rawHeader (by simp) hashed]
    exact among
  · have differ : doubleSha256 (nodeString left right) ≠ doubleSha256 rawHeader :=
      hash_ne_of_sized free (by simp [inTree]) (by simp) (length_nodeString left right)
        (Header.length_of_ofWire read)
    exact absurd clash differ

/-- The header of a block whose only transaction has a given digest. -/
def loneHeader (prevHash : Digest) (timestamp : BitVec 32) (txid : Digest) : Header :=
  ⟨4, prevHash, txid, timestamp, 0x207FFFFF, 0⟩

def trustedHeader : Header := loneHeader Digest.zero 10 (repeated 1)

/-- The headers of two blocks, of which the second one follows the first. -/
def twoHeaders : List Bytes :=
  [trustedHeader.wire, (loneHeader trustedHeader.hash 30 (repeated 2)).wire]

def stateOf (leaves : List Digest) (tip : Digest) : ChainState where
  confirmed := ⟨1, 0x207FFFFF, 30, [30, 10], 10, tip⟩
  history := Accumulator.ofLeaves leaves
  forks := []

theorem first_header_confirmed :
    let state := stateOf (twoHeaders.map doubleSha256)
      (loneHeader trustedHeader.hash 30 (repeated 2)).hash
    let siblings := [(loneHeader trustedHeader.hash 30 (repeated 2)).hash]
    (∀ header ∈ twoHeaders, header.length = Header.size) ∧
      state.history = Accumulator.ofLeaves (twoHeaders.map doubleSha256) ∧
      CollisionFree (twoHeaders ++ trustedHeader.wire ::
        (treeStrings .carry (twoHeaders.map doubleSha256) ++
          blockProofStrings twoHeaders.length 0 (doubleSha256 trustedHeader.wire) siblings)) ∧
      state.includesTransaction (repeated 1) ⟨0, []⟩ 0 siblings trustedHeader.wire = true ∧
      trustedHeader.wire ∈ twoHeaders := by
  intro state siblings
  have sized : ∀ header ∈ twoHeaders, header.length = Header.size := by
    simp [twoHeaders, Header.length_wire]
  obtain ⟨free, accepted⟩ :
      CollisionFree (twoHeaders ++ trustedHeader.wire ::
          (treeStrings .carry (twoHeaders.map doubleSha256) ++
            blockProofStrings twoHeaders.length 0 (doubleSha256 trustedHeader.wire) siblings)) ∧
        state.includesTransaction (repeated 1) ⟨0, []⟩ 0 siblings trustedHeader.wire = true := by
    decide +kernel
  have confirmed := header_mem_of_includesTransaction twoHeaders sized state rfl (repeated 1)
    ⟨0, []⟩ 0 siblings trustedHeader.wire free accepted
  exact ⟨sized, rfl, free, accepted, confirmed.1⟩

/-- A fold that ends at the root of a tree of transactions, with one sibling for each level above
the leaves, began at a leaf. -/
theorem leaf_of_fold_duplicate (level : List Digest) (nonempty : level ≠ []) (index : Int)
    (start : Digest) (siblings : List Digest)
    (fits : siblings.length + 1 = (levelsFrom .duplicate level).length)
    (free : CollisionFree (treeStrings .duplicate level ++ foldStrings index start siblings))
    (same : fold index start siblings = rootOf .duplicate level) : start ∈ level := by
  induction level using level_induction .duplicate generalizing index start siblings with
  | nil => exact absurd rfl nonempty
  | single node =>
    rw [levelsFrom_narrow _ _ (by simp)] at fits
    cases siblings with
    | cons sibling rest => simp at fits
    | nil =>
      rw [rootOf_singleton] at same
      exact List.mem_singleton.mpr same
  | step level several ih =>
    rw [levelsFrom_several .duplicate level several, List.length_cons] at fits
    cases siblings with
    | nil =>
      have above := length_levelsFrom_pos .duplicate (parents .duplicate level)
      simp only [List.length_nil] at fits
      omega
    | cons sibling rest =>
      obtain ⟨left, right, onward, strings, side⟩ := fold_cons index start sibling rest
      rw [onward, ← rootOf_parents .duplicate level several] at same
      rw [strings] at free
      have above := parents_ne_nil .duplicate level nonempty
      -- the node above stands among the parents, so its two children stand in the level
      have reached := ih above (index / 2) (hashNodes left right) rest (Nat.succ.inj fits)
        (collisionFree_parents several free).tail same
      obtain ⟨left', inLeft, right', inRight, hashed, string⟩ :=
        mem_parents_duplicate level _ reached
      have children := children_eq free (by simp)
        (List.mem_append_left _ (by
          rw [treeStrings_eq .duplicate level several]
          exact List.mem_append_left _ string)) hashed
      rcases side with isLeft | isRight
      · rw [isLeft, children.1]
        exact inLeft
      · rw [isRight, children.2]
        exact inRight

/-- A fold that ends at the root of a tree of transactions began on the level that its number of
siblings gives. -/
theorem level_of_fold_duplicate (level : List Digest) (nonempty : level ≠ []) (index : Int)
    (start : Digest) (siblings : List Digest) (depth : Nat)
    (fits : siblings.length + depth + 1 = (levelsFrom .duplicate level).length)
    (free : CollisionFree (treeStrings .duplicate level ++ foldStrings index start siblings))
    (same : fold index start siblings = rootOf .duplicate level) :
    ∃ nodes, (levelsFrom .duplicate level)[depth]? = some nodes ∧ start ∈ nodes := by
  induction depth generalizing level with
  | zero =>
    exact ⟨level, levelsFrom_getElem?_zero _ level,
      leaf_of_fold_duplicate level nonempty index start siblings fits free same⟩
  | succ depth ih =>
    have several := several_of_levels .duplicate level (by omega)
    rw [levelsFrom_several .duplicate level several, List.length_cons] at fits
    rw [← rootOf_parents .duplicate level several] at same
    have above := parents_ne_nil .duplicate level nonempty
    rw [levelsFrom_several .duplicate level several]
    exact ih (parents .duplicate level) above (by omega) (collisionFree_parents several free) same

/-- A fold with more siblings than there are levels above the leaves went through the hash of a
string that is a leaf. -/
theorem hashed_leaf_of_fold_duplicate (level : List Digest) (nonempty : level ≠ []) (index : Int)
    (start : Digest) (siblings : List Digest)
    (long : (levelsFrom .duplicate level).length ≤ siblings.length)
    (free : CollisionFree (treeStrings .duplicate level ++ foldStrings index start siblings))
    (same : fold index start siblings = rootOf .duplicate level) :
    ∃ string ∈ foldStrings index start siblings, doubleSha256 string ∈ level := by
  induction siblings generalizing index start with
  | nil =>
    have some := length_levelsFrom_pos .duplicate level
    simp only [List.length_nil] at long
    omega
  | cons sibling rest ih =>
    obtain ⟨left, right, onward, strings, _⟩ := fold_cons index start sibling rest
    rw [onward] at same
    rw [strings] at free ⊢
    have shorter := free.tail
    by_cases fits : rest.length + 1 = (levelsFrom .duplicate level).length
    · exact ⟨nodeString left right, List.mem_cons_self,
        leaf_of_fold_duplicate level nonempty _ _ rest fits shorter same⟩
    · obtain ⟨string, mem, leaf⟩ :=
        ih _ _ (by rw [List.length_cons] at long; omega) shorter same
      exact ⟨string, List.mem_cons_of_mem _ mem, leaf⟩

/-- Each node above the leaves is the hash of a string that is hashed for the tree. -/
theorem hashed_of_upper_level (level : List Digest) (depth : Nat) (nodes : List Digest)
    (there : (levelsFrom .duplicate level)[depth + 1]? = some nodes) (node : Digest)
    (mem : node ∈ nodes) : ∃ string ∈ treeStrings .duplicate level, doubleSha256 string = node := by
  induction depth generalizing level with
  | zero =>
    have several := several_of_levels .duplicate level (List.getElem?_eq_some_iff.mp there).1
    rw [levelsFrom_several .duplicate level several, List.getElem?_cons_succ,
      levelsFrom_getElem?_zero] at there
    cases there
    obtain ⟨left, _, right, _, hashed, string⟩ := mem_parents_duplicate level node mem
    rw [treeStrings_eq .duplicate level several]
    exact ⟨_, List.mem_append_left _ string, hashed.symm⟩
  | succ depth ih =>
    have inside := (List.getElem?_eq_some_iff.mp there).1
    have several := several_of_levels .duplicate level (by omega)
    rw [levelsFrom_several .duplicate level several, List.getElem?_cons_succ] at there
    obtain ⟨string, hashed, same⟩ := ih (parents .duplicate level) there
    rw [treeStrings_eq .duplicate level several]
    exact ⟨string, List.mem_append_right _ hashed, same⟩

/-- A fold that ends at the root of a tree of transactions, and began at one of them, has one
sibling for each level above, provided that no transaction is the hash of a string at hand. -/
theorem length_of_fold_duplicate (level : List Digest) (nonempty : level ≠ []) (index : Int)
    (start : Digest) (siblings : List Digest)
    (free : CollisionFree (treeStrings .duplicate level ++ foldStrings index start siblings))
    (apart : ∀ leaf ∈ level,
      ∀ string ∈ treeStrings .duplicate level ++ foldStrings index start siblings,
        doubleSha256 string ≠ leaf)
    (mem : start ∈ level) (same : fold index start siblings = rootOf .duplicate level) :
    siblings.length + 1 = (levelsFrom .duplicate level).length := by
  by_contra unfit
  by_cases long : (levelsFrom .duplicate level).length ≤ siblings.length
  · obtain ⟨string, folded, leaf⟩ :=
      hashed_leaf_of_fold_duplicate level nonempty index start siblings long free same
    exact apart _ leaf string (List.mem_append_right _ folded) rfl
  · have fewer : siblings.length + 1 < (levelsFrom .duplicate level).length := by omega
    obtain ⟨depth, deep⟩ := Nat.exists_eq_add_of_lt fewer
    obtain ⟨nodes, there, among⟩ := level_of_fold_duplicate level nonempty index start siblings
      (depth + 1) (by omega) free same
    obtain ⟨string, hashed, clash⟩ := hashed_of_upper_level level depth nodes there start among
    exact apart start mem string (List.mem_append_left _ hashed) clash

/-- Where a header holds the root of some transactions, an accepted proof begins on the level of
their tree that its number of siblings gives: at a transaction when there is a sibling for each
level above the transactions, at an inner node when there are fewer. With more siblings it went
through a transaction that is itself the hash of two nodes. So, as long as no transaction is such a
hash, the proof is about a transaction exactly when it has a sibling for each level. -/
theorem includesTransaction_mem_iff_levels (txids : List Digest) (nonempty : txids ≠ [])
    (state : ChainState) (txHash : Digest) (path : Path) (index : Int) (siblings : List Digest)
    (rawHeader : Bytes) (header : Header) (read : Header.ofWire rawHeader = .ok header)
    (committed : header.merkleRoot = rootOf .duplicate txids)
    (free : CollisionFree
      (treeStrings .duplicate txids ++ foldStrings path.index txHash path.siblings))
    (accepted : state.includesTransaction txHash path index siblings rawHeader = true) :
    let levels := (Tree.ofLeaves .duplicate txids).levels
    (path.siblings.length + 1 = levels.length → txHash ∈ txids) ∧
      (∀ depth, path.siblings.length + depth + 1 = levels.length →
        ∃ nodes, levels[depth]? = some nodes ∧ txHash ∈ nodes) ∧
      (levels.length ≤ path.siblings.length →
        ∃ string ∈ foldStrings path.index txHash path.siblings, doubleSha256 string ∈ txids) ∧
      ((∀ txid ∈ txids, ∀ string ∈ treeStrings .duplicate txids ++
          foldStrings path.index txHash path.siblings, doubleSha256 string ≠ txid) →
        (txHash ∈ txids ↔ path.siblings.length + 1 = levels.length)) := by
  intro levels
  have grown : levels = levelsFrom .duplicate txids := levels_ofLeaves .duplicate txids nonempty
  have same : fold path.index txHash path.siblings = rootOf .duplicate txids := by
    obtain ⟨header', read', _, reached⟩ := (includesTransaction_eq_true_iff state txHash path index
      siblings rawHeader).mp accepted
    cases read.symm.trans read'
    exact reached.trans committed
  rw [grown]
  have atLeaf (fits : path.siblings.length + 1 = (levelsFrom .duplicate txids).length) :
      txHash ∈ txids :=
    leaf_of_fold_duplicate txids nonempty path.index txHash path.siblings fits free same
  refine ⟨atLeaf, ?_, ?_, ?_⟩
  · intro depth fits
    exact level_of_fold_duplicate txids nonempty path.index txHash path.siblings depth fits free same
  · intro long
    exact hashed_leaf_of_fold_duplicate txids nonempty path.index txHash path.siblings long free same
  · intro apart
    constructor
    · intro mem
      exact length_of_fold_duplicate txids nonempty path.index txHash path.siblings free apart mem
        same
    · exact atLeaf

def paidHeader : Header :=
  ⟨4, Digest.zero, rootOf .duplicate threeLeaves, 30, 0x207FFFFF, 0⟩

def paidState : ChainState := stateOf [paidHeader.hash] paidHeader.hash

/-- The path of the third transaction, which is paired with itself. -/
def thirdPath : Path := ⟨2, [repeated 3, hashNodes (repeated 1) (repeated 2)]⟩

theorem third_transaction_included :
    threeLeaves ≠ [] ∧ Header.ofWire paidHeader.wire = .ok paidHeader ∧
      paidHeader.merkleRoot = rootOf .duplicate threeLeaves ∧
      CollisionFree (treeStrings .duplicate threeLeaves ++
        foldStrings thirdPath.index (repeated 3) thirdPath.siblings) ∧
      paidState.includesTransaction (repeated 3) thirdPath 0 [] paidHeader.wire = true ∧
      (∀ txid ∈ threeLeaves, ∀ string ∈ treeStrings .duplicate threeLeaves ++
        foldStrings thirdPath.index (repeated 3) thirdPath.siblings,
        doubleSha256 string ≠ txid) ∧
      repeated 3 ∈ threeLeaves := by
  have nonempty : threeLeaves ≠ [] := List.cons_ne_nil _ _
  have read := Header.ofWire_wire paidHeader
  obtain ⟨free, accepted, apart, fits⟩ :
      CollisionFree (treeStrings .duplicate threeLeaves ++
          foldStrings thirdPath.index (repeated 3) thirdPath.siblings) ∧
        paidState.includesTransaction (repeated 3) thirdPath 0 [] paidHeader.wire = true ∧
        (∀ txid ∈ threeLeaves, ∀ string ∈ treeStrings .duplicate threeLeaves ++
          foldStrings thirdPath.index (repeated 3) thirdPath.siblings,
          doubleSha256 string ≠ txid) ∧
        thirdPath.siblings.length + 1 =
          (Tree.ofLeaves .duplicate threeLeaves).levels.length := by
    decide +kernel
  have levels := includesTransaction_mem_iff_levels threeLeaves nonempty paidState (repeated 3)
    thirdPath 0 [] paidHeader.wire paidHeader read rfl free accepted
  exact ⟨nonempty, read, rfl, free, accepted, apart, (levels.2.2.2 apart).mpr fits⟩

/-- The node above the first two of three transactions passes for a transaction: its only sibling is
the node above the third one. -/
theorem inner_node_included :
    threeLeaves ≠ [] ∧ Header.ofWire paidHeader.wire = .ok paidHeader ∧
      paidHeader.merkleRoot = rootOf .duplicate threeLeaves ∧
      CollisionFree (treeStrings .duplicate threeLeaves ++
        foldStrings 0 (hashNodes (repeated 1) (repeated 2))
          [hashNodes (repeated 3) (repeated 3)]) ∧
      paidState.includesTransaction (hashNodes (repeated 1) (repeated 2))
        ⟨0, [hashNodes (repeated 3) (repeated 3)]⟩ 0 [] paidHeader.wire = true ∧
      hashNodes (repeated 1) (repeated 2) ∉ threeLeaves := by
  refine ⟨List.cons_ne_nil _ _, Header.ofWire_wire paidHeader, rfl, ?_⟩
  decide +kernel

end HeaderRelay.Merkle
