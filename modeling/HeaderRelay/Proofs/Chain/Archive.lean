import Mathlib
import HeaderRelay.Proofs.Chain.ChallengeWindow
import HeaderRelay.Proofs.Merkle.TransactionProof
import HeaderRelay.Proofs.Merkle.TreePath

set_option autoImplicit false

namespace HeaderRelay

namespace Merkle

/-- A state accepts the path that the tree over its history gives for a leaf. -/
theorem exists_includesBlock (leaves : List Digest) (state : ChainState)
    (history : state.history = Accumulator.ofLeaves leaves) (position : Nat) (leaf : Digest)
    (there : leaves[position]? = some leaf) :
    ∃ path, (Tree.ofLeaves .carry leaves).prove position = .ok path ∧
      path.root leaf = rootOf .carry leaves ∧
      state.includesBlock leaf position path.siblings = true := by
  obtain ⟨path, proved, reached, named⟩ := exists_prove .carry leaves position leaf there
  have root := Accumulator.root_of_slots _ leaves (Accumulator.slots_ofLeaves leaves)
  refine ⟨path, proved, reached, ?_⟩
  rw [ChainState.includesBlock, history, Accumulator.leafCount_ofLeaves, root, named]
  exact decide_eq_true reached

end Merkle

namespace ChainState

/-- The blocks that the accepted submissions of a run confirm, in order; as in a chronicle, except
that each submission may come under other parameters. -/
inductive Archive (start : ChainState) : List Submission → List Promotion → ChainState → Prop
  | start : Archive start [] [] start
  | accept {params : Params} {accepted : List Submission} {promotions more : List Promotion}
      {state grown next : ChainState} {submission : Submission} {count : Nat}
      (before : Archive start accepted promotions state)
      (accepts : state.outcome params submission = .ok (.accepted next count))
      (absorbs : state.absorbAll submission.interval params submission.headers = .ok grown)
      (promotes : Promotes submission.interval params grown more next) :
      Archive start (accepted ++ [submission]) (promotions ++ more) next

variable {params : Params} {interval : Interval} {start state next grown final : ChainState}
  {accepted : List Submission} {promotions : List Promotion} {header : Header} {branch : Branch}
  {submission : Submission}

theorem Reaches.exists_archive {allowed : Params → Prop}
    (reached : Reaches allowed start accepted state) :
    ∃ promotions, Archive start accepted promotions state := by
  induction reached with
  | start => exact ⟨[], Archive.start⟩
  | accept permitted reached accepts ih =>
    obtain ⟨promotions, before⟩ := ih
    obtain ⟨grown, more, absorbs, promotes, _⟩ := exists_promotes_of_outcome accepts
    exact ⟨promotions ++ more, Archive.accept before accepts absorbs promotes⟩

theorem Archive.history_eq (archive : Archive start accepted promotions state) :
    state.history = (promotions.map fun promotion => promotion.record.hash).foldl
      Merkle.Accumulator.append start.history := by
  induction archive with
  | start => rfl
  | accept before accepts absorbs promotes ih =>
    rw [promotes.history_eq, (confirmed_of_absorbAll absorbs).2, ih, List.map_append,
      List.foldl_append]

/-- A hash is that of a header in one of some submissions. -/
def Carried (accepted : List Submission) (blockHash : Digest) : Prop :=
  ∃ submission ∈ accepted, ∃ header, submission.Carries header ∧ header.hash = blockHash

theorem Carried.append {blockHash : Digest} (carried : Carried accepted blockHash) :
    Carried (accepted ++ [submission]) blockHash := by
  obtain ⟨other, mem, made⟩ := carried
  exact ⟨other, List.mem_append_left _ mem, made⟩

/-- The branches are in order, each is named by its newest block, and all blocks are of submitted
headers. It does not matter here on what the branches stand. -/
structure Traced (accepted : List Submission) (state : ChainState) : Prop where
  ordered : Branch.Ordered state.forks
  named : Branch.Named state.forks
  carried : ∀ record ∈ state.records, Carried accepted record.hash

namespace Traced

theorem append (traced : state.Traced accepted) : state.Traced (accepted ++ [submission]) where
  ordered := traced.ordered
  named := traced.named
  carried := fun record mem => (traced.carried record mem).append

theorem absorb (traced : state.Traced accepted) (carried : Carried accepted header.hash)
    (absorbs : state.absorb header interval params = .ok next) : next.Traced accepted := by
  have absorbed := absorbed_of_absorb traced.ordered traced.named absorbs
  refine ⟨absorbed.ordered, absorbed.forall_branch traced.named ?_, ?_⟩
  · intro tip record others branch made place
    cases place <;> rfl
  · intro record mem
    rcases absorbed.of_mem_records mem with old | ⟨_, same, _⟩
    · exact traced.carried record old
    · rw [same]
      exact carried

theorem absorbAll (traced : state.Traced accepted)
    (absorbs : state.absorbAll submission.interval params submission.headers = .ok grown) :
    grown.Traced (accepted ++ [submission]) := by
  refine absorbAll_induction (motive := fun state => state.Traced (accepted ++ [submission])) ?_
    traced.append absorbs
  intro state header next mem traced attaches
  refine traced.absorb ?_ attaches
  exact ⟨submission, List.mem_append_right _ List.mem_cons_self, header,
    Submission.carries_of_mem mem, rfl⟩

theorem promoteOldest (traced : state.Traced accepted) (mem : branch ∈ state.forks) :
    (state.promoteOldest branch).Traced accepted := by
  refine ⟨(forks_promoteOldest_subperm state branch).1, ?_, fun record there =>
    traced.carried record (records_promoteOldest_subset mem there)⟩
  intro other there
  rcases mem_forks_promoteOldest there with short | old
  · rw [short.tipHash, short.newest, traced.named branch mem]
  · exact traced.named other old

theorem promotes (traced : state.Traced accepted)
    (promotes : Promotes interval params state promotions final) :
    final.Traced accepted ∧
      ∀ promotion ∈ promotions, Carried accepted promotion.record.hash := by
  induction promotes with
  | refl state => exact ⟨traced, List.forall_mem_nil _⟩
  | @step state final branch promotions wins rest ih =>
    have mem := (mem_of_winner? wins).1
    obtain ⟨after, later⟩ := ih (traced.promoteOldest mem)
    exact ⟨after, List.forall_mem_cons.mpr
      ⟨traced.carried branch.oldest (oldest_mem mem), later⟩⟩

end Traced

/-- Each block of an archive is that of a submitted header. -/
theorem Archive.carried (archive : Archive start accepted promotions state)
    (bare : start.forks = []) :
    state.Traced accepted ∧
      ∀ promotion ∈ promotions, Carried accepted promotion.record.hash := by
  induction archive with
  | start =>
    refine ⟨⟨?_, ?_, ?_⟩, List.forall_mem_nil _⟩
    · rw [bare]
      exact List.Pairwise.nil
    · rw [Branch.Named, bare]
      exact List.forall_mem_nil _
    · rw [records, bare]
      exact List.forall_mem_nil _
  | @accept params accepted promotions more state grown next submission count before accepts
      absorbs promotes ih =>
    obtain ⟨traced, earlier⟩ := ih
    obtain ⟨after, later⟩ := (traced.absorbAll absorbs).promotes promotes
    exact ⟨after, List.forall_mem_append.mpr
      ⟨fun promotion mem => (earlier promotion mem).append, later⟩⟩

/-- In every state that accepted submissions lead to from a trusted block, each confirmed block can
be proved: the tree over the hashes that were confirmed so far gives the path of each of them, and
the path leads from it to their root and the state accepts its siblings. Each block but the first is
that of a submitted header. With the header of a block goes a proof of each transaction of the
block, which leads to the root in the header. -/
theorem confirmed_blocks_provable (seed : Seed) (seedParams : Params) (initial : ChainState)
    (started : seed.start seedParams = .ok initial) (accepted : List Submission)
    (state : ChainState) (reached : Reaches (fun _ => True) initial accepted state) :
    (∃ promotions, Archive initial accepted promotions state) ∧
      ∀ promotions, Archive initial accepted promotions state →
        let hashes := seed.hash :: promotions.map fun promotion => promotion.record.hash
        ∀ index : Fin hashes.length,
          (0 < (index : Nat) → Carried accepted (hashes.get index)) ∧
          ∃ path, (Merkle.Tree.ofLeaves .carry hashes).prove (index : Nat) = .ok path ∧
            path.root (hashes.get index) = Merkle.rootOf .carry hashes ∧
            state.includesBlock (hashes.get index) (index : Nat) path.siblings = true ∧
            ∀ rawHeader header, Header.ofWire rawHeader = .ok header →
              header.hash = hashes.get index →
              ∀ txids, Merkle.rootOf .duplicate txids = header.merkleRoot →
              ∀ place : Fin txids.length,
                ∃ txPath, (Merkle.Tree.ofLeaves .duplicate txids).prove (place : Nat) =
                    .ok txPath ∧
                  txPath.root (txids.get place) = header.merkleRoot ∧
                  state.includesTransaction (txids.get place) txPath (index : Nat)
                    path.siblings rawHeader = true := by
  refine ⟨reached.exists_archive, ?_⟩
  intro promotions archive hashes index
  have history : state.history = Merkle.Accumulator.ofLeaves hashes := by
    rw [archive.history_eq, Seed.eq_unchecked_of_start started]
    rfl
  constructor
  · obtain ⟨_ | place, within⟩ := index
    · exact fun positive => absurd positive (Nat.lt_irrefl 0)
    · intro _
      have mem : hashes[place + 1] ∈
          promotions.map fun promotion => promotion.record.hash :=
        List.getElem_mem (Nat.lt_of_succ_lt_succ within)
      obtain ⟨promotion, there, same⟩ := List.mem_map.mp mem
      have made := (archive.carried (Seed.forks_of_start started)).2 promotion there
      rw [same] at made
      exact made
  · obtain ⟨path, proved, leads, included⟩ := Merkle.exists_includesBlock hashes state history
      index (hashes.get index) (List.getElem?_eq_getElem index.isLt)
    refine ⟨path, proved, leads, included, ?_⟩
    intro rawHeader header read same txids committed place
    obtain ⟨txPath, txProved, reached, _⟩ := Merkle.exists_prove .duplicate txids place
      (txids.get place) (List.getElem?_eq_getElem place.isLt)
    have committedTo : txPath.root (txids.get place) = header.merkleRoot :=
      reached.trans committed
    refine ⟨txPath, txProved, committedTo, ?_⟩
    rw [Merkle.includesTransaction_eq_true_iff]
    refine ⟨header, read, ?_, committedTo⟩
    rw [same]
    exact included

end ChainState

namespace Sample

/-- The header of a block of three transactions. -/
def funded : Header :=
  { childOf origin.hash 1300000001 0 with merkleRoot := Merkle.rootOf .duplicate Merkle.threeLeaves }

def afterFunded : Header := childOf funded.hash 1300000002 0

end Sample

namespace ChainState

theorem confirmed_blocks_provable_funded :
    let initial := Sample.origin.unchecked Sample.hasty
    let submission := Sample.submit [Sample.funded, Sample.afterFunded]
    let state := initial.submit Sample.hasty submission
    Sample.origin.start Sample.hasty = .ok initial ∧
      Reaches (fun _ => True) initial [submission] state ∧
      Merkle.rootOf .duplicate Merkle.threeLeaves = Sample.funded.merkleRoot ∧
      ∃ path txPath : Merkle.Path,
        (Merkle.Tree.ofLeaves .carry [Sample.origin.hash, Sample.funded.hash]).prove 1 =
            .ok path ∧
          path.root Sample.funded.hash =
            Merkle.rootOf .carry [Sample.origin.hash, Sample.funded.hash] ∧
          state.includesBlock Sample.funded.hash 1 path.siblings = true ∧
          (Merkle.Tree.ofLeaves .duplicate Merkle.threeLeaves).prove 2 = .ok txPath ∧
          txPath.root (Merkle.repeated 3) = Sample.funded.merkleRoot ∧
          state.includesTransaction (Merkle.repeated 3) txPath 1 path.siblings
            Sample.funded.wire = true := by
  intro initial submission state
  obtain ⟨started, accepts, tip⟩ : Sample.origin.start Sample.hasty = .ok initial ∧
      initial.outcome Sample.hasty submission = .ok (.accepted state 1) ∧
      state.confirmed.tipHash = Sample.funded.hash := by
    decide +kernel
  have reached : Reaches (fun _ => True) initial [submission] state :=
    (Run.start.accept accepts).reaches trivial
  obtain ⟨_, promotions, absorbs, promotes, length⟩ := exists_promotes_of_outcome accepts
  obtain ⟨promotion, rfl⟩ := List.length_eq_one_iff.mp length
  have archive : Archive initial [submission] [promotion] state :=
    Archive.start.accept accepts absorbs promotes
  have hash : promotion.record.hash = Sample.funded.hash := by
    rw [promotes.confirmed_eq] at tip
    exact tip
  obtain ⟨_, path, proved, leads, included, transactions⟩ :=
    (confirmed_blocks_provable Sample.origin Sample.hasty initial started [submission] state
      reached).2 [promotion] archive ⟨1, Nat.lt_add_one 1⟩
  obtain ⟨txPath, txProved, txLeads, txIncluded⟩ := transactions Sample.funded.wire Sample.funded
    (Header.ofWire_wire Sample.funded) hash.symm Merkle.threeLeaves rfl ⟨2, Nat.lt_add_one 2⟩
  rw [← hash]
  exact ⟨started, reached, rfl, path, txPath, proved, leads, included, txProved, txLeads,
    txIncluded⟩

end ChainState

end HeaderRelay
