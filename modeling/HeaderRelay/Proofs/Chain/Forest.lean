import Mathlib
import HeaderRelay.Proofs.Chain.Absorb
import HeaderRelay.Proofs.Chain.Run

set_option autoImplicit false

namespace HeaderRelay

/-- How a block may stand on a tip. -/
abbrev Link := Snapshot → BlockRecord → Prop

/-- A block names the tip on which it stands, and is not itself that tip. -/
structure Link.Proper (link : Link) : Prop where
  named : ∀ tip record, link tip record → record.prevHash = tip.tipHash
  apart : ∀ tip record, link tip record → record.hash ≠ record.prevHash

/-- The blocks of a branch stand on one another, and the oldest on a root. What the branch says of
itself is true. -/
structure Branch.Linked (link : Link) (root : Snapshot) (branch : Branch) : Prop where
  chain : branch.blocks.IsChain fun newer older => link older.tip newer
  rooted : link root branch.oldest
  tipHash : branch.tipHash = branch.newest.hash
  tipHeight : branch.tipHeight = branch.newest.height
  chainwork : branch.chainwork = (branch.blocks.map BlockRecord.work).sum

namespace Branch.Linked

variable {link : Link} {root : Snapshot} {branch remaining : Branch} {record : BlockRecord}

theorem single (linked : link root record) : (Branch.single record).Linked link root where
  chain := List.isChain_singleton record
  rooted := linked
  tipHash := rfl
  tipHeight := rfl
  chainwork := (List.sum_singleton).symm

theorem grow (standing : branch.Linked link root) (linked : link branch.newest.tip record) :
    (branch.grow record).Linked link root where
  chain := List.isChain_cons_cons.mpr ⟨linked, standing.chain⟩
  rooted := by
    have oldest : (branch.grow record).oldest = branch.oldest := by
      rw [← Option.some_inj, ← getLast?_blocks, ← getLast?_blocks]
      exact List.getLast?_cons_cons
    rw [oldest]
    exact standing.rooted
  tipHash := rfl
  tipHeight := rfl
  chainwork := by
    have total : ((branch.grow record).blocks.map BlockRecord.work).sum =
        record.work + (branch.blocks.map BlockRecord.work).sum := List.sum_cons
    rw [total, ← standing.chainwork, Int.add_comm]
    rfl

/-- What remains of a branch stands on the block that was detached. -/
theorem shorten (standing : branch.Linked link root) (short : branch.Shortened remaining) :
    remaining.Linked link branch.oldest.tip where
  chain := by
    have whole := standing.chain
    rw [short.blocks] at whole
    exact (List.isChain_append.mp whole).1
  rooted := by
    have whole := standing.chain
    rw [short.blocks] at whole
    exact (List.isChain_append.mp whole).2.2 remaining.oldest remaining.getLast?_blocks
      branch.oldest rfl
  tipHash := by rw [short.tipHash, short.newest, standing.tipHash]
  tipHeight := by rw [short.tipHeight, short.newest, standing.tipHeight]
  chainwork := by
    rw [short.chainwork, standing.chainwork, short.blocks, List.map_append, List.sum_append]
    simp only [List.map_cons, List.map_nil, List.sum_singleton, Int.add_sub_cancel]

theorem mono {other : Link} (standing : branch.Linked link root)
    (weaker : ∀ tip record, link tip record → other tip record) : branch.Linked other root where
  chain := standing.chain.imp fun newer older => weaker older.tip newer
  rooted := weaker _ _ standing.rooted
  tipHash := standing.tipHash
  tipHeight := standing.tipHeight
  chainwork := standing.chainwork

/-- Every block of a branch stands on something. -/
theorem exists_link (standing : branch.Linked link root) :
    ∀ record ∈ branch.blocks, ∃ tip, link tip record := by
  intro record mem
  obtain ⟨newer, older, split⟩ := List.append_of_mem mem
  cases older with
  | nil =>
    rw [← oldest_of_blocks split]
    exact ⟨root, standing.rooted⟩
  | cons next rest =>
    have whole := standing.chain
    rw [split] at whole
    exact ⟨next.tip, (List.isChain_cons_cons.mp (List.isChain_append.mp whole).2.1).1⟩

/-- Blocks without negative work make a branch without it. -/
theorem chainwork_nonneg (standing : branch.Linked link root)
    (works : ∀ tip record, link tip record → 0 ≤ record.work) : 0 ≤ branch.chainwork := by
  rw [standing.chainwork]
  apply List.sum_nonneg
  intro work mem
  obtain ⟨record, there, rfl⟩ := List.mem_map.mp mem
  obtain ⟨tip, linked⟩ := standing.exists_link record there
  exact works tip record linked

end Branch.Linked

namespace ChainState

def records (state : ChainState) : List BlockRecord := state.forks.flatMap Branch.blocks

/-- Each branch stands on the confirmed tip, the branches are in order, and no two records are of
the same block. -/
structure Forest (link : Link) (state : ChainState) : Prop where
  linked : ∀ branch ∈ state.forks, branch.Linked link state.confirmed
  ordered : Branch.Ordered state.forks
  unique : (state.records.map BlockRecord.hash).Nodup

variable {link : Link} {state next : ChainState} {header : Header} {interval : Interval}
  {params : Params} {branch : Branch}

theorem mem_records {record : BlockRecord} :
    record ∈ state.records ↔ ∃ branch ∈ state.forks, record ∈ branch.blocks :=
  List.mem_flatMap

theorem blocks_sublist_records (mem : branch ∈ state.forks) :
    branch.blocks.Sublist state.records :=
  List.sublist_flatten_of_mem (List.mem_map_of_mem mem)

theorem newest_mem (mem : branch ∈ state.forks) : branch.newest ∈ state.records :=
  mem_records.mpr ⟨branch, mem, List.mem_cons_self⟩

theorem oldest_mem (mem : branch ∈ state.forks) : branch.oldest ∈ state.records :=
  mem_records.mpr ⟨branch, mem, branch.oldest_mem_blocks⟩

theorem Forest.mono {other : Link} (forest : state.Forest link)
    (weaker : ∀ tip record, link tip record → other tip record) : state.Forest other where
  linked := fun branch mem => (forest.linked branch mem).mono weaker
  ordered := forest.ordered
  unique := forest.unique

/-- A state without branches is a forest of whatever kind. -/
theorem forest_of_bare (bare : state.forks = []) : state.Forest link := by
  refine ⟨?_, ?_, ?_⟩
  · rw [bare]
    exact List.forall_mem_nil _
  · rw [bare]
    exact List.Pairwise.nil
  · rw [records, bare]
    exact List.nodup_nil

theorem Forest.named (forest : state.Forest link) : Branch.Named state.forks :=
  fun branch mem => (forest.linked branch mem).tipHash

/-- A place adds its record to those of the other branches. -/
theorem Place.records_perm {record : BlockRecord} {tip : Snapshot} {others : List Branch}
    (place : Place state record tip others branch) (perm : next.forks.Perm (branch :: others)) :
    next.records.Perm (record :: state.records) := by
  refine (perm.flatMap_right Branch.blocks).trans ?_
  cases place with
  | extend parent others named split =>
    rw [records]
    exact ((split.flatMap_right Branch.blocks).cons record).symm
  | start named elsewhere => exact List.Perm.refl _

theorem Forest.absorb (forest : state.Forest link)
    (links : ∀ tip record, record.Extends tip header interval params → link tip record)
    (absorbs : state.absorb header interval params = .ok next) : next.Forest link := by
  have absorbed := absorbed_of_absorb forest.ordered forest.named absorbs
  refine ⟨?_, absorbed.ordered, ?_⟩
  · rw [absorbed.confirmed]
    refine absorbed.forall_branch forest.linked ?_
    intro tip record others branch made place
    have linked := links tip record made
    cases place with
    | extend parent others named split =>
      exact (forest.linked parent (split.mem_iff.mpr List.mem_cons_self)).grow linked
    | start named elsewhere => exact Branch.Linked.single linked
  · obtain ⟨tip, record, others, branch, made, place, perm⟩ := absorbed.placed
    have grown : (next.records.map BlockRecord.hash).Perm
        (record.hash :: state.records.map BlockRecord.hash) :=
      (place.records_perm perm).map BlockRecord.hash
    refine grown.nodup_iff.mpr (List.nodup_cons.mpr ⟨?_, forest.unique⟩)
    -- a record of the same block would have made the header a duplicate
    intro known
    obtain ⟨other, mem, same⟩ := List.mem_map.mp known
    obtain ⟨holder, held, there⟩ := mem_records.mp mem
    exact hash_ne_of_untracked absorbed.untracked holder held other there (same.trans made.hash)

theorem Forest.rooted (forest : state.Forest link) (proper : Link.Proper link) : state.Rooted :=
  fun branch mem => proper.named _ _ (forest.linked branch mem).rooted

/-- A block that is confirmed keeps the forest, although nothing is checked again. -/
theorem Forest.promoteOldest (forest : state.Forest link) (proper : Link.Proper link)
    (mem : branch ∈ state.forks) : (state.promoteOldest branch).Forest link := by
  have standing := forest.linked branch mem
  rcases forks_promoteOldest_cases (forest.rooted proper) mem
    (proper.apart _ _ standing.rooted) with ⟨_, forks⟩ | ⟨remaining, short, forks⟩
  · exact forest_of_bare forks
  · refine ⟨?_, ?_, ?_⟩
    · rw [forks]
      exact List.forall_mem_singleton.mpr (standing.shorten short)
    · rw [forks]
      exact List.pairwise_singleton _ _
    · have sublist : (state.promoteOldest branch).records.Sublist state.records := by
        have fewer : remaining.blocks.Sublist branch.blocks := by
          rw [short.blocks]
          exact List.sublist_append_left _ _
        rw [records, forks, List.flatMap_singleton]
        exact fewer.trans (blocks_sublist_records mem)
      exact forest.unique.sublist (sublist.map BlockRecord.hash)

/-- A record is that of a header which was accepted after the tip. -/
def Recorded (params : Params) (accepted : List Submission) : Link := fun tip record =>
  ∃ submission ∈ accepted, ∃ header, submission.Carries header ∧
    record.Extends tip header submission.interval params

namespace Recorded

variable {accepted : List Submission} {tip : Snapshot} {record : BlockRecord}

theorem mono {more : List Submission} (subset : accepted ⊆ more)
    (recorded : Recorded params accepted tip record) : Recorded params more tip record := by
  obtain ⟨submission, mem, made⟩ := recorded
  exact ⟨submission, subset mem, made⟩

theorem named (recorded : Recorded params accepted tip record) :
    record.prevHash = tip.tipHash := by
  obtain ⟨submission, _, header, _, made⟩ := recorded
  exact made.prevHash

theorem height (recorded : Recorded params accepted tip record) :
    record.height = tip.height + 1 := by
  obtain ⟨submission, _, header, _, made⟩ := recorded
  exact made.height

theorem work_pos (recorded : Recorded params accepted tip record) : 1 ≤ record.work := by
  obtain ⟨submission, _, header, _, made⟩ := recorded
  exact made.work_pos

theorem apart (recorded : Recorded params accepted tip record)
    (proper : ∀ submission ∈ accepted, submission.Proper) : record.hash ≠ record.prevHash := by
  obtain ⟨submission, mem, header, carried, made⟩ := recorded
  rw [made.hash, made.named]
  exact proper submission mem header carried

end Recorded

theorem recorded_proper {accepted : List Submission}
    (proper : ∀ submission ∈ accepted, submission.Proper) :
    Link.Proper (Recorded params accepted) where
  named := fun _ _ recorded => recorded.named
  apart := fun _ _ recorded => recorded.apart proper

/-- A forest of accepted headers is one of these and of the headers of another submission. -/
theorem Forest.append {accepted : List Submission} {submission : Submission}
    (forest : state.Forest (Recorded params accepted)) :
    state.Forest (Recorded params (accepted ++ [submission])) :=
  forest.mono fun _ _ => Recorded.mono (List.subset_append_left _ _)

/-- A record is that of a header which was accepted after the tip, under whatever parameters. -/
def Attested (accepted : List Submission) : Link := fun tip record =>
  ∃ params, Recorded params accepted tip record

namespace Attested

variable {accepted : List Submission} {tip : Snapshot} {record : BlockRecord}

theorem mono {more : List Submission} (subset : accepted ⊆ more)
    (attested : Attested accepted tip record) : Attested more tip record := by
  obtain ⟨params, recorded⟩ := attested
  exact ⟨params, recorded.mono subset⟩

theorem height (attested : Attested accepted tip record) : record.height = tip.height + 1 := by
  obtain ⟨params, recorded⟩ := attested
  exact recorded.height

end Attested

theorem attested_proper {accepted : List Submission}
    (proper : ∀ submission ∈ accepted, submission.Proper) : Link.Proper (Attested accepted) where
  named := by
    rintro tip record ⟨params, recorded⟩
    exact recorded.named
  apart := by
    rintro tip record ⟨params, recorded⟩
    exact recorded.apart proper

/-- An accepted submission keeps the forest. -/
theorem Forest.outcome {submission : Submission} {count : Nat} (forest : state.Forest link)
    (proper : Link.Proper link)
    (links : ∀ header, submission.Carries header → ∀ tip record,
      record.Extends tip header submission.interval params → link tip record)
    (accepts : state.outcome params submission = .ok (.accepted next count)) :
    next.Forest link := by
  refine outcome_induction (motive := fun state _ => state.Forest link) ?_ ?_ forest accepts
  · intro state header next carried forest attaches
    exact forest.absorb (links header carried) attaches
  · intro state count branch forest wins
    exact forest.promoteOldest proper (mem_of_winner? wins).1

/-- Every state that a run reaches from one without branches is a forest of headers accepted on the
way. -/
theorem Run.forest {start : ChainState} {accepted : List Submission} (bare : start.forks = [])
    (reached : Run params start accepted state)
    (proper : ∀ submission ∈ accepted, submission.Proper) :
    state.Forest (Recorded params accepted) := by
  induction reached with
  | start => exact forest_of_bare bare
  | @accept accepted state next submission count reached accepts ih =>
    have before := ih fun other mem => proper other (List.mem_append_left _ mem)
    refine before.append.outcome (recorded_proper proper) ?_ accepts
    intro header carried tip record made
    exact ⟨submission, List.mem_append_right _ List.mem_cons_self, header, carried, made⟩

theorem Reaches.forest {allowed : Params → Prop} {start : ChainState} {accepted : List Submission}
    (bare : start.forks = []) (reached : Reaches allowed start accepted state)
    (proper : ∀ submission ∈ accepted, submission.Proper) :
    state.Forest (Attested accepted) := by
  induction reached with
  | start => exact forest_of_bare bare
  | @accept params accepted state next submission count permitted reached accepts ih =>
    have before := ih fun other mem => proper other (List.mem_append_left _ mem)
    have wider : state.Forest (Attested (accepted ++ [submission])) :=
      before.mono fun _ _ => Attested.mono (List.subset_append_left _ _)
    refine wider.outcome (attested_proper proper) ?_ accepts
    intro header carried tip record made
    exact ⟨params, submission, List.mem_append_right _ List.mem_cons_self, header, carried, made⟩

/-- What the branches of a state promise: each is a chain of blocks from the confirmed tip on whose
work adds up, they are in order, and no block is held twice. -/
structure Coherent (state : ChainState) : Prop where
  nonempty : ∀ branch ∈ state.forks, branch.blocks ≠ []
  linked : ∀ branch ∈ state.forks, branch.blocks.IsChain fun newer older =>
    newer.prevHash = older.hash ∧ newer.height - 1 = older.height
  rooted : ∀ branch ∈ state.forks, branch.oldest.prevHash = state.confirmed.tipHash ∧
    branch.oldest.height = state.confirmed.height + 1
  tips : ∀ branch ∈ state.forks, branch.tipHash = branch.newest.hash ∧
    branch.tipHeight = branch.newest.height
  chainwork : ∀ branch ∈ state.forks,
    branch.chainwork = (branch.blocks.map BlockRecord.work).sum
  work : ∀ branch ∈ state.forks, ∀ record ∈ branch.blocks, 1 ≤ record.work
  ordered : state.forks.Pairwise fun first second => first.tipHash < second.tipHash
  unique : (state.records.map BlockRecord.hash).Nodup

theorem Forest.coherent {accepted : List Submission}
    (forest : state.Forest (Recorded params accepted)) : state.Coherent where
  nonempty := fun branch _ => List.cons_ne_nil branch.newest branch.older
  linked := by
    intro branch mem
    refine (forest.linked branch mem).chain.imp ?_
    intro newer older recorded
    exact ⟨recorded.named, Int.sub_eq_iff_eq_add.mpr recorded.height⟩
  rooted := by
    intro branch mem
    have recorded := (forest.linked branch mem).rooted
    exact ⟨recorded.named, recorded.height⟩
  tips := fun branch mem =>
    ⟨(forest.linked branch mem).tipHash, (forest.linked branch mem).tipHeight⟩
  chainwork := fun branch mem => (forest.linked branch mem).chainwork
  work := by
    intro branch mem record there
    obtain ⟨tip, recorded⟩ := (forest.linked branch mem).exists_link record there
    exact recorded.work_pos
  ordered := forest.ordered
  unique := forest.unique

end ChainState

namespace Sample

/-- A network like the local one on which the older of two blocks is confirmed at once. -/
def hasty : Params := { Params.regtest with maturationDepth := 2, challengeAging := 0 }

def origin : Seed := ⟨0, Digest.zero, 0x207FFFFF, 1300000000, [1300000000], 1300000000⟩

def childOf (prevHash : Digest) (timestamp nonce : BitVec 32) : Header :=
  ⟨4, prevHash, Digest.zero, timestamp, 0x207FFFFF, nonce⟩

def first : Header := childOf origin.hash 1300000001 3

def rival : Header := childOf origin.hash 1300000001 4

def afterFirst : Header := childOf first.hash 1300000002 1

def alsoAfterFirst : Header := childOf first.hash 1300000002 2

def afterRival : Header := childOf rival.hash 1300000002 0

def submit (headers : List Header) : Submission where
  batch := headers.map Header.wire
  interval := ⟨1300000010, 1300000020, by decide⟩
  policy := .reject

/-- Two branches compete, the second block of one confirms its first, the other branch is refused,
and a new rival comes. -/
def submissions : List Submission :=
  [submit [first, rival], submit [afterFirst], submit [afterRival], submit [alsoAfterFirst]]

end Sample

namespace ChainState

/-- Whatever is submitted after a trusted block, and whether it is accepted or not, the branches
stay coherent, as long as no header names itself as the block before it. -/
theorem coherent_submitAll (seed : Seed) (seedParams params : Params) (initial : ChainState)
    (started : seed.start seedParams = .ok initial) (submissions : List Submission)
    (proper : ∀ submission ∈ submissions, submission.Proper) :
    (initial.submitAll params submissions).Coherent := by
  obtain ⟨accepted, sublist, reached⟩ := exists_run_of_submitAll params initial submissions
  refine (reached.forest (Seed.forks_of_start started) ?_).coherent
  intro submission mem
  exact proper submission (sublist.subset mem)

theorem coherent_submitAll_submissions :
    Sample.origin.start Sample.hasty = .ok (Sample.origin.unchecked Sample.hasty) ∧
      (∀ submission ∈ Sample.submissions, submission.Proper) ∧
      ((Sample.origin.unchecked Sample.hasty).submitAll Sample.hasty
        Sample.submissions).forks.map Branch.tipHash =
          [Sample.afterFirst.hash, Sample.alsoAfterFirst.hash] ∧
      ((Sample.origin.unchecked Sample.hasty).submitAll Sample.hasty
        Sample.submissions).Coherent := by
  have started : Sample.origin.start Sample.hasty =
      .ok (Sample.origin.unchecked Sample.hasty) := by
    decide +kernel
  have proper : ∀ submission ∈ Sample.submissions, submission.Proper := by decide +kernel
  refine ⟨started, proper, ?_, ?_⟩
  · decide +kernel
  · exact coherent_submitAll Sample.origin Sample.hasty Sample.hasty _ started
      Sample.submissions proper

end ChainState

end HeaderRelay
