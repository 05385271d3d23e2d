import Mathlib
import HeaderRelay.Proofs.Chain.Chronicle
import HeaderRelay.Proofs.Merkle.RollingRoot

set_option autoImplicit false

namespace HeaderRelay

namespace Path

variable {link : Link} {root tip : Snapshot} {records : List BlockRecord}

/-- The last hash on a path, counted from its root, is that of its tip. -/
theorem getLast?_hashes (path : Path link root records tip) :
    (root.tipHash :: records.map BlockRecord.hash).getLast? = some tip.tipHash := by
  cases path with
  | nil => rfl
  | snoc path linked =>
    rw [List.map_append, ← List.cons_append]
    exact List.getLast?_concat

/-- Along a path each hash is followed by that of a record that names it. -/
theorem isChain_hashes (path : Path link root records tip) :
    (root.tipHash :: records.map BlockRecord.hash).IsChain fun earlier later =>
      ∃ tip record, link tip record ∧ tip.tipHash = earlier ∧ record.hash = later := by
  induction path with
  | nil => exact List.isChain_singleton _
  | @snoc records tip record path linked ih =>
    rw [List.map_append, ← List.cons_append, List.isChain_append]
    refine ⟨ih, List.isChain_singleton _, ?_⟩
    intro earlier last later first
    rw [path.getLast?_hashes] at last
    cases last
    cases first
    exact ⟨tip, record, linked, rfl, rfl⟩

end Path

namespace ChainState

variable {params : Params} {state next : ChainState} {accepted : List Submission}
  {submission : Submission} {count : Nat}

/-- An accepted submission confirms as many records as it reports. They lead from the confirmed tip
of before to that of after, and their hashes are appended to the history in order. -/
theorem Forest.exists_path {link : Link} (forest : state.Forest link) (proper : Link.Proper link)
    (links : ∀ header, submission.Carries header → ∀ tip record,
      record.Extends tip header submission.interval params → link tip record)
    (accepts : state.outcome params submission = .ok (.accepted next count)) :
    ∃ records, records.length = count ∧
      Path link state.confirmed records next.confirmed ∧
      next.history = (records.map BlockRecord.hash).foldl Merkle.Accumulator.append
        state.history := by
  obtain ⟨grown, promotions, absorbs, promotes, length⟩ := exists_promotes_of_outcome accepts
  obtain ⟨confirmed, history⟩ := confirmed_of_absorbAll absorbs
  have grownForest : grown.Forest link :=
    forest.absorbAll (fun header mem => links header (Submission.carries_of_mem mem)) absorbs
  obtain ⟨path, appended⟩ := promotes.path grownForest proper
  refine ⟨promotions.map Promotion.record, ?_, ?_, ?_⟩
  · rw [List.length_map, length]
  · rw [← confirmed]
    exact path
  · rw [appended, history, List.map_map]
    rfl

/-- Among the submissions is a header of one hash that names another as the block before it. -/
def Submitted (accepted : List Submission) (earlier later : Digest) : Prop :=
  ∃ submission ∈ accepted, ∃ header, submission.Carries header ∧ header.hash = later ∧
    header.prevHash = earlier

theorem Attested.submitted {tip : Snapshot} {record : BlockRecord}
    (attested : Attested accepted tip record) :
    Submitted accepted tip.tipHash record.hash := by
  obtain ⟨params, submission, mem, header, carried, made⟩ := attested
  exact ⟨submission, mem, header, carried, made.hash.symm, made.follows.builds⟩

/-- Hashes are those of the trusted block and of all blocks confirmed since, in order. -/
structure ConfirmedBlocks (seed : Seed) (accepted : List Submission) (state : ChainState)
    (hashes : List Digest) : Prop where
  first : hashes.head? = some seed.hash
  last : hashes.getLast? = some state.confirmed.tipHash
  height : state.confirmed.height = seed.height + (hashes.length - 1 : Int)
  history : state.history = Merkle.Accumulator.ofLeaves hashes
  leafCount : state.history.leafCount = hashes.length
  submitted : hashes.IsChain (Submitted accepted)

/-- The trusted block is the only one in the state that it gives. -/
theorem confirmedBlocks_start {seed : Seed} {seedParams : Params} {initial : ChainState}
    (started : seed.start seedParams = .ok initial) :
    ConfirmedBlocks seed [] initial [seed.hash] := by
  rw [Seed.eq_unchecked_of_start started]
  exact ⟨rfl, rfl, (Int.add_zero _).symm, rfl, Merkle.Accumulator.leafCount_ofLeaves [seed.hash],
    List.isChain_singleton _⟩

/-- Confirmed blocks grow by as many as an accepted submission reports, at their end. -/
theorem ConfirmedBlocks.outcome {seed : Seed} {hashes : List Digest}
    (confirmed : ConfirmedBlocks seed accepted state hashes)
    (forest : state.Forest (Attested accepted))
    (proper : ∀ other ∈ accepted ++ [submission], other.Proper)
    (accepts : state.outcome params submission = .ok (.accepted next count)) :
    ∃ more, more.length = count ∧
      ConfirmedBlocks seed (accepted ++ [submission]) next (hashes ++ more) := by
  have wider : state.Forest (Attested (accepted ++ [submission])) :=
    forest.mono fun _ _ => Attested.mono (List.subset_append_left _ _)
  obtain ⟨records, length, path, appended⟩ := wider.exists_path (attested_proper proper)
    (fun header carried tip record made =>
      ⟨params, submission, List.mem_append_right _ List.mem_cons_self, header, carried, made⟩)
    accepts
  have nonempty : hashes ≠ [] := List.ne_nil_of_mem (List.mem_of_getLast? confirmed.last)
  have history : next.history =
      Merkle.Accumulator.ofLeaves (hashes ++ records.map BlockRecord.hash) := by
    rw [appended, confirmed.history, Merkle.Accumulator.ofLeaves, Merkle.Accumulator.ofLeaves,
      List.foldl_append]
  refine ⟨records.map BlockRecord.hash, ?_, ?_, ?_, ?_, history, ?_, ?_⟩
  · rw [List.length_map, length]
  · rw [List.head?_append_of_ne_nil _ nonempty]
    exact confirmed.first
  · have last := path.getLast?_hashes
    rw [List.getLast?_cons] at last
    rw [List.getLast?_append, confirmed.last, ← last]
    cases (records.map BlockRecord.hash).getLast? <;> rfl
  · have risen := path.height fun _ _ attested => attested.height
    rw [risen, confirmed.height, List.length_append, List.length_map]
    omega
  · rw [history, Merkle.Accumulator.leafCount_ofLeaves]
  · have added : (state.confirmed.tipHash :: records.map BlockRecord.hash).IsChain
        (Submitted (accepted ++ [submission])) := by
      refine path.isChain_hashes.imp ?_
      rintro earlier later ⟨tip, record, attested, rfl, rfl⟩
      exact attested.submitted
    refine List.isChain_append.mpr ⟨?_, added.tail, ?_⟩
    · refine confirmed.submitted.imp ?_
      rintro earlier later ⟨origin, mem, made⟩
      exact ⟨origin, List.mem_append_left _ mem, made⟩
    · intro earlier last later first
      rw [confirmed.last] at last
      cases last
      exact (List.isChain_cons.mp added).1 later first

theorem Reaches.exists_confirmedBlocks {allowed : Params → Prop} {seed : Seed}
    {seedParams : Params} {initial : ChainState} (started : seed.start seedParams = .ok initial)
    (reached : Reaches allowed initial accepted state)
    (proper : ∀ submission ∈ accepted, submission.Proper) :
    ∃ hashes, ConfirmedBlocks seed accepted state hashes := by
  have bare := Seed.forks_of_start started
  induction reached with
  | start => exact ⟨[seed.hash], confirmedBlocks_start started⟩
  | accept permitted reached accepts ih =>
    have before := fun other mem => proper other (List.mem_append_left _ mem)
    obtain ⟨hashes, confirmed⟩ := ih before
    obtain ⟨more, _, grown⟩ := confirmed.outcome (reached.forest bare before) proper accepts
    exact ⟨hashes ++ more, grown⟩

/-- In every state that accepted submissions lead to from a trusted block, whatever parameters each
of them came under, some hashes are those of the confirmed blocks. Whichever they are, a submission
that is accepted next keeps them all and adds as many as it reports. -/
theorem confirmedBlocks_append (seed : Seed) (seedParams : Params) (initial : ChainState)
    (started : seed.start seedParams = .ok initial) (accepted : List Submission)
    (state : ChainState) (reached : Reaches (fun _ => True) initial accepted state)
    (proper : ∀ submission ∈ accepted, submission.Proper) :
    (∃ hashes, ConfirmedBlocks seed accepted state hashes) ∧
      ∀ hashes, ConfirmedBlocks seed accepted state hashes →
        ∀ params submission next count, submission.Proper →
          state.outcome params submission = .ok (.accepted next count) →
          ∃ more, more.length = count ∧
            ConfirmedBlocks seed (accepted ++ [submission]) next (hashes ++ more) := by
  refine ⟨reached.exists_confirmedBlocks started proper, ?_⟩
  intro hashes confirmed params submission next count last accepts
  refine confirmed.outcome (reached.forest (Seed.forks_of_start started) proper) ?_ accepts
  exact List.forall_mem_append.mpr ⟨proper, List.forall_mem_singleton.mpr last⟩

theorem confirmedBlocks_append_afterFirst :
    let initial := Sample.origin.unchecked Sample.hasty
    let state := initial.submit Sample.hasty (Sample.submit [Sample.first, Sample.rival])
    let next := state.submit Sample.hasty (Sample.submit [Sample.afterFirst])
    Sample.origin.start Sample.hasty = .ok initial ∧
      initial.outcome Sample.hasty (Sample.submit [Sample.first, Sample.rival]) =
        .ok (.accepted state 0) ∧
      state.outcome Sample.hasty (Sample.submit [Sample.afterFirst]) = .ok (.accepted next 1) ∧
      ∃ hashes more, more.length = 1 ∧
        ConfirmedBlocks Sample.origin [Sample.submit [Sample.first, Sample.rival]] state hashes ∧
        ConfirmedBlocks Sample.origin [Sample.submit [Sample.first, Sample.rival],
          Sample.submit [Sample.afterFirst]] next (hashes ++ more) := by
  intro initial state next
  have started : Sample.origin.start Sample.hasty = .ok initial := by decide +kernel
  have opened : initial.outcome Sample.hasty (Sample.submit [Sample.first, Sample.rival]) =
      .ok (.accepted state 0) := by
    decide +kernel
  have confirms : state.outcome Sample.hasty (Sample.submit [Sample.afterFirst]) =
      .ok (.accepted next 1) := by
    decide +kernel
  have proper : ∀ submission ∈ [Sample.submit [Sample.first, Sample.rival]],
      submission.Proper := by
    decide +kernel
  have properNext : (Sample.submit [Sample.afterFirst]).Proper := by decide +kernel
  have reached : Reaches (fun _ => True) initial _ state := Reaches.start.accept trivial opened
  obtain ⟨⟨hashes, confirmed⟩, grows⟩ := confirmedBlocks_append Sample.origin Sample.hasty
    initial started _ state reached proper
  obtain ⟨more, length, grown⟩ := grows hashes confirmed Sample.hasty _ next 1 properNext confirms
  exact ⟨started, opened, confirms, hashes, more, length, confirmed, grown⟩

end ChainState

end HeaderRelay
