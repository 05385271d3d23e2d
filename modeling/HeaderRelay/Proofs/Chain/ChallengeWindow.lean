import Mathlib
import HeaderRelay.Proofs.Chain.Attachment
import HeaderRelay.Proofs.Chain.Chronicle
import HeaderRelay.Proofs.Chain.Winner

set_option autoImplicit false

namespace HeaderRelay

namespace ChainState

/-- While headers are attached in order, the turn of one comes and makes the record: no branch holds
it before, and one does after. -/
structure Takes (params : Params) (interval : Interval) (state : ChainState)
    (headers : List Header) (record : BlockRecord) : Prop where
  turn : ∃ front header back before after, headers = front ++ header :: back ∧
    state.absorbAll interval params front = .ok before ∧
    before.absorb header interval params = .ok after ∧
    record.hash = header.hash ∧ record ∉ before.records ∧ record ∈ after.records
  stamped : record.addedTime = interval.lower.toNat

/-- Among the submissions that a run accepted is one that made the record, in the state to which
those before it led. -/
def Origin (params : Params) (start : ChainState) (accepted : List Submission)
    (submission : Submission) (record : BlockRecord) : Prop :=
  ∃ earlier later state next count, accepted = earlier ++ submission :: later ∧
    Run params start earlier state ∧
    state.outcome params submission = .ok (.accepted next count) ∧
    state.Takes params submission.interval submission.headers record

variable {params : Params} {interval : Interval} {start state next grown final : ChainState}
  {submission : Submission} {accepted : List Submission} {promotions : List Promotion}
  {count : Nat} {link : Link} {branch : Branch} {header : Header} {headers : List Header}

theorem Origin.append {record : BlockRecord} {last : Submission}
    (origin : Origin params start accepted submission record) :
    Origin params start (accepted ++ [last]) submission record := by
  obtain ⟨earlier, later, state, next, count, split, reached, accepts, takes⟩ := origin
  refine ⟨earlier, later ++ [last], state, next, count, ?_, reached, accepts, takes⟩
  rw [split, List.append_assoc, List.cons_append]

theorem Takes.append {record : BlockRecord} (last : Header)
    (takes : state.Takes params interval headers record) :
    state.Takes params interval (headers ++ [last]) record := by
  obtain ⟨⟨front, header, back, before, after, split, turn⟩, stamped⟩ := takes
  refine ⟨⟨front, header, back ++ [last], before, after, ?_, turn⟩, stamped⟩
  rw [split, List.append_assoc, List.cons_append]

/-- A record that an attached header brings is its own, and bears the time of the interval. -/
theorem Absorbed.of_mem_records {record : BlockRecord}
    (absorbed : state.Absorbed header interval params next) (mem : record ∈ next.records) :
    record ∈ state.records ∨
      record ∉ state.records ∧ record.hash = header.hash ∧
        record.addedTime = interval.lower.toNat := by
  obtain ⟨tip, made, others, branch, extended, place, perm⟩ := absorbed.placed
  rcases List.mem_cons.mp ((place.records_perm perm).mem_iff.mp mem) with rfl | old
  · refine Or.inr ⟨?_, extended.hash, extended.stamped⟩
    intro known
    obtain ⟨holder, held, there⟩ := mem_records.mp known
    exact hash_ne_of_untracked absorbed.untracked holder held record there extended.hash
  · exact Or.inl old

/-- The records of a state after headers were attached are those of before and those that the
headers made. -/
theorem Forest.mem_records_of_absorbAll (forest : state.Forest link)
    (links : ∀ header ∈ headers, ∀ tip record, record.Extends tip header interval params →
      link tip record)
    (absorbs : state.absorbAll interval params headers = .ok grown) :
    ∀ record ∈ grown.records,
      record ∈ state.records ∨ state.Takes params interval headers record := by
  -- from the last header back, since its turn comes in the state that the others make
  induction headers using List.reverseRecOn generalizing grown with
  | nil =>
    cases absorbs
    exact fun record mem => Or.inl mem
  | append_singleton headers last ih =>
    obtain ⟨before, attached, attaches⟩ := (absorbAll_append_eq_ok _ _).mp absorbs
    obtain ⟨after, absorb, done⟩ := (absorbAll_cons_eq_ok _ _).mp attaches
    cases done
    have earlier := fun header mem => links header (List.mem_append_left [last] mem)
    have between : before.Forest link := forest.absorbAll earlier attached
    have absorbed := absorbed_of_absorb between.ordered between.named absorb
    intro record mem
    rcases absorbed.of_mem_records mem with old | ⟨new, same, stamped⟩
    · exact (ih earlier attached record old).imp_right (Takes.append last)
    · exact Or.inr ⟨⟨headers, last, [], before, grown, rfl, attached, absorb, same, new, mem⟩,
        stamped⟩

/-- Confirming a block makes no record. -/
theorem records_promoteOldest_subset (mem : branch ∈ state.forks) :
    (state.promoteOldest branch).records ⊆ state.records := by
  intro record there
  obtain ⟨other, stays, held⟩ := mem_records.mp there
  rcases mem_forks_promoteOldest stays with short | old
  · refine mem_records.mpr ⟨branch, mem, ?_⟩
    rw [short.blocks]
    exact List.mem_append_left _ held
  · exact mem_records.mpr ⟨other, old, held⟩

theorem Promotes.records_subset (promotes : Promotes interval params state promotions final) :
    final.records ⊆ state.records ∧
      ∀ promotion ∈ promotions, promotion.state.records ⊆ state.records := by
  induction promotes with
  | refl state => exact ⟨List.Subset.refl _, List.forall_mem_nil _⟩
  | step wins rest ih =>
    have fewer := records_promoteOldest_subset (mem_of_winner? wins).1
    refine ⟨List.Subset.trans ih.1 fewer, List.forall_mem_cons.mpr ⟨List.Subset.refl _, ?_⟩⟩
    exact fun promotion mem => List.Subset.trans (ih.2 promotion mem) fewer

/-- When a submission is accepted after a run whose records have their origins in it, so have those
that are there once its headers are attached. -/
theorem Run.exists_origin_of_absorbAll (reached : Run params start accepted state)
    (known : ∀ record ∈ state.records, ∃ other, Origin params start accepted other record)
    (forest : state.Forest (Recorded params accepted))
    (accepts : state.outcome params submission = .ok (.accepted next count))
    (absorbs : state.absorbAll submission.interval params submission.headers = .ok grown) :
    ∀ record ∈ grown.records,
      ∃ other, Origin params start (accepted ++ [submission]) other record := by
  intro record mem
  rcases forest.append.mem_records_of_absorbAll (fun header mem tip record => recorded_of_mem mem)
    absorbs record mem with old | takes
  · obtain ⟨other, origin⟩ := known record old
    exact ⟨other, origin.append⟩
  · exact ⟨submission, accepted, [], state, next, count, rfl, reached, accepts, takes⟩

/-- Every record of a state that a run reaches was made by one of its submissions. -/
theorem Run.exists_origin (bare : start.forks = []) (reached : Run params start accepted state)
    (proper : ∀ submission ∈ accepted, submission.Proper) :
    ∀ record ∈ state.records, ∃ submission, Origin params start accepted submission record := by
  induction reached with
  | start =>
    rw [records, bare]
    exact List.forall_mem_nil _
  | accept reached accepts ih =>
    have before := fun other mem => proper other (List.mem_append_left _ mem)
    obtain ⟨grown, promotions, absorbs, promotes, _⟩ := exists_promotes_of_outcome accepts
    have known := reached.exists_origin_of_absorbAll (ih before) (reached.forest bare before)
      accepts absorbs
    exact fun record mem => known record (promotes.records_subset.1 mem)

end ChainState

/-- A block is confirmed of a branch that is deep enough, after the block itself was open to
challenge for long enough, and no rival that is as far outranks the branch. -/
structure Promotion.Challenged (params : Params) (start : ChainState) (accepted : List Submission)
    (interval : Interval) (promotion : Promotion) : Prop where
  aged : ∃ submission, ChainState.Origin params start accepted submission promotion.record ∧
    (params.challengeAging.toNat : Int) ≤ interval.lower.toNat - submission.interval.lower.toNat
  held : promotion.branch ∈ promotion.state.forks
  deep : params.maturationDepth.toNat ≤ promotion.branch.blocks.length
  oldest : promotion.branch.blocks.getLast? = some promotion.record
  descends : promotion.branch.blocks.IsChain fun newer older => newer.prevHash = older.hash
  received : ∀ record ∈ promotion.branch.blocks,
    ∃ submission, ChainState.Origin params start accepted submission record
  unbeaten : ∀ rival ∈ promotion.state.forks, rival.isMature interval params = true →
    rival.chainwork ≤ promotion.branch.chainwork ∧
      (rival.chainwork = promotion.branch.chainwork →
        ¬ rival.tipHash < promotion.branch.tipHash)

namespace Sample

/-- As the network without a challenge window, with one of 100 seconds. -/
def guarded : Params := { hasty with challengeAging := 100 }

def submitAfter (seconds : Nat) (headers : List Header) : Submission :=
  { submit headers with
    interval :=
      ⟨BitVec.ofNat 64 (1300000000 + seconds), BitVec.ofNat 64 (1300000000 + seconds),
        Nat.le_refl _⟩ }

end Sample

namespace ChainState

variable {params : Params} {interval : Interval} {start : ChainState}
  {accepted : List Submission} {link : Link} {promotion : Promotion}

/-- The branch that wins where all records have their origins is one that was challenged. -/
theorem challenged_of_winner (forest : promotion.state.Forest link) (proper : Link.Proper link)
    (known : ∀ record ∈ promotion.state.records,
      ∃ submission, Origin params start accepted submission record)
    (wins : promotion.state.winner? interval params = some promotion.branch) :
    promotion.Challenged params start accepted interval := by
  obtain ⟨⟨held, mature⟩, unbeaten⟩ := (winner?_eq_some_iff forest.ordered.distinct).mp wins
  obtain ⟨deep, aged⟩ := Branch.isMature_iff.mp mature
  have last := promotion.branch.getLast?_blocks
  have received : ∀ record ∈ promotion.branch.blocks,
      ∃ submission, Origin params start accepted submission record :=
    fun record mem => known record (mem_records.mpr ⟨promotion.branch, held, mem⟩)
  obtain ⟨submission, origin⟩ := received _ (List.mem_of_getLast? last)
  refine ⟨⟨submission, origin, ?_⟩, held, deep, last, ?_, received, ?_⟩
  · obtain ⟨_, _, _, _, _, _, _, _, takes⟩ := origin
    rw [← takes.stamped]
    exact aged
  · exact (forest.linked _ held).chain.imp fun newer older linked => proper.named _ _ linked
  · intro rival there matureToo
    have below := unbeaten rival there matureToo
    rw [outranks_iff, not_or, not_and] at below
    exact ⟨Int.not_lt.mp below.1, below.2⟩

/-- Whatever the order of its intervals, a run from a trusted block only ever confirms challenged
blocks. When a submission is accepted, its headers are attached, and then one block after the other
is confirmed, as many as it reports, each of them challenged at its moment. -/
theorem promotions_challenged (seed : Seed) (seedParams params : Params) (initial : ChainState)
    (started : seed.start seedParams = .ok initial) (accepted : List Submission)
    (state : ChainState) (reached : Run params initial accepted state)
    (submission : Submission) (next : ChainState) (count : Nat)
    (accepts : state.outcome params submission = .ok (.accepted next count))
    (proper : ∀ other ∈ accepted ++ [submission], other.Proper) :
    ∃ grown promotions,
      state.absorbAll submission.interval params submission.headers = .ok grown ∧
        Promotes submission.interval params grown promotions next ∧ promotions.length = count ∧
        next.history = (promotions.map fun promotion => promotion.record.hash).foldl
          Merkle.Accumulator.append state.history ∧
        ∀ promotion ∈ promotions,
          promotion.Challenged params initial (accepted ++ [submission]) submission.interval := by
  have bare := Seed.forks_of_start started
  have before := fun other mem => proper other (List.mem_append_left _ mem)
  have forest := reached.forest bare before
  obtain ⟨grown, promotions, absorbs, promotes, length⟩ := exists_promotes_of_outcome accepts
  have grownForest : grown.Forest (Recorded params (accepted ++ [submission])) :=
    forest.append.absorbAll (fun header mem tip record => recorded_of_mem mem) absorbs
  have known := reached.exists_origin_of_absorbAll (reached.exists_origin bare before) forest
    accepts absorbs
  have apart : Link.Proper (Recorded params (accepted ++ [submission])) := recorded_proper proper
  refine ⟨grown, promotions, absorbs, promotes, length, ?_, ?_⟩
  · rw [(promotes.path grownForest apart).2, (confirmed_of_absorbAll absorbs).2]
  · intro promotion mem
    obtain ⟨forestThen, wins⟩ := promotes.forest_of_mem grownForest apart promotion mem
    refine challenged_of_winner forestThen apart ?_ wins
    exact fun record there => known record (promotes.records_subset.2 promotion mem there)

theorem promotions_challenged_late :
    let early := [Sample.submitAfter 500 [Sample.first], Sample.submitAfter 100 [Sample.rival]]
    let last := Sample.submitAfter 620 [Sample.afterFirst]
    let initial := Sample.origin.unchecked Sample.guarded
    let next := initial.submitAll Sample.guarded (early ++ [last])
    Sample.origin.start Sample.guarded = .ok initial ∧
      Run Sample.guarded initial (early ++ [last]) next ∧
      next.confirmed.tipHash = Sample.first.hash ∧
      ∃ promotions : List Promotion, promotions.length = 1 ∧ ∀ promotion ∈ promotions,
        promotion.Challenged Sample.guarded initial (early ++ [last]) last.interval := by
  intro early last initial next
  let opened := initial.submit Sample.guarded (Sample.submitAfter 500 [Sample.first])
  let contested := opened.submit Sample.guarded (Sample.submitAfter 100 [Sample.rival])
  obtain ⟨started, opens, contests, confirms, proper, tip⟩ :
      Sample.origin.start Sample.guarded = .ok initial ∧
        initial.outcome Sample.guarded (Sample.submitAfter 500 [Sample.first]) =
          .ok (.accepted opened 0) ∧
        opened.outcome Sample.guarded (Sample.submitAfter 100 [Sample.rival]) =
          .ok (.accepted contested 0) ∧
        contested.outcome Sample.guarded last = .ok (.accepted next 1) ∧
        (∀ other ∈ early ++ [last], other.Proper) ∧
        next.confirmed.tipHash = Sample.first.hash := by
    decide +kernel
  have reached : Run Sample.guarded initial early contested :=
    (Run.start.accept opens).accept contests
  obtain ⟨_, promotions, _, _, length, _, challenged⟩ :=
    promotions_challenged Sample.origin Sample.guarded Sample.guarded initial started early
      contested reached last next 1 confirms proper
  exact ⟨started, reached.accept confirms, tip, promotions, length, challenged⟩

end ChainState

end HeaderRelay
