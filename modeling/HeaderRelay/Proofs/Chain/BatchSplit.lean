import Mathlib
import HeaderRelay.Proofs.Chain.ArrivalOrder
import HeaderRelay.Proofs.Chain.Confirmation
import HeaderRelay.Proofs.Chain.Winner

/- A batch may be handed in as two. Blocks are then confirmed between the parts, and what is left of
the branches is less. A header of the second part that can still be attached stands on the branch
whose blocks were confirmed; this branch wins with the header too, and confirming its oldest block
before or after the header comes makes no difference. -/

set_option autoImplicit false

namespace HeaderRelay

/-- A branch that grew loses the block that it would have lost before. -/
theorem Branch.popOldest_grow (branch : Branch) (record : BlockRecord) :
    (branch.grow record).popOldest = (branch.oldest, some
      ⟨record.hash, record.height, branch.chainwork + record.work - branch.oldest.work, record,
        branch.blocks.dropLast⟩) := by
  have last : (branch.grow record).older.getLast? = some branch.oldest := branch.getLast?_blocks
  rw [popOldest, last]
  rfl

theorem Branch.oldest_grow (branch : Branch) (record : BlockRecord) :
    (branch.grow record).oldest = branch.oldest := by
  have last : (branch.grow record).older.getLast? = some branch.oldest := branch.getLast?_blocks
  rw [oldest, last]
  rfl

theorem Branch.isMature_grow {branch : Branch} {record : BlockRecord} {interval : Interval}
    {params : Params} (mature : branch.isMature interval params = true) :
    (branch.grow record).isMature interval params = true := by
  have longer : (branch.grow record).blocks.length = branch.blocks.length + 1 := rfl
  simp only [isMature, oldest_grow, longer, Bool.and_eq_true, decide_eq_true_eq] at mature ⊢
  omega

namespace ChainState

variable {origin : Digest} {seen headers : List Header} {state next final : ChainState}
  {header : Header} {interval : Interval} {params : Params} {branch : Branch} {count : Nat}

namespace Lineage

/-- After a block was confirmed, the state holds nothing but blocks of its branch. -/
theorem exists_block_of_holds (lineage : state.Lineage origin seen) (mem : branch ∈ state.forks)
    {hash : Digest} (holds : (state.promoteOldest branch).Holds hash) :
    ∃ record ∈ branch.blocks, record.hash = hash := by
  rw [lineage.blocks_eq_of_promoteOldest mem]
  rcases holds with confirmed | ⟨record, there, same⟩
  · exact ⟨branch.oldest, List.mem_append_right _ List.mem_cons_self, confirmed.symm⟩
  · exact ⟨record, List.mem_append_left _ there, same⟩

end Lineage

/-- Confirming brings no block into the state. -/
theorem Confirms.holds (steps : Confirms interval params state count final)
    (lineage : state.Lineage origin seen) (separate : Header.Separate origin seen) {hash : Digest}
    (holds : final.Holds hash) : state.Holds hash := by
  induction steps with
  | refl state => exact holds
  | @step state final branch count wins rest ih =>
    have mem : branch ∈ state.forks := (mem_of_winner? wins).1
    have before := ih (lineage.promoteOldest separate mem) holds
    obtain ⟨record, there, same⟩ := lineage.exists_block_of_holds mem before
    exact Or.inr ⟨record, mem_records.mpr ⟨branch, mem, there⟩, same⟩

theorem Confirms.lineage (steps : Confirms interval params state count final)
    (lineage : state.Lineage origin seen) (separate : Header.Separate origin seen) :
    final.Lineage origin seen := by
  induction steps with
  | refl state => exact lineage
  | step wins rest ih => exact ih (lineage.promoteOldest separate (mem_of_winner? wins).1)

/-- The block on which a placed record stands is held. -/
theorem Lineage.holds_of_place (lineage : state.Lineage origin seen) {record : BlockRecord}
    {tip : Snapshot} {others : List Branch} (place : Place state record tip others branch) :
    state.Holds record.prevHash := by
  cases place with
  | extend parent others named split =>
    have mem : parent ∈ state.forks := split.mem_iff.mpr List.mem_cons_self
    refine Or.inr ⟨parent.newest, newest_mem mem, ?_⟩
    rw [← named, lineage.forest.named parent mem]
  | start named elsewhere => exact Or.inl named

/-- A record that stands on a block of a branch extends this branch. -/
theorem Lineage.place_of_parent (lineage : state.Lineage origin seen) {record parent : BlockRecord}
    {tip : Snapshot} {others : List Branch} {made : Branch}
    (place : Place state record tip others made) (mem : branch ∈ state.forks)
    (there : parent ∈ branch.blocks) (stands : parent.hash = record.prevHash) :
    tip = branch.newest.tip ∧ made = branch.grow record ∧ state.forks.Perm (branch :: others) := by
  cases place with
  | extend root others named split =>
    have memRoot : root ∈ state.forks := split.mem_iff.mpr List.mem_cons_self
    have same : parent.hash = root.newest.hash := by
      rw [stands, ← named, lineage.forest.named root memRoot]
    have equal : branch = root :=
      lineage.forest.eq_of_hash_eq mem memRoot there List.mem_cons_self same
    subst equal
    exact ⟨rfl, rfl, split⟩
  | start named elsewhere =>
    have tracked : parent ∈ state.records := mem_records.mpr ⟨branch, mem, there⟩
    exact absurd (stands.trans named) (lineage.buried parent tracked)

/-- Where a record extends a branch, it has a place after the oldest block of the branch was
confirmed too, and makes of the rest what confirming would leave of the grown branch. -/
theorem Lineage.exists_place_promoteOldest (lineage : state.Lineage origin seen)
    (mem : branch ∈ state.forks) (record : BlockRecord)
    (stands : record.prevHash = branch.newest.hash) :
    ∃ kept, (branch.grow record).popOldest.2 = some kept ∧
      Place (state.promoteOldest branch) record branch.newest.tip [] kept := by
  have linked := lineage.forest.linked branch mem
  rw [Branch.popOldest_grow]
  refine ⟨_, rfl, ?_⟩
  rcases forks_promoteOldest_cases lineage.rooted mem (lineage.oldest_apart mem) with
    ⟨only, forks⟩ | ⟨remaining, short, forks⟩
  · -- nothing is left of the branch, and the record opens one on the block confirmed
    have newest : branch.newest = branch.oldest := by
      have first : branch.blocks.head? = some branch.newest := rfl
      rw [only] at first
      exact (Option.some.inj first).symm
    have alone : branch.chainwork = branch.oldest.work := by
      rw [linked.chainwork, only, List.map_singleton, List.sum_singleton]
    have made : (⟨record.hash, record.height,
        branch.chainwork + record.work - branch.oldest.work, record,
        branch.blocks.dropLast⟩ : Branch) = Branch.single record := by
      have work : branch.chainwork + record.work - branch.oldest.work = record.work := by omega
      rw [only, work]
      rfl
    have place : Place (state.promoteOldest branch) record
        (state.promoteOldest branch).confirmed (state.promoteOldest branch).forks
        (Branch.single record) := by
      apply Place.start
      · rw [stands, newest]
        rfl
      · rw [forks]
        exact List.forall_mem_nil _
    rw [made, newest, ← forks]
    exact place
  · have made : (⟨record.hash, record.height,
        branch.chainwork + record.work - branch.oldest.work, record,
        branch.blocks.dropLast⟩ : Branch) = remaining.grow record := by
      have work : branch.chainwork + record.work - branch.oldest.work =
          remaining.chainwork + record.work := by
        rw [short.chainwork]
        omega
      rw [short.blocks, List.dropLast_concat, work]
      rfl
    have place : Place (state.promoteOldest branch) record remaining.newest.tip []
        (remaining.grow record) := by
      apply Place.extend
      · rw [short.tipHash, linked.tipHash, stands]
      · rw [forks]
    rw [made, ← short.newest]
    exact place

/-- The branch that wins before it grows wins afterwards. -/
theorem Absorbed.winner?_grow {record : BlockRecord} {others : List Branch}
    (absorbed : state.Absorbed header interval params next)
    (distinct : Branch.Distinct state.forks) (positive : 1 ≤ record.work)
    (split : state.forks.Perm (branch :: others))
    (perm : next.forks.Perm (branch.grow record :: others))
    (wins : state.winner? interval params = some branch) :
    next.winner? interval params = some (branch.grow record) := by
  obtain ⟨⟨mem, mature⟩, unbeaten⟩ := (winner?_eq_some_iff distinct).mp wins
  have more : (branch.grow record).chainwork = branch.chainwork + record.work := rfl
  refine (winner?_eq_some_iff absorbed.ordered.distinct).mpr ⟨⟨?_, ?_⟩, ?_⟩
  · exact perm.mem_iff.mpr List.mem_cons_self
  · exact Branch.isMature_grow mature
  · intro other there matureToo
    rcases List.mem_cons.mp (perm.mem_iff.mp there) with rfl | old
    · exact fun above => outranks_asymm above above
    · have lower := unbeaten other (split.mem_iff.mpr (List.mem_cons_of_mem _ old)) matureToo
      simp only [outranks_iff, not_or, not_and] at lower ⊢
      omega

/-- A header that extends the winner can come before or after the oldest block of the winner is
confirmed. -/
theorem Lineage.promoteOldest_absorb (lineage : state.Lineage origin seen)
    (separate : Header.Separate origin (seen ++ [header]))
    (wins : state.winner? interval params = some branch)
    (absorbs : state.absorb header interval params = .ok next) {parent : BlockRecord}
    (there : parent ∈ branch.blocks) (stands : header.prevHash = parent.hash) :
    ∃ grown, next.winner? interval params = some grown ∧
      (state.promoteOldest branch).absorb header interval params =
        .ok (next.promoteOldest grown) := by
  have mem : branch ∈ state.forks := (mem_of_winner? wins).1
  have known : Header.Separate origin seen := separate.mono (List.subset_append_left _ _)
  have absorbed := lineage.absorbed absorbs
  have lineageNext := lineage.absorb separate absorbs
  obtain ⟨tip, record, others, made, extended, place, perm⟩ := absorbed.placed
  have parentOf : parent.hash = record.prevHash := by rw [extended.named, stands]
  obtain ⟨sameTip, sameBranch, split⟩ := lineage.place_of_parent place mem there parentOf
  subst sameTip sameBranch
  have winsNext := absorbed.winner?_grow lineage.forest.ordered.distinct extended.work_pos split
    perm wins
  have memNext := (mem_of_winner? winsNext).1
  refine ⟨_, winsNext, ?_⟩
  -- the header finds its place on what is left of the winner
  obtain ⟨kept, popped, placeAfter⟩ :=
    lineage.exists_place_promoteOldest mem record extended.prevHash
  have untracked : (state.promoteOldest branch).tracks header.hash = false := by
    refine Bool.eq_false_iff.mpr fun tracked => ?_
    have holds : (state.promoteOldest branch).Holds header.hash :=
      Or.inr ((tracks_iff _).mp tracked)
    obtain ⟨copy, held, same⟩ := lineage.exists_block_of_holds mem holds
    exact hash_ne_of_untracked absorbed.untracked branch mem copy held same
  have lineageAfter := lineage.promoteOldest known mem
  obtain ⟨after, absorbsAfter, permAfter⟩ :=
    exists_absorb_of_place lineageAfter untracked extended placeAfter
  have absorbedAfter := lineageAfter.absorbed absorbsAfter
  have oldest : (branch.grow record).oldest = branch.oldest := branch.oldest_grow record
  have same : after = next.promoteOldest (branch.grow record) := by
    refine eq_of_forks_perm ?_ ?_ absorbedAfter.ordered
      (lineageNext.promoteOldest separate memNext).forest.ordered ?_
    · rw [absorbedAfter.confirmed, ChainState.promoteOldest, ChainState.promoteOldest, oldest]
    · rw [absorbedAfter.history, ChainState.promoteOldest, ChainState.promoteOldest, oldest,
        absorbed.history]
    · rw [forks_promoteOldest lineageNext.rooted memNext (lineageNext.oldest_apart memNext), popped]
      exact permAfter
  rw [absorbsAfter, same]

/-- A header that can be attached before and after some blocks are confirmed does not change which
they are. -/
theorem Confirms.absorb {nextFinal : ChainState}
    (steps : Confirms interval params state count final) (lineage : state.Lineage origin seen)
    (separate : Header.Separate origin (seen ++ [header]))
    (absorbs : state.absorb header interval params = .ok next)
    (absorbsFinal : final.absorb header interval params = .ok nextFinal) :
    Confirms interval params next count nextFinal := by
  induction steps generalizing next with
  | refl state =>
    rw [absorbs] at absorbsFinal
    cases absorbsFinal
    exact Confirms.refl _
  | @step state final branch count wins rest ih =>
    have mem : branch ∈ state.forks := (mem_of_winner? wins).1
    have known : Header.Separate origin seen := separate.mono (List.subset_append_left _ _)
    have lineageAfter := lineage.promoteOldest known mem
    -- the header stands on something that is still there in the end, which is a block of the winner
    have holds : (state.promoteOldest branch).Holds header.prevHash := by
      have lineageFinal := rest.lineage lineageAfter known
      obtain ⟨_, record, _, _, extended, place, _⟩ := (lineageFinal.absorbed absorbsFinal).placed
      rw [← extended.named]
      exact rest.holds lineageAfter known (lineageFinal.holds_of_place place)
    obtain ⟨parent, there, same⟩ := lineage.exists_block_of_holds mem holds
    obtain ⟨grown, winsNext, absorbsAfter⟩ :=
      lineage.promoteOldest_absorb separate wins absorbs there same.symm
    exact Confirms.step winsNext (ih lineageAfter absorbsAfter absorbsFinal)

theorem Confirms.absorbAll {nextFinal : ChainState}
    (steps : Confirms interval params state count final) (lineage : state.Lineage origin seen)
    (separate : Header.Separate origin (seen ++ headers))
    (absorbs : state.absorbAll interval params headers = .ok next)
    (absorbsFinal : final.absorbAll interval params headers = .ok nextFinal) :
    Confirms interval params next count nextFinal := by
  induction headers generalizing state final seen with
  | nil =>
    cases absorbs
    cases absorbsFinal
    exact steps
  | cons header rest ih =>
    obtain ⟨grown, first, later⟩ := (absorbAll_cons_eq_ok _ _).mp absorbs
    obtain ⟨grownFinal, firstFinal, laterFinal⟩ := (absorbAll_cons_eq_ok _ _).mp absorbsFinal
    rw [List.append_cons] at separate
    have one := separate.mono (List.subset_append_left _ _)
    exact ih (steps.absorb lineage one first firstFinal) (lineage.absorb one first) separate later
      laterFinal

/-- Blocks that are confirmed between two parts of a batch are those that would be confirmed first
at its end. -/
theorem Lineage.promote_absorbAll_append {front back : List Header} {grown last whole : ChainState}
    (lineage : state.Lineage origin seen)
    (separate : Header.Separate origin (seen ++ (front ++ back)))
    (absorbsFront : state.absorbAll interval params front = .ok grown)
    (absorbsBack : (grown.promote interval params).1.absorbAll interval params back = .ok last)
    (absorbsWhole : state.absorbAll interval params (front ++ back) = .ok whole) :
    whole.promote interval params =
      ((last.promote interval params).1,
        (grown.promote interval params).2 + (last.promote interval params).2) := by
  obtain ⟨between, same, onward⟩ := (absorbAll_append_eq_ok front back).mp absorbsWhole
  rw [absorbsFront] at same
  cases same
  rw [← List.append_assoc] at separate
  have lineageGrown :=
    lineage.absorbAll (separate.mono (List.subset_append_left _ _)) absorbsFront
  have steps : Confirms interval params whole (grown.promote interval params).2 last :=
    (confirms_promote grown).absorbAll lineageGrown separate onward absorbsBack
  exact steps.promote

/-- In a state that is reached from a trusted block, a batch and its two parts, handed in one after
the other, lead to the same state and confirm the same number of blocks, if all are accepted. -/
theorem accepted_split (seed : Seed) (seedParams params : Params) (initial : ChainState)
    (started : seed.start seedParams = .ok initial) (allowed : Params → Prop)
    (accepted : List Submission) (state : ChainState)
    (reached : Reaches allowed initial accepted state) (front back : List Bytes)
    (interval : Interval) (policy : EmptyBatchPolicy)
    (separate : Header.Separate seed.hash
      (accepted.flatMap Submission.headers ++ readableHeaders (front ++ back)))
    (whole : ChainState) (count : Nat)
    (acceptsWhole : state.outcome params ⟨front ++ back, interval, policy⟩ =
      .ok (.accepted whole count))
    (middle : ChainState) (countFront : Nat)
    (acceptsFront : state.outcome params ⟨front, interval, policy⟩ =
      .ok (.accepted middle countFront))
    (last : ChainState) (countBack : Nat)
    (acceptsBack : middle.outcome params ⟨back, interval, policy⟩ =
      .ok (.accepted last countBack)) :
    whole = last ∧ count = countFront + countBack := by
  by_cases nothing : front = []
  · obtain ⟨rfl, rfl⟩ := unchanged_of_outcome nothing acceptsFront
    rw [nothing, List.nil_append, acceptsBack] at acceptsWhole
    cases acceptsWhole
    exact ⟨rfl, (Nat.zero_add _).symm⟩
  by_cases nothingBack : back = []
  · obtain ⟨rfl, rfl⟩ := unchanged_of_outcome nothingBack acceptsBack
    rw [nothingBack, List.append_nil, acceptsFront] at acceptsWhole
    cases acceptsWhole
    exact ⟨rfl, rfl⟩
  have lineage := reached.lineage started (separate.mono (List.subset_append_left _ _))
  have nonempty : front ++ back ≠ [] := List.append_ne_nil_of_left_ne_nil nothing back
  obtain ⟨grown, _, absorbed, promoted⟩ := (outcome_eq_accepted_iff nothing).mp acceptsFront
  obtain ⟨grownBack, _, absorbedBack, promotedBack⟩ :=
    (outcome_eq_accepted_iff nothingBack).mp acceptsBack
  obtain ⟨grownWhole, _, absorbedWhole, promotedWhole⟩ :=
    (outcome_eq_accepted_iff nonempty).mp acceptsWhole
  have parts : readableHeaders (front ++ back) = readableHeaders front ++ readableHeaders back :=
    List.filterMap_append
  have between : (grown.promote interval params).1 = middle := congrArg Prod.fst promoted
  simp only [Submission.headers, parts] at absorbed absorbedBack absorbedWhole separate
  rw [← between] at absorbedBack
  have final := lineage.promote_absorbAll_append separate absorbed absorbedBack absorbedWhole
  rw [promotedWhole, promoted, promotedBack] at final
  exact Prod.mk.inj final

theorem accepted_split_third :
    let initial := Sample.origin.unchecked Sample.hasty
    let front := [Sample.first, Sample.rival, Sample.afterFirst]
    let back := [Sample.third]
    let middle := initial.submit Sample.hasty (Sample.submit front)
    let last := middle.submit Sample.hasty (Sample.submit back)
    Sample.origin.start Sample.hasty = .ok initial ∧
      initial.outcome Sample.hasty (Sample.submit front) = .ok (.accepted middle 1) ∧
      middle.tracks Sample.rival.hash = false ∧
      middle.outcome Sample.hasty (Sample.submit back) = .ok (.accepted last 1) ∧
      initial.outcome Sample.hasty (Sample.submit (front ++ back)) = .ok (.accepted last 2) := by
  intro initial front back middle last
  let whole := initial.submit Sample.hasty (Sample.submit (front ++ back))
  obtain ⟨acceptsFront, dropped, acceptsBack, acceptsWhole, separate⟩ :
      initial.outcome Sample.hasty (Sample.submit front) = .ok (.accepted middle 1) ∧
        middle.tracks Sample.rival.hash = false ∧
        middle.outcome Sample.hasty (Sample.submit back) = .ok (.accepted last 1) ∧
        initial.outcome Sample.hasty (Sample.submit (front ++ back)) = .ok (.accepted whole 2) ∧
        Header.Separate Sample.origin.hash
          (readableHeaders (front.map Header.wire ++ back.map Header.wire)) := by
    decide +kernel
  have same := accepted_split Sample.origin Sample.hasty Sample.hasty initial Sample.started
    (· = Sample.hasty) [] initial Reaches.start (front.map Header.wire) (back.map Header.wire)
    (Sample.submit front).interval .reject separate whole 2 acceptsWhole middle 1 acceptsFront last
    1 acceptsBack
  refine ⟨Sample.started, acceptsFront, dropped, acceptsBack, ?_⟩
  rw [acceptsWhole, same.1]

end ChainState

end HeaderRelay
