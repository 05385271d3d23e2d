import Mathlib
import HeaderRelay.Proofs.Chain.Confirmation
import HeaderRelay.Proofs.Chain.Forest
import HeaderRelay.Proofs.Chain.Resubmission
import HeaderRelay.Proofs.Document.RoundTrip

/- Promotion builds states without any check. What the check of a state asks of the confirmed tip
was true of the record long before its block was confirmed: each record carries the window of its
tip, kept from one header to the next. -/

set_option autoImplicit false

namespace HeaderRelay

/-- A record in its ranges, one above a tip, whose own tip has its window. -/
structure Fitting (tip : Snapshot) (record : BlockRecord) : Prop where
  windowed : record.tip.Windowed
  inRange : record.InRange
  height : record.height = tip.height + 1

theorem BlockRecord.Extends.fitting {record : BlockRecord} {tip : Snapshot} {header : Header}
    {interval : Interval} {params : Params} (extended : record.Extends tip header interval params)
    (span : params.span = ChainState.windowSpan) (windowed : tip.Windowed) :
    Fitting tip record where
  windowed := windowed.follows span extended.follows
  inRange := record.faults_eq_nil_iff.mp extended.inRange
  height := extended.height

/-- A chain of fitting records has at most as much work as its height allows. -/
theorem sum_work_le (first : BlockRecord) (rest : List BlockRecord)
    (chain : (first :: rest).IsChain fun newer older => Fitting older.tip newer)
    (inRange : ∀ record ∈ first :: rest, record.InRange) :
    ((first :: rest).map BlockRecord.work).sum ≤ (first.height + 1) * 2 ^ 256 := by
  have own := inRange first List.mem_cons_self
  have work : first.work < 2 ^ 256 := own.work.2
  induction rest generalizing first with
  | nil =>
    have height : 0 ≤ first.height := own.tip.height.1
    simp only [List.map_cons, List.map_nil, List.sum_cons, List.sum_nil]
    omega
  | cons second rest ih =>
    obtain ⟨fits, tail⟩ := List.isChain_cons_cons.mp chain
    have later : ∀ record ∈ second :: rest, record.InRange :=
      fun record mem => inRange record (List.mem_cons_of_mem _ mem)
    have next := later second List.mem_cons_self
    have below := ih second tail later next next.work.2
    have above : first.height = second.height + 1 := fits.height
    rw [List.map_cons, List.sum_cons, above]
    omega

namespace Branch.Linked

variable {root : Snapshot} {branch : Branch}

theorem fitting (linked : branch.Linked Fitting root) :
    ∀ record ∈ branch.blocks, record.tip.Windowed ∧ record.InRange := by
  intro record mem
  obtain ⟨tip, fits⟩ := linked.exists_link record mem
  exact ⟨fits.windowed, fits.inRange⟩

theorem fitting_chainwork (linked : branch.Linked Fitting root) : 0 ≤ branch.chainwork :=
  linked.chainwork_nonneg fun _ _ fits => fits.inRange.work.1

theorem chainwork_lt (linked : branch.Linked Fitting root) : branch.chainwork < 2 ^ 321 := by
  have inRange : ∀ record ∈ branch.newest :: branch.older, record.InRange :=
    fun record mem => (linked.fitting record mem).2
  have bound := sum_work_le branch.newest branch.older linked.chain inRange
  have height : branch.newest.height < 2 ^ 64 :=
    (inRange branch.newest List.mem_cons_self).tip.height.2
  rw [linked.chainwork]
  change ((branch.newest :: branch.older).map BlockRecord.work).sum < 2 ^ 321
  omega

theorem checked (linked : branch.Linked Fitting root) : branch.checked = .valid branch := by
  have newest := (linked.fitting branch.newest List.mem_cons_self).2
  have height : Unsigned 64 branch.tipHeight := by
    rw [linked.tipHeight]
    exact newest.tip.height
  exact branch.checked_eq_valid_iff.mpr
    ⟨⟨height, linked.fitting_chainwork⟩, linked.tipHash.symm, linked.tipHeight.symm⟩

end Branch.Linked

namespace ChainState

variable {state next : ChainState} {header : Header} {interval : Interval} {params : Params}
  {branch : Branch}

/-- The confirmed tip has its window, and so has every record, on branches that stand in order. It
does not matter here on what the branches stand. -/
structure Sound (state : ChainState) : Prop where
  confirmed : state.confirmed.Windowed
  ordered : Branch.Ordered state.forks
  linked : ∀ branch ∈ state.forks, ∃ root, branch.Linked Fitting root

namespace Sound

theorem named (sound : state.Sound) : Branch.Named state.forks := by
  intro branch mem
  obtain ⟨root, linked⟩ := sound.linked branch mem
  exact linked.tipHash

/-- The tip at a place has its window. -/
theorem windowed_of_place (sound : state.Sound) {record : BlockRecord} {tip : Snapshot}
    {others : List Branch} (place : Place state record tip others branch) : tip.Windowed := by
  cases place with
  | extend parent others named split =>
    obtain ⟨root, linked⟩ := sound.linked parent (split.mem_iff.mpr List.mem_cons_self)
    exact (linked.fitting parent.newest List.mem_cons_self).1
  | start named elsewhere => exact sound.confirmed

theorem absorb (sound : state.Sound) (span : params.span = windowSpan)
    (absorbs : state.absorb header interval params = .ok next) : next.Sound := by
  have absorbed := absorbed_of_absorb sound.ordered sound.named absorbs
  refine ⟨?_, absorbed.ordered, absorbed.forall_branch sound.linked ?_⟩
  · rw [absorbed.confirmed]
    exact sound.confirmed
  · intro tip record others branch made place
    have fits : Fitting tip record := made.fitting span (sound.windowed_of_place place)
    cases place with
    | extend parent others named split =>
      obtain ⟨root, linked⟩ := sound.linked parent (split.mem_iff.mpr List.mem_cons_self)
      exact ⟨root, linked.grow fits⟩
    | start named elsewhere => exact ⟨state.confirmed, Branch.Linked.single fits⟩

theorem promoteOldest (sound : state.Sound) (mem : branch ∈ state.forks) :
    (state.promoteOldest branch).Sound := by
  obtain ⟨root, linked⟩ := sound.linked branch mem
  refine ⟨(linked.fitting branch.oldest branch.oldest_mem_blocks).1,
    (forks_promoteOldest_subperm state branch).1, ?_⟩
  intro other there
  rcases mem_forks_promoteOldest there with short | old
  · exact ⟨branch.oldest.tip, linked.shorten short⟩
  · exact sound.linked other old

theorem outcome (sound : state.Sound) (span : params.span = windowSpan) {submission : Submission}
    {count : Nat} (accepts : state.outcome params submission = .ok (.accepted next count)) :
    next.Sound := by
  refine outcome_induction (motive := fun state _ => state.Sound) ?_ ?_ sound accepts
  · intro state header next _ sound absorbs
    exact sound.absorb span absorbs
  · intro state count branch sound wins
    exact sound.promoteOldest (mem_of_winner? wins).1

end Sound

theorem Reaches.sound {initial : ChainState} {allowed : Params → Prop}
    {accepted : List Submission} (reached : Reaches allowed initial accepted state)
    (span : ∀ params, allowed params → params.span = windowSpan)
    (checked : initial.checked = .valid initial) (bare : initial.forks = []) : state.Sound := by
  induction reached with
  | start =>
    obtain ⟨windowed, ordered⟩ := initial.checked_eq_valid_iff.mp checked
    refine ⟨windowed, ordered, ?_⟩
    rw [bare]
    exact List.forall_mem_nil _
  | accept permitted reached accepts ih => exact ih.outcome (span _ permitted) accepts

/-- A state passes its own check and those of its parts. What they come to is said again in full. -/
structure Valid (state : ChainState) : Prop where
  checked : state.checked = .valid state
  branches : ∀ branch ∈ state.forks, branch.checked = .valid branch
  records : ∀ record ∈ state.records, record.checked = .valid record
  newestFirst : state.confirmed.recentTimestamps.Pairwise fun newer older => older ≤ newer
  length : (state.confirmed.recentTimestamps.length : Int) = min (state.confirmed.height + 1) 11
  included : state.confirmed.timestamp ∈ state.confirmed.recentTimestamps
  ordered : state.forks.Pairwise fun first second => first.tipHash < second.tipHash
  tips : ∀ branch ∈ state.forks, branch.tipHash = branch.newest.hash ∧
    branch.tipHeight = branch.newest.height
  chainwork : ∀ branch ∈ state.forks, 0 ≤ branch.chainwork

theorem Sound.inRange (sound : state.Sound) : ∀ record ∈ state.records, record.InRange := by
  intro record mem
  obtain ⟨branch, there, held⟩ := mem_records.mp mem
  obtain ⟨root, linked⟩ := sound.linked branch there
  exact (linked.fitting record held).2

theorem Sound.valid (sound : state.Sound) : state.Valid where
  checked := state.checked_eq_valid_iff.mpr ⟨sound.confirmed, sound.ordered⟩
  branches := by
    intro branch mem
    obtain ⟨root, linked⟩ := sound.linked branch mem
    exact linked.checked
  records := fun record mem => record.checked_eq_valid_iff.mpr (sound.inRange record mem)
  newestFirst := sound.confirmed.newestFirst
  length := sound.confirmed.length
  included := sound.confirmed.included
  ordered := sound.ordered
  tips := by
    intro branch mem
    obtain ⟨root, linked⟩ := sound.linked branch mem
    exact ⟨linked.tipHash, linked.tipHeight⟩
  chainwork := by
    intro branch mem
    obtain ⟨root, linked⟩ := sound.linked branch mem
    exact linked.fitting_chainwork

theorem Sound.decode_encode (sound : state.Sound) :
    Document.decode (Document.encode state) = .valid state := by
  have valid := sound.valid
  refine ChainState.decode_encode valid.checked valid.branches sound.inRange ?_
  intro branch mem
  obtain ⟨root, linked⟩ := sound.linked branch mem
  have fits : Unsigned 321 branch.chainwork := ⟨linked.fitting_chainwork, linked.chainwork_lt⟩
  have short := fits.length_natural_le (by omega)
  have limit : Document.limits.length = 4300 := rfl
  omega

/-- Every state that accepted submissions lead to from a trusted block, as long as eleven recent
timestamps are kept, passes every check, and its text is read back as the state. -/
theorem decode_encode_of_reaches (seed : Seed) (seedParams : Params) (initial : ChainState)
    (started : seed.start seedParams = .ok initial) (accepted : List Submission)
    (state : ChainState)
    (reached : Reaches (fun params => params.medianTimeSpan = 11) initial accepted state) :
    state.Valid ∧ Document.decode (Document.encode state) = .valid state := by
  have eleven : ∀ params : Params, params.medianTimeSpan = 11 → params.span = windowSpan := by
    intro params span
    rw [Params.span, span]
    rfl
  have checked : initial.checked = .valid initial := by
    have valid := Seed.checked_of_start started
    rw [← Seed.eq_unchecked_of_start started] at valid
    exact valid
  have sound := reached.sound eleven checked (Seed.forks_of_start started)
  exact ⟨sound.valid, sound.decode_encode⟩

theorem decode_encode_settled :
    Sample.origin.start Sample.hasty = .ok (Sample.origin.unchecked Sample.hasty) ∧
      Sample.hasty.medianTimeSpan = 11 ∧
      Run Sample.hasty (Sample.origin.unchecked Sample.hasty) Sample.contest Sample.settled ∧
      Sample.settled.confirmed.recentTimestamps = [1300000001, 1300000000] ∧
      Sample.settled.Valid ∧
      Document.decode (Document.encode Sample.settled) = .valid Sample.settled := by
  have recent : Sample.settled.confirmed.recentTimestamps = [1300000001, 1300000000] := by
    decide +kernel
  exact ⟨Sample.started, rfl, Sample.run_contest, recent,
    decode_encode_of_reaches Sample.origin Sample.hasty _ Sample.started Sample.contest
      Sample.settled (Sample.run_contest.reaches rfl)⟩

example (network : Network) : (Params.preset network).medianTimeSpan = 11 := by
  cases network <;> rfl

end ChainState

end HeaderRelay
