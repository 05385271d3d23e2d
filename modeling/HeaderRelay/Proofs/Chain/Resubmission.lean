import Mathlib
import HeaderRelay.Proofs.Chain.Attachment

set_option autoImplicit false

namespace HeaderRelay

namespace ChainState

variable {origin : Digest} {seen : List Header} {state next : ChainState} {header : Header}
  {interval : Interval} {params : Params}

theorem Reaches.map_ofWire {start : ChainState} {allowed : Params → Prop}
    {accepted : List Submission} (reached : Reaches allowed start accepted state) :
    ((accepted.flatMap Submission.batch).map fun raw => (Header.ofWire raw).toOption) =
      (accepted.flatMap Submission.headers).map some := by
  induction reached with
  | start => rfl
  | @accept params accepted state next submission count permitted reached accepts ih =>
    have last : (submission.batch.map fun raw => (Header.ofWire raw).toOption) =
        submission.headers.map some := by
      rcases outcome_cases accepts with ⟨empty, _, _⟩ | ⟨headers, grown, read, _, _⟩
      · rw [Submission.headers, empty]
        rfl
      · rw [Submission.headers, readableHeaders_of_readHeaders read]
        exact map_ofWire_of_readHeaders read
    simp only [List.flatMap_append, List.flatMap_singleton, List.map_append, ih, last]

/-- A header is refused when it comes again, whatever stands before it in its batch. -/
theorem Lineage.outcome_of_mem {submission : Submission} {front back : List Header}
    {grown : ChainState} (lineage : state.Lineage origin seen)
    (separate : Header.Separate origin (seen ++ submission.headers))
    (read : readHeaders submission.batch = .ok (front ++ header :: back)) (mem : header ∈ seen)
    (absorbs : state.absorbAll submission.interval params front = .ok grown) :
    state.outcome params submission = .ok (.rejected
      (if grown.tracks header.hash then .duplicate header.hash
        else .unattached header.prevHash)) := by
  have headers : submission.headers = front ++ header :: back :=
    readableHeaders_of_readHeaders read
  have before : Header.Separate origin (seen ++ front) := by
    refine separate.mono ?_
    rw [headers, ← List.append_assoc]
    exact List.subset_append_left _ _
  have refused : grown.absorb header submission.interval params = .error (.refused
      (if grown.tracks header.hash then .duplicate header.hash
        else .unattached header.prevHash)) :=
    (lineage.absorbAll before absorbs).refuses (List.mem_append_left _ mem)
  have nonempty : submission.batch ≠ [] := by
    intro empty
    rw [Submission.headers, empty] at headers
    exact List.append_ne_nil_of_right_ne_nil front (List.cons_ne_nil header back) headers.symm
  refine outcome_of_refused nonempty ?_ ?_
  · rw [headers, read]
  · simp only [headers, absorbAll_append, absorbs, ChainState.absorbAll, refused]

end ChainState

namespace Sample

/-- Two branches compete, and the second block of one confirms its first. -/
def contest : List Submission := [submit [first, rival], submit [afterFirst]]

def settled : ChainState := (origin.unchecked hasty).submitAll hasty contest

theorem started : origin.start hasty = .ok (origin.unchecked hasty) := by decide +kernel

theorem run_contest : ChainState.Run hasty (origin.unchecked hasty) contest settled := by
  let opened := (origin.unchecked hasty).submit hasty (submit [first, rival])
  obtain ⟨opens, confirms⟩ :
      (origin.unchecked hasty).outcome hasty (submit [first, rival]) = .ok (.accepted opened 0) ∧
        opened.outcome hasty (submit [afterFirst]) = .ok (.accepted settled 1) := by
    decide +kernel
  exact ChainState.Run.accept (ChainState.Run.accept ChainState.Run.start opens) confirms

end Sample

namespace ChainState

/-- The batches accepted from a trusted block on hold no header twice. When one of their headers
comes again, whatever became of it, the submission is not accepted, and the header is refused once
its turn comes: as a duplicate while it is tracked, and later because nothing is left on which it
stands. -/
theorem accepted_once (seed : Seed) (seedParams : Params) (initial : ChainState)
    (started : seed.start seedParams = .ok initial) (allowed : Params → Prop)
    (accepted : List Submission) (state : ChainState)
    (reached : Reaches allowed initial accepted state)
    (separate : Header.Separate seed.hash (accepted.flatMap Submission.headers)) :
    (accepted.flatMap Submission.batch).Nodup ∧
      ∀ (params : Params) (submission : Submission),
        Header.Separate seed.hash
          (accepted.flatMap Submission.headers ++ submission.headers) →
        ∀ header ∈ submission.headers, header ∈ accepted.flatMap Submission.headers →
          (∀ next count, state.outcome params submission ≠ .ok (.accepted next count)) ∧
            ∀ front back grown, readHeaders submission.batch = .ok (front ++ header :: back) →
              state.absorbAll submission.interval params front = .ok grown →
              state.outcome params submission = .ok (.rejected
                (if grown.tracks header.hash then .duplicate header.hash
                  else .unattached header.prevHash)) := by
  have lineage := reached.lineage started separate
  constructor
  · have items := lineage.nodup.map (Option.some_injective Header)
    rw [← reached.map_ofWire] at items
    exact items.of_map _
  · intro params submission more header mem again
    constructor
    · intro next count accepts
      have twice := (lineage.outcome more accepts).nodup
      exact List.disjoint_of_nodup_append twice again mem
    · intro front back grown read absorbs
      exact lineage.outcome_of_mem more read again absorbs

theorem accepted_once_rival :
    Sample.origin.start Sample.hasty = .ok (Sample.origin.unchecked Sample.hasty) ∧
      Run Sample.hasty (Sample.origin.unchecked Sample.hasty) Sample.contest Sample.settled ∧
      (Sample.contest.flatMap Submission.batch).Nodup ∧
      Sample.settled.outcome Sample.hasty (Sample.submit [Sample.rival]) =
        .ok (.rejected (.unattached Sample.origin.hash)) ∧
      Sample.settled.outcome Sample.hasty
        (Sample.submit [Sample.alsoAfterFirst, Sample.afterFirst]) =
        .ok (.rejected (.duplicate Sample.afterFirst.hash)) := by
  let again := Sample.submit [Sample.rival]
  let more := Sample.submit [Sample.alsoAfterFirst, Sample.afterFirst]
  let grown := Sample.settled.submit Sample.hasty (Sample.submit [Sample.alsoAfterFirst])
  obtain ⟨separate, separateAgain, separateMore, gone, absorbs, tracked⟩ :
      Header.Separate Sample.origin.hash (Sample.contest.flatMap Submission.headers) ∧
        Header.Separate Sample.origin.hash
          (Sample.contest.flatMap Submission.headers ++ again.headers) ∧
        Header.Separate Sample.origin.hash
          (Sample.contest.flatMap Submission.headers ++ more.headers) ∧
        Sample.settled.tracks Sample.rival.hash = false ∧
        Sample.settled.absorbAll more.interval Sample.hasty [Sample.alsoAfterFirst] = .ok grown ∧
        grown.tracks Sample.afterFirst.hash = true := by
    decide +kernel
  obtain ⟨nodup, refused⟩ := accepted_once Sample.origin Sample.hasty _ Sample.started
    (· = Sample.hasty) Sample.contest Sample.settled (Sample.run_contest.reaches rfl) separate
  refine ⟨Sample.started, Sample.run_contest, nodup, ?_, ?_⟩
  · have first := (refused Sample.hasty again separateAgain Sample.rival (by decide +kernel)
      (by decide +kernel)).2 [] [] Sample.settled (by decide +kernel) rfl
    rw [gone] at first
    exact first
  · have second := (refused Sample.hasty more separateMore Sample.afterFirst (by decide +kernel)
      (by decide +kernel)).2 [Sample.alsoAfterFirst] [] grown (by decide +kernel) absorbs
    rw [tracked] at second
    exact second

end ChainState

end HeaderRelay
