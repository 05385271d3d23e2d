import Mathlib
import HeaderRelay.Proofs.Chain.Attachment
import HeaderRelay.Proofs.Chain.Resubmission

set_option autoImplicit false

namespace HeaderRelay

/-- No header comes before one that it extends. -/
def ParentsFirst (headers : List Header) : Prop :=
  headers.Pairwise fun earlier later => earlier.prevHash ≠ later.hash

instance (headers : List Header) : Decidable (ParentsFirst headers) :=
  inferInstanceAs (Decidable (headers.Pairwise _))

namespace ChainState

variable {origin : Digest} {seen headers : List Header} {state next : ChainState}
  {interval : Interval} {params : Params}

/-- A header that extends none of those before it can come before all of them. -/
theorem absorbAll_front {header : Header} (front back : List Header)
    (lineage : state.Lineage origin seen)
    (separate : Header.Separate origin (seen ++ (front ++ header :: back)))
    (absorbs : state.absorbAll interval params (front ++ header :: back) = .ok next)
    (apart : ∀ other ∈ front, header.prevHash ≠ other.hash) :
    state.absorbAll interval params (header :: (front ++ back)) = .ok next := by
  induction front generalizing state seen with
  | nil => exact absorbs
  | cons first rest ih =>
    obtain ⟨middle, absorbsFirst, later⟩ := (absorbAll_cons_eq_ok _ _).mp absorbs
    have one : Header.Separate origin (seen ++ [first]) := separate.mono (by simp)
    have two : Header.Separate origin (seen ++ [first, header]) := separate.mono (by simp)
    have moved := ih (lineage.absorb one absorbsFirst)
      (by rwa [List.append_assoc, List.singleton_append]) later
      fun other mem => apart other (List.mem_cons_of_mem _ mem)
    obtain ⟨grown, absorbsHeader, remaining⟩ := (absorbAll_cons_eq_ok _ _).mp moved
    obtain ⟨swapped, headerFirst, firstLater⟩ :=
      absorb_swap lineage two absorbsFirst absorbsHeader (apart first List.mem_cons_self)
    refine (absorbAll_cons_eq_ok _ _).mpr ⟨swapped, headerFirst, ?_⟩
    exact (absorbAll_cons_eq_ok _ _).mpr ⟨grown, firstLater, remaining⟩

/-- Headers that can be attached in one order can be attached in every order that has parents first,
and lead to the same state. -/
theorem absorbAll_perm {other : List Header} (lineage : state.Lineage origin seen)
    (separate : Header.Separate origin (seen ++ headers)) (perm : other.Perm headers)
    (absorbs : state.absorbAll interval params headers = .ok next) (first : ParentsFirst other) :
    state.absorbAll interval params other = .ok next := by
  -- along the other order: its first header is brought to the front, and the rest follows
  induction other generalizing state seen headers with
  | nil =>
    rw [List.nil_perm.mp perm] at absorbs
    exact absorbs
  | cons header rest ih =>
    obtain ⟨front, back, split⟩ := List.append_of_mem (perm.mem_iff.mp List.mem_cons_self)
    rw [split] at perm absorbs separate
    have others : rest.Perm (front ++ back) := (perm.trans List.perm_middle).cons_inv
    obtain ⟨before, later⟩ := List.pairwise_cons.mp first
    have moved := absorbAll_front front back lineage separate absorbs fun other mem =>
      before other (others.mem_iff.mpr (List.mem_append_left _ mem))
    obtain ⟨grown, absorbsHeader, remaining⟩ := (absorbAll_cons_eq_ok _ _).mp moved
    have one : Header.Separate origin (seen ++ [header]) := separate.mono (by simp)
    have all : Header.Separate origin (seen ++ [header] ++ (front ++ back)) := by
      refine separate.mono ?_
      intro other mem
      simp only [List.mem_append, List.mem_cons, List.not_mem_nil, or_false] at mem ⊢
      tauto
    refine (absorbAll_cons_eq_ok _ _).mpr ⟨grown, absorbsHeader, ?_⟩
    exact ih (lineage.absorb one absorbsHeader) all others remaining later

/-- Headers that can be attached in their order have parents first. -/
theorem parentsFirst_of_absorbAll (lineage : state.Lineage origin seen)
    (separate : Header.Separate origin (seen ++ headers))
    (absorbs : state.absorbAll interval params headers = .ok next) : ParentsFirst headers := by
  induction headers generalizing state seen with
  | nil => exact List.Pairwise.nil
  | cons header rest ih =>
    obtain ⟨grown, absorbsHeader, later⟩ := (absorbAll_cons_eq_ok _ _).mp absorbs
    rw [List.append_cons] at separate
    have lineageGrown :=
      lineage.absorb (separate.mono (List.subset_append_left _ _)) absorbsHeader
    have nodup := (lineageGrown.absorbAll separate later).nodup
    refine List.pairwise_cons.mpr ⟨?_, ih lineageGrown separate later⟩
    -- what the first header extends was known, and a later header is new
    intro other mem same
    have known := lineageGrown.parented header (List.mem_append_right _ List.mem_cons_self)
    have there : other ∈ seen ++ [header] ++ rest := List.mem_append_right _ mem
    rcases known with trusted | ⟨parent, accepted, named⟩
    · exact separate.apart other there (same.symm.trans trusted)
    · have equal := separate.injective parent (List.mem_append_left _ accepted) other there
        (named.trans same)
      exact List.disjoint_of_nodup_append nodup (equal ▸ accepted) mem

end ChainState

namespace Sample

def third : Header := childOf afterFirst.hash 1300000003 0

def afterBoth : Header := childOf alsoAfterFirst.hash 1300000003 1

end Sample

namespace ChainState

/-- In a state that is reached from a trusted block, a batch that is accepted can be handed in in
another order exactly when no header comes before one that it extends. Then the relay answers with
the same state and the same count. -/
theorem accepted_perm (seed : Seed) (seedParams params : Params) (initial : ChainState)
    (started : seed.start seedParams = .ok initial) (allowed : Params → Prop)
    (accepted : List Submission) (state : ChainState)
    (reached : Reaches allowed initial accepted state) (submission : Submission)
    (next : ChainState) (count : Nat)
    (accepts : state.outcome params submission = .ok (.accepted next count))
    (separate : Header.Separate seed.hash
      (accepted.flatMap Submission.headers ++ submission.headers))
    (other : List Bytes) (perm : other.Perm submission.batch) :
    ((∃ result promotions, state.outcome params { submission with batch := other } =
        .ok (.accepted result promotions)) ↔ ParentsFirst (readableHeaders other)) ∧
      (ParentsFirst (readableHeaders other) →
        state.outcome params { submission with batch := other } =
          .ok (.accepted next count)) := by
  have lineage := reached.lineage started (separate.mono (List.subset_append_left _ _))
  have separateOther : Header.Separate seed.hash
      (accepted.flatMap Submission.headers ++ readableHeaders other) := by
    refine separate.mono ?_
    intro header mem
    have headers : (readableHeaders other).Perm submission.headers := perm.filterMap _
    rcases List.mem_append.mp mem with before | now
    · exact List.mem_append_left _ before
    · exact List.mem_append_right _ (headers.mem_iff.mp now)
  have onward : ParentsFirst (readableHeaders other) →
      state.outcome params { submission with batch := other } = .ok (.accepted next count) := by
    intro first
    by_cases empty : submission.batch = []
    · have same : other = submission.batch := by
        rw [empty] at perm ⊢
        exact List.perm_nil.mp perm
      rw [same]
      exact accepts
    · have nonempty : other ≠ [] := fun nothing => empty (List.nil_perm.mp (nothing ▸ perm))
      obtain ⟨grown, read, absorbed, promoted⟩ := (outcome_eq_accepted_iff empty).mp accepts
      have reordered : state.absorbAll submission.interval params (readableHeaders other) =
          .ok grown :=
        absorbAll_perm lineage separate (perm.filterMap _) absorbed first
      exact (outcome_eq_accepted_iff nonempty).mpr
        ⟨grown, readHeaders_of_perm read perm, reordered, promoted⟩
  refine ⟨⟨?_, fun first => ⟨next, count, onward first⟩⟩, onward⟩
  rintro ⟨result, promotions, acceptsOther⟩
  by_cases nothing : other = []
  · rw [nothing]
    exact List.Pairwise.nil
  · obtain ⟨grown, _, absorbed, _⟩ := (outcome_eq_accepted_iff nothing).mp acceptsOther
    exact parentsFirst_of_absorbAll lineage separateOther absorbed

theorem accepted_perm_mixed :
    let usual := [Sample.alsoAfterFirst, Sample.afterBoth, Sample.third]
    let other := [Sample.third, Sample.alsoAfterFirst, Sample.afterBoth]
    let next := Sample.settled.submit Sample.hasty (Sample.submit usual)
    Sample.origin.start Sample.hasty = .ok (Sample.origin.unchecked Sample.hasty) ∧
      Run Sample.hasty (Sample.origin.unchecked Sample.hasty) Sample.contest Sample.settled ∧
      Sample.settled.outcome Sample.hasty (Sample.submit usual) = .ok (.accepted next 1) ∧
      Sample.settled.outcome Sample.hasty (Sample.submit other) = .ok (.accepted next 1) := by
  intro usual other next
  obtain ⟨accepts, separate, first⟩ :
      Sample.settled.outcome Sample.hasty (Sample.submit usual) = .ok (.accepted next 1) ∧
        Header.Separate Sample.origin.hash
          (Sample.contest.flatMap Submission.headers ++ (Sample.submit usual).headers) ∧
        ParentsFirst (readableHeaders (other.map Header.wire)) := by
    decide +kernel
  have perm : other.Perm usual :=
    (List.perm_append_singleton Sample.third [Sample.alsoAfterFirst, Sample.afterBoth]).symm
  exact ⟨Sample.started, Sample.run_contest, accepts,
    (accepted_perm Sample.origin Sample.hasty Sample.hasty _ Sample.started (· = Sample.hasty)
      Sample.contest Sample.settled (Sample.run_contest.reaches rfl) (Sample.submit usual) next 1
      accepts separate (other.map Header.wire) (perm.map Header.wire)).2 first⟩

end ChainState

end HeaderRelay
