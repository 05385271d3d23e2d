import Mathlib
import HeaderRelay.Proofs.Chain.Resubmission
import HeaderRelay.Proofs.Document.Injective

set_option autoImplicit false

namespace HeaderRelay

namespace ChainState

/-- The fields of states by plain name, in the order in which they are declared, and whether two
states agree on each. -/
def agreements (expected claimed : ChainState) : List (String × Bool) :=
  [("confirmed_height", expected.confirmed.height = claimed.confirmed.height),
    ("confirmed_hash", expected.confirmed.tipHash = claimed.confirmed.tipHash),
    ("current_target", expected.confirmed.bits = claimed.confirmed.bits),
    ("confirmed_timestamp", expected.confirmed.timestamp = claimed.confirmed.timestamp),
    ("recent_timestamps",
      expected.confirmed.recentTimestamps = claimed.confirmed.recentTimestamps),
    ("epoch_start_timestamp", expected.confirmed.epochStart = claimed.confirmed.epochStart),
    ("confirmed_accumulator", expected.history = claimed.history),
    ("forks", expected.forks = claimed.forks)]

variable {expected claimed : ChainState}

example : (agreements expected claimed).map Prod.fst = fields.labels.map Label.name := rfl

/-- States that agree on all fields are the same. -/
theorem eq_iff_agreements :
    expected = claimed ↔ ∀ field ∈ agreements expected claimed, field.2 = true := by
  simp only [agreements, List.forall_mem_cons, List.not_mem_nil, false_implies, implies_true,
    and_true, decide_eq_true_eq]
  obtain ⟨⟨_, _, _, _, _, _⟩, _, _⟩ := expected
  obtain ⟨⟨_, _, _, _, _, _⟩, _, _⟩ := claimed
  simp only [mk.injEq, Snapshot.mk.injEq]
  tauto

/-- A field is the first, in the order of declaration, on which two states differ. -/
def FirstDifference (expected claimed : ChainState) (name : String) : Prop :=
  ∃ before after, agreements expected claimed = before ++ (name, false) :: after ∧
    ∀ field ∈ before, field.2 = true

theorem firstDifference?_eq_find? (expected claimed : ChainState) :
    expected.firstDifference? claimed =
      ((agreements expected claimed).find? fun field => !field.2).map Prod.fst := by
  unfold firstDifference? agreements
  split_ifs <;> simp_all

theorem firstDifference?_eq_some_iff (name : String) :
    expected.firstDifference? claimed = some name ↔ FirstDifference expected claimed name := by
  rw [firstDifference?_eq_find?]
  constructor
  · intro named
    obtain ⟨⟨found, agree⟩, first, rfl⟩ := Option.map_eq_some_iff.mp named
    obtain ⟨differs, before, after, split, same⟩ := List.find?_eq_some_iff_append.mp first
    simp only [Bool.not_eq_eq_eq_not, Bool.not_true, Bool.not_not] at differs same
    subst differs
    exact ⟨before, after, split, same⟩
  · rintro ⟨before, after, split, same⟩
    refine Option.map_eq_some_iff.mpr ⟨(name, false), ?_, rfl⟩
    refine List.find?_eq_some_iff_append.mpr ⟨rfl, before, after, split, ?_⟩
    simpa using same

theorem exists_firstDifference (different : expected ≠ claimed) :
    ∃ name, FirstDifference expected claimed name := by
  cases first : expected.firstDifference? claimed with
  | some name => exact ⟨name, (firstDifference?_eq_some_iff name).mp first⟩
  | none =>
    rw [firstDifference?_eq_find?, Option.map_eq_none_iff, List.find?_eq_none] at first
    refine absurd (eq_iff_agreements.mpr ?_) different
    simpa using first

variable {state : ChainState} {batch : List Bytes} {interval : Interval} {params : Params}
  {policy : EmptyBatchPolicy} {promotions : Nat}

theorem verify_of_accepted
    (accepts :
      state.transition batch interval params policy = .ok (.accepted expected promotions)) :
    state.verify batch interval claimed params policy =
      if expected = claimed then .ok (.accepted claimed promotions)
      else .ok (.rejected (expected.claimRefusal claimed)) := by
  rw [verify, accepts]
  simp only [encode_injective.eq_iff]

theorem verify_of_rejected {error : RelayError}
    (refuses : state.transition batch interval params policy = .ok (.rejected error)) :
    state.verify batch interval claimed params policy = .ok (.rejected error) := by
  rw [verify, refuses]

/-- Where the transition gives an outcome, a claim is accepted exactly when it is the state of this
outcome. A refusal of the batch is passed on, and any other claim is refused for the first field in
which it differs. What is compared stands for the state alone: no other document has its text. -/
theorem verify_of_transition (state claimed : ChainState) (batch : List Bytes)
    (interval : Interval) (params : Params) (policy : EmptyBatchPolicy) (outcome : Outcome)
    (answers : state.transition batch interval params policy = .ok outcome) :
    (∀ result promotions,
      state.verify batch interval claimed params policy = .ok (.accepted result promotions) ↔
        result = claimed ∧ outcome = .accepted claimed promotions) ∧
      (∀ error, outcome = .rejected error →
        state.verify batch interval claimed params policy = .ok (.rejected error)) ∧
      (∀ expected promotions, outcome = .accepted expected promotions → expected ≠ claimed →
        ∃ name, FirstDifference expected claimed name ∧
          state.verify batch interval claimed params policy =
            .ok (.rejected (.claimDiffers (name ++ " differs from recomputation")))) ∧
      ∀ expected promotions, outcome = .accepted expected promotions →
        ∀ json : Json, json.Exact → json.text = Document.encode expected →
          json = expected.toJson := by
  refine ⟨?_, ?_, ?_, ?_⟩
  · intro result promotions
    cases outcome with
    | rejected error =>
      rw [verify_of_rejected answers]
      simp
    | accepted expected count =>
      rw [verify_of_accepted answers]
      split
      · rename_i same
        subst same
        simp only [Except.ok.injEq, Outcome.accepted.injEq, true_and]
        exact and_congr_left fun _ => eq_comm
      · rename_i different
        simp [different]
  · rintro error rfl
    exact verify_of_rejected answers
  · rintro expected promotions rfl different
    obtain ⟨name, first⟩ := exists_firstDifference different
    have named := (firstDifference?_eq_some_iff name).mpr first
    refine ⟨name, first, ?_⟩
    rw [verify_of_accepted answers, if_neg different, claimRefusal, named, Option.getD_some]
  · rintro expected promotions rfl json precise same
    exact precise.eq_of_text_eq expected.exact_toJson same

theorem verify_of_transition_forged :
    let state := Sample.origin.unchecked Sample.hasty
    let submission := Sample.submit [Sample.first, Sample.rival]
    let next := state.submit Sample.hasty submission
    let forged := { next with forks := next.forks.reverse }
    state.outcome Sample.hasty submission = .ok (.accepted next 0) ∧
      state.verify submission.batch submission.interval next Sample.hasty submission.policy =
        .ok (.accepted next 0) ∧
      FirstDifference next forged "forks" ∧
      state.verify submission.batch submission.interval forged Sample.hasty submission.policy =
        .ok (.rejected (.claimDiffers "forks differs from recomputation")) := by
  intro state submission next forged
  obtain ⟨accepts, different, named⟩ :
      state.outcome Sample.hasty submission = .ok (.accepted next 0) ∧ next ≠ forged ∧
        next.firstDifference? forged = some "forks" := by
    decide +kernel
  have honest := verify_of_transition state next submission.batch submission.interval Sample.hasty
    submission.policy _ accepts
  have dishonest := verify_of_transition state forged submission.batch submission.interval
    Sample.hasty submission.policy _ accepts
  obtain ⟨name, first, refused⟩ := dishonest.2.2.1 next 0 rfl different
  have same := (firstDifference?_eq_some_iff name).mpr first
  rw [named] at same
  cases same
  exact ⟨accepts, (honest.1 next 0).mpr ⟨rfl, rfl⟩, first, refused⟩

end ChainState

end HeaderRelay
