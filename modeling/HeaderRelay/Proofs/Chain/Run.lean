import Mathlib
import HeaderRelay.Chain.Seed
import HeaderRelay.Transition
import HeaderRelay.Proofs.Chain.Promotion
import HeaderRelay.Proofs.Validation.Rules

set_option autoImplicit false

namespace HeaderRelay

/-- A batch as it is handed to the relay. -/
structure Submission where
  batch : List Bytes
  interval : Interval
  policy : EmptyBatchPolicy

namespace Submission

def Carries (submission : Submission) (header : Header) : Prop :=
  ∃ raw ∈ submission.batch, Header.ofWire raw = .ok header

/-- No header of the batch names itself as the block before it. -/
def Proper (submission : Submission) : Prop :=
  ∀ header, submission.Carries header → header.hash ≠ header.prevHash

def isProper (raw : Bytes) : Bool :=
  match Header.ofWire raw with
  | .ok header => header.hash ≠ header.prevHash
  | .error _ => true

theorem isProper_iff (raw : Bytes) :
    isProper raw = true ↔
      ∀ header, Header.ofWire raw = .ok header → header.hash ≠ header.prevHash := by
  rw [isProper]
  split
  · rename_i header read
    constructor
    · intro apart other same
      cases read.symm.trans same
      exact of_decide_eq_true apart
    · intro apart
      exact decide_eq_true (apart header read)
  · rename_i error failed
    refine ⟨fun _ header read => ?_, fun _ => rfl⟩
    cases failed.symm.trans read

instance (submission : Submission) : Decidable submission.Proper :=
  decidable_of_iff (∀ raw ∈ submission.batch, isProper raw = true) <| by
    constructor
    · rintro proper header ⟨raw, mem, read⟩
      exact (isProper_iff raw).mp (proper raw mem) header read
    · intro proper raw mem
      exact (isProper_iff raw).mpr fun header read => proper header ⟨raw, mem, read⟩

end Submission

theorem exists_raw_of_readHeaders {batch : List Bytes} {headers : List Header}
    (read : readHeaders batch = .ok headers) :
    ∀ header ∈ headers, ∃ raw ∈ batch, Header.ofWire raw = .ok header := by
  induction batch generalizing headers with
  | nil =>
    cases read
    intro header mem
    cases mem
  | cons raw rest ih =>
    simp only [readHeaders] at read
    split at read
    · cases read
    · rename_i first here
      obtain ⟨others, readRest, rfl⟩ := (map_eq_ok _ _ _).mp read
      intro header mem
      rcases List.mem_cons.mp mem with rfl | later
      · exact ⟨raw, List.mem_cons_self, here⟩
      · obtain ⟨other, there, same⟩ := ih readRest header later
        exact ⟨other, List.mem_cons_of_mem _ there, same⟩

/-- A trusted block gives the state that is made of its fields, when its window passes the check of
the network and the state passes its own. -/
theorem Seed.start_eq_ok_iff {seed : Seed} {params : Params} {initial : ChainState} :
    seed.start params = .ok initial ↔
      initial = seed.unchecked params ∧ initial.checked = .valid initial ∧
        ((seed.window params).length : Int) = ChainState.windowLength params.span seed.height ∧
        seed.timestamp ∈ seed.window params := by
  constructor
  · intro started
    simp only [start] at started
    split at started
    · cases started
    · rename_i length
      split at started
      · rename_i included
        split at started
        · rename_i state valid
          cases started
          have same : initial = seed.unchecked params := by
            simp only [ChainState.checked, Checked.ensure_eq_valid,
              Checked.ofFaults_eq_valid] at valid
            exact valid.1.1.2
          subst same
          exact ⟨rfl, valid, not_not.mp length, included⟩
        · cases started
      · cases started
  · rintro ⟨rfl, valid, length, included⟩
    simp only [start, length, ne_eq, not_true_eq_false, ↓reduceIte, included, valid]

theorem Seed.eq_unchecked_of_start {seed : Seed} {params : Params} {initial : ChainState}
    (started : seed.start params = .ok initial) : initial = seed.unchecked params :=
  (start_eq_ok_iff.mp started).1

theorem Seed.checked_of_start {seed : Seed} {params : Params} {initial : ChainState}
    (started : seed.start params = .ok initial) :
    (seed.unchecked params).checked = .valid initial := by
  obtain ⟨rfl, valid, _⟩ := start_eq_ok_iff.mp started
  exact valid

theorem Seed.forks_of_start {seed : Seed} {params : Params} {initial : ChainState}
    (started : seed.start params = .ok initial) : initial.forks = [] := by
  rw [eq_unchecked_of_start started, unchecked]

namespace ChainState

/-- How the relay answers a submission. -/
def outcome (params : Params) (state : ChainState) (submission : Submission) :
    Except Failure Outcome :=
  state.transition submission.batch submission.interval params submission.policy

/-- The state after a submission, which is another one only when the submission is accepted. -/
def submit (params : Params) (state : ChainState) (submission : Submission) : ChainState :=
  match state.outcome params submission with
  | .ok (.accepted next _) => next
  | _ => state

def submitAll (params : Params) (state : ChainState) (submissions : List Submission) :
    ChainState :=
  submissions.foldl (submit params) state

/-- A state can be reached from another one by submissions that are accepted one after the other. -/
inductive Run (params : Params) (start : ChainState) : List Submission → ChainState → Prop
  | start : Run params start [] start
  | accept {accepted : List Submission} {state next : ChainState} {submission : Submission}
      {count : Nat} (reached : Run params start accepted state)
      (accepts : state.outcome params submission = .ok (.accepted next count)) :
      Run params start (accepted ++ [submission]) next

/-- As in a run, except that each submission may come under other parameters, of those allowed. -/
inductive Reaches (allowed : Params → Prop) (start : ChainState) :
    List Submission → ChainState → Prop
  | start : Reaches allowed start [] start
  | accept {params : Params} {accepted : List Submission} {state next : ChainState}
      {submission : Submission} {count : Nat} (permitted : allowed params)
      (reached : Reaches allowed start accepted state)
      (accepts : state.outcome params submission = .ok (.accepted next count)) :
      Reaches allowed start (accepted ++ [submission]) next

variable {params : Params} {start state next : ChainState} {submission : Submission}
  {interval : Interval} {count : Nat}

theorem Run.reaches {allowed : Params → Prop} {accepted : List Submission}
    (permitted : allowed params) (run : Run params start accepted state) :
    Reaches allowed start accepted state := by
  induction run with
  | start => exact Reaches.start
  | accept run accepts ih => exact Reaches.accept permitted ih accepts

/-- An accepted submission is empty and changes nothing, or its headers are attached and blocks are
confirmed. -/
theorem outcome_cases (accepts : state.outcome params submission = .ok (.accepted next count)) :
    (submission.batch = [] ∧ next = state ∧ count = 0) ∨
      ∃ headers grown, readHeaders submission.batch = .ok headers ∧
        state.absorbAll submission.interval params headers = .ok grown ∧
        grown.promote submission.interval params = (next, count) := by
  obtain ⟨batch, interval, policy⟩ := submission
  simp only [outcome, transition] at accepts
  split at accepts
  · rename_i final promotions ran
    cases accepts
    unfold run at ran
    split at ran
    · cases ran
      exact Or.inl ⟨rfl, rfl, rfl⟩
    · cases ran
    · split at ran
      · cases ran
      · rename_i headers read
        obtain ⟨grown, absorbed, promoted⟩ := (map_eq_ok _ _ _).mp ran
        exact Or.inr ⟨headers, grown, read, absorbed, promoted⟩
  · cases accepts
  · cases accepts

theorem absorbAll_induction {motive : ChainState → Prop} {headers : List Header}
    (step : ∀ state header next, header ∈ headers → motive state →
      state.absorb header interval params = .ok next → motive next)
    (holds : motive state)
    (absorbs : state.absorbAll interval params headers = .ok next) : motive next := by
  induction headers generalizing state with
  | nil =>
    cases absorbs
    exact holds
  | cons header rest ih =>
    simp only [absorbAll] at absorbs
    split at absorbs
    · cases absorbs
    · rename_i grown attached
      refine ih ?_ (step state header grown List.mem_cons_self holds attached) absorbs
      intro state other next mem
      exact step state other next (List.mem_cons_of_mem _ mem)

/-- What stays when a header of the batch is attached, and when one more block is confirmed and
counted, holds after the batch. -/
theorem outcome_induction {motive : ChainState → Nat → Prop}
    (absorbs : ∀ state header next, submission.Carries header → motive state 0 →
      state.absorb header submission.interval params = .ok next → motive next 0)
    (confirms : ∀ state count branch, motive state count →
      state.winner? submission.interval params = some branch →
      motive (state.promoteOldest branch) (count + 1))
    (holds : motive state 0)
    (accepts : state.outcome params submission = .ok (.accepted next count)) :
    motive next count := by
  rcases outcome_cases accepts with ⟨_, rfl, rfl⟩ | ⟨headers, grown, read, absorbed, promoted⟩
  · exact holds
  · have attached : motive grown 0 := by
      refine absorbAll_induction (motive := (motive · 0)) ?_ holds absorbed
      intro state header next mem
      exact absorbs state header next (exists_raw_of_readHeaders read header mem)
    have final := promote_induction confirms attached
    rw [promoted] at final
    exact final

/-- The state after some submissions is reached by those of them that were accepted. -/
theorem exists_run_of_submitAll (params : Params) (start : ChainState)
    (submissions : List Submission) :
    ∃ accepted, accepted.Sublist submissions ∧
      Run params start accepted (start.submitAll params submissions) := by
  induction submissions using List.reverseRecOn with
  | nil => exact ⟨[], List.Sublist.refl _, Run.start⟩
  | append_singleton submissions submission ih =>
    obtain ⟨accepted, sublist, reached⟩ := ih
    have last : start.submitAll params (submissions ++ [submission]) =
        (start.submitAll params submissions).submit params submission :=
      List.foldl_concat _ _ _ _
    rw [last, submit]
    split
    · rename_i next count accepts
      exact ⟨accepted ++ [submission], sublist.append (List.Sublist.refl _),
        Run.accept reached accepts⟩
    · exact ⟨accepted, sublist.trans (List.sublist_append_left _ _), reached⟩

end ChainState

end HeaderRelay
