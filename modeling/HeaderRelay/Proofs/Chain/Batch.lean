import Mathlib
import HeaderRelay.Proofs.Chain.Run

set_option autoImplicit false

namespace HeaderRelay

/-- The headers of a batch, without what cannot be read. -/
def readableHeaders (batch : List Bytes) : List Header :=
  batch.filterMap fun raw => (Header.ofWire raw).toOption

def Submission.headers (submission : Submission) : List Header :=
  readableHeaders submission.batch

/-- A batch that is read gives a header for each of its items. -/
theorem map_ofWire_of_readHeaders {batch : List Bytes} {headers : List Header}
    (read : readHeaders batch = .ok headers) :
    (batch.map fun raw => (Header.ofWire raw).toOption) = headers.map some := by
  induction batch generalizing headers with
  | nil =>
    cases read
    rfl
  | cons raw rest ih =>
    simp only [readHeaders] at read
    split at read
    · cases read
    · rename_i header here
      obtain ⟨others, readRest, rfl⟩ := (map_eq_ok _ _ _).mp read
      have first : (Header.ofWire raw).toOption = some header := by
        rw [here]
        rfl
      simp only [List.map_cons, first, ih readRest]

theorem readableHeaders_of_readHeaders {batch : List Bytes} {headers : List Header}
    (read : readHeaders batch = .ok headers) : readableHeaders batch = headers := by
  have items := congrArg (List.filterMap id) (map_ofWire_of_readHeaders read)
  simpa only [readableHeaders, List.filterMap_map, Function.comp_def, id_eq,
    List.filterMap_some] using items

theorem readHeaders_eq_ok_of_mem {batch : List Bytes}
    (readable : ∀ raw ∈ batch, ∃ header, Header.ofWire raw = .ok header) :
    readHeaders batch = .ok (readableHeaders batch) := by
  induction batch with
  | nil => rfl
  | cons raw rest ih =>
    obtain ⟨header, here⟩ := readable raw List.mem_cons_self
    have later := ih fun other mem => readable other (List.mem_cons_of_mem _ mem)
    have first : (Header.ofWire raw).toOption = some header := by
      rw [here]
      rfl
    have headers : readableHeaders (raw :: rest) = header :: readableHeaders rest :=
      List.filterMap_cons_some first
    rw [headers, readHeaders, here, later]
    rfl

/-- A batch in another order is read as its headers in that order. -/
theorem readHeaders_of_perm {batch other : List Bytes} {headers : List Header}
    (read : readHeaders batch = .ok headers) (perm : other.Perm batch) :
    readHeaders other = .ok (readableHeaders other) := by
  refine readHeaders_eq_ok_of_mem ?_
  intro raw mem
  have items := map_ofWire_of_readHeaders read
  have there : (Header.ofWire raw).toOption ∈ headers.map some := by
    rw [← items]
    exact List.mem_map_of_mem (perm.mem_iff.mp mem)
  obtain ⟨header, _, same⟩ := List.mem_map.mp there
  cases here : Header.ofWire raw with
  | ok found => exact ⟨found, rfl⟩
  | error cause =>
    rw [here] at same
    cases same

namespace ChainState

variable {state next : ChainState} {submission : Submission} {interval : Interval}
  {params : Params} {count : Nat}

/-- A batch without headers leads to no other state. -/
theorem unchanged_of_outcome (empty : submission.batch = [])
    (accepts : state.outcome params submission = .ok (.accepted next count)) :
    next = state ∧ count = 0 := by
  obtain ⟨batch, interval, policy⟩ := submission
  subst empty
  cases policy with
  | reject => cases accepts
  | keep =>
    cases accepts
    exact ⟨rfl, rfl⟩

theorem run_of_readHeaders {batch : List Bytes} {headers : List Header}
    {policy : EmptyBatchPolicy} (nonempty : batch ≠ []) (read : readHeaders batch = .ok headers) :
    state.run batch interval params policy =
      (state.absorbAll interval params headers).map fun grown => grown.promote interval params := by
  cases batch with
  | nil => exact absurd rfl nonempty
  | cons raw rest => simp only [run, read]

theorem outcome_eq_accepted_iff (nonempty : submission.batch ≠ []) :
    state.outcome params submission = .ok (.accepted next count) ↔
      ∃ grown, readHeaders submission.batch = .ok submission.headers ∧
        state.absorbAll submission.interval params submission.headers = .ok grown ∧
        grown.promote submission.interval params = (next, count) := by
  constructor
  · intro accepts
    rcases outcome_cases accepts with ⟨empty, _, _⟩ | ⟨headers, grown, read, absorbed, promoted⟩
    · exact absurd empty nonempty
    · have same : submission.headers = headers := readableHeaders_of_readHeaders read
      rw [same]
      exact ⟨grown, read, absorbed, promoted⟩
  · rintro ⟨grown, read, absorbed, promoted⟩
    rw [outcome, transition, run_of_readHeaders nonempty read, absorbed, Except.map, promoted]

/-- A submission that can be read is refused for the first of its headers that is refused. -/
theorem outcome_of_refused {error : RelayError} (nonempty : submission.batch ≠ [])
    (read : readHeaders submission.batch = .ok submission.headers)
    (refused : state.absorbAll submission.interval params submission.headers =
      .error (.refused error)) :
    state.outcome params submission = .ok (.rejected error) := by
  rw [outcome, transition, run_of_readHeaders nonempty read, refused, Except.map]

end ChainState

end HeaderRelay
