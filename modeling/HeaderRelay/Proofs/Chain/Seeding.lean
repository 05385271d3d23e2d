import Mathlib
import HeaderRelay.Proofs.Chain.TimestampHistory

set_option autoImplicit false

namespace HeaderRelay

namespace MedianTime

/-- The window holds the latest of some timestamps, newest first: as many as are counted, or all of
them if they are fewer. -/
structure Latest (count : Nat) (timestamps window : List Int) : Prop where
  newestFirst : window.Pairwise fun newer older => older ≤ newer
  length : window.length = min count timestamps.length
  /-- The others are not later than any that the window holds. -/
  kept : ∃ others, timestamps.Perm (window ++ others) ∧
    ∀ newer ∈ window, ∀ older ∈ others, older ≤ newer

variable {count : Nat} {timestamps window : List Int}

/-- The timestamps in order begin with the window. -/
theorem Latest.exists_descending_eq (latest : Latest count timestamps window) :
    ∃ others, descending timestamps = window ++ others := by
  obtain ⟨others, perm, above⟩ := latest.kept
  refine ⟨descending others, ?_⟩
  apply descending_eq_of_perm
  · refine List.pairwise_append.mpr ⟨latest.newestFirst, newestFirst_descending others, ?_⟩
    intro newer inside older outside
    exact above newer inside older ((descending_perm others).mem_iff.mp outside)
  · exact ((descending_perm others).append_left window).trans perm.symm

theorem latest_take_descending (count : Nat) (timestamps : List Int) :
    Latest count timestamps ((descending timestamps).take count) := by
  have sorted := newestFirst_descending timestamps
  have parts := List.take_append_drop count (descending timestamps)
  refine ⟨sorted.sublist (List.take_sublist _ _), ?_, (descending timestamps).drop count, ?_, ?_⟩
  · rw [List.length_take, length_descending]
  · rw [parts]
    exact (descending_perm timestamps).symm
  · rw [← parts] at sorted
    exact (List.pairwise_append.mp sorted).2.2

/-- Only one window holds the latest timestamps, however these are listed. -/
theorem latest_iff :
    Latest count timestamps window ↔ window = (descending timestamps).take count := by
  constructor
  · intro latest
    obtain ⟨others, whole⟩ := latest.exists_descending_eq
    have length := latest.length
    have total := congrArg List.length whole
    rw [length_descending, List.length_append] at total
    rw [whole]
    by_cases full : count ≤ timestamps.length
    · rw [List.take_left' (by omega)]
    · have none : others = [] := List.eq_nil_of_length_eq_zero (by omega)
      rw [none, List.append_nil, List.take_of_length_le (by omega)]
  · rintro rfl
    exact latest_take_descending count timestamps

end MedianTime

namespace Seed

structure InRange (seed : Seed) : Prop where
  height : seed.height < 2 ^ 64
  bits : Unsigned 32 seed.bits
  timestamp : Unsigned 32 seed.timestamp
  recentTimestamps : ∀ time ∈ seed.recentTimestamps, Unsigned 32 time
  epochStart : Unsigned 32 seed.epochStart

variable {seed : Seed} {params : Params} {timestamps : List Int}

theorem latest_window (seed : Seed) (params : Params) :
    MedianTime.Latest params.span seed.recentTimestamps (seed.window params) :=
  MedianTime.latest_take_descending params.span seed.recentTimestamps

theorem window_eq_of_perm (perm : timestamps.Perm seed.recentTimestamps) :
    { seed with recentTimestamps := timestamps }.window params = seed.window params :=
  congrArg (List.take params.span) (MedianTime.descending_eq_descending perm)

/-- The timestamps count only by the window that they give. -/
theorem start_eq_of_perm (perm : timestamps.Perm seed.recentTimestamps) :
    { seed with recentTimestamps := timestamps }.start params = seed.start params := by
  simp only [start, unchecked, window_eq_of_perm perm]

/-- With numbers in their ranges, only the number of timestamps can speak against the state. -/
theorem InRange.checked_unchecked_iff (inRange : seed.InRange)
    (included : seed.timestamp ∈ seed.window params) :
    (seed.unchecked params).checked = .valid (seed.unchecked params) ↔
      ((seed.window params).length : Int) =
        ChainState.windowLength ChainState.windowSpan seed.height := by
  rw [ChainState.checked_eq_valid_iff]
  constructor
  · rintro ⟨windowed, _⟩
    exact windowed.length
  · intro length
    have nonempty := List.length_pos_of_mem included
    have height : Unsigned 64 seed.height := by
      have high := inRange.height
      simp only [ChainState.windowLength] at length
      constructor <;> omega
    have recent : ∀ time ∈ seed.window params, Unsigned 32 time := by
      intro time mem
      have given := (List.mergeSort_perm _ _).mem_iff.mp (List.mem_of_mem_take mem)
      exact inRange.recentTimestamps time given
    have ranges : (seed.unchecked params).confirmed.InRange :=
      ⟨height, inRange.bits, inRange.timestamp, recent, inRange.epochStart⟩
    exact ⟨⟨ranges, (latest_window seed params).newestFirst, length, included⟩, List.Pairwise.nil⟩

/-- The span of the network and that of a state ask for windows of the same length exactly when they
are the same or the chain is too short for either. -/
theorem windowLength_span_eq_iff (params : Params) (height : Int) :
    ChainState.windowLength params.span height =
        ChainState.windowLength ChainState.windowSpan height ↔
      params.span = ChainState.windowSpan ∨
        height + 1 ≤ min (params.span : Int) ChainState.windowSpan := by
  simp only [ChainState.windowLength]
  omega

/-- A trusted block gives a state exactly when the latest timestamps, as many as the network keeps,
are as many as its height asks for and hold its own, and the network keeps eleven timestamps or the
chain is too short for its span and for eleven. These timestamps, newest first, are then the window
of the state, which passes its check. The order in which timestamps are given does not matter. -/
theorem start_ok_iff_latest (seed : Seed) (params : Params) (inRange : seed.InRange)
    (window : List Int) (latest : MedianTime.Latest params.span seed.recentTimestamps window) :
    ((∃ state, seed.start params = .ok state) ↔
        ((window.length : Int) = min (seed.height + 1) params.span ∧ seed.timestamp ∈ window) ∧
          (params.span = ChainState.windowSpan ∨
            seed.height + 1 ≤ min (params.span : Int) ChainState.windowSpan)) ∧
      (∀ state, seed.start params = .ok state →
        state.confirmed.recentTimestamps = window ∧ state.checked = .valid state) ∧
      ∀ timestamps, timestamps.Perm seed.recentTimestamps →
        { seed with recentTimestamps := timestamps }.start params = seed.start params := by
  have same : window = seed.window params := MedianTime.latest_iff.mp latest
  subst same
  refine ⟨?_, ?_, fun timestamps perm => start_eq_of_perm perm⟩
  · rw [← windowLength_span_eq_iff]
    constructor
    · rintro ⟨state, started⟩
      obtain ⟨rfl, valid, length, included⟩ := start_eq_ok_iff.mp started
      have own := (inRange.checked_unchecked_iff included).mp valid
      exact ⟨⟨length, included⟩, length.symm.trans own⟩
    · rintro ⟨⟨length, included⟩, agree⟩
      have own := (inRange.checked_unchecked_iff included).mpr (length.trans agree)
      exact ⟨seed.unchecked params, start_eq_ok_iff.mpr ⟨rfl, own, length, included⟩⟩
  · intro state started
    obtain ⟨rfl, valid, _, _⟩ := start_eq_ok_iff.mp started
    exact ⟨rfl, valid⟩

end Seed

namespace Sample

/-- A trusted block far from the first one, with more timestamps than any of the networks keeps. -/
def scattered : Seed :=
  ⟨500, Digest.zero, 0x207FFFFF, 100, [5, 100, 1, 50, 7, 8, 9, 10, 11, 12, 13, 14, 15], 1⟩

def narrow : Params := { Params.regtest with medianTimeSpan := 5 }

theorem inRange_scattered : scattered.InRange :=
  ⟨by decide, by decide, by decide, by decide, by decide⟩

end Sample

/-- On the main network the eleven latest timestamps are kept, and the two earliest are not. -/
theorem Seed.start_ok_iff_latest_scattered :
    Sample.scattered.InRange ∧
      MedianTime.Latest Params.mainnet.span Sample.scattered.recentTimestamps
        [100, 50, 15, 14, 13, 12, 11, 10, 9, 8, 7] ∧
      ∃ state, Sample.scattered.start Params.mainnet = .ok state ∧
        state.confirmed.recentTimestamps = [100, 50, 15, 14, 13, 12, 11, 10, 9, 8, 7] ∧
        state.checked = .valid state := by
  have latest : MedianTime.Latest Params.mainnet.span Sample.scattered.recentTimestamps
      [100, 50, 15, 14, 13, 12, 11, 10, 9, 8, 7] :=
    ⟨by decide, by decide, [5, 1], by decide, by decide⟩
  obtain ⟨starts, gives, _⟩ := Seed.start_ok_iff_latest Sample.scattered Params.mainnet
    Sample.inRange_scattered _ latest
  obtain ⟨state, started⟩ := starts.mpr (by decide)
  exact ⟨Sample.inRange_scattered, latest, state, started, gives state started⟩

/-- A network that keeps five timestamps cannot start from the same block. The five latest are as
many as the network asks for and hold the block's own, but a state at this height must hold eleven
timestamps. -/
theorem Seed.start_eq_invalid_narrow :
    Sample.narrow.span = 5 ∧ Sample.scattered.InRange ∧
      MedianTime.Latest 5 Sample.scattered.recentTimestamps [100, 50, 15, 14, 13] ∧
      ([100, 50, 15, 14, 13].length : Int) = min (Sample.scattered.height + 1) 5 ∧
      Sample.scattered.timestamp ∈ [100, 50, 15, 14, 13] ∧
      Sample.scattered.start Sample.narrow = .error
        (.invalid [⟨[], .broken "Height 500 requires 11 recent timestamps, got 5"⟩]) := by
  have latest : MedianTime.Latest 5 Sample.scattered.recentTimestamps [100, 50, 15, 14, 13] :=
    ⟨by decide, by decide, [5, 1, 7, 8, 9, 10, 11, 12], by decide, by decide⟩
  have window : Sample.scattered.window Sample.narrow = [100, 50, 15, 14, 13] :=
    (MedianTime.latest_iff.mp latest).symm
  refine ⟨by decide, Sample.inRange_scattered, latest, by decide, by decide, ?_⟩
  simp only [Seed.start, Seed.unchecked, window]
  decide +kernel

end HeaderRelay
