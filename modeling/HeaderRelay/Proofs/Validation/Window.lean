import Mathlib
import HeaderRelay.Chain.State
import HeaderRelay.Proofs.Chain.BranchMap
import HeaderRelay.Proofs.Document.Ranges

set_option autoImplicit false

namespace HeaderRelay

namespace MedianTime

variable {params : Params} {timestamp : Int} {window : List Int}

theorem isNewestFirst_iff (window : List Int) :
    isNewestFirst window = true ↔ window.Pairwise fun newer older => older ≤ newer := by
  have transitive : Trans (fun newer older : Int => older ≤ newer)
      (fun newer older : Int => older ≤ newer) (fun newer older : Int => older ≤ newer) :=
    ⟨fun above below => Int.le_trans below above⟩
  rw [← List.isChain_iff_pairwise]
  induction window with
  | nil => simp [isNewestFirst]
  | cons newer rest ih =>
    cases rest with
    | nil => simp [isNewestFirst]
    | cons older rest => simp [isNewestFirst, List.isChain_cons_cons, ih]

@[simp] theorem length_insertSorted (timestamp : Int) (window : List Int) :
    (insertSorted timestamp window).length = window.length + 1 := by
  induction window with
  | nil => rfl
  | cons newer rest ih =>
    unfold insertSorted
    split <;> simp [ih]

theorem insertSorted_eq (timestamp : Int) (window : List Int) :
    insertSorted timestamp window = (window.takeWhile fun newer => timestamp ≤ newer) ++
      timestamp :: window.dropWhile fun newer => timestamp ≤ newer := by
  induction window with
  | nil => rfl
  | cons newer rest ih =>
    unfold insertSorted
    by_cases before : timestamp ≤ newer
    · simp [before, ih]
    · simp [before]

theorem mem_insertSorted {other : Int} :
    other ∈ insertSorted timestamp window ↔ other = timestamp ∨ other ∈ window := by
  have parts := List.takeWhile_append_dropWhile (p := fun newer => decide (timestamp ≤ newer))
    (l := window)
  rw [insertSorted_eq]
  nth_rewrite 3 [← parts]
  simp only [List.mem_append, List.mem_cons]
  tauto

theorem newestFirst_insertSorted
    (sorted : window.Pairwise fun newer older => older ≤ newer) :
    (insertSorted timestamp window).Pairwise fun newer older => older ≤ newer := by
  induction window with
  | nil => exact List.pairwise_singleton _ _
  | cons newer rest ih =>
    obtain ⟨above, tail⟩ := List.pairwise_cons.mp sorted
    unfold insertSorted
    by_cases before : timestamp ≤ newer
    · rw [if_pos before]
      refine List.pairwise_cons.mpr ⟨?_, ih tail⟩
      intro other mem
      rcases mem_insertSorted.mp mem with rfl | old
      · exact before
      · exact above other old
    · rw [if_neg before]
      refine List.pairwise_cons.mpr ⟨?_, sorted⟩
      intro other mem
      rcases List.mem_cons.mp mem with rfl | old
      · omega
      · have lower := above other old
        omega

/-- A timestamp after the median stands in the newer half of the window. -/
theorem length_takeWhile_le (later : median params window < timestamp) :
    (window.takeWhile fun newer => timestamp ≤ newer).length ≤ window.length / 2 := by
  by_contra more
  have inside : window.length / 2 < (window.takeWhile fun newer => timestamp ≤ newer).length := by
    omega
  have pre : (window.takeWhile fun newer => timestamp ≤ newer) <+: window :=
    List.takeWhile_prefix _
  have bound : window.length / 2 < window.length := Nat.lt_of_lt_of_le inside pre.length_le
  have same : window[window.length / 2]? =
      some (window.takeWhile fun newer => timestamp ≤ newer)[window.length / 2] := by
    rw [List.getElem?_eq_getElem bound, pre.getElem inside]
  have above :
      timestamp ≤ (window.takeWhile fun newer => timestamp ≤ newer)[window.length / 2] := by
    have tested := List.mem_takeWhile_imp (List.getElem_mem inside)
    simpa using tested
  rw [median, same, Option.getD_some] at later
  omega

/-- A timestamp after the median stays when the window is cut. -/
theorem mem_insert (later : median params window < timestamp)
    (room : window.length / 2 < params.span) : timestamp ∈ insert params timestamp window := by
  have position := length_takeWhile_le later
  rw [insert, insertSorted_eq, List.mem_iff_getElem?]
  refine ⟨(window.takeWhile fun newer => timestamp ≤ newer).length, ?_⟩
  rw [List.getElem?_take_of_lt (by omega), List.getElem?_append_right (Nat.le_refl _),
    Nat.sub_self, List.getElem?_cons_zero]

end MedianTime

/-- The window of a tip is in order, has the length that the height asks for and holds the timestamp
of the tip. -/
structure Snapshot.Windowed (tip : Snapshot) : Prop where
  inRange : tip.InRange
  newestFirst : tip.recentTimestamps.Pairwise fun newer older => older ≤ newer
  length : (tip.recentTimestamps.length : Int) =
    ChainState.windowLength ChainState.windowSpan tip.height
  included : tip.timestamp ∈ tip.recentTimestamps

/-- A header that is valid after a tip keeps the window. -/
theorem Snapshot.Windowed.follows {tip next : Snapshot} {header : Header} {interval : Interval}
    {params : Params} (windowed : tip.Windowed) (span : params.span = ChainState.windowSpan)
    (follows : tip.Follows header interval params next) : next.Windowed := by
  obtain ⟨opens, _, grown⟩ := follows.grown
  have height := follows.height
  have window : next.recentTimestamps =
      MedianTime.insert params header.timestamp.toNat tip.recentTimestamps := by
    rw [grown, extended]
  have timestamp : next.timestamp = header.timestamp.toNat := by rw [grown, extended]
  have before := windowed.length
  simp only [ChainState.windowLength, ChainState.windowSpan] at before span
  refine ⟨(faults_eq_nil_iff next).mp follows.inRange, ?_, ?_, ?_⟩
  · rw [window]
    exact (MedianTime.newestFirst_insertSorted windowed.newestFirst).sublist
      (List.take_sublist _ _)
  · rw [window, MedianTime.insert, span, List.length_take, MedianTime.length_insertSorted, height]
    simp only [ChainState.windowLength, ChainState.windowSpan]
    omega
  · rw [window, timestamp]
    exact MedianTime.mem_insert follows.later (by omega)

namespace ChainState

theorem windowObjection?_eq_none_iff (window : List Int) :
    windowObjection? window = none ↔
      window.length ≤ windowSpan ∧ window.Pairwise fun newer older => older ≤ newer := by
  rw [← MedianTime.isNewestFirst_iff]
  unfold windowObjection?
  by_cases long : windowSpan < window.length
  · simp [long]
  · by_cases sorted : MedianTime.isNewestFirst window = true
    · simp [long, sorted]
      omega
    · simp [long, sorted]

theorem windowFaults_eq_nil_iff (window : List Int) :
    windowFaults window = [] ↔
      (∀ time ∈ window, Unsigned 32 time) ∧ windowObjection? window = none := by
  rw [← unsignedListFaults_eq_nil_iff 32 "recent_timestamps"]
  unfold windowFaults
  split
  · rename_i none
    simp [none]
  · rename_i faults some
    constructor
    · intro none
      exact absurd none some
    · rintro ⟨none, _⟩
      exact absurd none some

theorem isAscending_iff (digests : List Digest) :
    isAscending digests = true ↔ digests.Pairwise fun first second => first < second := by
  have transitive : Trans (fun first second : Digest => first < second)
      (fun first second : Digest => first < second)
      (fun first second : Digest => first < second) :=
    ⟨fun below above => List.lt_trans below above⟩
  rw [← List.isChain_iff_pairwise]
  induction digests with
  | nil => simp [isAscending]
  | cons first rest ih =>
    cases rest with
    | nil => simp [isAscending]
    | cons second rest => simp [isAscending, List.isChain_cons_cons, ih]

theorem orderObjection?_eq_none_iff (state : ChainState) :
    state.orderObjection? = none ↔ Branch.Ordered state.forks := by
  rw [Branch.Ordered, ← List.pairwise_map (f := Branch.tipHash), ← isAscending_iff]
  unfold orderObjection?
  split <;> simp_all

theorem tipObjection?_eq_none_iff (state : ChainState) :
    state.tipObjection? = none ↔
      (state.confirmed.recentTimestamps.length : Int) =
          windowLength windowSpan state.confirmed.height ∧
        state.confirmed.timestamp ∈ state.confirmed.recentTimestamps := by
  simp only [tipObjection?]
  split
  · rename_i different
    simp [different]
  · rename_i same
    split
    · rename_i there
      simp only [true_iff]
      exact ⟨not_not.mp same, there⟩
    · rename_i absent
      simp [absent]

/-- A state passes its check exactly when its tip has its window and its branches are in order. -/
theorem checked_eq_valid_iff (state : ChainState) :
    state.checked = .valid state ↔ state.confirmed.Windowed ∧ Branch.Ordered state.forks := by
  have faults : state.faults = [] ↔
      state.confirmed.InRange ∧ windowObjection? state.confirmed.recentTimestamps = none := by
    simp only [ChainState.faults, List.append_eq_nil_iff, unsignedFaults_eq_nil_iff,
      windowFaults_eq_nil_iff]
    constructor
    · rintro ⟨⟨⟨⟨height, bits⟩, timestamp⟩, recent, order⟩, epochStart⟩
      exact ⟨⟨height, bits, timestamp, recent, epochStart⟩, order⟩
    · rintro ⟨⟨height, bits, timestamp, recent, epochStart⟩, order⟩
      exact ⟨⟨⟨⟨height, bits⟩, timestamp⟩, recent, order⟩, epochStart⟩
  rw [checked, Checked.ensure_eq_valid, Checked.ensure_eq_valid, Checked.ofFaults_eq_valid, faults,
    windowObjection?_eq_none_iff, tipObjection?_eq_none_iff, orderObjection?_eq_none_iff]
  constructor
  · rintro ⟨⟨⟨⟨inRange, _, sorted⟩, _⟩, length, included⟩, ordered⟩
    exact ⟨⟨inRange, sorted, length, included⟩, ordered⟩
  · rintro ⟨windowed, ordered⟩
    have short : state.confirmed.recentTimestamps.length ≤ windowSpan := by
      have length := windowed.length
      simp only [windowLength] at length
      omega
    exact ⟨⟨⟨⟨windowed.inRange, short, windowed.newestFirst⟩, rfl⟩, windowed.length,
      windowed.included⟩, ordered⟩

end ChainState

end HeaderRelay
