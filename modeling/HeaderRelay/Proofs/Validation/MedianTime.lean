import Mathlib
import HeaderRelay.Chain.Seed
import HeaderRelay.Proofs.Validation.Rules
import HeaderRelay.Proofs.Validation.Window

/- A window is kept by value: it holds the latest timestamps of the whole chain, not those of its
last blocks. A block that ran ahead of its time stays in it when eleven blocks have followed. -/

set_option autoImplicit false

namespace HeaderRelay

namespace MedianTime

def descending (timestamps : List Int) : List Int :=
  timestamps.mergeSort fun newer older => older ≤ newer

def insertAll (params : Params) (window timestamps : List Int) : List Int :=
  timestamps.foldl (fun window timestamp => insert params timestamp window) window

/-- Each timestamp is after the median of the window kept so far. -/
def Passes (params : Params) : List Int → List Int → Prop
  | _, [] => True
  | window, timestamp :: rest =>
    median params window < timestamp ∧ Passes params (insert params timestamp window) rest

/-- The median of the last blocks of a chain, whose timestamps are given from its oldest block on.
Of an even number of blocks, as a chain of fewer than eleven may have, it is the lower of the two
middle timestamps, by the relay's own reading; Bitcoin takes the upper one. -/
def lastMedian (params : Params) (count : Nat) (timestamps : List Int) : Int :=
  median params (descending (timestamps.rtake count))

instance decidablePasses (params : Params) :
    ∀ window timestamps, Decidable (Passes params window timestamps)
  | _, [] => inferInstanceAs (Decidable True)
  | window, timestamp :: rest =>
    have := decidablePasses params (insert params timestamp window) rest
    inferInstanceAs (Decidable (_ ∧ _))

variable {params : Params} {timestamp bound : Int} {window timestamps recent : List Int}

theorem descending_perm (timestamps : List Int) : (descending timestamps).Perm timestamps :=
  List.mergeSort_perm _ _

theorem newestFirst_descending (timestamps : List Int) :
    (descending timestamps).Pairwise fun newer older => older ≤ newer := by
  have sorted : (descending timestamps).Pairwise
      fun newer older => decide (older ≤ newer) = true := by
    apply List.pairwise_mergeSort
    · intro first second third above below
      simp only [decide_eq_true_eq] at above below ⊢
      omega
    · intro first second
      simp only [Bool.or_eq_true, decide_eq_true_eq]
      omega
  exact sorted.imp of_decide_eq_true

/-- A window in order is determined by which timestamps it holds. -/
theorem descending_eq_of_perm (sorted : window.Pairwise fun newer older => older ≤ newer)
    (perm : window.Perm timestamps) : descending timestamps = window := by
  apply List.Perm.eq_of_pairwise _ (newestFirst_descending timestamps) sorted
  · exact (descending_perm timestamps).trans perm.symm
  · intro first second _ _ below above
    omega

@[simp] theorem length_descending (timestamps : List Int) :
    (descending timestamps).length = timestamps.length :=
  (descending_perm timestamps).length_eq

theorem insertSorted_perm (timestamp : Int) (window : List Int) :
    (insertSorted timestamp window).Perm (timestamp :: window) := by
  induction window with
  | nil => exact List.Perm.refl _
  | cons newer rest ih =>
    unfold insertSorted
    split
    · exact (ih.cons newer).trans (List.Perm.swap timestamp newer rest)
    · exact List.Perm.refl _

theorem insertSorted_descending (timestamp : Int) (timestamps : List Int) :
    insertSorted timestamp (descending timestamps) = descending (timestamps ++ [timestamp]) := by
  symm
  apply descending_eq_of_perm
  · exact newestFirst_insertSorted (newestFirst_descending timestamps)
  · apply (insertSorted_perm timestamp _).trans
    exact ((descending_perm timestamps).cons timestamp).trans (List.perm_append_singleton _ _).symm

/-- What a window lost before does not come back: cutting it first changes nothing of the part that
is kept. -/
theorem take_insertSorted (count : Nat) (timestamp : Int) (window : List Int) :
    (insertSorted timestamp (window.take count)).take count =
      (insertSorted timestamp window).take count := by
  induction window generalizing count with
  | nil => rw [List.take_nil]
  | cons newer rest ih =>
    cases count with
    | zero => rfl
    | succ count =>
      rw [List.take_succ_cons]
      unfold insertSorted
      by_cases before : timestamp ≤ newer
      · rw [if_pos before, if_pos before, List.take_succ_cons, List.take_succ_cons, ih]
      · rw [if_neg before, if_neg before, List.take_succ_cons, List.take_succ_cons]
        cases count with
        | zero => rfl
        | succ count =>
          rw [List.take_succ_cons, List.take_succ_cons, List.take_take,
            Nat.min_eq_left (Nat.le_succ count)]

/-- One more timestamp: the window holds the latest of the chain with it. -/
theorem insert_descending (timestamp : Int) (timestamps : List Int) :
    insert params timestamp ((descending timestamps).take params.span) =
      (descending (timestamps ++ [timestamp])).take params.span := by
  rw [insert, take_insertSorted, insertSorted_descending]

/-- A window that holds the latest timestamps of a chain goes on to hold the latest of the longer
chain, whatever the order in which they come. -/
theorem insertAll_descending (params : Params) (recent timestamps : List Int) :
    insertAll params ((descending recent).take params.span) timestamps =
      (descending (recent ++ timestamps)).take params.span := by
  induction timestamps generalizing recent with
  | nil => rw [List.append_nil]; rfl
  | cons timestamp rest ih =>
    have onward := ih (recent ++ [timestamp])
    rw [List.append_assoc, List.singleton_append] at onward
    rw [← onward, ← insert_descending]
    rfl

/-- An entry of a window is at most a bound when no more timestamps than stand before it are after
the bound. -/
theorem entry_le_iff {place : Nat} {entry : Int}
    (sorted : window.Pairwise fun newer older => older ≤ newer)
    (there : window[place]? = some entry) :
    entry ≤ bound ↔ window.countP (bound < ·) ≤ place := by
  induction window generalizing place with
  | nil => cases there
  | cons newer rest ih =>
    obtain ⟨above, tail⟩ := List.pairwise_cons.mp sorted
    rw [List.countP_cons]
    by_cases after : bound < newer
    · simp only [after, decide_true, ↓reduceIte]
      cases place with
      | zero =>
        cases Option.some.inj there
        omega
      | succ place =>
        rw [ih tail there]
        omega
    · have none : rest.countP (bound < ·) = 0 := by
        apply List.countP_eq_zero.mpr
        intro older mem
        have lower := above older mem
        simp only [decide_eq_true_eq]
        omega
      have low : entry ≤ newer := by
        cases place with
        | zero => exact Int.le_of_eq (Option.some.inj there).symm
        | succ place => exact above entry (List.mem_of_getElem? there)
      simp only [after, none, decide_false, Bool.false_eq_true, ↓reduceIte]
      omega

/-- The median of the latest timestamps of a chain is at most a bound when at most half as many
timestamps of the whole chain are after the bound. -/
theorem median_le_iff (params : Params) {count : Nat} (positive : 0 < count)
    (long : count ≤ timestamps.length) :
    median params ((descending timestamps).take count) ≤ bound ↔
      timestamps.countP (bound < ·) ≤ count / 2 := by
  have length : ((descending timestamps).take count).length = count := by
    rw [List.length_take, length_descending]
    omega
  have inside : count / 2 < (descending timestamps).length := by
    rw [length_descending]
    omega
  have middle : (descending timestamps)[count / 2]? = some (descending timestamps)[count / 2] :=
    List.getElem?_eq_getElem inside
  rw [median, length, List.getElem?_take_of_lt (by omega), middle, Option.getD_some,
    entry_le_iff (newestFirst_descending timestamps) middle,
    (descending_perm timestamps).countP_eq]

/-- The median of the last blocks of a chain is at most a bound when at most half of their
timestamps are after the bound. -/
theorem lastMedian_le_iff {count : Nat} (positive : 0 < count) (long : count ≤ timestamps.length) :
    lastMedian params count timestamps ≤ bound ↔
      (timestamps.rtake count).countP (bound < ·) ≤ count / 2 := by
  have length : (timestamps.rtake count).length = count := by
    rw [List.rtake, List.length_drop]
    omega
  have whole : (descending (timestamps.rtake count)).take count =
      descending (timestamps.rtake count) := by
    apply List.take_of_length_le
    rw [length_descending, length]
  rw [lastMedian, ← whole, median_le_iff params positive (by omega)]

/-- The median of the window is never before the median of the last blocks. -/
theorem lastMedian_le_median (params : Params) {count : Nat} (positive : 0 < count)
    (long : count ≤ timestamps.length) :
    lastMedian params count timestamps ≤ median params ((descending timestamps).take count) := by
  rw [lastMedian_le_iff positive long]
  have within := (List.drop_sublist (timestamps.length - count) timestamps).countP_le
    (p := (median params ((descending timestamps).take count) < ·))
  have half := (median_le_iff params positive long).mp (Int.le_refl _)
  exact Nat.le_trans within half

/-- The two medians agree exactly when at most half as many timestamps of the whole chain as there
are last blocks are after the median of these. -/
theorem median_eq_lastMedian_iff {count : Nat} (positive : 0 < count)
    (long : count ≤ timestamps.length) :
    median params ((descending timestamps).take count) = lastMedian params count timestamps ↔
      timestamps.countP (lastMedian params count timestamps < ·) ≤ count / 2 := by
  rw [← median_le_iff params positive long]
  have lower := lastMedian_le_median params positive long
  omega

theorem requireLater_eq_ok_iff (tip : Snapshot) (header : Header) :
    tip.requireLater header params = .ok () ↔
      median params tip.recentTimestamps < header.timestamp.toNat := by
  simp only [Snapshot.requireLater, demand_eq_ok, decide_eq_true_eq]

/-- A chain that is shorter than the window is kept whole, so the window is cut as the last blocks
are counted. -/
theorem take_span_eq (params : Params) (height : Nat)
    (length : recent.length = min (height + 1) params.span) :
    (descending (recent ++ timestamps)).take params.span =
      (descending (recent ++ timestamps)).take
        (min (height + timestamps.length + 1) params.span) := by
  have blocks : (descending (recent ++ timestamps)).length = recent.length + timestamps.length := by
    rw [length_descending, List.length_append]
  by_cases full : params.span ≤ height + timestamps.length + 1
  · rw [Nat.min_eq_right full]
  · rw [List.take_of_length_le (by omega), List.take_of_length_le (by omega)]

/-- A network keeps the latest timestamps of a chain, from the window of a trusted block on, and
asks each header to be after their median. Such a header is also after the median of the last
blocks. The converse holds as long as at most half as many timestamps of the chain as there are last
blocks are after the median of these, and not longer. -/
theorem median_insertAll_eq_iff (params : Params) (positive : 0 < params.span) (height : Nat)
    (recent times : List Int) (length : recent.length = min (height + 1) params.span) :
    let chain := recent ++ times
    let count := min (height + times.length + 1) params.span
    let window := insertAll params (descending recent) times
    window = (descending chain).take params.span ∧
      lastMedian params count chain ≤ median params window ∧
      (median params window = lastMedian params count chain ↔
        chain.countP (lastMedian params count chain < ·) ≤ count / 2) ∧
      ∀ (tip : Snapshot) (header : Header), tip.recentTimestamps = window →
        (tip.requireLater header params = .ok () →
          lastMedian params count chain < header.timestamp.toNat) ∧
        (chain.countP (lastMedian params count chain < ·) ≤ count / 2 →
          (tip.requireLater header params = .ok () ↔
            lastMedian params count chain < header.timestamp.toNat)) := by
  intro chain count window
  have blocks : chain.length = recent.length + times.length := List.length_append
  have nonzero : 0 < count := by omega
  have long : count ≤ chain.length := by omega
  have kept : window = (descending chain).take params.span := by
    have start : (descending recent).take params.span = descending recent := by
      apply List.take_of_length_le
      rw [length_descending]
      omega
    have whole := insertAll_descending params recent times
    rwa [start] at whole
  have cut : (descending chain).take params.span = (descending chain).take count :=
    take_span_eq params height length
  have lower : lastMedian params count chain ≤ median params window := by
    rw [kept, cut]
    exact lastMedian_le_median params nonzero long
  have agree : median params window = lastMedian params count chain ↔
      chain.countP (lastMedian params count chain < ·) ≤ count / 2 := by
    rw [kept, cut]
    exact median_eq_lastMedian_iff nonzero long
  refine ⟨kept, lower, agree, ?_⟩
  intro tip header recorded
  rw [requireLater_eq_ok_iff, recorded]
  constructor
  · intro later
    omega
  · intro few
    rw [agree.mpr few]

theorem lastMedian_eq_of_perm (window : List Int) {count : Nat}
    (sorted : window.Pairwise fun newer older => older ≤ newer)
    (perm : window.Perm (timestamps.rtake count)) :
    lastMedian params count timestamps = median params window := by
  rw [lastMedian, descending_eq_of_perm sorted perm]

def firstTime : List Int := [1300000000]

/-- One block runs ahead of its time, and others follow a second apart. -/
def leap : List Int :=
  [1300001000, 1300000001, 1300000002, 1300000003, 1300000004, 1300000005, 1300000006, 1300000007,
    1300000008, 1300000009, 1300000010, 1300000011]

/-- While the block that ran ahead is among the last eleven, the medians agree. -/
theorem median_insertAll_eq_leap :
    0 < Params.mainnet.span ∧ firstTime.length = min (0 + 1) Params.mainnet.span ∧
      median Params.mainnet
        (insertAll Params.mainnet (descending firstTime) (leap.take 11)) = 1300000006 ∧
      lastMedian Params.mainnet 11 (firstTime ++ leap.take 11) = 1300000006 := by
  have positive : 0 < Params.mainnet.span := by decide
  have length : firstTime.length = min (0 + 1) Params.mainnet.span := by decide
  have last : lastMedian Params.mainnet 11 (firstTime ++ leap.take 11) = 1300000006 := by
    rw [lastMedian_eq_of_perm [1300001000, 1300000010, 1300000009, 1300000008,
      1300000007, 1300000006, 1300000005, 1300000004, 1300000003, 1300000002, 1300000001]]
    · decide
    · decide
    · decide
  have agree :=
    (median_insertAll_eq_iff Params.mainnet positive 0 firstTime (leap.take 11) length).2.2.1
  have count : min (0 + (leap.take 11).length + 1) Params.mainnet.span = 11 := by decide
  rw [count, last] at agree
  exact ⟨positive, length, agree.mpr (by decide), last⟩

/-- Once the block that ran ahead is no longer among the last eleven, it still holds the window
back: a timestamp after the median of the last blocks is refused. -/
theorem median_insertAll_ne_leap :
    Params.mainnet.medianTimeSpan = 11 ∧ firstTime.length = min (0 + 1) 11 ∧
      Passes Params.mainnet (descending firstTime) leap ∧
      median Params.mainnet (insertAll Params.mainnet (descending firstTime) leap) = 1300000007 ∧
      lastMedian Params.mainnet (min (0 + leap.length + 1) 11) (firstTime ++ leap) = 1300000006 ∧
      ¬ (⟨12, 0x207FFFFF, 1300000011, insertAll Params.mainnet (descending firstTime) leap,
        1300000000, Digest.zero⟩ : Snapshot).requireLater
          ⟨4, Digest.zero, Digest.zero, 1300000007, 0x207FFFFF, 0⟩ Params.mainnet = .ok () := by
  have start : descending firstTime = firstTime :=
    descending_eq_of_perm (by decide) (List.Perm.refl _)
  have median : median Params.mainnet (insertAll Params.mainnet (descending firstTime) leap) =
      1300000007 := by
    rw [start]
    decide
  have last : lastMedian Params.mainnet (min (0 + leap.length + 1) 11) (firstTime ++ leap) =
      1300000006 := by
    rw [lastMedian_eq_of_perm [1300000011, 1300000010, 1300000009, 1300000008,
      1300000007, 1300000006, 1300000005, 1300000004, 1300000003, 1300000002, 1300000001]]
    · decide
    · decide
    · decide
  refine ⟨rfl, rfl, ?_, median, last, ?_⟩
  · rw [start]
    decide
  · rw [requireLater_eq_ok_iff, median]
    decide

end MedianTime

end HeaderRelay
