import Mathlib
import HeaderRelay.Proofs.Chain.Attachment
import HeaderRelay.Proofs.Chain.Batch
import HeaderRelay.Proofs.Chain.Winner

set_option autoImplicit false

namespace HeaderRelay

/-- An interval starts with another one and does not end before it. -/
structure Interval.Widens (wide narrow : Interval) : Prop where
  lower : wide.lower = narrow.lower
  upper : narrow.upper ≤ wide.upper

/-- A computation succeeds where another one does and a condition holds, with the same value. -/
def Restricts {ε α : Type} (condition : Prop) (narrow wide : Except ε α) : Prop :=
  ∀ value, narrow = .ok value ↔ wide = .ok value ∧ condition

namespace Restricts

variable {ε α β : Type} {condition : Prop} {narrow wide : Except ε α}

theorem of_error (failure : ε) :
    Restricts condition (.error failure : Except ε α) (.error failure) := by
  intro value
  simp only [reduceCtorEq, false_and]

theorem bind (restricts : Restricts condition narrow wide) (next : α → Except ε β) :
    Restricts condition (narrow >>= next) (wide >>= next) := by
  intro result
  simp only [bind_eq_ok, restricts _]
  constructor
  · rintro ⟨value, ⟨succeeds, holds⟩, onward⟩
    exact ⟨⟨value, succeeds, onward⟩, holds⟩
  · rintro ⟨⟨value, succeeds, onward⟩, holds⟩
    exact ⟨value, ⟨succeeds, holds⟩, onward⟩

theorem map (restricts : Restricts condition narrow wide) (f : α → β) :
    Restricts condition (narrow.map f) (wide.map f) := by
  have through := restricts.bind fun value => .ok (f value)
  cases narrow <;> cases wide <;> exact through

end Restricts

variable {wide narrow : Interval} {params : Params} {header : Header}

namespace Snapshot

def InTime (interval : Interval) (params : Params) (header : Header) : Prop :=
  header.timestamp.toNat ≤ latestTimestamp interval params

theorem InTime.widen (widens : wide.Widens narrow) (inTime : InTime narrow params header) :
    InTime wide params header := by
  have later : narrow.upper.toNat ≤ wide.upper.toNat := widens.upper
  simp only [InTime, latestTimestamp] at inTime ⊢
  omega

/-- The other rules do not read the upper bound. -/
theorem follows_iff_of_widens {tip next : Snapshot} (widens : wide.Widens narrow) :
    tip.Follows header narrow params next ↔
      tip.Follows header wide params next ∧ InTime narrow params header := by
  constructor
  · intro follows
    exact ⟨{ follows with notAhead := InTime.widen widens follows.notAhead }, follows.notAhead⟩
  · rintro ⟨follows, inTime⟩
    exact { follows with notAhead := inTime }

end Snapshot

open Snapshot (InTime)

/-- A record keeps the lower bound and nothing of the upper one. -/
theorem BlockRecord.extends_iff_of_widens {record : BlockRecord} {tip : Snapshot}
    (widens : wide.Widens narrow) :
    record.Extends tip header narrow params ↔
      record.Extends tip header wide params ∧ InTime narrow params header := by
  constructor
  · intro made
    obtain ⟨follows, inTime⟩ := (Snapshot.follows_iff_of_widens widens).mp made.follows
    have stamped : record.addedTime = wide.lower.toNat := by rw [made.stamped, widens.lower]
    exact ⟨{ made with follows := follows, stamped := stamped }, inTime⟩
  · rintro ⟨made, inTime⟩
    have follows := (Snapshot.follows_iff_of_widens widens).mpr ⟨made.follows, inTime⟩
    have stamped : record.addedTime = narrow.lower.toNat := by rw [made.stamped, widens.lower]
    exact { made with follows := follows, stamped := stamped }

/-- How long a block has been visible is told from the lower bound. -/
theorem Branch.isMature_of_widens (widens : wide.Widens narrow) (branch : Branch) :
    branch.isMature narrow params = branch.isMature wide params := by
  rw [isMature, isMature, widens.lower]

namespace ChainState

variable {state next : ChainState} {headers : List Header} {batch : List Bytes}

theorem restricts_recordAfter (widens : wide.Widens narrow) (tip : Snapshot) (header : Header)
    (params : Params) :
    Restricts (InTime narrow params header) (recordAfter tip header narrow params)
      (recordAfter tip header wide params) := by
  intro record
  rw [recordAfter_eq_ok, recordAfter_eq_ok, BlockRecord.extends_iff_of_widens widens]

theorem restricts_attach (widens : wide.Widens narrow) (state : ChainState) (header : Header)
    (params : Params) :
    Restricts (InTime narrow params header) (state.attach header narrow params)
      (state.attach header wide params) := by
  unfold attach
  cases state.branchMap.find? header.prevHash.bytes with
  | some parent => exact (restricts_recordAfter widens parent.newest.tip header params).bind _
  | none =>
    by_cases builds : header.prevHash = state.confirmed.tipHash
    · simp only [if_pos builds]
      exact (restricts_recordAfter widens state.confirmed header params).bind _
    · simp only [if_neg builds]
      exact Restricts.of_error _

theorem restricts_absorb (widens : wide.Widens narrow) (state : ChainState) (header : Header)
    (params : Params) :
    Restricts (InTime narrow params header) (state.absorb header narrow params)
      (state.absorb header wide params) := by
  unfold absorb
  by_cases tracked : state.tracks header.hash = true
  · simp only [if_pos tracked]
    exact Restricts.of_error _
  · simp only [if_neg tracked]
    exact (restricts_attach widens state header params).map _

/-- Headers are attached under the shorter interval when they are under the longer one and none of
them is ahead of the shorter one. -/
theorem restricts_absorbAll (widens : wide.Widens narrow) (state : ChainState)
    (headers : List Header) (params : Params) :
    Restricts (∀ header ∈ headers, InTime narrow params header)
      (state.absorbAll narrow params headers) (state.absorbAll wide params headers) := by
  intro final
  induction headers generalizing state with
  | nil => simp only [absorbAll, List.not_mem_nil, false_implies, implies_true, and_true]
  | cons header rest ih =>
    simp only [absorbAll_cons_eq_ok, restricts_absorb widens state header params _, ih,
      List.forall_mem_cons]
    constructor
    · rintro ⟨grown, ⟨first, inTime⟩, others, allInTime⟩
      exact ⟨⟨grown, first, others⟩, inTime, allInTime⟩
    · rintro ⟨⟨grown, first, others⟩, inTime, allInTime⟩
      exact ⟨grown, ⟨first, inTime⟩, others, allInTime⟩

theorem winner?_of_widens (widens : wide.Widens narrow) (state : ChainState) :
    state.winner? narrow params = state.winner? wide params := by
  simp only [winner?, Branch.isMature_of_widens widens]

theorem promoteUpTo_of_widens (widens : wide.Widens narrow) (limit : Nat) (state : ChainState) :
    promoteUpTo narrow params limit state = promoteUpTo wide params limit state := by
  induction limit generalizing state with
  | zero => rfl
  | succ limit ih => simp only [promoteUpTo, winner?_of_widens widens, ih]

/-- Promotion does not read the upper bound. -/
theorem promote_of_widens (widens : wide.Widens narrow) (state : ChainState) :
    state.promote narrow params = state.promote wide params :=
  promoteUpTo_of_widens widens _ state

/-- The upper bound of the interval only filters. What is accepted under an interval is accepted
under every one that starts with it and does not end before it, and gives the identical state and
as many confirmed blocks. Conversely, what is accepted under the longer interval is accepted under
the shorter one unless one of its headers runs too far ahead of that one. -/
theorem accepted_iff_of_widens (narrow wide : Interval) (lower : wide.lower = narrow.lower)
    (upper : narrow.upper ≤ wide.upper) (state next : ChainState) (batch : List Bytes)
    (params : Params) (policy : EmptyBatchPolicy) (count : Nat) :
    state.transition batch narrow params policy = .ok (.accepted next count) ↔
      state.transition batch wide params policy = .ok (.accepted next count) ∧
        ∀ header ∈ readableHeaders batch, InTime narrow params header := by
  have widens : wide.Widens narrow := ⟨lower, upper⟩
  by_cases empty : batch = []
  · subst empty
    cases policy <;> simp [transition, run, readableHeaders]
  · have accepted_iff : ∀ interval,
        state.transition batch interval params policy = .ok (.accepted next count) ↔
          ∃ grown, readHeaders batch = .ok (readableHeaders batch) ∧
            state.absorbAll interval params (readableHeaders batch) = .ok grown ∧
            grown.promote interval params = (next, count) := by
      intro interval
      change state.outcome params ⟨batch, interval, policy⟩ = .ok (.accepted next count) ↔ _
      exact outcome_eq_accepted_iff empty
    rw [accepted_iff narrow, accepted_iff wide]
    simp only [restricts_absorbAll widens state _ params _, promote_of_widens widens]
    constructor
    · rintro ⟨grown, read, ⟨absorbed, inTime⟩, promoted⟩
      exact ⟨⟨grown, read, absorbed, promoted⟩, inTime⟩
    · rintro ⟨⟨grown, read, absorbed, promoted⟩, inTime⟩
      exact ⟨grown, read, ⟨absorbed, inTime⟩, promoted⟩

end ChainState

namespace Sample

def race : List Bytes := [first, rival, afterFirst].map Header.wire

/-- An interval that ends as soon as the last block of the race is not ahead of it. -/
def punctual : Interval := ⟨1299990000, 1299992802, by decide⟩

/-- An interval that starts at the same time and ends after the race. -/
def prolonged : Interval := ⟨1299990000, 1300000020, by decide⟩

def decided : ChainState := (origin.unchecked hasty).submit hasty ⟨race, punctual, .reject⟩

end Sample

open Sample in
/-- The race is accepted under the shortest interval that it fits, and so under a longer one. -/
theorem ChainState.accepted_iff_of_widens_race :
    prolonged.lower = punctual.lower ∧ punctual.upper ≤ prolonged.upper ∧
      (origin.unchecked hasty).transition race punctual hasty .reject =
        .ok (.accepted decided 1) ∧
      (origin.unchecked hasty).transition race prolonged hasty .reject =
        .ok (.accepted decided 1) := by
  have lower : prolonged.lower = punctual.lower := rfl
  have upper : punctual.upper ≤ prolonged.upper := by decide
  have accepts : (origin.unchecked hasty).transition race punctual hasty .reject =
      .ok (.accepted decided 1) := by
    decide +kernel
  have longer := (accepted_iff_of_widens punctual prolonged lower upper (origin.unchecked hasty)
    decided race hasty .reject 1).mp accepts
  exact ⟨lower, upper, accepts, longer.1⟩

end HeaderRelay
