import Mathlib
import HeaderRelay.Forks.Absorb

set_option autoImplicit false

namespace HeaderRelay

theorem bind_eq_ok {ε α β : Type} (first : Except ε α) (next : α → Except ε β) (result : β) :
    (first >>= next) = .ok result ↔ ∃ value, first = .ok value ∧ next value = .ok result := by
  cases first with
  | error cause =>
    constructor
    · intro succeeded
      cases succeeded
    · rintro ⟨value, failed, _⟩
      cases failed
  | ok value =>
    constructor
    · intro succeeded
      exact ⟨value, rfl, succeeded⟩
    · rintro ⟨same, here, succeeded⟩
      cases here
      exact succeeded

theorem map_eq_ok {ε α β : Type} (first : Except ε α) (f : α → β) (result : β) :
    first.map f = .ok result ↔ ∃ value, first = .ok value ∧ f value = result := by
  cases first with
  | error cause => simp [Except.map]
  | ok value => simp [Except.map]

@[simp] theorem demand_eq_ok (condition : Bool) (otherwise : RelayError) (done : Unit) :
    demand condition otherwise = .ok done ↔ condition = true := by
  cases condition <;> simp [demand]

@[simp] theorem RelayError.orFail_eq_ok {α : Type} (result : Except RelayError α) (value : α) :
    RelayError.orFail result = .ok value ↔ result = .ok value := by
  cases result <;> simp [RelayError.orFail]

@[simp] theorem Checked.orFail_eq_ok {α : Type} (checked : Checked α) (value : α) :
    checked.orFail = .ok value ↔ checked = .valid value := by
  cases checked <;> simp [Checked.orFail]

theorem Checked.ofFaults_eq_valid {α : Type} (value result : α) (faults : List Fault) :
    Checked.ofFaults value faults = .valid result ↔ faults = [] ∧ result = value := by
  cases faults with
  | nil => simp [Checked.ofFaults, eq_comm]
  | cons fault rest => simp [Checked.ofFaults]

theorem Checked.ensure_eq_valid {α : Type} (objection? : α → Option String)
    (checked : Checked α) (value : α) :
    checked.ensure objection? = .valid value ↔
      checked = .valid value ∧ objection? value = none := by
  cases checked with
  | invalid faults => simp [Checked.ensure]
  | valid given =>
    cases objects : objection? given with
    | none =>
      simp only [Checked.ensure, objects, Checked.valid.injEq]
      constructor
      · intro same
        exact ⟨same, same ▸ objects⟩
      · exact And.left
    | some reason =>
      simp only [Checked.ensure, objects, Checked.flawed, Checked.valid.injEq, reduceCtorEq,
        false_iff, not_and]
      intro same
      rw [← same, objects]
      exact Option.some_ne_none reason

/-- A computation fails, if at all, in an allowed way. -/
def FailsOnly {ε α : Type} (allowed : ε → Prop) (result : Except ε α) : Prop :=
  ∀ failure, result = .error failure → allowed failure

namespace FailsOnly

variable {ε α β : Type} {allowed : ε → Prop} {first : Except ε α} {next : α → Except ε β}

theorem of_ok (value : α) : FailsOnly allowed (.ok value) := by
  intro failure failed
  cases failed

theorem of_error {failure : ε} (permitted : allowed failure) :
    FailsOnly allowed (.error failure : Except ε α) := by
  intro other failed
  cases failed
  exact permitted

/-- Steps one after the other fail only as one of them does, and a later one only with what the
earlier one gives. -/
theorem bind (only : FailsOnly allowed first)
    (others : ∀ value, first = .ok value → FailsOnly allowed (next value)) :
    FailsOnly allowed (first >>= next) := by
  cases given : first with
  | error cause => exact of_error (only cause given)
  | ok value => exact others value given

theorem mono {wider : ε → Prop} (only : FailsOnly allowed first)
    (weaker : ∀ failure, allowed failure → wider failure) : FailsOnly wider first :=
  fun failure failed => weaker failure (only failure failed)

theorem map (only : FailsOnly allowed first) (f : α → β) : FailsOnly allowed (first.map f) := by
  cases given : first with
  | error cause => exact of_error (only cause given)
  | ok value => exact of_ok (f value)

end FailsOnly

namespace Compact

theorem decode_nonneg {bits target : Int} (decoded : decode bits = .ok target) : 0 ≤ target := by
  unfold decode at decoded
  simp only at decoded
  split at decoded
  · cases decoded
  · split at decoded
    · cases decoded
      exact Int.natCast_nonneg _
    · split at decoded
      · cases decoded
      · split at decoded
        · cases decoded
          exact Int.le_refl 0
        · cases decoded
          exact Int.natCast_nonneg _

/-- Bits may be claimed when what they denote is positive and within the limit of the network. -/
theorem target_eq_ok {params : Params} {bits target : Int} :
    Compact.target params bits = .ok target ↔
      decode bits = .ok target ∧ 0 < target ∧ target ≤ params.powLimit.toNat := by
  rw [Compact.target]
  cases decoded : decode bits with
  | error refusal => simp
  | ok value =>
    have nonneg := decode_nonneg decoded
    simp only [Except.ok.injEq]
    constructor
    · intro claimed
      split at claimed
      · cases claimed
      · split at claimed
        · cases claimed
        · cases claimed
          exact ⟨rfl, by omega, by omega⟩
    · rintro ⟨rfl, positive, limited⟩
      rw [if_neg (by omega), if_neg (by omega)]

theorem target_bounds {params : Params} {bits target : Int}
    (claimed : Compact.target params bits = .ok target) :
    0 < target ∧ target ≤ params.powLimit.toNat :=
  (target_eq_ok.mp claimed).2

end Compact

theorem Difficulty.work_of_nonneg {target : Int} (nonneg : 0 ≤ target) :
    Difficulty.work target = .ok (2 ^ 256 / (target + 1)) := by
  have whole : ((1 <<< 256 : Nat) : Int) = 2 ^ 256 := by
    rw [Nat.one_shiftLeft]
    norm_num
  rw [work, if_neg (by omega), whole, Int.fdiv_eq_ediv_of_nonneg _ (by omega)]

theorem Difficulty.work_pos {params : Params} {bits target work : Int}
    (claimed : Compact.target params bits = .ok target)
    (worth : Difficulty.work target = .ok work) : 1 ≤ work := by
  obtain ⟨positive, limited⟩ := Compact.target_bounds claimed
  have below : params.powLimit.toNat < 2 ^ 256 := params.powLimit.isLt
  rw [work_of_nonneg positive.le] at worth
  cases worth
  apply Int.le_ediv_of_mul_le (by omega)
  omega

namespace Snapshot

/-- A header meets every rule after a tip, and `next` is the tip that it makes. -/
structure Follows (tip : Snapshot) (header : Header) (interval : Interval) (params : Params)
    (next : Snapshot) : Prop where
  builds : header.prevHash = tip.tipHash
  worked : ∃ target, Compact.target params header.bits.toNat = .ok target ∧
    Header.hashValue header.hash.bytes ≤ target
  bits : tip.requiredBits params = .ok header.bits.toNat
  later : MedianTime.median params tip.recentTimestamps < header.timestamp.toNat
  notAhead : header.timestamp.toNat ≤ latestTimestamp interval params
  version : params.minBlockVersion ≤ header.version
  grown : ∃ opens, Difficulty.opensPeriod params tip.height = .ok opens ∧
    next = tip.extended header params header.bits.toNat opens
  inRange : next.faults = []

variable {tip next : Snapshot} {header : Header} {interval : Interval} {params : Params}

theorem checked_eq_valid (snapshot result : Snapshot) :
    snapshot.checked = .valid result ↔ snapshot.faults = [] ∧ result = snapshot :=
  Checked.ofFaults_eq_valid snapshot result snapshot.faults

/-- Validation gives the next tip exactly when all rules are met. -/
theorem validate_eq_ok :
    tip.validate header interval params = .ok next ↔
      tip.Follows header interval params next := by
  simp only [validate, requireContinuity, requireWork, requireBits, requireLater, requireNotAhead,
    requireVersion, bind_eq_ok, demand_eq_ok, RelayError.orFail_eq_ok, Checked.orFail_eq_ok,
    checked_eq_valid, decide_eq_true_eq]
  constructor
  · rintro ⟨_, builds, target, claimed, _, worked, bits, required, _, same, _, later, _, notAhead,
      _, version, opens, opened, inRange, grown⟩
    subst same grown
    exact ⟨builds, ⟨target, claimed, worked⟩, required, later, notAhead, version,
      ⟨opens, opened, rfl⟩, inRange⟩
  · rintro ⟨builds, ⟨target, claimed, worked⟩, required, later, notAhead, version,
      ⟨opens, opened, grown⟩, inRange⟩
    subst grown
    exact ⟨(), builds, target, claimed, (), worked, _, required, (), rfl, (), later, (), notAhead,
      (), version, opens, opened, inRange, rfl⟩

theorem Follows.tipHash (follows : tip.Follows header interval params next) :
    next.tipHash = header.hash := by
  obtain ⟨_, _, grown⟩ := follows.grown
  rw [grown, extended]

theorem Follows.height (follows : tip.Follows header interval params next) :
    next.height = tip.height + 1 := by
  obtain ⟨_, _, grown⟩ := follows.grown
  rw [grown, extended]

end Snapshot

/-- A record is that of a header that was accepted after a tip. -/
structure BlockRecord.Extends (record : BlockRecord) (tip : Snapshot) (header : Header)
    (interval : Interval) (params : Params) : Prop where
  follows : tip.Follows header interval params record.tip
  named : record.prevHash = header.prevHash
  stamped : record.addedTime = interval.lower.toNat
  worth : ∃ target, Compact.target params header.bits.toNat = .ok target ∧
    Difficulty.work target = .ok record.work
  inRange : record.faults = []
  tipInRange : tip.faults = []

namespace BlockRecord.Extends

variable {record : BlockRecord} {tip : Snapshot} {header : Header} {interval : Interval}
  {params : Params}

theorem hash (extended : record.Extends tip header interval params) :
    record.hash = header.hash :=
  extended.follows.tipHash

theorem height (extended : record.Extends tip header interval params) :
    record.height = tip.height + 1 :=
  extended.follows.height

theorem prevHash (extended : record.Extends tip header interval params) :
    record.prevHash = tip.tipHash :=
  extended.named.trans extended.follows.builds

theorem work_pos (extended : record.Extends tip header interval params) : 1 ≤ record.work := by
  obtain ⟨target, claimed, worth⟩ := extended.worth
  exact Difficulty.work_pos claimed worth

end BlockRecord.Extends

/-- A header gives a record after a tip exactly when it passes, and the record tells how. -/
theorem ChainState.recordAfter_eq_ok (tip : Snapshot) (header : Header) (interval : Interval)
    (params : Params) (record : BlockRecord) :
    recordAfter tip header interval params = .ok record ↔
      record.Extends tip header interval params := by
  simp only [recordAfter, bind_eq_ok, RelayError.orFail_eq_ok, Checked.orFail_eq_ok,
    Snapshot.checked_eq_valid, Snapshot.validate_eq_ok, BlockRecord.checked,
    Checked.ofFaults_eq_valid]
  constructor
  · rintro ⟨_, ⟨tipInRange, same⟩, next, follows, target, claimed, work, worth, inRange, made⟩
    subst same made
    exact ⟨follows, rfl, rfl, ⟨target, claimed, worth⟩, inRange, tipInRange⟩
  · rintro ⟨follows, named, stamped, ⟨target, claimed, worth⟩, inRange, tipInRange⟩
    obtain ⟨next, prevHash, addedTime, work⟩ := record
    subst named stamped
    exact ⟨tip, ⟨tipInRange, rfl⟩, next, follows, target, claimed, work, worth, inRange, rfl⟩

end HeaderRelay
