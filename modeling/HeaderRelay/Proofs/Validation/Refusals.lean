import Mathlib
import HeaderRelay.Proofs.Validation.Window

set_option autoImplicit false

namespace HeaderRelay

section Steps

variable {α : Type} {allowed : Failure → Prop}

theorem failsOnly_demand {condition : Bool} {otherwise : RelayError}
    (permitted : allowed (.refused otherwise)) :
    FailsOnly allowed (demand condition otherwise) := by
  unfold demand
  split
  · exact .of_ok ()
  · exact .of_error permitted

theorem RelayError.failsOnly_orFail {result : Except RelayError α}
    (only : FailsOnly (fun error => allowed (.refused error)) result) :
    FailsOnly allowed (RelayError.orFail result) := by
  cases given : result with
  | error cause => exact .of_error (only cause given)
  | ok value => exact .of_ok value

theorem Checked.failsOnly_ofFaults {value : α} {faults : List Fault}
    (permitted : faults ≠ [] → allowed (.invalid faults)) :
    FailsOnly allowed (Checked.ofFaults value faults).orFail := by
  cases faults with
  | nil => exact .of_ok value
  | cons fault rest => exact .of_error (permitted (List.cons_ne_nil fault rest))

end Steps

namespace Compact

theorem failsOnly_decode (bits : Int) :
    FailsOnly (fun error => error.concernsHeader = true) (decode bits) := by
  unfold decode
  simp only
  split
  · exact .of_error rfl
  · split
    · exact .of_ok _
    · split
      · exact .of_error rfl
      · split
        · exact .of_ok _
        · exact .of_ok _

theorem failsOnly_target (params : Params) (bits : Int) :
    FailsOnly (fun error => error.concernsHeader = true) (Compact.target params bits) := by
  unfold Compact.target
  split
  · rename_i error failed
    exact .of_error (failsOnly_decode bits error failed)
  · split
    · exact .of_error rfl
    · split
      · exact .of_error rfl
      · exact .of_ok _

end Compact

/-- The work of a target that a header may claim can be computed. -/
theorem Difficulty.failsOnly_work {allowed : Failure → Prop} {params : Params} {bits target : Int}
    (claimed : Compact.target params bits = .ok target) : FailsOnly allowed (work target) := by
  have positive := (Compact.target_bounds claimed).1
  rw [work, if_neg (by omega)]
  exact .of_ok _

theorem Difficulty.work_unsigned {params : Params} {bits target work : Int}
    (claimed : Compact.target params bits = .ok target)
    (worth : Difficulty.work target = .ok work) : Unsigned 256 work := by
  have atLeast := work_pos claimed worth
  have positive := (Compact.target_bounds claimed).1
  rw [work_of_nonneg positive.le] at worth
  cases worth
  refine ⟨by omega, Int.ediv_lt_of_lt_mul (by omega) ?_⟩
  omega

namespace Snapshot

variable {tip : Snapshot} {header : Header} {interval : Interval} {params : Params}

/-- How the check of a header after a tip can fail. -/
inductive Fails (tip : Snapshot) (params : Params) : Failure → Prop
  | rule {error : RelayError} (concerns : error.concernsHeader = true) :
      Fails tip params (.refused error)
  /-- The tip is out of range, or the height after it is. -/
  | range {faults : List Fault} (outside : ¬ (tip.InRange ∧ tip.height + 1 < 2 ^ 64)) :
      Fails tip params (.invalid faults)
  | instant (zero : params.targetTimespan = 0) : Fails tip params .divisionByZero

/-- A tip in range and the words of a header make a tip in range, unless there is no next height. -/
theorem InRange.extended (inRange : tip.InRange) (low : tip.height + 1 < 2 ^ 64) (header : Header)
    (params : Params) (opens : Bool) :
    (tip.extended header params header.bits.toNat opens).InRange := by
  have nonneg := inRange.height.1
  have timestamp := unsigned_toNat header.timestamp
  refine ⟨⟨?_, low⟩, unsigned_toNat header.bits, timestamp, ?_, ?_⟩
  · change 0 ≤ tip.height + 1
    omega
  · intro time mem
    rcases MedianTime.mem_insertSorted.mp (List.mem_of_mem_take mem) with rfl | old
    · exact timestamp
    · exact inRange.recentTimestamps time old
  · simp only [Snapshot.extended]
    split
    · exact timestamp
    · exact inRange.epochStart

theorem failsOnly_opensPeriod (tip : Snapshot) (params : Params) :
    FailsOnly (tip.Fails params) (Difficulty.opensPeriod params tip.height) := by
  unfold Difficulty.opensPeriod
  split
  · rename_i zero
    refine .of_error (.instant ?_)
    rw [Params.targetTimespan, zero, Int.natCast_zero, Int.zero_mul]
  · exact .of_ok _

theorem failsOnly_requiredBits (tip : Snapshot) (params : Params) :
    FailsOnly (tip.Fails params) (tip.requiredBits params) := by
  unfold requiredBits Difficulty.nextBits
  refine (tip.failsOnly_opensPeriod params).bind fun opens _ => ?_
  split
  · unfold Difficulty.retarget
    refine (RelayError.failsOnly_orFail ?_).bind fun target _ => ?_
    · exact (Compact.failsOnly_target params tip.bits).mono fun _ => .rule
    · split
      · rename_i zero
        exact .of_error (.instant zero)
      · exact .of_ok _
  · exact .of_ok _

/-- The check of a header fails for a rule, or for the tip or the network alone. -/
theorem failsOnly_validate (tip : Snapshot) (header : Header) (interval : Interval)
    (params : Params) : FailsOnly (tip.Fails params) (tip.validate header interval params) := by
  unfold validate
  -- the rules one by one, each of which can only refuse the header
  refine (failsOnly_demand (.rule rfl)).bind fun _ _ => ?_
  refine (RelayError.failsOnly_orFail ?_).bind fun target _ => ?_
  · exact (Compact.failsOnly_target params _).mono fun _ => .rule
  refine (failsOnly_demand (.rule rfl)).bind fun _ _ => ?_
  refine (tip.failsOnly_requiredBits params).bind fun bits _ => ?_
  refine (failsOnly_demand (.rule rfl)).bind fun _ carries => ?_
  refine (failsOnly_demand (.rule rfl)).bind fun _ _ => ?_
  refine (failsOnly_demand (.rule rfl)).bind fun _ _ => ?_
  refine (failsOnly_demand (.rule rfl)).bind fun _ _ => ?_
  refine (tip.failsOnly_opensPeriod params).bind fun opens _ => ?_
  -- the required bits are those of the header by now, so they are a word
  have same : (header.bits.toNat : Int) = bits := by
    rw [demand_eq_ok, decide_eq_true_eq] at carries
    exact carries
  rw [← same]
  refine Checked.failsOnly_ofFaults fun faulty => .range ?_
  rintro ⟨inRange, low⟩
  exact faulty ((faults_eq_nil_iff _).mpr (inRange.extended low header params opens))

end Snapshot

/-- Making the record of a header fails only as checking the header does. -/
theorem ChainState.failsOnly_recordAfter (tip : Snapshot) (header : Header) (interval : Interval)
    (params : Params) : FailsOnly (tip.Fails params) (recordAfter tip header interval params) := by
  unfold recordAfter
  refine (Checked.failsOnly_ofFaults ?_).bind fun given valid => ?_
  · exact fun faulty => .range fun sound => faulty ((tip.faults_eq_nil_iff).mpr sound.1)
  rw [Checked.orFail_eq_ok, Checked.ofFaults_eq_valid] at valid
  obtain ⟨_, rfl⟩ := valid
  refine (given.failsOnly_validate header interval params).bind fun next passed => ?_
  refine (RelayError.failsOnly_orFail ?_).bind fun target here => ?_
  · exact (Compact.failsOnly_target params _).mono fun _ => .rule
  rw [RelayError.orFail_eq_ok] at here
  refine (Difficulty.failsOnly_work here).bind fun work worth => ?_
  refine Checked.failsOnly_ofFaults fun faulty => absurd ?_ faulty
  have follows := Snapshot.validate_eq_ok.mp passed
  have stamp := unsigned_toNat interval.lower
  exact (BlockRecord.faults_eq_nil_iff _).mpr
    ⟨(next.faults_eq_nil_iff).mp follows.inRange, stamp, Difficulty.work_unsigned here worth⟩

end HeaderRelay
