import Mathlib
import HeaderRelay.Proofs.Difficulty.CompactForm
import HeaderRelay.Proofs.Document.Ranges

/- Work is a quotient rounded down, so neighbouring numbers share it. Targets that bits denote are
no such neighbours: two of them lie apart by one part in 2 ^ 23 of the larger one at least. As long
as the larger one stays below 2 ^ 233 this is enough to tell their work apart. -/

set_option autoImplicit false

namespace HeaderRelay

namespace Compact

variable {bits bits' number larger : Int}

/-- Two numbers that bits denote are multiples of one unit, and one of them of fewer than 2 ^ 23. -/
theorem exists_unit (decoded : decode bits = .ok number) (decoded' : decode bits' = .ok larger) :
    ∃ unit low high : Nat, number = (low * unit : Nat) ∧ larger = (high * unit : Nat) ∧
      (low < 2 ^ 23 ∨ high < 2 ^ 23) := by
  obtain ⟨mantissa, shift, small, rfl⟩ := exists_scaled decoded
  obtain ⟨mantissa', shift', small', rfl⟩ := exists_scaled decoded'
  rcases Nat.le_total shift shift' with finer | coarser
  · obtain ⟨more, rfl⟩ := Nat.exists_eq_add_of_le finer
    have split : mantissa' * 256 ^ (shift + more) = mantissa' * 256 ^ more * 256 ^ shift := by
      rw [Nat.pow_add]
      ring
    exact ⟨256 ^ shift, mantissa, mantissa' * 256 ^ more, rfl, by rw [split], Or.inl small⟩
  · obtain ⟨more, rfl⟩ := Nat.exists_eq_add_of_le coarser
    have split : mantissa * 256 ^ (shift' + more) = mantissa * 256 ^ more * 256 ^ shift' := by
      rw [Nat.pow_add]
      ring
    exact ⟨256 ^ shift', mantissa * 256 ^ more, mantissa', by rw [split], rfl, Or.inr small'⟩

/-- Numbers that bits denote lie apart by one part in 2 ^ 23 of the larger one. -/
theorem le_mul_gap (decoded : decode bits = .ok number) (decoded' : decode bits' = .ok larger)
    (less : number < larger) : larger ≤ 2 ^ 23 * (larger - number) := by
  obtain ⟨unit, low, high, rfl, rfl, few⟩ := exists_unit decoded decoded'
  have order : low < high := Nat.lt_of_mul_lt_mul_right (Int.ofNat_lt.mp less)
  have steps : (high : Int) ≤ 2 ^ 23 * (high - low) := by omega
  calc
    ((high * unit : Nat) : Int) = high * unit := Nat.cast_mul high unit
    _ ≤ 2 ^ 23 * (high - low) * unit :=
      Int.mul_le_mul_of_nonneg_right steps (Int.natCast_nonneg unit)
    _ = 2 ^ 23 * ((high * unit : Nat) - (low * unit : Nat)) := by
      push_cast
      ring

end Compact

namespace Difficulty

variable {bits bits' target easier : Int}

/-- Quotients of divisors that lie far enough apart differ, also when they are rounded down. -/
theorem quotient_lt_quotient (nonneg : 0 ≤ target) (less : target < easier)
    (apart : easier ≤ 2 ^ 23 * (easier - target)) (limited : easier < 2 ^ 233) :
    2 ^ 256 / (easier + 1) < 2 ^ 256 / (target + 1) := by
  have many : 2 ^ 23 ≤ 2 ^ 256 / (easier + 1) := by
    apply Int.le_ediv_of_mul_le (by omega)
    omega
  have kept : 2 ^ 256 / (easier + 1) * (easier + 1) ≤ 2 ^ 256 := Int.ediv_mul_le _ (by omega)
  -- the gap, taken as often as the larger divisor fits, leaves room for the smaller one once more
  have room : easier ≤ 2 ^ 256 / (easier + 1) * (easier - target) :=
    le_trans apart (Int.mul_le_mul_of_nonneg_right many (by omega))
  apply Int.lt_of_add_one_le
  apply Int.le_ediv_of_mul_le (by omega)
  calc
    (2 ^ 256 / (easier + 1) + 1) * (target + 1)
      = 2 ^ 256 / (easier + 1) * (easier + 1)
          - 2 ^ 256 / (easier + 1) * (easier - target) + (target + 1) := by ring
    _ ≤ 2 ^ 256 := by linarith

/-- Of two numbers that bits denote the smaller one stands for more work. -/
theorem quotient_lt_of_decode (decoded : Compact.decode bits = .ok target)
    (decoded' : Compact.decode bits' = .ok easier) (less : target < easier)
    (limited : easier < 2 ^ 233) : 2 ^ 256 / (easier + 1) < 2 ^ 256 / (target + 1) :=
  quotient_lt_quotient (Compact.decode_nonneg decoded) less
    (Compact.le_mul_gap decoded decoded' less) limited

/-- The work of a target in the range of the main network. -/
theorem quotient_bounds (positive : 0 < target) (limited : target < 2 ^ 224) :
    2 ^ 32 ≤ 2 ^ 256 / (target + 1) ∧ 2 ^ 256 / (target + 1) ≤ 2 ^ 255 := by
  constructor
  · apply Int.le_ediv_of_mul_le (by omega)
    omega
  · apply Int.ediv_le_of_le_mul (by omega)
    omega

theorem lt_of_target_mainnet (claimed : Compact.target .mainnet bits = .ok target) :
    target < 2 ^ 224 := by
  have limit : ((Params.mainnet.powLimit.toNat : Nat) : Int) = 2 ^ 224 - 1 := by decide +kernel
  have within := (Compact.target_bounds claimed).2
  omega

/-- On the main network a harder target stands for strictly more work. The work of every target that
a header may claim lies between 2 ^ 32 and 2 ^ 255, so that it fits into the field of a record. -/
theorem work_strictly_decreases (bits target : Int)
    (claimed : Compact.target .mainnet bits = .ok target) :
    ∃ amount, work target = .ok amount ∧ 2 ^ 32 ≤ amount ∧ amount ≤ 2 ^ 255 ∧
      unsignedFaults 256 [.key "work"] amount = [] ∧
      ∀ bits' easier, Compact.target .mainnet bits' = .ok easier → target < easier →
        ∃ less, work easier = .ok less ∧ 2 ^ 32 ≤ less ∧ less < amount := by
  obtain ⟨decoded, positive, _⟩ := Compact.target_eq_ok.mp claimed
  obtain ⟨least, most⟩ := quotient_bounds positive (lt_of_target_mainnet claimed)
  refine ⟨_, work_of_nonneg positive.le, least, most, ?_, ?_⟩
  · apply (unsignedFaults_eq_nil_iff _ _ _).mpr
    exact ⟨by omega, by omega⟩
  · intro bits' easier claimed' less
    obtain ⟨decoded', positive', _⟩ := Compact.target_eq_ok.mp claimed'
    have limited := lt_of_target_mainnet claimed'
    exact ⟨_, work_of_nonneg positive'.le, (quotient_bounds positive' limited).1,
      quotient_lt_of_decode decoded decoded' less (by omega)⟩

/-- Two targets next to each other, as close as the compact form allows. -/
theorem work_strictly_decreases_neighbours :
    Compact.target .mainnet 0x1C7FFFFE = .ok (0x7FFFFE * 256 ^ 25) ∧
      Compact.target .mainnet 0x1C7FFFFF = .ok (0x7FFFFF * 256 ^ 25) ∧
      work (0x7FFFFE * 256 ^ 25) = .ok 0x200000800 ∧
      work (0x7FFFFF * 256 ^ 25) = .ok 0x200000400 ∧
      unsignedFaults 256 [.key "work"] 0x200000800 = [] ∧
      (2 ^ 32 : Int) ≤ 0x200000400 ∧ (0x200000400 : Int) < 0x200000800 := by
  obtain ⟨harder, easier, amounts⟩ :
      Compact.target .mainnet 0x1C7FFFFE = .ok (0x7FFFFE * 256 ^ 25) ∧
        Compact.target .mainnet 0x1C7FFFFF = .ok (0x7FFFFF * 256 ^ 25) ∧
        work (0x7FFFFE * 256 ^ 25) = .ok 0x200000800 ∧
        work (0x7FFFFF * 256 ^ 25) = .ok 0x200000400 := by
    decide +kernel
  obtain ⟨amount, worth, _, _, inRange, strict⟩ := work_strictly_decreases _ _ harder
  obtain ⟨less, worth', least, below⟩ := strict _ _ easier (by norm_num)
  rw [amounts.1] at worth
  rw [amounts.2] at worth'
  cases worth
  cases worth'
  exact ⟨harder, easier, amounts.1, amounts.2, inRange, least, below⟩

/-- Close to the limit of the network for local tests, different targets stand for the same work. -/
example : work (0x7FFFFE * 256 ^ 29) = work (0x7FFFFF * 256 ^ 29) := by decide +kernel

end Difficulty

end HeaderRelay
