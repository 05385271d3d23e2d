import Mathlib
import HeaderRelay.Proofs.Difficulty.CompactForm

set_option autoImplicit false

namespace HeaderRelay.Compact

/-- The number that bits stand for: their lowest twenty-three bits as a mantissa, times 256 to the
power of what is above their lowest three bytes, less three. -/
def denoted (bits : Nat) : ℚ :=
  (bits &&& 0x7FFFFF : Nat) * (256 : ℚ) ^ ((bits >>> 24 : Nat) - (3 : ℤ))

variable {bits : Nat}

theorem exponent_natCast (bits : Nat) : exponent bits = (bits >>> 24 : Nat) := by
  rw [exponent, Nat.shiftRight_eq_div_pow]
  omega

theorem mantissa_natCast (bits : Nat) : mantissa bits = bits &&& 0x7FFFFF := by
  have low : bits &&& 0x7FFFFF = bits % 2 ^ 23 := Nat.and_two_pow_sub_one_eq_mod bits 23
  rw [mantissa, low]
  omega

theorem hasSign_eq_testBit (bits : Nat) : hasSign bits = bits.testBit 23 := by
  rw [hasSign, Nat.testBit_eq_decide_div_mod_eq]
  apply decide_eq_decide.mpr
  omega

/-- With a small exponent whole bytes of the mantissa stand below the point. -/
theorem denoted_of_le (short : bits >>> 24 ≤ 3) :
    denoted bits = (bits &&& 0x7FFFFF : Nat) / (256 ^ (3 - bits >>> 24) : Nat) := by
  have power : ((bits >>> 24 : Nat) - (3 : ℤ)) = -((3 - bits >>> 24 : Nat) : ℤ) := by omega
  rw [denoted, power, zpow_neg, zpow_natCast, div_eq_mul_inv]
  push_cast
  rfl

/-- With a larger exponent the number is whole. -/
theorem denoted_of_lt (long : 3 < bits >>> 24) :
    denoted bits = ((bits &&& 0x7FFFFF) * 256 ^ (bits >>> 24 - 3) : Nat) := by
  have power : ((bits >>> 24 : Nat) - (3 : ℤ)) = ((bits >>> 24 - 3 : Nat) : ℤ) := by omega
  rw [denoted, power, zpow_natCast]
  push_cast
  rfl

theorem floor_denoted_of_le (short : bits >>> 24 ≤ 3) :
    ⌊denoted bits⌋ = ((bits &&& 0x7FFFFF) / 256 ^ (3 - bits >>> 24) : Nat) := by
  rw [denoted_of_le short, Rat.floor_natCast_div_natCast]
  rfl

theorem floor_denoted_of_lt (long : 3 < bits >>> 24) :
    ⌊denoted bits⌋ = ((bits &&& 0x7FFFFF) * 256 ^ (bits >>> 24 - 3) : Nat) := by
  rw [denoted_of_lt long, Int.floor_natCast]

/-- What is not refused as too large has at most 256 bits. -/
theorem floor_denoted_lt (small : ¬ (3 < bits >>> 24 ∧ 2 ^ 256 ≤ denoted bits)) :
    ⌊denoted bits⌋ < 2 ^ 256 := by
  rcases Nat.lt_or_ge 3 (bits >>> 24) with long | short
  · have below : denoted bits < 2 ^ 256 := not_le.mp fun large => small ⟨long, large⟩
    apply Int.floor_lt.mpr
    exact_mod_cast below
  · have narrow := mantissa_lt bits
    have least := Nat.div_le_self (bits &&& 0x7FFFFF) (256 ^ (3 - bits >>> 24))
    rw [mantissa_natCast] at narrow
    rw [floor_denoted_of_le short]
    omega

/-- Bits are read as the number that they stand for, rounded down. -/
theorem decode_natCast (bits : Nat) :
    decode bits =
      if bits.testBit 23 then .error (refusal bits .negative)
      else if 3 < bits >>> 24 ∧ 2 ^ 256 ≤ denoted bits then .error (refusal bits .overflow)
      else .ok ⌊denoted bits⌋ := by
  rw [decode_eq, hasSign_eq_testBit, exponent_natCast, mantissa_natCast]
  split
  · rfl
  · rcases Nat.lt_or_ge 3 (bits >>> 24) with long | short
    · have shift : ((bits >>> 24 : Nat) - (3 : ℤ)).toNat = bits >>> 24 - 3 := by omega
      have large : 2 ^ 256 ≤ denoted bits ↔
          2 ^ 256 ≤ (bits &&& 0x7FFFFF) * 256 ^ (bits >>> 24 - 3) := by
        rw [denoted_of_lt long]
        exact_mod_cast Iff.rfl
      simp only [large, long, true_and]
      rw [if_neg (by omega), shift, floor_denoted_of_lt long]
    · have drop : ((3 : ℤ) - (bits >>> 24 : Nat)).toNat = 3 - bits >>> 24 := by omega
      rw [if_pos (by omega), if_neg (by omega), drop, floor_denoted_of_le short]

/-- Bits are refused, as an invalid encoding, exactly when their sign bit is set or the number that
they stand for takes more than 256 bits. All others, whatever their exponent, are read as this
number rounded down. -/
theorem decode_exact (bits : Nat) :
    ((∃ detail, decode bits = .error (.difficultyEncoding bits detail)) ↔
        bits.testBit 23 = true ∨ 3 < bits >>> 24 ∧ 2 ^ 256 ≤ denoted bits) ∧
      (¬ (bits.testBit 23 = true ∨ 3 < bits >>> 24 ∧ 2 ^ 256 ≤ denoted bits) →
        decode bits = .ok ⌊denoted bits⌋ ∧ ⌊denoted bits⌋ < 2 ^ 256) := by
  rw [decode_natCast]
  by_cases refused : bits.testBit 23 = true ∨ 3 < bits >>> 24 ∧ 2 ^ 256 ≤ denoted bits
  · refine ⟨iff_of_true ?_ refused, fun legal => absurd refused legal⟩
    by_cases negative : bits.testBit 23 = true
    · rw [if_pos negative]
      exact ⟨_, rfl⟩
    · rw [if_neg negative, if_pos (refused.resolve_left negative)]
      exact ⟨_, rfl⟩
  · obtain ⟨positive, small⟩ := not_or.mp refused
    rw [if_neg positive, if_neg small]
    refine ⟨iff_of_false ?_ refused, fun _ => ⟨rfl, floor_denoted_lt small⟩⟩
    rintro ⟨detail, failed⟩
    cases failed

/-- Without a mantissa no exponent is too large. -/
example : decode 0xFFFFFFFFFF000000 = .ok 0 := by decide +kernel

end HeaderRelay.Compact
