import Mathlib
import HeaderRelay.Proofs.Difficulty.CompactForm

set_option autoImplicit false

namespace HeaderRelay

namespace Compact

variable {params : Params} {bits target : Int}

/-- The exponent of bits of a positive number fits into its byte. -/
theorem exponent_range (decoded : decode bits = .ok target) (positive : 0 < target) :
    0 < exponent bits ∧ exponent bits < 2 ^ 8 := by
  have small := mantissa_lt bits
  rw [decode_eq] at decoded
  split at decoded
  · cases decoded
  · split at decoded
    · rename_i short
      cases decoded
      -- three bytes and more below the point leave nothing of the mantissa
      refine ⟨?_, by omega⟩
      by_contra low
      have many : 256 ^ 3 ≤ 256 ^ (3 - exponent bits).toNat :=
        Nat.pow_le_pow_right (by norm_num) (by omega)
      have none : mantissa bits / 256 ^ (3 - exponent bits).toNat = 0 :=
        Nat.div_eq_of_lt (by omega)
      omega
    · split at decoded
      · cases decoded
      · rename_i long within
        cases decoded
        refine ⟨by omega, ?_⟩
        by_contra high
        have whole : (2 : Nat) ^ 256 = 256 ^ 32 := by norm_num
        have many : 256 ^ 32 ≤ 256 ^ (exponent bits - 3).toNat :=
          Nat.pow_le_pow_right (by norm_num) (by omega)
        have some : 0 < mantissa bits := by
          apply Nat.pos_of_ne_zero
          intro none
          rw [none, Nat.zero_mul] at positive
          exact absurd positive (lt_irrefl _)
        apply within
        rw [whole]
        exact Nat.le_trans many (Nat.le_mul_of_pos_left _ some)

/-- Bits of a legal target fit into a header. -/
theorem representable_of_target (claimed : Compact.target params bits = .ok target) :
    Representable target := by
  obtain ⟨decoded, positive, _⟩ := target_eq_ok.mp claimed
  have range := exponent_range decoded positive
  rw [exponent] at range
  exact ⟨bits, by omega, by omega, decoded⟩

end Compact

namespace Difficulty

variable {params : Params} {expected target elapsed other larger height bits : Int}

theorem div_four_le_clampTimespan (positive : 0 < expected) (elapsed : Int) :
    expected / 4 ≤ clampTimespan expected elapsed := by
  rw [clampTimespan]
  omega

theorem clampTimespan_le : clampTimespan expected elapsed ≤ expected * 4 := by
  rw [clampTimespan]
  omega

theorem clampTimespan_mono (later : elapsed ≤ other) :
    clampTimespan expected elapsed ≤ clampTimespan expected other := by
  rw [clampTimespan, clampTimespan]
  omega

theorem clampTimespan_self (positive : 0 < expected) : clampTimespan expected expected = expected := by
  rw [clampTimespan]
  omega

/-- The target that a network aims at after a period that took some time. -/
def scaledTarget (params : Params) (target elapsed : Int) : Int :=
  min (target * clampTimespan params.targetTimespan elapsed / params.targetTimespan)
    params.powLimit.toNat

/-- Where a period opens after a legal target, the next bits are the compact form of the target
aimed at. -/
theorem nextBits_eq_ok (positive : 0 < params.targetTimespan)
    (opens : opensPeriod params height = .ok true)
    (claimed : Compact.target params bits = .ok target) (timestamp epochStart : Int) :
    nextBits params height bits timestamp epochStart =
      .ok (Compact.encode (scaledTarget params target (timestamp - epochStart))) := by
  rw [nextBits, bind_eq_ok]
  refine ⟨true, opens, ?_⟩
  rw [if_pos rfl, retarget, bind_eq_ok]
  refine ⟨target, (RelayError.orFail_eq_ok _ _).mpr claimed, ?_⟩
  rw [if_neg (by omega)]
  rfl

theorem scaledTarget_le (positive : 0 < params.targetTimespan) (nonneg : 0 ≤ target) :
    scaledTarget params target elapsed ≤ 4 * target := by
  apply le_trans (min_le_left _ _)
  apply Int.ediv_le_of_le_mul positive
  calc
    target * clampTimespan params.targetTimespan elapsed
      ≤ target * (params.targetTimespan * 4) := Int.mul_le_mul_of_nonneg_left clampTimespan_le nonneg
    _ = 4 * target * params.targetTimespan := by ring

theorem div_four_le_scaledTarget (positive : 0 < params.targetTimespan)
    (quarters : 4 ∣ params.targetTimespan) (nonneg : 0 ≤ target)
    (within : target ≤ params.powLimit.toNat) :
    target / 4 ≤ scaledTarget params target elapsed := by
  refine le_min ?_ (by omega)
  obtain ⟨quarter, whole⟩ := quarters
  have least := div_four_le_clampTimespan positive elapsed
  have shorter : params.targetTimespan / 4 = quarter := by omega
  rw [shorter] at least
  calc
    target / 4 = target * quarter / params.targetTimespan := by
      rw [whole, Int.mul_ediv_mul_of_pos_left _ _ (by omega)]
    _ ≤ target * clampTimespan params.targetTimespan elapsed / params.targetTimespan :=
      Int.ediv_le_ediv positive (Int.mul_le_mul_of_nonneg_left least nonneg)

theorem scaledTarget_mono (positive : 0 < params.targetTimespan) (nonneg : 0 ≤ target)
    (above : target ≤ larger) (later : elapsed ≤ other) :
    scaledTarget params target elapsed ≤ scaledTarget params larger other := by
  have shortest := div_four_le_clampTimespan positive elapsed
  apply min_le_min_right
  apply Int.ediv_le_ediv positive
  exact Int.mul_le_mul above (clampTimespan_mono later) (by omega) (by omega)

/-- A period that took the planned time keeps the target. -/
theorem scaledTarget_self (positive : 0 < params.targetTimespan)
    (within : target ≤ params.powLimit.toNat) :
    scaledTarget params target params.targetTimespan = target := by
  rw [scaledTarget, clampTimespan_self positive, Int.mul_ediv_cancel _ (by omega),
    min_eq_left within]

/-- What a period leads to, as a header can carry it: the greatest target of any bits that is not
above the one aimed at. -/
theorem exists_nextBits (positive : 0 < params.targetTimespan)
    (opens : opensPeriod params height = .ok true)
    (claimed : Compact.target params bits = .ok target) (timestamp epochStart : Int) :
    ∃ next aim, nextBits params height bits timestamp epochStart = .ok next ∧
      0 ≤ next ∧ next < 2 ^ 32 ∧ Compact.decode next = .ok aim ∧
      IsGreatest {number | Compact.Representable number ∧
        number ≤ scaledTarget params target (timestamp - epochStart)} aim := by
  have legal := Compact.target_bounds claimed
  have limited : params.powLimit.toNat < 2 ^ 256 := params.powLimit.isLt
  have nonneg : 0 ≤ scaledTarget params target (timestamp - epochStart) := by
    have shortest := div_four_le_clampTimespan positive (timestamp - epochStart)
    refine le_min (Int.ediv_nonneg ?_ positive.le) (Int.natCast_nonneg _)
    exact Int.mul_nonneg legal.1.le (by omega)
  have small : scaledTarget params target (timestamp - epochStart) < 2 ^ 256 := by
    have within := min_le_right (target * clampTimespan params.targetTimespan
      (timestamp - epochStart) / params.targetTimespan) (params.powLimit.toNat : Int)
    exact lt_of_le_of_lt within (by exact_mod_cast limited)
  obtain ⟨aim, decoded, greatest⟩ := Compact.isGreatest_decode_encode nonneg small
  obtain ⟨lower, upper, _⟩ := Compact.encode_bounds nonneg small
  exact ⟨_, aim, nextBits_eq_ok positive opens claimed timestamp epochStart, lower, upper, decoded,
    greatest⟩

/-- A new difficulty stays in the legal range. The target of the next bits is at most four times the
one before and within the limit of the network, and at least what bits can denote of a quarter. It
keeps the order of targets and durations and, after the planned time, the target itself. When a
quarter of the target is left at all, the next bits are legal again. -/
theorem nextBits_in_range (params : Params) (positive : 0 < params.targetTimespan)
    (quarters : 4 ∣ params.targetTimespan) (height bits target : Int)
    (opens : opensPeriod params height = .ok true)
    (claimed : Compact.target params bits = .ok target) (timestamp epochStart : Int) :
    ∃ next aim, nextBits params height bits timestamp epochStart = .ok next ∧
      0 ≤ next ∧ next < 2 ^ 32 ∧ Compact.decode next = .ok aim ∧
      aim ≤ min (4 * target) params.powLimit.toNat ∧
      (∃ quarter, quarter ≤ aim ∧
        IsGreatest {number | Compact.Representable number ∧ number ≤ target / 4} quarter) ∧
      (∀ height' bits' target' timestamp' epochStart',
        opensPeriod params height' = .ok true → Compact.target params bits' = .ok target' →
        target ≤ target' → timestamp - epochStart ≤ timestamp' - epochStart' →
        ∃ next' aim', nextBits params height' bits' timestamp' epochStart' = .ok next' ∧
          Compact.decode next' = .ok aim' ∧ aim ≤ aim') ∧
      (timestamp - epochStart = params.targetTimespan → aim = target) ∧
      (4 ≤ target → Compact.target params next = .ok aim) := by
  obtain ⟨legal, within⟩ := Compact.target_bounds claimed
  obtain ⟨next, aim, required, lower, upper, decoded, greatest⟩ :=
    exists_nextBits positive opens claimed timestamp epochStart
  have most : scaledTarget params target (timestamp - epochStart) ≤ 4 * target :=
    scaledTarget_le positive legal.le
  have least : target / 4 ≤ scaledTarget params target (timestamp - epochStart) :=
    div_four_le_scaledTarget positive quarters legal.le within
  have limit : aim ≤ params.powLimit.toNat := le_trans greatest.1.2 (min_le_right _ _)
  refine ⟨next, aim, required, lower, upper, decoded, ?_, ?_, ?_, ?_, ?_⟩
  · exact le_min (le_trans greatest.1.2 most) limit
  · have bounded : target / 4 < 2 ^ 256 := by
      have limited : params.powLimit.toNat < 2 ^ 256 := params.powLimit.isLt
      have wide : (params.powLimit.toNat : Int) < 2 ^ 256 := by exact_mod_cast limited
      omega
    obtain ⟨quarter, _, best⟩ :=
      Compact.isGreatest_decode_encode (by omega : 0 ≤ target / 4) bounded
    exact ⟨quarter, greatest.2 ⟨best.1.1, le_trans best.1.2 least⟩, best⟩
  · intro height' bits' target' timestamp' epochStart' opens' claimed' above later
    obtain ⟨next', aim', required', _, _, decoded', greatest'⟩ :=
      exists_nextBits positive opens' claimed' timestamp' epochStart'
    have onward : scaledTarget params target (timestamp - epochStart) ≤
        scaledTarget params target' (timestamp' - epochStart') :=
      scaledTarget_mono positive legal.le above later
    exact ⟨next', aim', required', decoded',
      greatest'.2 ⟨greatest.1.1, le_trans greatest.1.2 onward⟩⟩
  · intro planned
    rw [planned, scaledTarget_self positive within] at greatest
    exact le_antisymm greatest.1.2
      (greatest.2 ⟨Compact.representable_of_target claimed, le_rfl⟩)
  · intro several
    have some : 1 ≤ aim := greatest.2 ⟨Compact.representable_one, by omega⟩
    exact Compact.target_eq_ok.mpr ⟨decoded, by omega, limit⟩

/-- The blocks of a period came so fast that its last is dated before its first: the target falls to
a quarter, of which the last byte is lost. -/
theorem nextBits_in_range_hasty :
    0 < Params.mainnet.targetTimespan ∧ 4 ∣ Params.mainnet.targetTimespan ∧
      opensPeriod Params.mainnet 2015 = .ok true ∧
      Compact.target Params.mainnet 0x1B0404CB = .ok (0x0404CB * 256 ^ 24) ∧
      nextBits Params.mainnet 2015 0x1B0404CB 1000 5000 = .ok 0x1B010132 ∧
      Compact.target Params.mainnet 0x1B010132 = .ok (0x010132 * 256 ^ 24) ∧
      IsGreatest {number | Compact.Representable number ∧ number ≤ 0x0404CB * 256 ^ 24 / 4}
        (0x010132 * 256 ^ 24) := by
  obtain ⟨opens, claimed, required, read⟩ :
      opensPeriod Params.mainnet 2015 = .ok true ∧
        Compact.target Params.mainnet 0x1B0404CB = .ok (0x0404CB * 256 ^ 24) ∧
        nextBits Params.mainnet 2015 0x1B0404CB 1000 5000 = .ok 0x1B010132 ∧
        Compact.decode 0x1B010132 = .ok (0x010132 * 256 ^ 24) := by
    decide +kernel
  obtain ⟨next, aim, same, _, _, decoded, _, ⟨quarter, above, best⟩, _, _, legal⟩ :=
    nextBits_in_range Params.mainnet (by decide) (by decide) 2015 0x1B0404CB _ opens claimed 1000 5000
  rw [required] at same
  cases same
  rw [read] at decoded
  cases decoded
  have lowest : quarter = 0x010132 * 256 ^ 24 := by
    apply le_antisymm above
    exact best.2 ⟨⟨0x1B010132, by norm_num, by norm_num, read⟩, by norm_num⟩
  rw [lowest] at best
  exact ⟨by decide, by decide, opens, claimed, required, legal (by norm_num), best⟩

end Difficulty

end HeaderRelay
