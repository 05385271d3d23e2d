import Mathlib
import HeaderRelay.Proofs.Validation.Rules

set_option autoImplicit false

namespace HeaderRelay.Compact

/-- A number that some bits of a header denote. -/
def Representable (value : Int) : Prop :=
  ∃ bits : Int, 0 ≤ bits ∧ bits < 2 ^ 32 ∧ decode bits = .ok value

/-- How many bytes a number takes together with a bit for the sign. -/
def signedLength (value : Nat) : Nat := byteLength (2 * value)

def leading (value size : Nat) : Nat := value * 256 ^ (3 - size) / 256 ^ (size - 3)

/-- A number without the bytes that its compact form drops. -/
def rounded (value : Nat) : Nat :=
  value / 256 ^ (signedLength value - 3) * 256 ^ (signedLength value - 3)

variable {value size : Nat} {bits : Int}

theorem representable_one : Representable 1 := ⟨0x01010000, by norm_num, by norm_num, rfl⟩

theorem mantissa_lt (bits : Int) : mantissa bits < 2 ^ 23 := by
  rw [mantissa]
  omega

theorem pow_eight_mul (count : Nat) : 2 ^ (8 * count) = 256 ^ count := by
  rw [Nat.pow_mul]

/-- The thresholds on mantissa and exponent tell whether their number has more than 256 bits. -/
theorem overflows_iff {mantissa : Nat} {exponent : Int} (small : mantissa < 2 ^ 23)
    (large : 3 < exponent) :
    overflows mantissa exponent = true ↔ 2 ^ 256 ≤ mantissa * 256 ^ (exponent - 3).toNat := by
  have whole : (2 : Nat) ^ 256 = 256 ^ 32 := by norm_num
  simp only [overflows, ne_eq, Bool.and_eq_true, Bool.or_eq_true, decide_eq_true_eq, decide_not,
    Bool.not_eq_true', decide_eq_false_iff_not]
  rcases Nat.eq_zero_or_pos mantissa with rfl | positive
  · simp
  · obtain ⟨shift, rfl⟩ : ∃ shift : Nat, exponent = shift + 3 := ⟨(exponent - 3).toNat, by omega⟩
    have shifted : ((shift : Int) + 3 - 3).toNat = shift := by omega
    rw [shifted, whole]
    rcases Nat.lt_trichotomy shift 31 with below | rfl | above
    · rcases Nat.lt_or_ge shift 30 with lower | same
      · -- even the largest mantissa stays below
        have bound : 256 ^ shift ≤ 256 ^ 29 := Nat.pow_le_pow_right (by norm_num) (by omega)
        have product : mantissa * 256 ^ shift < 2 ^ 23 * 256 ^ 29 :=
          Nat.mul_lt_mul_of_lt_of_le small bound (by positivity)
        norm_num at product
        constructor
        · omega
        · intro reached
          norm_num at reached
          omega
      · obtain rfl : shift = 30 := by omega
        norm_num
        omega
    · norm_num
      omega
    · have bound : 256 ^ 32 ≤ 256 ^ shift := Nat.pow_le_pow_right (by norm_num) (by omega)
      have product : 256 ^ shift ≤ mantissa * 256 ^ shift := Nat.le_mul_of_pos_left _ positive
      constructor
      · intro _
        omega
      · intro _
        omega

/-- What bits denote: the mantissa shifted by the exponent. Whole bytes below the point are dropped,
and a number of more than 256 bits is refused, as is a negative one. -/
theorem decode_eq (bits : Int) :
    decode bits =
      if hasSign bits then .error (refusal bits .negative)
      else if exponent bits ≤ 3 then
        .ok (mantissa bits / 256 ^ (3 - exponent bits).toNat : Nat)
      else if 2 ^ 256 ≤ mantissa bits * 256 ^ (exponent bits - 3).toNat then
        .error (refusal bits .overflow)
      else .ok (mantissa bits * 256 ^ (exponent bits - 3).toNat : Nat) := by
  unfold decode
  simp only [Nat.shiftRight_eq_div_pow, Nat.shiftLeft_eq, pow_eight_mul]
  split
  · rfl
  · split
    · rfl
    · rename_i large
      have decided := overflows_iff (mantissa_lt bits) (by omega : 3 < exponent bits)
      simp only [decided]
      split
      · rfl
      · split
        · rename_i zero
          rw [zero, Nat.zero_mul, Nat.cast_zero]
        · rfl

/-- Every number that bits denote is a mantissa of twenty-three bits shifted by whole bytes. -/
theorem exists_scaled {number : Int} (decoded : decode bits = .ok number) :
    ∃ mantissa shift : Nat, mantissa < 2 ^ 23 ∧ number = (mantissa * 256 ^ shift : Nat) := by
  have small := mantissa_lt bits
  rw [decode_eq] at decoded
  split at decoded
  · cases decoded
  · split at decoded
    · cases decoded
      refine ⟨mantissa bits / 256 ^ (3 - exponent bits).toNat, 0, ?_, ?_⟩
      · exact Nat.lt_of_le_of_lt (Nat.div_le_self _ _) small
      · rw [Nat.pow_zero, Nat.mul_one]
    · split at decoded
      · cases decoded
      · cases decoded
        exact ⟨mantissa bits, _, small, rfl⟩

theorem pow_byteLength_le (positive : 0 < value) : 256 ^ (byteLength value - 1) ≤ value := by
  have nonzero : value ≠ 0 := Nat.ne_of_gt positive
  have whole : 8 * (value.log2 / 8) ≤ value.log2 := Nat.mul_div_le _ _
  rw [byteLength, if_neg nonzero, Nat.add_sub_cancel, ← pow_eight_mul]
  exact Nat.le_trans (Nat.pow_le_pow_right (by norm_num) whole) (Nat.log2_self_le nonzero)

theorem lt_pow_byteLength (value : Nat) : value < 256 ^ byteLength value := by
  rcases Nat.eq_zero_or_pos value with rfl | positive
  · exact Nat.one_pos
  · have nonzero : value ≠ 0 := Nat.ne_of_gt positive
    have whole : value.log2 + 1 ≤ 8 * (value.log2 / 8 + 1) := by omega
    rw [byteLength, if_neg nonzero, ← pow_eight_mul]
    exact Nat.lt_of_lt_of_le Nat.lt_log2_self (Nat.pow_le_pow_right (by norm_num) whole)

theorem byteLength_pos (positive : 0 < value) : 0 < byteLength value := by
  rw [byteLength, if_neg (Nat.ne_of_gt positive)]
  exact Nat.succ_pos _

/-- A number has the length of the powers between which it lies. -/
theorem byteLength_eq (lower : 256 ^ size ≤ value) (upper : value < 256 ^ (size + 1)) :
    byteLength value = size + 1 := by
  have positive : 0 < value := Nat.lt_of_lt_of_le (by positivity) lower
  have long := Nat.lt_of_le_of_lt lower (lt_pow_byteLength value)
  have short := Nat.lt_of_le_of_lt (pow_byteLength_le positive) upper
  rw [Nat.pow_lt_pow_iff_right (by norm_num)] at long short
  omega

/-- Three bytes are as many as are left when those beyond the size are dropped. -/
theorem pow_size_mul (size : Nat) : 256 ^ size * 256 ^ (3 - size) = 2 ^ 24 * 256 ^ (size - 3) := by
  have three : (2 : Nat) ^ 24 = 256 ^ 3 := by norm_num
  rw [three, ← Nat.pow_add, ← Nat.pow_add]
  congr 1
  omega

theorem leading_lt_iff (bound : Nat) :
    leading value size < bound ↔ value * 256 ^ (3 - size) < bound * 256 ^ (size - 3) :=
  Nat.div_lt_iff_lt_mul (by positivity)

/-- The sign bit of the leading bytes is free when the number leaves room for it. -/
theorem leading_lt_half_iff : leading value size < 2 ^ 23 ↔ 2 * value < 256 ^ size := by
  have scaled : 2 * value * 256 ^ (3 - size) < 256 ^ size * 256 ^ (3 - size) ↔
      2 * value < 256 ^ size := Nat.mul_lt_mul_right (by positivity)
  rw [leading_lt_iff, ← scaled, pow_size_mul, Nat.mul_assoc]
  omega

theorem leading_lt (below : 2 * value < 256 ^ size) : leading value size < 2 ^ 23 :=
  leading_lt_half_iff.mpr below

/-- No leading byte is wasted. -/
theorem le_leading (above : 256 ^ size ≤ 256 * (2 * value)) : 2 ^ 15 ≤ leading value size := by
  have whole := pow_size_mul size
  have product := Nat.mul_le_mul_right (256 ^ (3 - size)) above
  rw [← Nat.not_lt, leading_lt_iff, Nat.not_lt]
  linarith

/-- Giving up the last of the leading bytes is the same as making the number one byte longer. -/
theorem leading_div (value size : Nat) : leading value size / 256 = leading value (size + 1) := by
  unfold leading
  rcases Nat.lt_or_ge size 3 with short | long
  · have up : 3 - size = 3 - (size + 1) + 1 := by omega
    have none : size - 3 = 0 := by omega
    have none' : size + 1 - 3 = 0 := by omega
    rw [none, none', up, Nat.pow_zero, Nat.div_one, Nat.div_one, Nat.pow_succ, ← Nat.mul_assoc,
      Nat.mul_div_cancel _ (by norm_num)]
  · have none : 3 - size = 0 := by omega
    have none' : 3 - (size + 1) = 0 := by omega
    have down : size + 1 - 3 = size - 3 + 1 := by omega
    rw [none, none', down, Nat.pow_succ, Nat.div_div_eq_div_mul]

theorem leadingBytes_natCast (value size : Nat) :
    leadingBytes (value : Int) size = (leading value size : Nat) := by
  unfold leadingBytes leading
  simp only [Nat.one_shiftLeft, pow_eight_mul]
  split
  · rename_i short
    rw [Nat.sub_eq_zero_of_le short, Nat.pow_zero, Nat.div_one, Nat.cast_mul]
  · rename_i long
    rw [Nat.sub_eq_zero_of_le (by omega : 3 ≤ size), Nat.pow_zero, Nat.mul_one, Int.natCast_ediv]

/-- A number takes its bytes, and one more where the sign bit is not free in them. -/
theorem signedLength_eq (positive : 0 < value) :
    signedLength value = byteLength value + if 2 * value < 256 ^ byteLength value then 0 else 1 := by
  have lower := pow_byteLength_le positive
  have upper := lt_pow_byteLength value
  obtain ⟨before, length⟩ : ∃ before, byteLength value = before + 1 :=
    Nat.exists_eq_succ_of_ne_zero (Nat.ne_of_gt (byteLength_pos positive))
  rw [length] at lower upper ⊢
  rw [signedLength]
  split
  · rename_i free
    exact byteLength_eq (by rw [Nat.add_sub_cancel] at lower; omega) free
  · rename_i taken
    exact byteLength_eq (Nat.not_lt.mp taken) (by rw [Nat.pow_succ _ (before + 1)]; omega)

theorem hasSign_natCast {mantissa : Nat} (small : mantissa < 2 ^ 24) :
    hasSign (mantissa : Int) = true ↔ 2 ^ 23 ≤ mantissa := by
  rw [hasSign, decide_eq_true_eq]
  omega

/-- The compact form of a number: its length with a sign bit, above the leading bytes of this
length. -/
theorem encode_natCast (positive : 0 < value) :
    encode (value : Int) =
      (signedLength value * 2 ^ 24 + leading value (signedLength value) : Nat) := by
  have nonzero : (value : Int) ≠ 0 := by omega
  have upper := lt_pow_byteLength value
  have three : leading value (byteLength value) < 2 ^ 24 := by
    have whole := pow_size_mul (byteLength value)
    have product := Nat.mul_lt_mul_of_pos_right upper
      (by positivity : 0 < 256 ^ (3 - byteLength value))
    rw [leading_lt_iff]
    omega
  simp only [encode, Int.natAbs_natCast, leadingBytes_natCast, if_neg nonzero,
    hasSign_natCast three, ← Nat.not_lt, leading_lt_half_iff, signedLength_eq positive]
  split
  · have shorter : (leading value (byteLength value) : Int) / 0x100 =
        (leading value (byteLength value + 1) : Nat) := by
      rw [← leading_div]
      rfl
    rw [shorter, join, if_neg (by omega)]
    push_cast
    ring
  · rename_i free
    rw [if_pos (not_not.mp free), join, if_neg (by omega), Nat.add_zero]
    push_cast
    ring

/-- Bits are taken apart into the exponent and the mantissa that they were joined from. -/
theorem parts_of_joined {mantissa : Nat} (small : mantissa < 2 ^ 23) (size : Nat) :
    exponent (size * 2 ^ 24 + mantissa : Nat) = size ∧
      Compact.mantissa (size * 2 ^ 24 + mantissa : Nat) = mantissa ∧
      hasSign (size * 2 ^ 24 + mantissa : Nat) = false := by
  refine ⟨?_, ?_, ?_⟩
  · rw [exponent]
    omega
  · rw [Compact.mantissa]
    omega
  · rw [hasSign, decide_eq_false_iff_not]
    omega

theorem lt_pow_signedLength (value : Nat) : 2 * value < 256 ^ signedLength value :=
  lt_pow_byteLength (2 * value)

theorem pow_signedLength_le (positive : 0 < value) :
    256 ^ signedLength value ≤ 256 * (2 * value) := by
  have lower := pow_byteLength_le (by omega : 0 < 2 * value)
  obtain ⟨before, length⟩ : ∃ before, byteLength (2 * value) = before + 1 :=
    Nat.exists_eq_succ_of_ne_zero (Nat.ne_of_gt (byteLength_pos (by omega)))
  rw [signedLength, length, Nat.pow_succ]
  rw [length, Nat.add_sub_cancel] at lower
  omega

theorem signedLength_le (positive : 0 < value) (small : value < 2 ^ 256) :
    signedLength value ≤ 33 := by
  have lower := pow_byteLength_le (by omega : 0 < 2 * value)
  have wide : 2 * value < 256 ^ 33 := by
    norm_num at small ⊢
    omega
  have short := Nat.lt_of_le_of_lt lower wide
  rw [Nat.pow_lt_pow_iff_right (by norm_num)] at short
  rw [signedLength]
  omega

theorem rounded_le (value : Nat) : rounded value ≤ value := Nat.div_mul_le_self _ _

/-- What is written of a number reads back as the number rounded down. -/
theorem decode_encode_natCast (positive : 0 < value) (small : value < 2 ^ 256) :
    decode (encode (value : Int)) = .ok (rounded value : Nat) := by
  obtain ⟨size, mantissa, unsigned⟩ :=
    parts_of_joined (leading_lt (lt_pow_signedLength value)) (signedLength value)
  rw [encode_natCast positive, decode_eq, size, mantissa, unsigned, if_neg Bool.false_ne_true]
  split
  · rename_i short
    have none : signedLength value - 3 = 0 := by omega
    have fill : (3 - (signedLength value : Int)).toNat = 3 - signedLength value := by omega
    rw [leading, rounded, none, fill, Nat.pow_zero, Nat.div_one, Nat.div_one, Nat.mul_one,
      Nat.mul_div_cancel _ (by positivity)]
  · rename_i long
    have none : 3 - signedLength value = 0 := by omega
    have drop : ((signedLength value : Int) - 3).toNat = signedLength value - 3 := by omega
    have same : leading value (signedLength value) * 256 ^ (signedLength value - 3) =
        rounded value := by
      rw [leading, rounded, none, Nat.pow_zero, Nat.mul_one]
    have within := rounded_le value
    rw [drop, same, if_neg (by omega)]

/-- The compact form of a number fits into the bits of a header, and its sign bit is not set. -/
theorem encode_bounds {target : Int} (nonneg : 0 ≤ target) (small : target < 2 ^ 256) :
    0 ≤ encode target ∧ encode target < 2 ^ 32 ∧ hasSign (encode target) = false := by
  obtain ⟨value, rfl⟩ := Int.eq_ofNat_of_zero_le nonneg
  rcases Nat.eq_zero_or_pos value with rfl | positive
  · have none : encode (0 : Nat) = 0 := rfl
    rw [none]
    exact ⟨le_rfl, by norm_num, rfl⟩
  · have length := signedLength_le positive (by exact_mod_cast small)
    have three := leading_lt (lt_pow_signedLength value)
    have unsigned := (parts_of_joined three (signedLength value)).2.2
    rw [encode_natCast positive]
    refine ⟨Int.natCast_nonneg _, ?_, unsigned⟩
    omega

theorem representable_rounded (positive : 0 < value) (small : value < 2 ^ 256) :
    Representable (rounded value : Nat) := by
  obtain ⟨lower, upper, _⟩ := encode_bounds (Int.natCast_nonneg value) (by exact_mod_cast small)
  exact ⟨encode value, lower, upper, decode_encode_natCast positive small⟩

/-- Rounding passes over no number that bits can denote. A number with a shorter shift
than the compact form is below the smallest mantissa of this form, and any other is a
multiple of its unit. -/
theorem scaled_le_rounded {mantissa shift : Nat} (positive : 0 < value)
    (small : mantissa < 2 ^ 23) (below : mantissa * 256 ^ shift ≤ value) :
    mantissa * 256 ^ shift ≤ rounded value := by
  rw [rounded]
  rcases Nat.lt_or_ge shift (signedLength value - 3) with finer | coarser
  · have none : 3 - signedLength value = 0 := by omega
    have full : 2 ^ 15 ≤ value / 256 ^ (signedLength value - 3) := by
      have kept := le_leading (pow_signedLength_le positive)
      rwa [leading, none, Nat.pow_zero, Nat.mul_one] at kept
    have unit : 256 * 256 ^ shift ≤ 256 ^ (signedLength value - 3) := by
      rw [← Nat.pow_succ']
      exact Nat.pow_le_pow_right (by norm_num) finer
    calc
      mantissa * 256 ^ shift ≤ 2 ^ 23 * 256 ^ shift := Nat.mul_le_mul_right _ small.le
      _ = 2 ^ 15 * (256 * 256 ^ shift) := by ring
      _ ≤ _ := Nat.mul_le_mul full unit
  · obtain ⟨more, rfl⟩ := Nat.exists_eq_add_of_le coarser
    have unit : 0 < 256 ^ (signedLength value - 3) := by positivity
    have split : mantissa * 256 ^ (signedLength value - 3 + more) =
        mantissa * 256 ^ more * 256 ^ (signedLength value - 3) := by
      rw [Nat.pow_add]
      ring
    rw [split] at below ⊢
    exact Nat.mul_le_mul_right _ ((Nat.le_div_iff_mul_le unit).mpr below)

/-- A number that is written and read back is the greatest that bits can denote up to it. -/
theorem isGreatest_decode_encode {target : Int} (nonneg : 0 ≤ target) (small : target < 2 ^ 256) :
    ∃ number, decode (encode target) = .ok number ∧
      IsGreatest {number | Representable number ∧ number ≤ target} number := by
  obtain ⟨value, rfl⟩ := Int.eq_ofNat_of_zero_le nonneg
  rcases Nat.eq_zero_or_pos value with rfl | positive
  · refine ⟨0, rfl, ⟨⟨0, le_rfl, by norm_num, rfl⟩, le_rfl⟩, ?_⟩
    intro other mem
    exact mem.2
  · have small : value < 2 ^ 256 := by exact_mod_cast small
    refine ⟨rounded value, decode_encode_natCast positive small,
      ⟨representable_rounded positive small, Int.ofNat_le.mpr (rounded_le value)⟩, ?_⟩
    rintro other ⟨⟨bits, _, _, decoded⟩, below⟩
    obtain ⟨mantissa, shift, narrow, rfl⟩ := exists_scaled decoded
    exact Int.ofNat_le.mpr (scaled_le_rounded positive narrow (Int.ofNat_le.mp below))

/-- The compact form of a target is the greatest that is not above it: it fits into the bits of a
header without a sign, reads back as the greatest number up to the target that any bits denote, and
so keeps the order of targets and every target that has a compact form of its own. -/
theorem encode_rounds_down (target : Int) (positive : 1 ≤ target) (small : target < 2 ^ 256) :
    0 ≤ encode target ∧ encode target < 2 ^ 32 ∧ hasSign (encode target) = false ∧
      ∃ number, decode (encode target) = .ok number ∧
        IsGreatest {number | Representable number ∧ number ≤ target} number ∧ 0 < number ∧
        (Representable target → number = target) ∧
        ∀ larger, target ≤ larger → larger < 2 ^ 256 →
          ∃ upper, decode (encode larger) = .ok upper ∧ number ≤ upper := by
  obtain ⟨number, decoded, greatest⟩ := isGreatest_decode_encode (by omega) small
  have bounds := encode_bounds (by omega) small
  refine ⟨bounds.1, bounds.2.1, bounds.2.2, number, decoded, greatest, ?_, ?_, ?_⟩
  · exact greatest.2 ⟨representable_one, positive⟩
  · intro representable
    exact le_antisymm greatest.1.2 (greatest.2 ⟨representable, le_rfl⟩)
  · intro larger above within
    obtain ⟨upper, decoded, best⟩ := isGreatest_decode_encode (by omega) within
    refine ⟨upper, decoded, greatest.mono best ?_⟩
    rintro other ⟨representable, below⟩
    exact ⟨representable, le_trans below above⟩

/-- The largest target takes all of its 32 bytes, so its sign bit needs one more. -/
theorem encode_rounds_down_largest :
    (1 : Int) ≤ 2 ^ 256 - 1 ∧ (2 ^ 256 - 1 : Int) < 2 ^ 256 ∧
      encode (2 ^ 256 - 1) = 0x2100FFFF ∧ decode 0x2100FFFF = .ok (0xFFFF * 2 ^ 240) ∧
      IsGreatest {number | Representable number ∧ number ≤ 2 ^ 256 - 1} (0xFFFF * 2 ^ 240) := by
  have written : encode (2 ^ 256 - 1) = 0x2100FFFF := by decide +kernel
  have read : decode 0x2100FFFF = .ok (0xFFFF * 2 ^ 240) := by decide +kernel
  obtain ⟨_, _, _, number, decoded, greatest, _⟩ :=
    encode_rounds_down (2 ^ 256 - 1) (by norm_num) (by norm_num)
  rw [written, read] at decoded
  cases decoded
  exact ⟨by norm_num, by norm_num, written, read, greatest⟩

end HeaderRelay.Compact
