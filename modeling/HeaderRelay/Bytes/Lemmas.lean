import Mathlib
import HeaderRelay.Bytes

set_option autoImplicit false

namespace HeaderRelay.Bytes

/-- Writing and reading back keeps what fits into the width. -/
theorem littleEndian_ofNatLE (width value : Nat) :
    littleEndian (ofNatLE width value) = value % 256 ^ width := by
  induction width generalizing value with
  | zero => simp only [ofNatLE, littleEndian, Nat.pow_zero, Nat.mod_one]
  | succ width ih =>
    have low : (UInt8.ofNat value).toNat = value % 256 := UInt8.toNat_ofNat'
    rw [ofNatLE, littleEndian, ih, low, Nat.pow_succ, Nat.mul_comm (256 ^ width), Nat.mod_mul]

/-- Bytes denote a number below 256 to the power of their count. -/
theorem littleEndian_lt (bytes : Bytes) : littleEndian bytes < 256 ^ bytes.length := by
  induction bytes with
  | nil => simp only [littleEndian, List.length_nil, Nat.pow_zero, Nat.lt_one_iff]
  | cons byte rest ih =>
    have low := byte.toNat_lt
    rw [littleEndian, List.length_cons, Nat.pow_succ]
    omega

theorem ofNatLE_littleEndian (bytes : Bytes) :
    ofNatLE bytes.length (littleEndian bytes) = bytes := by
  induction bytes with
  | nil => rfl
  | cons byte rest ih =>
    have low := byte.toNat_lt
    have high : (byte.toNat + 256 * littleEndian rest) / 256 = littleEndian rest := by omega
    have same : UInt8.ofNat (byte.toNat + 256 * littleEndian rest) = byte := by
      apply UInt8.toNat_inj.mp
      rw [UInt8.toNat_ofNat']
      omega
    rw [littleEndian, List.length_cons, ofNatLE, high, ih, same]

end HeaderRelay.Bytes
