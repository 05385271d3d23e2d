import Mathlib
import HeaderRelay.Bytes.Sized

set_option autoImplicit false

namespace HeaderRelay

namespace Hex

/-- A hexadecimal digit of either case. -/
def IsDigit (c : Char) : Prop :=
  ('0' ≤ c ∧ c ≤ '9') ∨ ('a' ≤ c ∧ c ≤ 'f') ∨ ('A' ≤ c ∧ c ≤ 'F')

instance (c : Char) : Decidable (IsDigit c) := inferInstanceAs (Decidable (_ ∨ _ ∨ _))

/-- The number for which a digit stands: the place of its lowercase form among the digits. -/
def digitNumber (c : Char) : Nat := "0123456789abcdef".toList.idxOf c.toLower

/-- Characters spell bytes: each byte by two digits, the one of the higher half first. -/
inductive Spells : List Char → Bytes → Prop
  | nil : Spells [] []
  | pair {high low : Char} {byte : UInt8} {chars : List Char} {bytes : Bytes}
      (isHigh : IsDigit high) (isLow : IsDigit low)
      (value : byte.toNat = 16 * digitNumber high + digitNumber low) (rest : Spells chars bytes) :
      Spells (high :: low :: chars) (byte :: bytes)

variable {c : Char} {chars : List Char} {bytes : Bytes}

theorem digitValue?_eq_none_iff : digitValue? c = none ↔ ¬ IsDigit c := by
  unfold digitValue? IsDigit
  split
  · simp_all
  · split
    · simp_all
    · split <;> simp_all

theorem IsDigit.ascii (digit : IsDigit c) : c.toNat < 128 := by
  rcases digit with ⟨_, last⟩ | ⟨_, last⟩ | ⟨_, last⟩ <;>
    exact Nat.lt_of_le_of_lt (UInt32.le_iff_toNat_le.mp last) (by decide)

/-- What is to be known of a digit, checked for all of ASCII. -/
theorem IsDigit.facts (digit : IsDigit c) :
    digitValue? c = some (digitNumber c) ∧ digitNumber c < 16 ∧
      Nat.digitChar (digitNumber c) = c.toLower ∧ isBlank c = false ∧ c ≠ 'x' := by
  have all : ∀ n < 128, IsDigit (Char.ofNat n) →
      digitValue? (Char.ofNat n) = some (digitNumber (Char.ofNat n)) ∧
        digitNumber (Char.ofNat n) < 16 ∧
        Nat.digitChar (digitNumber (Char.ofNat n)) = (Char.ofNat n).toLower ∧
        isBlank (Char.ofNat n) = false ∧ Char.ofNat n ≠ 'x' := by
    decide +kernel
  have here := all c.toNat digit.ascii
  rw [Char.ofNat_toNat] at here
  exact here digit

theorem IsDigit.digitValue?_eq (digit : IsDigit c) : digitValue? c = some (digitNumber c) :=
  digit.facts.1

theorem IsDigit.number_lt (digit : IsDigit c) : digitNumber c < 16 := digit.facts.2.1

theorem IsDigit.digitChar_number (digit : IsDigit c) :
    Nat.digitChar (digitNumber c) = c.toLower :=
  digit.facts.2.2.1

theorem IsDigit.not_blank (digit : IsDigit c) : isBlank c = false := digit.facts.2.2.2.1

theorem IsDigit.ne_mark (digit : IsDigit c) : c ≠ 'x' := digit.facts.2.2.2.2

/-- A digit of either case has the value of its number, and nothing else has a value. -/
theorem digitValue?_eq_some_iff {number : Nat} :
    digitValue? c = some number ↔ IsDigit c ∧ number = digitNumber c := by
  constructor
  · intro valued
    have digit : IsDigit c := by
      by_contra other
      rw [digitValue?_eq_none_iff.mpr other] at valued
      cases valued
    rw [digit.digitValue?_eq] at valued
    exact ⟨digit, (Option.some.inj valued).symm⟩
  · rintro ⟨digit, rfl⟩
    exact digit.digitValue?_eq

namespace Spells

theorem length_eq (spells : Spells chars bytes) : chars.length = 2 * bytes.length := by
  induction spells with
  | nil => rfl
  | pair isHigh isLow value rest ih =>
    simp only [List.length_cons, ih]
    omega

theorem isDigit (spells : Spells chars bytes) : ∀ c ∈ chars, IsDigit c := by
  induction spells with
  | nil => exact List.forall_mem_nil _
  | pair isHigh isLow value rest ih =>
    exact List.forall_mem_cons.mpr ⟨isHigh, List.forall_mem_cons.mpr ⟨isLow, ih⟩⟩

/-- Writing the bytes gives the lowercase form of the digits. -/
theorem encode_eq (spells : Spells chars bytes) : encode bytes = chars.map Char.toLower := by
  induction spells with
  | nil => rfl
  | @pair high low byte chars bytes isHigh isLow value rest ih =>
    have small := isLow.number_lt
    have upper : byte.toNat / 16 = digitNumber high := by omega
    have lower : byte.toNat % 16 = digitNumber low := by omega
    have first : encode (byte :: bytes) = Nat.digitChar (byte.toNat / 16) ::
        Nat.digitChar (byte.toNat % 16) :: encode bytes := rfl
    rw [first, upper, lower, isHigh.digitChar_number, isLow.digitChar_number, ih, List.map_cons,
      List.map_cons]

theorem decodeAt_eq (spells : Spells chars bytes) (position : Nat) :
    decodeAt position chars = .ok bytes := by
  induction spells generalizing position with
  | nil => rfl
  | @pair high low byte chars bytes isHigh isLow value rest ih =>
    have whole : UInt8.ofNat (16 * digitNumber high + digitNumber low) = byte := by
      rw [← value, UInt8.ofNat_toNat]
    simp only [decodeAt, isHigh.not_blank, Bool.false_eq_true, if_false, isHigh.digitValue?_eq,
      isLow.digitValue?_eq, ih, Except.map, whole]

/-- Digits have no marker in front of them. -/
theorem dropMarker_eq (spells : Spells chars bytes) : dropMarker chars = chars := by
  cases spells with
  | nil => rfl
  | pair isHigh isLow value rest =>
    unfold dropMarker
    split
    · rename_i same
      exact absurd (List.cons.inj (List.cons.inj same).2).1 isLow.ne_mark
    · rfl

theorem decode_eq (spells : Spells chars bytes) : decode chars = .ok bytes := by
  have ascii : chars.findIdx? (128 ≤ ·.toNat) = none := by
    rw [List.findIdx?_eq_none_iff]
    intro c mem
    simpa using (spells.isDigit c mem).ascii
  rw [decode, ascii]
  exact spells.decodeAt_eq 0

theorem ofText_eq {source : String} (spells : Spells source.toList bytes) :
    ofText source = .ok bytes := by
  rw [ofText, spells.dropMarker_eq, spells.decode_eq]

end Spells

theorem isDigit_digitChar {d : Nat} (small : d < 16) :
    IsDigit (Nat.digitChar d) ∧ digitNumber (Nat.digitChar d) = d := by
  have all : ∀ d < 16, IsDigit (Nat.digitChar d) ∧ digitNumber (Nat.digitChar d) = d := by
    decide +kernel
  exact all d small

theorem digitValue?_digitChar {d : Nat} (small : d < 16) :
    digitValue? (Nat.digitChar d) = some d := by
  obtain ⟨digit, number⟩ := isDigit_digitChar small
  exact digitValue?_eq_some_iff.mpr ⟨digit, number.symm⟩

theorem spells_encode (bytes : Bytes) : Spells (encode bytes) bytes := by
  induction bytes with
  | nil => exact Spells.nil
  | cons byte rest ih =>
    have bound : byte.toNat < 256 := byte.toNat_lt
    obtain ⟨isHigh, high⟩ := isDigit_digitChar (show byte.toNat / 16 < 16 by omega)
    obtain ⟨isLow, low⟩ := isDigit_digitChar (show byte.toNat % 16 < 16 by omega)
    refine Spells.pair isHigh isLow ?_ ih
    omega

@[simp] theorem length_encode (bytes : Bytes) : (encode bytes).length = 2 * bytes.length :=
  (spells_encode bytes).length_eq

theorem ofText_text (bytes : Bytes) : ofText (text bytes) = .ok bytes := by
  apply Spells.ofText_eq
  rw [text, String.toList_ofList]
  exact spells_encode bytes

/-- Digits in pairs spell some bytes. -/
theorem exists_spells (count : Nat) (chars : List Char) (length : chars.length = 2 * count)
    (digits : ∀ c ∈ chars, IsDigit c) : ∃ bytes, Spells chars bytes := by
  induction count generalizing chars with
  | zero =>
    have empty : chars = [] := List.eq_nil_of_length_eq_zero length
    exact ⟨[], empty ▸ Spells.nil⟩
  | succ count ih =>
    match chars with
    | [] => cases length
    | [c] =>
      simp only [List.length_cons, List.length_nil] at length
      omega
    | high :: low :: rest =>
      obtain ⟨isHigh, later⟩ := List.forall_mem_cons.mp digits
      obtain ⟨isLow, others⟩ := List.forall_mem_cons.mp later
      simp only [List.length_cons] at length
      obtain ⟨bytes, spells⟩ := ih rest (by omega) others
      have smallHigh := isHigh.number_lt
      have smallLow := isLow.number_lt
      refine ⟨UInt8.ofNat (16 * digitNumber high + digitNumber low) :: bytes,
        Spells.pair isHigh isLow ?_ spells⟩
      rw [UInt8.toNat_ofNat', Nat.mod_eq_of_lt (by omega)]

/-- Each byte takes two characters, and blanks come on top. With no more characters than the bytes
take, all of them are digits. -/
theorem spells_of_decodeAt {position : Nat} (decoded : decodeAt position chars = .ok bytes) :
    2 * bytes.length ≤ chars.length ∧ (chars.length = 2 * bytes.length → Spells chars bytes) := by
  induction position, chars using decodeAt.induct generalizing bytes with
  | case1 position =>
    cases decoded
    exact ⟨Nat.le_refl 0, fun _ => Spells.nil⟩
  | case2 position c blank =>
    rw [decodeAt, if_pos blank] at decoded
    cases decoded
    exact ⟨Nat.zero_le 1, fun full => absurd full (by simp)⟩
  | case3 position c visible valued =>
    rw [decodeAt, if_neg visible, if_pos valued] at decoded
    cases decoded
  | case4 position c visible valueless =>
    rw [decodeAt, if_neg visible, if_neg valueless] at decoded
    cases decoded
  | case5 position c d rest blank ih =>
    rw [decodeAt, if_pos blank] at decoded
    have room := (ih decoded).1
    simp only [List.length_cons] at room ⊢
    exact ⟨by omega, fun full => absurd full (by omega)⟩
  | case6 position c d rest visible valueless =>
    simp only [decodeAt, if_neg visible, valueless] at decoded
    cases decoded
  | case7 position c d rest visible high valueless valued =>
    simp only [decodeAt, if_neg visible, valued, valueless] at decoded
    cases decoded
  | case8 position c d rest visible high low lowValued highValued ih =>
    simp only [decodeAt, if_neg visible, highValued, lowValued] at decoded
    cases onward : decodeAt (position + 2) rest with
    | error place =>
      rw [onward] at decoded
      cases decoded
    | ok later =>
      rw [onward] at decoded
      cases decoded
      obtain ⟨room, spells⟩ := ih onward
      obtain ⟨isHigh, rfl⟩ := digitValue?_eq_some_iff.mp highValued
      obtain ⟨isLow, rfl⟩ := digitValue?_eq_some_iff.mp lowValued
      have smallHigh := isHigh.number_lt
      have smallLow := isLow.number_lt
      simp only [List.length_cons]
      refine ⟨by omega, fun full => Spells.pair isHigh isLow ?_ (spells (by omega))⟩
      rw [UInt8.toNat_ofNat', Nat.mod_eq_of_lt (by omega)]

theorem dropMarker_cases (chars : List Char) :
    dropMarker chars = chars ∨ (dropMarker chars).length + 2 = chars.length := by
  unfold dropMarker
  split
  · exact Or.inr rfl
  · exact Or.inl rfl

/-- A text with just the characters that some bytes take is read as these bytes when it spells them:
it has no room for a marker or for blanks. -/
theorem ofText_eq_ok_iff {text : String} (full : text.length = 2 * bytes.length) :
    ofText text = .ok bytes ↔ Spells text.toList bytes := by
  rw [← String.length_toList] at full
  constructor
  · intro read
    have decoded : decodeAt 0 (dropMarker text.toList) = .ok bytes := by
      rw [ofText, decode] at read
      split at read
      · cases read
      · exact read
    obtain ⟨room, spells⟩ := spells_of_decodeAt decoded
    rcases dropMarker_cases text.toList with unmarked | marked
    · rw [unmarked] at spells
      exact spells full
    · omega
  · exact Spells.ofText_eq

end Hex

namespace Digest

theorem length_hex (digest : Digest) : digest.hex.length = 64 := by
  simp [SizedBytes.hex, Hex.text, digest.length_eq]

theorem ofText_eq_ok_iff {text : String} {digest : Digest} :
    Digest.ofText text = .ok digest ↔ Hex.ofText text = .ok digest.bytes := by
  unfold Digest.ofText
  cases Hex.ofText text with
  | error position => simp only [reduceCtorEq]
  | ok bytes =>
    simp only [Digest.ofBytes, Except.ok.injEq]
    constructor
    · intro sized
      split at sized
      · cases sized
        rfl
      · cases sized
    · rintro rfl
      rw [dif_pos digest.length_eq]

theorem ofText_hex (digest : Digest) : Digest.ofText digest.hex = .ok digest :=
  ofText_eq_ok_iff.mpr (Hex.ofText_text digest.bytes)

end Digest

end HeaderRelay
