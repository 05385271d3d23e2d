import Mathlib
import HeaderRelay.Proofs.Document.Fields

set_option autoImplicit false

namespace HeaderRelay

open Hex (Spells)

namespace Reader

/-- A text is read as a digest exactly when it spells the bytes of the digest. -/
theorem digest_string_eq_valid {text : String} {digest : Digest} :
    Reader.digest (.string text) = .valid digest ↔ Spells text.toList digest.bytes := by
  by_cases full : text.length = 2 * digest.bytes.length
  · have length : text.length = 64 := by rw [full, digest.length_eq]
    rw [← Hex.ofText_eq_ok_iff full, ← Digest.ofText_eq_ok_iff]
    simp only [Reader.digest, length, Nat.lt_irrefl, if_false]
    cases Digest.ofText text with
    | error cause => simp only [Checked.flawed, reduceCtorEq]
    | ok made => simp only [Checked.valid.injEq, Except.ok.injEq]
  · constructor
    · intro read
      have length : ¬ text.length = 64 := by rwa [digest.length_eq] at full
      simp only [Reader.digest] at read
      split at read
      · cases read
      · split at read
        · cases read
        · omega
    · intro spells
      exact absurd (String.length_toList.symm.trans spells.length_eq) full

/-- A hash in a document is exactly sixty-four hexadecimal digits of either case. Its bytes are the
pairs of digits in order, and it is written back as the lowercase form of the text. In particular a
text with a marker in front, with a blank or with a character outside ASCII is no hash, although
some of these can be read as hexadecimal text. -/
theorem digest_string_iff_digits (text : String) :
    ((∃ digest, Reader.digest (.string text) = .valid digest) ↔
        text.length = 64 ∧ ∀ c ∈ text.toList, Hex.IsDigit c) ∧
      (∀ digest, Reader.digest (.string text) = .valid digest →
        Spells text.toList digest.bytes ∧ digest.toJson = .string text.toLower) ∧
      (['0', 'x'] <+: text.toList ∨
          (∃ c ∈ text.toList, Hex.isBlank c = true ∨ 128 ≤ c.toNat) →
        ∀ digest, Reader.digest (.string text) ≠ .valid digest) := by
  simp only [digest_string_eq_valid]
  refine ⟨⟨?_, ?_⟩, ?_, ?_⟩
  · rintro ⟨digest, spells⟩
    have length := spells.length_eq
    rw [String.length_toList, digest.length_eq] at length
    exact ⟨length, spells.isDigit⟩
  · rintro ⟨length, digits⟩
    rw [← String.length_toList] at length
    obtain ⟨bytes, spells⟩ := Hex.exists_spells 32 text.toList length digits
    have sized : bytes.length = 32 := by
      have twice := spells.length_eq
      omega
    exact ⟨⟨bytes, sized⟩, spells⟩
  · intro digest spells
    refine ⟨spells, ?_⟩
    rw [Digest.toJson, SizedBytes.hex, Hex.text, spells.encode_eq, String.toLower,
      ← String.toList_map, String.ofList_toList]
  · intro strange digest read
    have spells := digest_string_eq_valid.mp read
    rcases strange with ⟨rest, marked⟩ | ⟨c, mem, blank | wide⟩
    · have mark : 'x' ∈ text.toList := by
        rw [← marked]
        simp
      exact (spells.isDigit 'x' mark).ne_mark rfl
    · have digit := spells.isDigit c mem
      rw [digit.not_blank] at blank
      exact Bool.false_ne_true blank
    · have digit := spells.isDigit c mem
      exact absurd digit.ascii (by omega)

def mixedCase : List Char := (List.replicate 32 ['a', 'F']).flatten

/-- As many characters, the first two of which are a marker. -/
def marked : List Char := '0' :: 'x' :: List.replicate 62 '0'

theorem digest_string_iff_digits_mixedCase :
    let text := String.ofList mixedCase
    let other := String.ofList marked
    (∃ digest, Reader.digest (.string text) = .valid digest ∧
      Spells text.toList digest.bytes ∧ digest.toJson = .string text.toLower) ∧
      other.length = 64 ∧ ['0', 'x'] <+: other.toList ∧
      ∀ digest, Reader.digest (.string other) ≠ .valid digest := by
  intro text other
  have digits : text.length = 64 ∧ ∀ c ∈ text.toList, Hex.IsDigit c := by
    rw [String.length_ofList, String.toList_ofList]
    refine ⟨by decide, fun c mem => ?_⟩
    obtain ⟨pair, there, within⟩ := List.mem_flatten.mp mem
    rw [List.eq_of_mem_replicate there] at within
    rcases List.mem_pair.mp within with rfl | rfl
    · decide
    · decide
  have long : other.length = 64 := by
    rw [String.length_ofList]
    decide
  have first : ['0', 'x'] <+: other.toList := by
    rw [String.toList_ofList]
    exact List.prefix_append ['0', 'x'] _
  obtain ⟨accepted, written, _⟩ := digest_string_iff_digits text
  obtain ⟨digest, read⟩ := accepted.mpr digits
  obtain ⟨spells, lowercase⟩ := written digest read
  exact ⟨⟨digest, read, spells, lowercase⟩, long, first,
    (digest_string_iff_digits other).2.2 (Or.inl first)⟩

end Reader

end HeaderRelay
