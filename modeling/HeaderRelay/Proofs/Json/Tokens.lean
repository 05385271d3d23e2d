import Mathlib
import HeaderRelay.Json.Reader
import HeaderRelay.Json.Writer
import HeaderRelay.Proofs.Hex

set_option autoImplicit false

namespace HeaderRelay

namespace Text

theorem isDigit_of_mem_natural {n : Nat} {c : Char} (mem : c ∈ natural n) : c.isDigit = true :=
  Nat.isDigit_of_mem_toDigits (by omega) (by omega) mem

theorem natural_ne_nil (n : Nat) : natural n ≠ [] := Nat.toDigits_ne_nil

/-- Digits are written without leading zeros. -/
theorem head?_natural (n : Nat) (positive : 0 < n) : (natural n).head? ≠ some '0' := by
  induction n using Nat.strongRecOn with
  | ind n ih =>
    unfold natural
    by_cases small : n < 10
    · rw [Nat.toDigits_of_lt_base small]
      intro zero
      have char : n.digitChar = '0' := by simpa using zero
      have value := congrArg Char.toNat char
      rw [Nat.toNat_digitChar_of_lt_ten small] at value
      have code : '0'.toNat = 48 := rfl
      omega
    · have shorter := ih (n / 10) (by omega) (by omega)
      rw [Nat.toDigits_of_base_le (by omega) (by omega), List.head?_append_of_ne_nil]
      · exact shorter
      · exact Nat.toDigits_ne_nil

theorem length_natural_le {n width : Nat} (fits : n < 2 ^ width) (positive : 0 < width) :
    (natural n).length ≤ width := by
  have more : 2 ^ width ≤ 10 ^ width := Nat.pow_le_pow_left (by omega) width
  have below : n < 10 ^ width := by omega
  exact (Nat.length_toDigits_le_iff (by omega) positive).mpr below

end Text

namespace Json

/-- Text that cannot continue a number. -/
def EndsNumber (rest : List Char) : Prop :=
  ∀ c ∈ rest.head?, c.isDigit = false ∧ c ≠ '.' ∧ c ≠ 'e' ∧ c ≠ 'E'

theorem readDigits_append {digits rest : List Char} (nonempty : digits ≠ [])
    (all : ∀ c ∈ digits, c.isDigit = true) (ends : EndsNumber rest) :
    readDigits (digits ++ rest) = some (digits, rest) := by
  have stop : rest.takeWhile Char.isDigit = [] ∧ rest.dropWhile Char.isDigit = rest := by
    cases rest with
    | nil => exact ⟨rfl, rfl⟩
    | cons c rest =>
      have other := (ends c rfl).1
      simp [other]
  have taken : (digits ++ rest).takeWhile Char.isDigit = digits := by
    rw [List.takeWhile_append_of_pos all, stop.1, List.append_nil]
  have left : (digits ++ rest).dropWhile Char.isDigit = rest := by
    rw [List.dropWhile_append_of_pos all, stop.2]
  unfold readDigits
  rw [taken, left]
  cases digits with
  | nil => exact absurd rfl nonempty
  | cons first digits => rfl

theorem readFraction_of_ends {rest : List Char} (ends : EndsNumber rest) :
    readFraction rest = some ([], rest) := by
  unfold readFraction
  split
  · exact absurd rfl (ends '.' rfl).2.1
  · rfl

theorem readExponent_of_ends {rest : List Char} (ends : EndsNumber rest) :
    readExponent rest = some ([], rest) := by
  unfold readExponent
  split
  · exact absurd rfl (ends 'e' rfl).2.2.1
  · exact absurd rfl (ends 'E' rfl).2.2.2
  · rfl

variable {limits : Limits} {rest : List Char}

theorem readMagnitude_natural (negative : Bool) {n : Nat}
    (short : (Text.natural n).length ≤ limits.length) (ends : EndsNumber rest) :
    readMagnitude limits negative (Text.natural n ++ rest) =
      some (.integer (signed negative n), rest) := by
  have digits : readDigits (Text.natural n ++ rest) = some (Text.natural n, rest) :=
    readDigits_append (Text.natural_ne_nil n) (fun c mem => Text.isDigit_of_mem_natural mem) ends
  have leading : ¬((Text.natural n).head? = some '0' ∧ Text.natural n ≠ ['0']) := by
    rintro ⟨zero, longer⟩
    by_cases positive : 0 < n
    · exact Text.head?_natural n positive zero
    · have none : n = 0 := by omega
      subst none
      exact longer rfl
  have inside : ¬ limits.length < (Text.natural n).length := by omega
  simp only [readMagnitude, digits, readFraction_of_ends ends, readExponent_of_ends ends,
    Option.bind_eq_bind, Option.bind_some, if_neg leading, if_neg inside, and_self, if_true,
    Text.naturalValue_natural]

theorem ne_of_isDigit {c other : Char} (digit : c.isDigit = true) (letter : other.isDigit = false) :
    c ≠ other := by
  intro same
  rw [same, letter] at digit
  cases digit

theorem readNumber_of_isDigit {c : Char} (digit : c.isDigit = true) (chars : List Char) :
    readNumber limits (c :: chars) = readMagnitude limits false (c :: chars) := by
  have notN : c ≠ 'N' := ne_of_isDigit digit rfl
  have notI : c ≠ 'I' := ne_of_isDigit digit rfl
  have notMinus : c ≠ '-' := ne_of_isDigit digit rfl
  simp [readNumber, notN, notI, notMinus]

theorem readNumber_minus {c : Char} (digit : c.isDigit = true) (chars : List Char) :
    readNumber limits ('-' :: c :: chars) = readMagnitude limits true (c :: chars) := by
  have notI : c ≠ 'I' := ne_of_isDigit digit rfl
  simp [readNumber, notI]

/-- The digits of a number start with one. -/
theorem exists_natural_eq_cons (n : Nat) :
    ∃ c chars, Text.natural n = c :: chars ∧ c.isDigit = true := by
  cases digits : Text.natural n with
  | nil => exact absurd digits (Text.natural_ne_nil n)
  | cons c chars =>
    have mem : c ∈ Text.natural n := by
      rw [digits]
      exact List.mem_cons_self
    exact ⟨c, chars, rfl, Text.isDigit_of_mem_natural mem⟩

theorem readNumber_decimal {value : Int}
    (short : (Text.natural value.natAbs).length ≤ limits.length) (ends : EndsNumber rest) :
    readNumber limits (Text.decimal value ++ rest) = some (.integer value, rest) := by
  cases value with
  | ofNat n =>
    have read := readMagnitude_natural false short ends
    obtain ⟨c, chars, first, digit⟩ := exists_natural_eq_cons n
    simp only [Int.natAbs_natCast, Int.ofNat_eq_natCast, Text.decimal, first,
      List.cons_append] at read ⊢
    rw [readNumber_of_isDigit digit, read]
    rfl
  | negSucc n =>
    have read := readMagnitude_natural true short ends
    obtain ⟨c, chars, first, digit⟩ := exists_natural_eq_cons (n + 1)
    simp only [Int.natAbs_negSucc, Text.decimal, first, List.cons_append] at read ⊢
    rw [readNumber_minus digit, read]
    rfl

theorem readUnit_low {n : Nat} (small : n < 256) :
    readUnit '0' '0' (Nat.digitChar (n / 16)) (Nat.digitChar (n % 16)) = some n := by
  have high := Hex.digitValue?_digitChar (show n / 16 < 16 by omega)
  have low := Hex.digitValue?_digitChar (show n % 16 < 16 by omega)
  have zero : Hex.digitValue? '0' = some 0 := rfl
  simp only [readUnit, high, low, zero, Option.bind_eq_bind, Option.bind_some, Option.pure_def,
    Option.some.injEq]
  omega

/-- A character stands for itself, or an escape stands for it. -/
theorem escape_cases (c : Char) :
    (escape c = [c] ∧ c ≠ '"' ∧ c ≠ '\\' ∧ ¬ c.toNat < 32) ∨
      ∃ code, escape c = '\\' :: code ∧ ∀ rest, readEscape (code ++ rest) = some (c, rest) := by
  unfold escape
  split_ifs with quote backslash backspace formFeed newline carriage tab control
  · exact Or.inr ⟨['"'], rfl, fun rest => by rw [quote]; rfl⟩
  · exact Or.inr ⟨['\\'], rfl, fun rest => by rw [backslash]; rfl⟩
  · exact Or.inr ⟨['b'], rfl, fun rest => by rw [backspace]; rfl⟩
  · exact Or.inr ⟨['f'], rfl, fun rest => by rw [formFeed]; rfl⟩
  · exact Or.inr ⟨['n'], rfl, fun rest => by rw [newline]; rfl⟩
  · exact Or.inr ⟨['r'], rfl, fun rest => by rw [carriage]; rfl⟩
  · exact Or.inr ⟨['t'], rfl, fun rest => by rw [tab]; rfl⟩
  · refine Or.inr ⟨_, rfl, fun rest => ?_⟩
    have unit := readUnit_low (show c.toNat < 256 by omega)
    have plain : c.toNat < 0xD800 ∨ 0xE000 ≤ c.toNat := Or.inl (by omega)
    simp only [List.cons_append, List.nil_append, readEscape, unit, if_pos plain,
      Char.ofNat_toNat]
  · exact Or.inl ⟨rfl, quote, backslash, control⟩

/-- Escaped characters are read back up to the closing quote. -/
theorem readChars_escape (chars : List Char) (fuel : Nat) (enough : chars.length < fuel)
    (done rest : List Char) :
    readChars fuel done (chars.flatMap escape ++ '"' :: rest) =
      some (done.reverse ++ chars, rest) := by
  induction chars generalizing fuel done with
  | nil =>
    obtain ⟨fuel, rfl⟩ := Nat.exists_eq_add_one_of_ne_zero (show fuel ≠ 0 by omega)
    simp [readChars]
  | cons c chars ih =>
    obtain ⟨fuel, rfl⟩ := Nat.exists_eq_add_one_of_ne_zero (show fuel ≠ 0 by omega)
    have left : chars.length < fuel := by
      simp only [List.length_cons] at enough
      omega
    have onward := ih fuel left (c :: done)
    rw [List.flatMap_cons, List.append_assoc]
    rcases escape_cases c with ⟨itself, notQuote, notBackslash, visible⟩ | ⟨code, escaped, read⟩
    · rw [itself, List.singleton_append, readChars, if_neg notQuote, if_neg notBackslash,
        if_neg visible, onward]
      simp
    · have marks : '\\' ≠ '"' := by decide
      rw [escaped, List.cons_append, readChars, if_neg marks, if_pos rfl, read]
      simp only [onward]
      simp

theorem length_le_flatMap_escape (chars : List Char) :
    chars.length ≤ (chars.flatMap escape).length := by
  induction chars with
  | nil => exact Nat.le_refl 0
  | cons c chars ih =>
    have some : 0 < (escape c).length := by
      rcases escape_cases c with ⟨itself, _⟩ | ⟨code, escaped, _⟩
      · simp [itself]
      · simp [escaped]
    rw [List.flatMap_cons, List.length_append, List.length_cons]
    omega

/-- A string is read back after its opening quote, with a bound above the length of its text. -/
theorem readString_writeString (value : String) (rest : List Char) (bound : Nat)
    (enough : (writeString value).length < bound) :
    ∃ chars, writeString value ++ rest = '"' :: chars ∧
      readString bound chars = some (value, rest) := by
  have length : (writeString value).length = (value.toList.flatMap escape).length + 2 := by
    simp [writeString]
  have shorter := length_le_flatMap_escape value.toList
  refine ⟨value.toList.flatMap escape ++ '"' :: rest, ?_, ?_⟩
  · simp [writeString]
  · have read := readChars_escape value.toList bound (by omega) [] rest
    rw [readString, read]
    simp

end Json

end HeaderRelay
