import Mathlib
import HeaderRelay.Json.Reader

set_option autoImplicit false

namespace HeaderRelay

theorem Text.naturalValue_lt {digits : List Char} (all : ∀ c ∈ digits, c.isDigit = true) :
    naturalValue digits < 10 ^ digits.length := by
  induction digits using List.reverseRecOn with
  | nil => exact Nat.one_pos
  | append_singleton digits c ih =>
    have front := ih fun other mem => all other (List.mem_append_left _ mem)
    have last := all c (List.mem_append_right _ List.mem_cons_self)
    have digit : c.toNat ≤ '9'.toNat := by
      simp only [Char.isDigit, Bool.and_eq_true, decide_eq_true_eq] at last
      exact last.2
    have nine : '9'.toNat = 57 := rfl
    have zero : '0'.toNat = 48 := rfl
    have value : naturalValue (digits ++ [c]) = 10 * naturalValue digits + (c.toNat - '0'.toNat) :=
      Nat.ofDigitChars_append 0
    rw [value, List.length_append, List.length_singleton, Nat.pow_succ]
    omega

namespace Json

inductive Short (length : Nat) : Json → Prop
  | null : Short length .null
  | bool (value : Bool) : Short length (.bool value)
  | integer {value : Int} (below : value.natAbs < 10 ^ length) : Short length (.integer value)
  | decimal (text : String) : Short length (.decimal text)
  | string (value : String) : Short length (.string value)
  | array {items : List Json} (all : ∀ item ∈ items, Short length item) :
      Short length (.array items)
  | object {members : Members} (all : ∀ member ∈ members, Short length member.2) :
      Short length (.object members)

variable {limits : Limits} {bound fuel depth : Nat} {chars rest : List Char} {json : Json}

theorem isDigit_of_readDigits {digits : List Char} (read : readDigits chars = some (digits, rest)) :
    ∀ c ∈ digits, c.isDigit = true := by
  unfold readDigits at read
  split at read
  · cases read
  · cases read
    intro c mem
    exact List.mem_takeWhile_imp mem

theorem short_of_readMagnitude {negative : Bool}
    (read : readMagnitude limits negative chars = some (json, rest)) :
    Short limits.length json := by
  simp only [readMagnitude, Option.bind_eq_bind, Option.bind_eq_some_iff, Prod.exists] at read
  obtain ⟨digits, _, digitsRead, fraction, _, _, exponent, _, _, read⟩ := read
  split at read
  · cases read
  · split at read
    · cases read
    · rename_i inside
      split at read
      · cases read
        refine Short.integer ?_
        have value := Text.naturalValue_lt (isDigit_of_readDigits digitsRead)
        have more : 10 ^ digits.length ≤ 10 ^ limits.length :=
          Nat.pow_le_pow_right (by omega) (by omega)
        have magnitude : (signed negative (Text.naturalValue digits)).natAbs =
            Text.naturalValue digits := by
          cases negative <;> simp [signed]
        omega
      · cases read
        exact Short.decimal _

theorem short_of_readNumber (read : readNumber limits chars = some (json, rest)) :
    Short limits.length json := by
  unfold readNumber at read
  split at read
  · cases read
    exact Short.decimal _
  · cases read
    exact Short.decimal _
  · cases read
    exact Short.decimal _
  · exact short_of_readMagnitude read
  · exact short_of_readMagnitude read

/-- What some fuel suffices to read is short. -/
def ReadsShort (limits : Limits) (bound fuel : Nat) : Prop :=
  (∀ depth chars json rest,
    readValue limits bound fuel depth chars = some (json, rest) → Short limits.length json) ∧
  (∀ depth chars items rest,
    readItems limits bound fuel depth chars = some (items, rest) →
      ∀ item ∈ items, Short limits.length item) ∧
  ∀ depth chars members rest,
    readMembers limits bound fuel depth chars = some (members, rest) →
      ∀ member ∈ members, Short limits.length member.2

theorem short_of_readValue_succ (before : ReadsShort limits bound fuel)
    (read : readValue limits bound (fuel + 1) depth chars = some (json, rest)) :
    Short limits.length json := by
  obtain ⟨_, items, members⟩ := before
  unfold readValue at read
  split at read
  · cases read
    exact Short.null
  · cases read
    exact Short.bool true
  · cases read
    exact Short.bool false
  · obtain ⟨_, _, same⟩ := Option.map_eq_some_iff.mp read
    cases same
    exact Short.string _
  · split at read
    · cases read
      exact Short.array (List.forall_mem_nil _)
    · split at read
      · cases read
      · obtain ⟨_, inner, same⟩ := Option.map_eq_some_iff.mp read
        cases same
        exact Short.array (items _ _ _ _ inner)
  · split at read
    · cases read
      exact Short.object (List.forall_mem_nil _)
    · split at read
      · cases read
      · obtain ⟨_, inner, same⟩ := Option.map_eq_some_iff.mp read
        cases same
        exact Short.object (members _ _ _ _ inner)
  · exact short_of_readNumber read

theorem short_of_readItems_succ {items : List Json} (before : ReadsShort limits bound fuel)
    (read : readItems limits bound (fuel + 1) depth chars = some (items, rest)) :
    ∀ item ∈ items, Short limits.length item := by
  obtain ⟨value, more, _⟩ := before
  unfold readItems at read
  split at read
  · cases read
  · rename_i item _ first
    have short := value _ _ _ _ first
    split at read
    · cases read
      exact List.forall_mem_singleton.mpr short
    · obtain ⟨_, later, same⟩ := Option.map_eq_some_iff.mp read
      cases same
      exact List.forall_mem_cons.mpr ⟨short, more _ _ _ _ later⟩
    · cases read

theorem short_of_readMembers_succ {members : Members} (before : ReadsShort limits bound fuel)
    (read : readMembers limits bound (fuel + 1) depth chars = some (members, rest)) :
    ∀ member ∈ members, Short limits.length member.2 := by
  obtain ⟨value, _, more⟩ := before
  unfold readMembers at read
  split at read
  · split at read
    · cases read
    · split at read
      · split at read
        · cases read
        · rename_i first
          have short := value _ _ _ _ first
          split at read
          · cases read
            exact List.forall_mem_singleton.mpr short
          · obtain ⟨_, later, same⟩ := Option.map_eq_some_iff.mp read
            cases same
            exact List.forall_mem_cons.mpr ⟨short, more _ _ _ _ later⟩
          · cases read
      · cases read
  · cases read

theorem readsShort (limits : Limits) (bound fuel : Nat) : ReadsShort limits bound fuel := by
  induction fuel with
  | zero =>
    refine ⟨?_, ?_, ?_⟩
    · intro depth chars json rest read
      simp [readValue] at read
    · intro depth chars items rest read
      simp [readItems] at read
    · intro depth chars members rest read
      simp [readMembers] at read
  | succ fuel ih =>
    exact ⟨fun _ _ _ _ => short_of_readValue_succ ih, fun _ _ _ _ => short_of_readItems_succ ih,
      fun _ _ _ _ => short_of_readMembers_succ ih⟩

/-- A value that is read within limits holds no integers that are longer. -/
theorem short_of_parseWithin? {text : String} (read : parseWithin? limits text = some json) :
    Short limits.length json := by
  unfold parseWithin? at read
  simp only at read
  split at read
  · rename_i inner
    split at read
    · cases read
      exact (readsShort limits _ _).1 _ _ _ _ inner
    · cases read
  · cases read

end Json

end HeaderRelay
