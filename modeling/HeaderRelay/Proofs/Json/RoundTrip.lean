import Mathlib
import HeaderRelay.Proofs.Json.Tokens

set_option autoImplicit false

namespace HeaderRelay.Json

/-- A value without decimals whose integers have at most so many digits and whose containers nest at
most so deep. -/
inductive Plain (length : Nat) : Nat → Json → Prop
  | null (depth : Nat) : Plain length depth .null
  | bool (depth : Nat) (value : Bool) : Plain length depth (.bool value)
  | integer (depth : Nat) {value : Int} (short : (Text.natural value.natAbs).length ≤ length) :
      Plain length depth (.integer value)
  | string (depth : Nat) (value : String) : Plain length depth (.string value)
  | array {depth : Nat} {items : List Json} (all : ∀ item ∈ items, Plain length depth item) :
      Plain length (depth + 1) (.array items)
  | object {depth : Nat} {members : Members}
      (all : ∀ member ∈ members, Plain length depth member.2) :
      Plain length (depth + 1) (.object members)

/-- Text that starts at once, and not with a closing bracket. -/
def Starts (chars : List Char) : Prop :=
  ∃ c rest, chars = c :: rest ∧ isBlank c = false ∧ c ≠ ']' ∧ c ≠ '}'

variable {limits : Limits} {length depth fuel bound : Nat} {json : Json} {chars rest : List Char}

theorem Starts.append (starts : Starts chars) (rest : List Char) : Starts (chars ++ rest) := by
  obtain ⟨c, tail, rfl, visible⟩ := starts
  exact ⟨c, tail ++ rest, rfl, visible⟩

theorem Starts.skipBlanks (starts : Starts chars) : skipBlanks chars = chars := by
  obtain ⟨c, tail, rfl, visible, _⟩ := starts
  simp [Json.skipBlanks, visible]

theorem starts_writeString (value : String) : Starts (writeString value) :=
  ⟨'"', _, rfl, rfl, by decide, by decide⟩

theorem Plain.starts (plain : Plain length depth json) : Starts (write json) := by
  cases plain with
  | null => exact ⟨'n', _, rfl, rfl, by decide, by decide⟩
  | bool depth value =>
    cases value with
    | true => exact ⟨'t', _, rfl, rfl, by decide, by decide⟩
    | false => exact ⟨'f', _, rfl, rfl, by decide, by decide⟩
  | @integer depth value short =>
    cases value with
    | ofNat n =>
      obtain ⟨c, tail, first, digit⟩ := exists_natural_eq_cons n
      have visible : isBlank c = false := by
        have space : c ≠ ' ' := ne_of_isDigit digit rfl
        have tab : c ≠ '\t' := ne_of_isDigit digit rfl
        have newline : c ≠ '\n' := ne_of_isDigit digit rfl
        have carriage : c ≠ '\r' := ne_of_isDigit digit rfl
        simp [isBlank, space, tab, newline, carriage]
      exact ⟨c, tail, first, visible, ne_of_isDigit digit rfl, ne_of_isDigit digit rfl⟩
    | negSucc n => exact ⟨'-', _, rfl, rfl, by decide, by decide⟩
  | string depth value => exact starts_writeString value
  | array all => exact ⟨'[', _, rfl, rfl, by decide, by decide⟩
  | object all => exact ⟨'{', _, rfl, rfl, by decide, by decide⟩

theorem readValue_array (starts : Starts chars) :
    readValue limits bound (fuel + 1) (depth + 1) ('[' :: chars) =
      (readItems limits bound fuel depth chars).map fun (items, rest) => (.array items, rest) := by
  obtain ⟨c, tail, rfl, visible, notBracket, _⟩ := starts
  simp [readValue, skipBlanks, visible, notBracket]

theorem readValue_object (starts : Starts chars) :
    readValue limits bound (fuel + 1) (depth + 1) ('{' :: chars) =
      (readMembers limits bound fuel depth chars).map fun (members, rest) =>
        (.object members, rest) := by
  obtain ⟨c, tail, rfl, visible, _, notBrace⟩ := starts
  simp [readValue, skipBlanks, visible, notBrace]

theorem readValue_number {c : Char} (number : c.isDigit = true ∨ c = '-') (chars : List Char) :
    readValue limits bound (fuel + 1) depth (c :: chars) = readNumber limits (c :: chars) := by
  have apart : ∀ other : Char, other.isDigit = false → other ≠ '-' → c ≠ other := by
    intro other letter notMinus
    rcases number with digit | minus
    · exact ne_of_isDigit digit letter
    · rw [minus]
      exact notMinus.symm
  have notNull : c ≠ 'n' := apart 'n' rfl (by decide)
  have notTrue : c ≠ 't' := apart 't' rfl (by decide)
  have notFalse : c ≠ 'f' := apart 'f' rfl (by decide)
  have notQuote : c ≠ '"' := apart '"' rfl (by decide)
  have notArray : c ≠ '[' := apart '[' rfl (by decide)
  have notObject : c ≠ '{' := apart '{' rfl (by decide)
  simp [readValue, notNull, notTrue, notFalse, notQuote, notArray, notObject]

theorem readValue_decimal {value : Int}
    (short : (Text.natural value.natAbs).length ≤ limits.length) (ends : EndsNumber rest) :
    readValue limits bound (fuel + 1) depth (Text.decimal value ++ rest) =
      some (.integer value, rest) := by
  have read := readNumber_decimal short ends
  cases value with
  | ofNat n =>
    obtain ⟨c, chars, first, digit⟩ := exists_natural_eq_cons n
    simp only [Text.decimal, first, List.cons_append] at read ⊢
    rw [readValue_number (Or.inl digit), read]
  | negSucc n =>
    simp only [Text.decimal, List.cons_append] at read ⊢
    rw [readValue_number (Or.inr rfl), read]

/-- The text of a value is read back as the value, whatever bounds cover it and whatever follows. -/
def ReadsBack (limits : Limits) (depth : Nat) (json : Json) : Prop :=
  ∀ fuel bound rest, (write json).length < fuel → (write json).length < bound → EndsNumber rest →
    readValue limits bound fuel depth (write json ++ rest) = some (json, rest)

theorem endsNumber_of_mark {c : Char} (mark : c = ',' ∨ c = ']' ∨ c = '}') (rest : List Char) :
    EndsNumber (c :: rest) := by
  intro other first
  cases first
  rcases mark with rfl | rfl | rfl <;> decide

theorem starts_writeItems {item : Json} {items : List Json} (starts : Starts (write item)) :
    Starts (writeItems (item :: items)) := by
  cases items with
  | nil => exact starts
  | cons next items => exact starts.append _

/-- Items are read one after the other, each up to its comma or the bracket. -/
theorem readItems_writeItems (item : Json) (items : List Json) (fuel bound : Nat)
    (starts : ∀ other ∈ item :: items, Starts (write other))
    (reads : ∀ other ∈ item :: items, ReadsBack limits depth other)
    (enough : (writeItems (item :: items)).length + 1 < fuel)
    (covers : (writeItems (item :: items)).length < bound) (rest : List Char) :
    readItems limits bound fuel depth (writeItems (item :: items) ++ ']' :: rest) =
      some (item :: items, rest) := by
  obtain ⟨fuel, rfl⟩ := Nat.exists_eq_add_one_of_ne_zero (show fuel ≠ 0 by omega)
  induction items generalizing item fuel with
  | nil =>
    simp only [writeItems] at enough covers ⊢
    have read := reads item List.mem_cons_self fuel bound (']' :: rest) (by omega) (by omega)
      (endsNumber_of_mark (by simp) rest)
    have closes : skipBlanks (']' :: rest) = ']' :: rest := rfl
    simp only [readItems, read, closes]
  | cons next items ih =>
    simp only [writeItems, List.length_append, List.length_cons] at enough covers
    let later := writeItems (next :: items) ++ ']' :: rest
    have read := reads item List.mem_cons_self fuel bound (',' :: later) (by omega) (by omega)
      (endsNumber_of_mark (by simp) later)
    have comma : skipBlanks (',' :: later) = ',' :: later := rfl
    have first : Starts later :=
      (starts_writeItems (starts next (List.mem_cons_of_mem _ List.mem_cons_self))).append _
    obtain ⟨fuel, rfl⟩ := Nat.exists_eq_add_one_of_ne_zero (show fuel ≠ 0 by omega)
    have remaining := ih next
      (fun other mem => starts other (List.mem_cons_of_mem _ mem))
      (fun other mem => reads other (List.mem_cons_of_mem _ mem)) (by omega) fuel (by omega)
    have whole : writeItems (item :: next :: items) ++ ']' :: rest =
        write item ++ ',' :: later := by
      simp [writeItems, later]
    rw [whole, readItems, read]
    simp only [comma, first.skipBlanks, later, remaining, Option.map_some]

theorem starts_writeMembers (member : String × Json) (members : Members) :
    Starts (writeMembers (member :: members)) := by
  obtain ⟨key, value⟩ := member
  cases members with
  | nil => exact (starts_writeString key).append _
  | cons next members =>
    exact ((starts_writeString key).append _).append _

theorem readMembers_last (key : String) (value : Json) (starts : Starts (write value))
    (reads : ReadsBack limits depth value) (rest : List Char)
    (enough : (write value).length < fuel)
    (covers : (writeString key).length + (write value).length < bound) :
    readMembers limits bound (fuel + 1) depth
      (writeString key ++ ':' :: (write value ++ '}' :: rest)) = some ([(key, value)], rest) := by
  obtain ⟨chars, opens, readKey⟩ :=
    readString_writeString key (':' :: (write value ++ '}' :: rest)) bound (by omega)
  have read := reads fuel bound ('}' :: rest) enough (by omega) (endsNumber_of_mark (by simp) rest)
  have colon : skipBlanks (':' :: (write value ++ '}' :: rest)) =
      ':' :: (write value ++ '}' :: rest) := rfl
  have closes : skipBlanks ('}' :: rest) = '}' :: rest := rfl
  rw [opens, readMembers]
  simp only [readKey, colon, (starts.append _).skipBlanks, read, closes]

theorem readMembers_more (key : String) (value : Json) (starts : Starts (write value))
    (reads : ReadsBack limits depth value) (later : List Char) (startsLater : Starts later)
    (enough : (write value).length < fuel)
    (covers : (writeString key).length + (write value).length < bound) :
    readMembers limits bound (fuel + 1) depth
        (writeString key ++ ':' :: (write value ++ ',' :: later)) =
      (readMembers limits bound fuel depth later).map fun read =>
        ((key, value) :: read.1, read.2) := by
  obtain ⟨chars, opens, readKey⟩ :=
    readString_writeString key (':' :: (write value ++ ',' :: later)) bound (by omega)
  have read := reads fuel bound (',' :: later) enough (by omega)
    (endsNumber_of_mark (by simp) later)
  have colon : skipBlanks (':' :: (write value ++ ',' :: later)) =
      ':' :: (write value ++ ',' :: later) := rfl
  have comma : skipBlanks (',' :: later) = ',' :: later := rfl
  rw [opens, readMembers]
  simp only [readKey, colon, (starts.append _).skipBlanks, read, comma, startsLater.skipBlanks]

/-- Members are read one after the other, each up to its comma or the brace. -/
theorem readMembers_writeMembers (member : String × Json) (members : Members) (fuel bound : Nat)
    (starts : ∀ other ∈ member :: members, Starts (write other.2))
    (reads : ∀ other ∈ member :: members, ReadsBack limits depth other.2)
    (enough : (writeMembers (member :: members)).length + 1 < fuel)
    (covers : (writeMembers (member :: members)).length < bound) (rest : List Char) :
    readMembers limits bound fuel depth (writeMembers (member :: members) ++ '}' :: rest) =
      some (member :: members, rest) := by
  obtain ⟨fuel, rfl⟩ := Nat.exists_eq_add_one_of_ne_zero (show fuel ≠ 0 by omega)
  induction members generalizing member fuel with
  | nil =>
    obtain ⟨key, value⟩ := member
    simp only [writeMembers, List.length_append, List.length_cons] at enough covers
    have whole : writeMembers [(key, value)] ++ '}' :: rest =
        writeString key ++ ':' :: (write value ++ '}' :: rest) := by
      simp [writeMembers]
    rw [whole]
    exact readMembers_last key value (starts _ List.mem_cons_self) (reads _ List.mem_cons_self) rest
      (by omega) (by omega)
  | cons next members ih =>
    obtain ⟨key, value⟩ := member
    simp only [writeMembers, List.length_append, List.length_cons] at enough covers
    let later := writeMembers (next :: members) ++ '}' :: rest
    have second : Starts later := (starts_writeMembers next members).append _
    have whole : writeMembers ((key, value) :: next :: members) ++ '}' :: rest =
        writeString key ++ ':' :: (write value ++ ',' :: later) := by
      simp [writeMembers, later]
    obtain ⟨fuel, rfl⟩ := Nat.exists_eq_add_one_of_ne_zero (show fuel ≠ 0 by omega)
    have remaining := ih next
      (fun other mem => starts other (List.mem_cons_of_mem _ mem))
      (fun other mem => reads other (List.mem_cons_of_mem _ mem)) (by omega) fuel (by omega)
    rw [whole, readMembers_more key value (starts _ List.mem_cons_self)
      (reads _ List.mem_cons_self) later second (by omega) (by omega), remaining]
    rfl

theorem Plain.readsBack (plain : Plain limits.length depth json) : ReadsBack limits depth json := by
  induction plain with
  | null depth =>
    intro fuel bound rest enough covers ends
    obtain ⟨fuel, rfl⟩ := Nat.exists_eq_add_one_of_ne_zero (show fuel ≠ 0 by omega)
    simp [write, readValue]
  | bool depth value =>
    intro fuel bound rest enough covers ends
    obtain ⟨fuel, rfl⟩ := Nat.exists_eq_add_one_of_ne_zero (show fuel ≠ 0 by omega)
    cases value <;> simp [write, readValue]
  | integer depth short =>
    intro fuel bound rest enough covers ends
    obtain ⟨fuel, rfl⟩ := Nat.exists_eq_add_one_of_ne_zero (show fuel ≠ 0 by omega)
    exact readValue_decimal short ends
  | string depth value =>
    intro fuel bound rest enough covers ends
    obtain ⟨fuel, rfl⟩ := Nat.exists_eq_add_one_of_ne_zero (show fuel ≠ 0 by omega)
    obtain ⟨chars, opens, read⟩ := readString_writeString value rest bound covers
    simp only [write, opens, readValue, read, Option.map_some]
  | @array depth items all ih =>
    intro fuel bound rest enough covers ends
    obtain ⟨fuel, rfl⟩ := Nat.exists_eq_add_one_of_ne_zero (show fuel ≠ 0 by omega)
    cases items with
    | nil => simp [write, writeItems, readValue, skipBlanks, isBlank]
    | cons item items =>
      simp only [write, List.length_append, List.length_cons, List.length_nil] at enough covers
      have first : Starts (writeItems (item :: items)) :=
        starts_writeItems (all item List.mem_cons_self).starts
      have read := readItems_writeItems item items fuel bound
        (fun other mem => (all other mem).starts) ih (by omega) (by omega) rest
      have whole : write (.array (item :: items)) ++ rest =
          '[' :: (writeItems (item :: items) ++ ']' :: rest) := by
        simp [write]
      rw [whole, readValue_array (first.append _), read]
      rfl
  | @object depth members all ih =>
    intro fuel bound rest enough covers ends
    obtain ⟨fuel, rfl⟩ := Nat.exists_eq_add_one_of_ne_zero (show fuel ≠ 0 by omega)
    cases members with
    | nil => simp [write, writeMembers, readValue, skipBlanks, isBlank]
    | cons member members =>
      simp only [write, List.length_append, List.length_cons, List.length_nil] at enough covers
      have first := starts_writeMembers member members
      have read := readMembers_writeMembers member members fuel bound
        (fun other mem => (all other mem).starts) ih (by omega) (by omega) rest
      have whole : write (.object (member :: members)) ++ rest =
          '{' :: (writeMembers (member :: members) ++ '}' :: rest) := by
        simp [write]
      rw [whole, readValue_object (first.append _), read]
      rfl

/-- A value within the limits is read back from its canonical text. -/
theorem parseWithin?_text (plain : Plain limits.length limits.depth json) :
    parseWithin? limits json.text = some json := by
  have read := plain.readsBack ((write json).length + 1) ((write json).length + 1) []
    (Nat.lt_succ_self _) (Nat.lt_succ_self _) (by simp [EndsNumber])
  rw [List.append_nil] at read
  simp only [parseWithin?, text, String.toList_ofList, plain.starts.skipBlanks, read]
  rfl

inductive Exact : Json → Prop
  | null : Exact .null
  | bool (value : Bool) : Exact (.bool value)
  | integer (value : Int) : Exact (.integer value)
  | string (value : String) : Exact (.string value)
  | array {items : List Json} (all : ∀ item ∈ items, Exact item) : Exact (.array items)
  | object {members : Members} (all : ∀ member ∈ members, Exact member.2) : Exact (.object members)

theorem Plain.mono {wider deeper : Nat} (plain : Plain length depth json) (wide : length ≤ wider)
    (deep : depth ≤ deeper) : Plain wider deeper json := by
  induction plain generalizing deeper with
  | null depth => exact Plain.null deeper
  | bool depth value => exact Plain.bool deeper value
  | integer depth short => exact Plain.integer deeper (short.trans wide)
  | string depth value => exact Plain.string deeper value
  | array all ih =>
    obtain ⟨inner, rfl⟩ := Nat.exists_eq_add_one_of_ne_zero (show deeper ≠ 0 by omega)
    exact Plain.array fun item mem => ih item mem (by omega)
  | object all ih =>
    obtain ⟨inner, rfl⟩ := Nat.exists_eq_add_one_of_ne_zero (show deeper ≠ 0 by omega)
    exact Plain.object fun member mem => ih member mem (by omega)

/-- Some bound covers several values at once. -/
theorem exists_plain_of_forall {values : List Json}
    (each : ∀ value ∈ values, ∃ bound, Plain bound bound value) :
    ∃ bound, ∀ value ∈ values, Plain bound bound value := by
  induction values with
  | nil => exact ⟨0, List.forall_mem_nil _⟩
  | cons value values ih =>
    obtain ⟨first, plain⟩ := each value List.mem_cons_self
    obtain ⟨rest, plains⟩ := ih fun other mem => each other (List.mem_cons_of_mem _ mem)
    refine ⟨max first rest, List.forall_mem_cons.mpr ⟨?_, ?_⟩⟩
    · exact plain.mono (Nat.le_max_left _ _) (Nat.le_max_left _ _)
    · exact fun other mem =>
        (plains other mem).mono (Nat.le_max_right _ _) (Nat.le_max_right _ _)

/-- Every value without decimals lies within some limits. -/
theorem Exact.exists_plain (precise : Exact json) : ∃ bound, Plain bound bound json := by
  induction precise with
  | null => exact ⟨0, Plain.null 0⟩
  | bool value => exact ⟨0, Plain.bool 0 value⟩
  | integer value => exact ⟨_, Plain.integer _ (Nat.le_refl _)⟩
  | string value => exact ⟨0, Plain.string 0 value⟩
  | array all ih =>
    obtain ⟨bound, plains⟩ := exists_plain_of_forall ih
    exact ⟨bound + 1, Plain.array fun item mem =>
      (plains item mem).mono (Nat.le_succ bound) (Nat.le_refl bound)⟩
  | @object members all ih =>
    have each : ∀ value ∈ members.map Prod.snd, ∃ bound, Plain bound bound value := by
      intro value mem
      obtain ⟨member, there, rfl⟩ := List.mem_map.mp mem
      exact ih member there
    obtain ⟨bound, plains⟩ := exists_plain_of_forall each
    exact ⟨bound + 1, Plain.object fun member mem =>
      (plains member.2 (List.mem_map_of_mem mem)).mono (Nat.le_succ bound) (Nat.le_refl bound)⟩

/-- Values without decimals are told apart by their canonical texts. -/
theorem Exact.eq_of_text_eq {other : Json} (precise : Exact json) (exactToo : Exact other)
    (same : json.text = other.text) : json = other := by
  obtain ⟨bound, plain⟩ := precise.exists_plain
  obtain ⟨boundToo, plainToo⟩ := exactToo.exists_plain
  let wide : Limits := ⟨max bound boundToo, max bound boundToo⟩
  have read : parseWithin? wide json.text = some json :=
    parseWithin?_text (plain.mono (Nat.le_max_left _ _) (Nat.le_max_left _ _))
  have readToo : parseWithin? wide other.text = some other :=
    parseWithin?_text (plainToo.mono (Nat.le_max_right _ _) (Nat.le_max_right _ _))
  rw [same, readToo] at read
  exact (Option.some.inj read).symm

end HeaderRelay.Json
