import Mathlib
import HeaderRelay.Document
import HeaderRelay.Proofs.Document.Ranges
import HeaderRelay.Proofs.Json.Length

set_option autoImplicit false

namespace HeaderRelay

open Json (Short)

variable {α β : Type} {length : Nat}

namespace Checked

theorem map_eq_valid (f : α → β) (checked : Checked α) (value : β) :
    checked.map f = .valid value ↔ ∃ given, checked = .valid given ∧ f given = value := by
  cases checked <;> simp [map]

theorem under_eq_valid (step : Step) (checked : Checked α) (value : α) :
    checked.under step = .valid value ↔ checked = .valid value := by
  cases checked <;> simp [under]

theorem both_eq_valid (first : Checked α) (second : Checked β) (value : α × β) :
    both first second = .valid value ↔
      first = .valid value.1 ∧ second = .valid value.2 := by
  cases first <;> cases second <;> simp [both, Prod.ext_iff]

theorem withFaults_eq_valid (checked : Checked α) (faults : List Fault) (value : α) :
    checked.withFaults faults = .valid value ↔ checked = .valid value ∧ faults = [] := by
  rw [withFaults, map_eq_valid]
  constructor
  · rintro ⟨⟨given, _⟩, joined, rfl⟩
    obtain ⟨first, second⟩ := (both_eq_valid _ _ _).mp joined
    exact ⟨first, ((ofFaults_eq_valid _ _ _).mp second).1⟩
  · rintro ⟨rfl, rfl⟩
    exact ⟨(value, ()), rfl, rfl⟩

end Checked

/-- The items of a list are read one by one. -/
theorem Reader.items_cons_eq_valid (read : Json → Checked α) (position : Nat) (json : Json)
    (rest : List Json) (values : List α) :
    items read position (json :: rest) = .valid values ↔
      ∃ value later, read json = .valid value ∧
        items read (position + 1) rest = .valid later ∧ values = value :: later := by
  have whole : items read position (json :: rest) =
      (Checked.both (((read json).under (.item position)).map List.cons)
        (items read (position + 1) rest)).map fun parts => parts.1 parts.2 := rfl
  rw [whole, Checked.map_eq_valid]
  simp only [Checked.both_eq_valid, Checked.map_eq_valid, Checked.under_eq_valid]
  constructor
  · rintro ⟨⟨_, later⟩, ⟨⟨value, read, rfl⟩, rest⟩, rfl⟩
    exact ⟨value, later, read, rest, rfl⟩
  · rintro ⟨value, later, read, rest, rfl⟩
    exact ⟨(List.cons value, later), ⟨⟨value, read, rfl⟩, rest⟩, rfl⟩

namespace Reader

/-- Whatever a reader gives for a document of short integers is good. -/
def Gives (length : Nat) (read : Json → Checked α) (Good : α → Prop) : Prop :=
  ∀ json value, Short length json → read json = .valid value → Good value

theorem gives_any (read : Json → Checked α) : Gives length read fun _ => True :=
  fun _ _ _ _ => trivial

theorem gives_integer (flaw? : Int → Option Flaw) :
    Gives length (integer flaw?) fun value =>
      flaw? value = none ∧ value.natAbs < 10 ^ length := by
  intro json value short read
  unfold integer at read
  split at read
  · split at read
    · rename_i flawless
      cases read
      cases short with
      | integer below => exact ⟨flawless, below⟩
    · cases read
  · cases read

theorem gives_unsigned (width : Nat) : Gives length (unsigned width) (Unsigned width) :=
  fun json value short read =>
    (unsignedFlaw?_eq_none_iff width value).mp (gives_integer _ json value short read).1

theorem gives_natural :
    Gives length natural fun value => 0 ≤ value ∧ value.natAbs < 10 ^ length :=
  fun json value short read =>
    (gives_integer _ json value short read).imp_left (naturalFlaw?_eq_none_iff value).mp

variable {read : Json → Checked α} {Good : α → Prop}

theorem gives_items (gives : Gives length read Good) {jsons : List Json} {values : List α}
    (position : Nat) (short : ∀ json ∈ jsons, Short length json)
    (given : items read position jsons = .valid values) : ∀ value ∈ values, Good value := by
  induction jsons generalizing position values with
  | nil =>
    cases given
    exact List.forall_mem_nil _
  | cons json rest ih =>
    obtain ⟨first, later⟩ := List.forall_mem_cons.mp short
    obtain ⟨value, others, here, more, rfl⟩ := (items_cons_eq_valid ..).mp given
    exact List.forall_mem_cons.mpr ⟨gives json value first here, ih _ later more⟩

theorem gives_list (gives : Gives length read Good) :
    Gives length (list read) fun values => ∀ value ∈ values, Good value := by
  intro json values short given
  cases short with
  | array short => exact gives_items gives 0 short given
  | _ => cases given

theorem gives_nonempty (gives : Gives length read Good) :
    Gives length (nonempty read) fun values => ∀ value ∈ values.1 :: values.2, Good value := by
  intro json values short given
  cases short with
  | array short =>
    simp only [nonempty] at given
    split at given
    · rename_i all
      cases given
      exact gives_items gives 0 short ((Checked.withFaults_eq_valid _ _ _).mp all).1
    · cases given
    · cases given
  | _ => cases given

theorem Gives.ensure (gives : Gives length read Good) (objection? : α → Option String) :
    Gives length (fun json => (read json).ensure objection?) fun value =>
      Good value ∧ objection? value = none := by
  intro json value short given
  obtain ⟨read, sound⟩ := (Checked.ensure_eq_valid _ _ _).mp given
  exact ⟨gives json value short read, sound⟩

theorem Gives.imp {Better : α → Prop} (gives : Gives length read Good)
    (better : ∀ value, Good value → Better value) : Gives length read Better :=
  fun json value short given => better value (gives json value short given)

end Reader

namespace Fields

/-- Whatever fields give for an object of short integers is good. -/
def Gives (length : Nat) (fields : Fields α) (Good : α → Prop) : Prop :=
  ∀ members value, (∀ member ∈ members, Short length member.2) →
    fields.read members = .valid value → Good value

theorem short_of_find? {members : Json.Members} {name : String} {json : Json}
    (short : ∀ member ∈ members, Short length member.2)
    (found : Json.find? members name = some json) : Short length json := by
  obtain ⟨member, first, rfl⟩ := Option.map_eq_some_iff.mp found
  exact short member (List.mem_reverse.mp (List.mem_of_find?_eq_some first))

theorem short_of_label {members : Json.Members} {label : Label} {key : String} {json : Json}
    (short : ∀ member ∈ members, Short length member.2)
    (found : label.find? members = some (key, json)) : Short length json := by
  unfold Label.find? at found
  split at found
  · rename_i value here
    cases found
    exact short_of_find? short here
  · obtain ⟨value, there, same⟩ := Option.map_eq_some_iff.mp found
    cases same
    exact short_of_find? short there

variable {fields : Fields α} {Good : α → Prop} {reader : Json → Checked α}

theorem Gives.required {label : Label} (gives : Reader.Gives length reader Good) :
    Gives length (required label reader) Good := by
  intro members value short given
  simp only [Fields.required] at given
  split at given
  · rename_i key json found
    exact gives json value (short_of_label short found) ((Checked.under_eq_valid _ _ _).mp given)
  · cases given

theorem Gives.optional {label : Label} {default : α} (gives : Reader.Gives length reader Good)
    (good : Good default) : Gives length (optional label default reader) Good := by
  intro members value short given
  simp only [Fields.optional] at given
  split at given
  · rename_i key json found
    exact gives json value (short_of_label short found) ((Checked.under_eq_valid _ _ _).mp given)
  · cases given
    exact good

theorem Gives.map {f : α → β} {Better : β → Prop} (gives : Gives length fields Good)
    (better : ∀ value, Good value → Better (f value)) : Gives length (f <$> fields) Better := by
  intro members value short given
  obtain ⟨first, read, rfl⟩ := (Checked.map_eq_valid _ _ _).mp given
  exact better first (gives members first short read)

/-- Fields after others complete what the others ask of them. -/
theorem Gives.seq {first : Fields (α → β)} {Better : β → Prop} (more : Gives length fields Good)
    (gives : Gives length first fun f => ∀ value, Good value → Better (f value)) :
    Gives length (first <*> fields) Better := by
  intro members value short given
  have whole : (first <*> fields).read members =
      (Checked.both (first.read members) (fields.read members)).map fun parts =>
        parts.1 parts.2 := rfl
  rw [whole, Checked.map_eq_valid] at given
  obtain ⟨⟨f, last⟩, read, rfl⟩ := given
  obtain ⟨readFirst, readLast⟩ := (Checked.both_eq_valid _ _ _).mp read
  exact gives members f short readFirst last (more members last short readLast)

theorem Gives.readObject (gives : Gives length fields Good) :
    Reader.Gives length fields.readObject Good := by
  intro json value short given
  cases short with
  | object short =>
    exact gives _ value short ((Checked.withFaults_eq_valid _ _ _).mp given).1
  | _ => cases given

end Fields

/-- What is decoded from a text is what the reader of its documents gives for short integers. -/
theorem Document.of_decode [Document α] {Good : α → Prop}
    (gives : Reader.Gives limits.length (ofJson : Json → Checked α) Good) {text : String}
    {value : α} (decoded : decode text = .valid value) : Good value := by
  unfold decode at decoded
  split at decoded
  · rename_i json parsed
    exact gives json value (Json.short_of_parseWithin? parsed) decoded
  · cases decoded

end HeaderRelay
