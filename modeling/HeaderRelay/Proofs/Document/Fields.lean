import Mathlib
import HeaderRelay.Document
import HeaderRelay.Proofs.Document.Ranges
import HeaderRelay.Proofs.Hex

set_option autoImplicit false

namespace HeaderRelay

variable {α β : Type}

namespace Checked

@[simp] theorem map_valid (f : α → β) (value : α) : (valid value).map f = .valid (f value) := rfl

@[simp] theorem under_valid (step : Step) (value : α) :
    (valid value).under step = .valid value := rfl

@[simp] theorem withFaults_nil (value : α) : (valid value).withFaults [] = .valid value := rfl

end Checked

namespace Reader

theorem digest_toJson (digest : Digest) : Reader.digest digest.toJson = .valid digest := by
  have length := digest.length_hex
  have notShort : ¬ digest.hex.length < 64 := by omega
  have notLong : ¬ 64 < digest.hex.length := by omega
  simp only [Digest.toJson, Reader.digest, if_neg notShort, if_neg notLong, digest.ofText_hex]

theorem optionalDigest_toJson (digest : Digest) :
    optionalDigest digest.toJson = .valid (some digest) := by
  have read := digest_toJson digest
  simp only [Digest.toJson] at read ⊢
  simp only [optionalDigest, read, Checked.map_valid]

theorem unsigned_integer {width : Nat} {value : Int} (fits : Unsigned width value) :
    unsigned width (.integer value) = .valid value := by
  rw [unsigned, integer, (unsignedFlaw?_eq_none_iff width value).mpr fits]

theorem natural_integer {value : Int} (nonneg : 0 ≤ value) :
    natural (.integer value) = .valid value := by
  rw [natural, integer, (naturalFlaw?_eq_none_iff value).mpr nonneg]

variable {read : Json → Checked α} {write : α → Json} {values : List α}

theorem items_map (position : Nat) (reads : ∀ value ∈ values, read (write value) = .valid value) :
    items read position (values.map write) = .valid values := by
  induction values generalizing position with
  | nil => rfl
  | cons value values ih =>
    have first := reads value List.mem_cons_self
    have rest := ih (position + 1) fun other mem => reads other (List.mem_cons_of_mem _ mem)
    rw [List.map_cons, items, first, rest]
    rfl

theorem list_map (reads : ∀ value ∈ values, read (write value) = .valid value) :
    list read (.array (values.map write)) = .valid values :=
  items_map 0 reads

theorem nonempty_map {value : α}
    (reads : ∀ other ∈ value :: values, read (write other) = .valid other) :
    nonempty read (.array ((value :: values).map write)) = .valid (value, values) := by
  have all := items_map 0 reads
  have first := reads value List.mem_cons_self
  have enough : ((value :: values).map write).all (fun json => !(read json).isValid) = false := by
    simp [first, Checked.isValid, Checked.toOption]
  simp only [nonempty, all, enough, Bool.false_eq_true, if_false, Checked.withFaults_nil]

theorem list_integers {width : Nat} {values : List Int}
    (fit : ∀ value ∈ values, Unsigned width value) :
    list (unsigned width) (integersToJson values) = .valid values :=
  list_map fun value mem => unsigned_integer (fit value mem)

end Reader

namespace Fields

variable {fields : Fields α} {members : Json.Members} {value : α}

theorem read_map (f : α → β) (reads : fields.read members = .valid value) :
    (f <$> fields).read members = .valid (f value) :=
  congrArg (Checked.map f) reads

theorem read_seq {first : Fields (α → β)} {f : α → β} (readsFirst : first.read members = .valid f)
    (reads : fields.read members = .valid value) :
    (first <*> fields).read members = .valid (f value) := by
  have whole : (first <*> fields).read members =
      (Checked.both (first.read members) (fields.read members)).map fun parts =>
        parts.1 parts.2 := rfl
  rw [whole, readsFirst, reads]
  rfl

theorem read_required {label : Label} {reader : Json → Checked α} {json : Json}
    (found : Json.find? members label.key = some json) (reads : reader json = .valid value) :
    (required label reader).read members = .valid value := by
  simp only [required, Label.find?, found, reads, Checked.under_valid]

theorem read_optional {label : Label} {default : α} {reader : Json → Checked α} {json : Json}
    (found : Json.find? members label.key = some json) (reads : reader json = .valid value) :
    (optional label default reader).read members = .valid value := by
  simp only [optional, Label.find?, found, reads, Checked.under_valid]

theorem unexpectedFaults_eq_nil {labels : List Label}
    (keys : members.map Prod.fst = labels.map Label.key) :
    unexpectedFaults labels members = [] := by
  have none : (members.map Prod.fst).filter (fun key =>
      !labels.any fun label => label.claims members key) = [] := by
    rw [List.filter_eq_nil_iff, keys]
    intro key mem stray
    obtain ⟨label, there, rfl⟩ := List.mem_map.mp mem
    have claimed : (labels.any fun other => other.claims members label.key) = true := by
      rw [List.any_eq_true]
      exact ⟨label, there, by simp [Label.claims]⟩
    rw [claimed] at stray
    cases stray
  simp only [unexpectedFaults, none]
  rfl

/-- An object that has the keys of its fields and nothing else is what its fields are. -/
theorem readObject_eq_valid (reads : fields.read members = .valid value)
    (keys : members.map Prod.fst = fields.labels.map Label.key) :
    fields.readObject (.object members) = .valid value := by
  rw [readObject, reads, unexpectedFaults_eq_nil keys, Checked.withFaults_nil]

end Fields

end HeaderRelay
