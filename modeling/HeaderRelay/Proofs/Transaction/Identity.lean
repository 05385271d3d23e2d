import Mathlib
import HeaderRelay.Bytes.Lemmas
import HeaderRelay.Proofs.Transaction.Stripping

set_option autoImplicit false

namespace HeaderRelay.Transaction

namespace Count

/-- The count of a number in as few bytes as it needs. -/
def shortest (value : Nat) : Count :=
  if small : value < 0xFD then
    .one (UInt8.ofNat value) (by rw [UInt8.lt_iff_toNat_lt, UInt8.toNat_ofNat']; simp; omega)
  else if value < 2 ^ 16 then .two ⟨Bytes.ofNatLE 2 value, Bytes.length_ofNatLE 2 value⟩
  else if value < 2 ^ 32 then .four ⟨Bytes.ofNatLE 4 value, Bytes.length_ofNatLE 4 value⟩
  else .eight ⟨Bytes.ofNatLE 8 value, Bytes.length_ofNatLE 8 value⟩

theorem value_shortest {value : Nat} (fits : value < 2 ^ 64) : (shortest value).value = value := by
  have read : ∀ width, value < 256 ^ width →
      Bytes.littleEndian (Bytes.ofNatLE width value) = value := by
    intro width below
    rw [Bytes.littleEndian_ofNatLE, Nat.mod_eq_of_lt below]
  unfold shortest
  split_ifs with small two four
  · rw [Count.value, UInt8.toNat_ofNat']
    omega
  · exact read 2 two
  · exact read 4 four
  · exact read 8 fits

/-- Only the count of nothing starts with zero. -/
theorem mark_ne_zero {count : Count} (positive : 0 < count.value) : count.mark ≠ 0x00 := by
  cases count with
  | one byte unmarked =>
    intro zero
    rw [mark] at zero
    rw [value, zero] at positive
    exact absurd positive (lt_irrefl 0)
  | two digits => exact (by decide : (0xFD : UInt8) ≠ 0x00)
  | four digits => exact (by decide : (0xFE : UInt8) ≠ 0x00)
  | eight digits => exact (by decide : (0xFF : UInt8) ≠ 0x00)

end Count

/-- The form with witnesses is marked as such. -/
theorem hasWitness_bytes (form : WitnessForm) : hasWitness form.bytes = true := by
  have version := form.version.length_eq
  have marker : form.bytes[4]? = some 0x00 := by
    rw [WitnessForm.bytes, List.getElem?_append_right version.le, version]
    rfl
  have flag : form.bytes[5]? = some 0x01 := by
    rw [WitnessForm.bytes, List.getElem?_append_right (by omega), version]
    rfl
  have long : 5 < form.bytes.length := (List.getElem?_eq_some_iff.mp flag).1
  simp only [hasWitness, long, marker, flag, decide_true, Bool.and_self]

/-- The form without witnesses has no marker when the transaction spends something. -/
theorem hasWitness_legacy {form : WitnessForm} (spends : form.body.inputs ≠ []) :
    hasWitness form.legacy = false := by
  have version := form.version.length_eq
  have first : form.legacy[4]? = some form.body.inputCount.mark := by
    rw [WitnessForm.legacy, List.getElem?_append_right version.le, version]
    rfl
  have positive : 0 < form.body.inputCount.value := by
    rw [← form.body.length_inputs]
    exact List.length_pos_iff.mpr spends
  have unmarked : ¬ some form.body.inputCount.mark = some 0x00 := fun zero =>
    Count.mark_ne_zero positive (Option.some.inj zero)
  simp only [hasWitness, first, unmarked, decide_false, Bool.and_false, Bool.false_and]

theorem legacyForm_bytes (form : WitnessForm) : legacyForm form.bytes = .ok form.legacy :=
  (legacyForm_eq_ok (hasWitness_bytes form)).mpr ⟨form, rfl, rfl⟩

theorem legacyForm_legacy {form : WitnessForm} (spends : form.body.inputs ≠ []) :
    legacyForm form.legacy = .ok form.legacy := by
  rw [legacyForm, hasWitness_legacy spends, if_neg Bool.false_ne_true]

/-- A list that is short enough to be counted. -/
structure Series (α : Type) where
  items : List α
  fits : items.length < 2 ^ 64
deriving DecidableEq

/-- A byte string with the shortest count before it. -/
def Series.counted (content : Series UInt8) : Counted :=
  ⟨.shortest content.items.length, content.items, (Count.value_shortest content.fits).symm⟩

/-- What an input says, however its script is counted. -/
structure Spending where
  outpoint : SizedBytes 36
  script : Series UInt8
  sequence : SizedBytes 4
deriving DecidableEq

def Spending.input (spending : Spending) : Input :=
  ⟨spending.outpoint, spending.script.counted, spending.sequence⟩

structure Payment where
  amount : SizedBytes 8
  script : Series UInt8
deriving DecidableEq

def Payment.output (payment : Payment) : Output := ⟨payment.amount, payment.script.counted⟩

abbrev Stack := Series (Series UInt8)

def Stack.witness (stack : Stack) : Witness where
  count := .shortest stack.items.length
  items := stack.items.map Series.counted
  length_eq := by rw [List.length_map, Count.value_shortest stack.fits]

/-- What a transaction says, whatever witnesses it. -/
structure Terms where
  version : SizedBytes 4
  inputs : Series Spending
  outputs : Series Payment
  lockTime : SizedBytes 4
deriving DecidableEq

namespace Terms

/-- A stack for each input. -/
structure Witnessing (terms : Terms) where
  ofInputs : List Stack
  length_eq : ofInputs.length = terms.inputs.items.length

def body (terms : Terms) : Body where
  inputCount := .shortest terms.inputs.items.length
  inputs := terms.inputs.items.map Spending.input
  length_inputs := by rw [List.length_map, Count.value_shortest terms.inputs.fits]
  outputCount := .shortest terms.outputs.items.length
  outputs := terms.outputs.items.map Payment.output
  length_outputs := by rw [List.length_map, Count.value_shortest terms.outputs.fits]

def form (terms : Terms) (witnessing : terms.Witnessing) : WitnessForm where
  version := terms.version
  body := terms.body
  witnesses := witnessing.ofInputs.map Stack.witness
  length_witnesses := by
    rw [List.length_map, witnessing.length_eq]
    exact (List.length_map _).symm
  lockTime := terms.lockTime

/-- The terms as they are written with witnesses. -/
def witnessed (terms : Terms) (witnessing : terms.Witnessing) : Bytes :=
  (terms.form witnessing).bytes

/-- The terms as they are written alone. -/
def legacy (terms : Terms) : Bytes :=
  terms.version.bytes ++ (terms.body.bytes ++ terms.lockTime.bytes)

end Terms

/-- Whatever witnesses its inputs, and also without any witness, a transaction that spends something
has the same identifier: the hash of its terms as they are written alone. These are what every way
to write it is stripped to. -/
theorem identifier_eq_of_terms (terms : Terms) (spends : terms.inputs.items ≠ [])
    (first second : terms.Witnessing) :
    ∀ raw ∈ [terms.legacy, terms.witnessed first, terms.witnessed second],
      legacyForm raw = .ok terms.legacy ∧ identifier raw = .ok (doubleSha256 terms.legacy) := by
  have some : (terms.form first).body.inputs ≠ [] := fun none =>
    spends (List.map_eq_nil_iff.mp none)
  have stripped : ∀ raw ∈ [terms.legacy, terms.witnessed first, terms.witnessed second],
      legacyForm raw = .ok terms.legacy := by
    simp only [List.forall_mem_cons, List.not_mem_nil, false_implies, implies_true, and_true]
    exact ⟨legacyForm_legacy some, legacyForm_bytes (terms.form first),
      legacyForm_bytes (terms.form second)⟩
  intro raw mem
  refine ⟨stripped raw mem, ?_⟩
  rw [identifier, stripped raw mem]
  rfl

/-- A byte repeated so often that the number takes three bytes itself. -/
def longRun (byte : UInt8) : Series UInt8 :=
  ⟨List.replicate 253 byte, List.length_replicate.trans_lt (by decide)⟩

/-- Two inputs, of which the first has a long script, and one output. -/
def longScripted : Terms where
  version := ⟨[0x02, 0x00, 0x00, 0x00], rfl⟩
  inputs :=
    ⟨[⟨⟨List.replicate 36 0xAA, rfl⟩, longRun 0x51, .zero 4⟩,
      ⟨⟨List.replicate 36 0xBB, rfl⟩, ⟨[], by decide⟩, ⟨List.replicate 4 0xFF, rfl⟩⟩], by decide⟩
  outputs := ⟨[⟨⟨List.replicate 8 0x10, rfl⟩, ⟨[0x51], by decide⟩⟩], by decide⟩
  lockTime := ⟨[0x09, 0x00, 0x00, 0x00], rfl⟩

def unsigned : longScripted.Witnessing := ⟨[⟨[], by decide⟩, ⟨[], by decide⟩], rfl⟩

/-- Two items, one of them empty, witness the first input, and one the second. -/
def signed : longScripted.Witnessing where
  ofInputs :=
    [⟨[⟨[0x07], by decide⟩, ⟨[], by decide⟩], by decide⟩, ⟨[longRun 0x08], by decide⟩]
  length_eq := rfl

theorem identifier_eq_of_terms_longScripted :
    longScripted.inputs.items ≠ [] ∧
      (longScripted.legacy.drop 41).take 3 = [0xFD, 0xFD, 0x00] ∧
      longScripted.witnessed unsigned ≠ longScripted.witnessed signed ∧
      ∀ raw ∈ [longScripted.legacy, longScripted.witnessed unsigned,
          longScripted.witnessed signed],
        legacyForm raw = .ok longScripted.legacy ∧
          identifier raw = .ok (doubleSha256 longScripted.legacy) := by
  have some : longScripted.inputs.items ≠ [] := List.cons_ne_nil _ _
  refine ⟨some, by decide +kernel, by decide +kernel, ?_⟩
  exact identifier_eq_of_terms longScripted some unsigned signed

/-- Without inputs the count of the outputs is taken for the flag. -/
example : hasWitness (Terms.legacy ⟨.zero 4, ⟨[], by decide⟩,
    ⟨[⟨.zero 8, ⟨[], by decide⟩⟩], by decide⟩, .zero 4⟩) = true := by decide

end HeaderRelay.Transaction
