import Mathlib
import HeaderRelay.Transaction

set_option autoImplicit false

namespace HeaderRelay.Transaction

/-- A count as it is written: in one byte, or after a mark in two, four or eight. It may take more
bytes than its number needs. -/
inductive Count where
  | one (byte : UInt8) (unmarked : byte < 0xFD)
  | two (digits : SizedBytes 2)
  | four (digits : SizedBytes 4)
  | eight (digits : SizedBytes 8)
deriving DecidableEq

namespace Count

def mark : Count → UInt8
  | one byte _ => byte
  | two _ => 0xFD
  | four _ => 0xFE
  | eight _ => 0xFF

def digits : Count → Bytes
  | one _ _ => []
  | two digits => digits.bytes
  | four digits => digits.bytes
  | eight digits => digits.bytes

def bytes (count : Count) : Bytes := count.mark :: count.digits

def value : Count → Nat
  | one byte _ => byte.toNat
  | two digits => Bytes.littleEndian digits.bytes
  | four digits => Bytes.littleEndian digits.bytes
  | eight digits => Bytes.littleEndian digits.bytes

end Count

/-- A byte string with the count of its bytes before it. -/
structure Counted where
  count : Count
  content : Bytes
  length_eq : content.length = count.value
deriving DecidableEq

def Counted.bytes (counted : Counted) : Bytes := counted.count.bytes ++ counted.content

structure Input where
  outpoint : SizedBytes 36
  script : Counted
  sequence : SizedBytes 4
deriving DecidableEq

def Input.bytes (input : Input) : Bytes :=
  input.outpoint.bytes ++ (input.script.bytes ++ input.sequence.bytes)

structure Output where
  amount : SizedBytes 8
  script : Counted
deriving DecidableEq

def Output.bytes (output : Output) : Bytes := output.amount.bytes ++ output.script.bytes

structure Witness where
  count : Count
  items : List Counted
  length_eq : items.length = count.value
deriving DecidableEq

def Witness.bytes (witness : Witness) : Bytes :=
  witness.count.bytes ++ witness.items.flatMap Counted.bytes

/-- The inputs and the outputs of a transaction, each with their count. -/
structure Body where
  inputCount : Count
  inputs : List Input
  length_inputs : inputs.length = inputCount.value
  outputCount : Count
  outputs : List Output
  length_outputs : outputs.length = outputCount.value
deriving DecidableEq

def Body.bytes (body : Body) : Bytes :=
  body.inputCount.bytes ++ (body.inputs.flatMap Input.bytes ++
    (body.outputCount.bytes ++ body.outputs.flatMap Output.bytes))

/-- A transaction with a witness for each of its inputs. -/
structure WitnessForm where
  version : SizedBytes 4
  body : Body
  witnesses : List Witness
  length_witnesses : witnesses.length = body.inputs.length
  lockTime : SizedBytes 4
deriving DecidableEq

namespace WitnessForm

def bytes (form : WitnessForm) : Bytes :=
  form.version.bytes ++ ([0x00, 0x01] ++ (form.body.bytes ++
    (form.witnesses.flatMap Witness.bytes ++ form.lockTime.bytes)))

/-- The bytes of a transaction without its witnesses. -/
def legacy (form : WitnessForm) : Bytes :=
  form.version.bytes ++ (form.body.bytes ++ form.lockTime.bytes)

end WitnessForm

/-- What is written can be told from what follows it. -/
def SelfDelimiting {α : Type} (write : α → Bytes) : Prop :=
  ∀ first second rest other, write first ++ rest = write second ++ other →
    first = second ∧ rest = other

theorem selfDelimiting_sized (length : Nat) :
    SelfDelimiting fun part : SizedBytes length => part.bytes := by
  intro first second rest other same
  obtain ⟨bytes, rests⟩ :=
    List.append_inj same (first.length_eq.trans second.length_eq.symm)
  exact ⟨SizedBytes.ext_bytes bytes, rests⟩

/-- Of lists of one length the items are told apart one after the other. -/
theorem selfDelimiting_flatMap {α : Type} {write : α → Bytes} (delimits : SelfDelimiting write)
    {items others : List α} {rest other : Bytes} (length : items.length = others.length)
    (same : items.flatMap write ++ rest = others.flatMap write ++ other) :
    items = others ∧ rest = other := by
  induction items generalizing others with
  | nil =>
    obtain rfl : others = [] := List.eq_nil_of_length_eq_zero length.symm
    exact ⟨rfl, same⟩
  | cons item items ih =>
    cases others with
    | nil => cases length
    | cons first others =>
      rw [List.flatMap_cons, List.flatMap_cons, List.append_assoc, List.append_assoc] at same
      obtain ⟨rfl, tails⟩ := delimits _ _ _ _ same
      obtain ⟨rfl, rests⟩ := ih (Nat.succ.inj length) tails
      exact ⟨rfl, rests⟩

namespace Count

variable {first second : Count}

/-- The first byte of a count says how many follow. -/
theorem length_digits (count : Count) : count.digits.length = Cursor.countWidth count.mark := by
  cases count with
  | one byte unmarked => rw [digits, mark, Cursor.countWidth, if_pos unmarked, List.length_nil]
  | two digits => exact digits.length_eq
  | four digits => exact digits.length_eq
  | eight digits => exact digits.length_eq

theorem ext_digits (marks : first.mark = second.mark) (digits : first.digits = second.digits) :
    first = second := by
  have lengths := congrArg List.length digits
  cases first <;> cases second <;>
    grind [Count.digits, mark, SizedBytes.length_eq, SizedBytes.ext_bytes]

theorem selfDelimiting : SelfDelimiting bytes := by
  intro first second rest other same
  obtain ⟨marks, tails⟩ := List.cons.inj same
  have lengths : first.digits.length = second.digits.length := by
    rw [length_digits, length_digits, marks]
  obtain ⟨digits, rests⟩ := List.append_inj tails lengths
  exact ⟨ext_digits marks digits, rests⟩

end Count

theorem Counted.selfDelimiting : SelfDelimiting Counted.bytes := by
  rintro ⟨count, content, length⟩ ⟨count', content', length'⟩ rest other same
  simp only [bytes, List.append_assoc] at same
  obtain ⟨rfl, afterCount⟩ := Count.selfDelimiting _ _ _ _ same
  obtain ⟨rfl, rests⟩ := List.append_inj afterCount (length.trans length'.symm)
  exact ⟨rfl, rests⟩

theorem Input.selfDelimiting : SelfDelimiting Input.bytes := by
  rintro ⟨outpoint, script, sequence⟩ ⟨outpoint', script', sequence'⟩ rest other same
  simp only [bytes, List.append_assoc] at same
  obtain ⟨rfl, afterOutpoint⟩ := selfDelimiting_sized 36 _ _ _ _ same
  obtain ⟨rfl, afterScript⟩ := Counted.selfDelimiting _ _ _ _ afterOutpoint
  obtain ⟨rfl, rests⟩ := selfDelimiting_sized 4 _ _ _ _ afterScript
  exact ⟨rfl, rests⟩

theorem Output.selfDelimiting : SelfDelimiting Output.bytes := by
  rintro ⟨amount, script⟩ ⟨amount', script'⟩ rest other same
  simp only [bytes, List.append_assoc] at same
  obtain ⟨rfl, afterAmount⟩ := selfDelimiting_sized 8 _ _ _ _ same
  obtain ⟨rfl, rests⟩ := Counted.selfDelimiting _ _ _ _ afterAmount
  exact ⟨rfl, rests⟩

theorem Witness.selfDelimiting : SelfDelimiting Witness.bytes := by
  rintro ⟨count, items, length⟩ ⟨count', items', length'⟩ rest other same
  simp only [bytes, List.append_assoc] at same
  obtain ⟨rfl, afterCount⟩ := Count.selfDelimiting _ _ _ _ same
  obtain ⟨rfl, rests⟩ :=
    selfDelimiting_flatMap Counted.selfDelimiting (length.trans length'.symm) afterCount
  exact ⟨rfl, rests⟩

theorem Body.selfDelimiting : SelfDelimiting Body.bytes := by
  rintro ⟨inputCount, inputs, length, outputCount, outputs, size⟩
    ⟨inputCount', inputs', length', outputCount', outputs', size'⟩ rest other same
  simp only [bytes, List.append_assoc] at same
  obtain ⟨rfl, afterInputCount⟩ := Count.selfDelimiting _ _ _ _ same
  obtain ⟨rfl, afterInputs⟩ :=
    selfDelimiting_flatMap Input.selfDelimiting (length.trans length'.symm) afterInputCount
  obtain ⟨rfl, afterOutputCount⟩ := Count.selfDelimiting _ _ _ _ afterInputs
  obtain ⟨rfl, rests⟩ :=
    selfDelimiting_flatMap Output.selfDelimiting (size.trans size'.symm) afterOutputCount
  exact ⟨rfl, rests⟩

/-- A transaction is determined by its bytes. -/
theorem WitnessForm.bytes_injective {form other : WitnessForm} (same : form.bytes = other.bytes) :
    form = other := by
  obtain ⟨version, body, witnesses, length, lockTime⟩ := form
  obtain ⟨version', body', witnesses', length', lockTime'⟩ := other
  obtain ⟨rfl, afterVersion⟩ := selfDelimiting_sized 4 _ _ _ _ same
  obtain ⟨-, afterFlag⟩ := List.append_inj afterVersion rfl
  obtain ⟨rfl, afterBody⟩ := Body.selfDelimiting _ _ _ _ afterFlag
  obtain ⟨rfl, lockTimes⟩ :=
    selfDelimiting_flatMap Witness.selfDelimiting (length.trans length'.symm) afterBody
  obtain rfl := SizedBytes.ext_bytes lockTimes
  rfl

end HeaderRelay.Transaction
