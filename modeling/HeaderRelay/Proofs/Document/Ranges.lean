import Mathlib
import HeaderRelay.Proofs.Validation.Rules

set_option autoImplicit false

namespace HeaderRelay

def Unsigned (width : Nat) (value : Int) : Prop := 0 ≤ value ∧ value < 2 ^ width

instance (width : Nat) (value : Int) : Decidable (Unsigned width value) :=
  inferInstanceAs (Decidable (_ ∧ _))

theorem unsigned_toNat {width : Nat} (word : BitVec width) : Unsigned width word.toNat := by
  have below := word.isLt
  refine ⟨Int.natCast_nonneg _, ?_⟩
  exact_mod_cast below

theorem unsignedFlaw?_eq_none_iff (width : Nat) (value : Int) :
    unsignedFlaw? width value = none ↔ Unsigned width value := by
  have limit : ((1 <<< width : Nat) : Int) = 2 ^ width := by
    rw [Nat.one_shiftLeft]
    norm_num
  unfold unsignedFlaw? Unsigned
  rw [limit]
  split
  · simp only [reduceCtorEq, false_iff]
    omega
  · split
    · simp only [reduceCtorEq, false_iff]
      omega
    · simp only [true_iff]
      omega

theorem naturalFlaw?_eq_none_iff (value : Int) : naturalFlaw? value = none ↔ 0 ≤ value := by
  unfold naturalFlaw?
  split
  · simp only [reduceCtorEq, false_iff]
    omega
  · simp only [true_iff]
    omega

theorem unsignedFaults_eq_nil_iff (width : Nat) (place : List Step) (value : Int) :
    unsignedFaults width place value = [] ↔ Unsigned width value := by
  rw [← unsignedFlaw?_eq_none_iff, unsignedFaults, List.map_eq_nil_iff, Option.toList_eq_nil_iff]

theorem unsignedListFaults_eq_nil_iff (width : Nat) (name : String) (values : List Int) :
    unsignedListFaults width name values = [] ↔ ∀ value ∈ values, Unsigned width value := by
  simp only [unsignedListFaults, List.flatMap_eq_nil_iff, unsignedFaults_eq_nil_iff]
  constructor
  · intro all value mem
    obtain ⟨position, inside, same⟩ := List.getElem_of_mem mem
    have entry : (value, position) ∈ values.zipIdx := by
      rw [List.mem_zipIdx_iff_getElem?, List.getElem?_eq_some_iff]
      exact ⟨inside, same⟩
    exact all _ entry
  · rintro all ⟨value, position⟩ mem
    exact all value (List.fst_mem_of_mem_zipIdx mem)

namespace Snapshot

/-- Every field of a tip is in its range. -/
structure InRange (tip : Snapshot) : Prop where
  height : Unsigned 64 tip.height
  bits : Unsigned 32 tip.bits
  timestamp : Unsigned 32 tip.timestamp
  recentTimestamps : ∀ time ∈ tip.recentTimestamps, Unsigned 32 time
  epochStart : Unsigned 32 tip.epochStart

theorem faults_eq_nil_iff (tip : Snapshot) : tip.faults = [] ↔ tip.InRange := by
  simp only [faults, List.append_eq_nil_iff, unsignedFaults_eq_nil_iff,
    unsignedListFaults_eq_nil_iff]
  constructor
  · rintro ⟨⟨⟨⟨height, bits⟩, timestamp⟩, recent⟩, epochStart⟩
    exact ⟨height, bits, timestamp, recent, epochStart⟩
  · rintro ⟨height, bits, timestamp, recent, epochStart⟩
    exact ⟨⟨⟨⟨height, bits⟩, timestamp⟩, recent⟩, epochStart⟩

end Snapshot

structure BlockRecord.InRange (record : BlockRecord) : Prop where
  tip : record.tip.InRange
  addedTime : Unsigned 64 record.addedTime
  work : Unsigned 256 record.work

theorem BlockRecord.faults_eq_nil_iff (record : BlockRecord) :
    record.faults = [] ↔ record.InRange := by
  simp only [faults, List.append_eq_nil_iff, unsignedFaults_eq_nil_iff,
    unsignedListFaults_eq_nil_iff]
  constructor
  · rintro ⟨⟨⟨⟨⟨⟨height, added⟩, work⟩, bits⟩, timestamp⟩, recent⟩, epochStart⟩
    exact ⟨⟨height, bits, timestamp, recent, epochStart⟩, added, work⟩
  · rintro ⟨⟨height, bits, timestamp, recent, epochStart⟩, added, work⟩
    exact ⟨⟨⟨⟨⟨⟨height, added⟩, work⟩, bits⟩, timestamp⟩, recent⟩, epochStart⟩

theorem Branch.objection?_eq_none_iff (branch : Branch) :
    branch.objection? = none ↔
      branch.newest.hash = branch.tipHash ∧ branch.newest.height = branch.tipHeight := by
  simp only [objection?, ite_eq_left_iff, reduceCtorEq, imp_false, not_not]

theorem Branch.faults_eq_nil_iff (branch : Branch) :
    branch.faults = [] ↔ Unsigned 64 branch.tipHeight ∧ 0 ≤ branch.chainwork := by
  rw [faults, List.append_eq_nil_iff, unsignedFaults_eq_nil_iff, List.map_eq_nil_iff,
    Option.toList_eq_nil_iff, naturalFlaw?_eq_none_iff]

theorem BlockRecord.checked_eq_valid_iff (record : BlockRecord) :
    record.checked = .valid record ↔ record.InRange := by
  simp only [checked, Checked.ofFaults_eq_valid, faults_eq_nil_iff, and_true]

theorem Branch.checked_eq_valid_iff (branch : Branch) :
    branch.checked = .valid branch ↔
      (Unsigned 64 branch.tipHeight ∧ 0 ≤ branch.chainwork) ∧
        branch.newest.hash = branch.tipHash ∧ branch.newest.height = branch.tipHeight := by
  simp only [checked, Checked.ensure_eq_valid, Checked.ofFaults_eq_valid, faults_eq_nil_iff,
    objection?_eq_none_iff, and_true]

end HeaderRelay
