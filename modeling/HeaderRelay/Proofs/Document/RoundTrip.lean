import Mathlib
import HeaderRelay.Proofs.Document.Fields
import HeaderRelay.Proofs.Json.RoundTrip
import HeaderRelay.Proofs.Validation.Window

set_option autoImplicit false

namespace HeaderRelay

open Fields (read_seq read_map read_required read_optional)
open Json (Plain)

/-- A number of few bits has few digits in its document. -/
theorem Unsigned.length_natural_le {width : Nat} {value : Int} (fits : Unsigned width value)
    (positive : 0 < width) : (Text.natural value.natAbs).length ≤ width := by
  have below : value.natAbs < 2 ^ width := by
    have cast : ((2 ^ width : Nat) : Int) = 2 ^ width := by norm_num
    obtain ⟨nonneg, limited⟩ := fits
    omega
  exact Text.length_natural_le below positive

section Plain

variable {length : Nat} (depth : Nat)

theorem Unsigned.plain {width : Nat} {value : Int} (fits : Unsigned width value)
    (positive : 0 < width) (narrow : width ≤ length) : Plain length depth (.integer value) :=
  Plain.integer depth ((fits.length_natural_le positive).trans narrow)

theorem plain_array_map {α : Type} {write : α → Json} {values : List α}
    (each : ∀ value ∈ values, Plain length depth (write value)) :
    Plain length (depth + 1) (.array (values.map write)) := by
  refine Plain.array fun item mem => ?_
  obtain ⟨value, there, rfl⟩ := List.mem_map.mp mem
  exact each value there

theorem Digest.plain_toJson (digest : Digest) : Plain length depth digest.toJson :=
  Plain.string depth digest.hex

theorem plain_integersToJson {values : List Int} (fit : ∀ value ∈ values, Unsigned 32 value)
    (wide : 32 ≤ length) : Plain length (depth + 1) (integersToJson values) :=
  plain_array_map depth fun value mem => (fit value mem).plain depth (by omega) wide

theorem Merkle.Accumulator.plain_toJson (accumulator : Accumulator) :
    Plain length (depth + 2) accumulator.toJson := by
  have slots : Plain length (depth + 1) (.array (accumulator.slots.map slotToJson)) := by
    refine plain_array_map depth fun slot _ => ?_
    cases slot with
    | none => exact Plain.null depth
    | some node => exact node.plain_toJson depth
  exact Plain.object (List.forall_mem_singleton.mpr slots)

theorem BlockRecord.plain_toJson {record : BlockRecord} (inRange : record.InRange)
    (wide : 256 ≤ length) : Plain length (depth + 2) record.toJson := by
  have tip := inRange.tip
  refine Plain.object ?_
  simp only [List.forall_mem_cons, List.not_mem_nil, false_implies, implies_true, and_true]
  refine ⟨?_, ?_, ?_, ?_, ?_, ?_, ?_, ?_, ?_⟩
  · exact record.hash.plain_toJson _
  · exact record.prevHash.plain_toJson _
  · exact tip.height.plain _ (by omega) (by omega)
  · exact inRange.addedTime.plain _ (by omega) (by omega)
  · exact inRange.work.plain _ (by omega) wide
  · exact tip.bits.plain _ (by omega) (by omega)
  · exact tip.timestamp.plain _ (by omega) (by omega)
  · exact plain_integersToJson _ tip.recentTimestamps (by omega)
  · exact tip.epochStart.plain _ (by omega) (by omega)

theorem Branch.plain_toJson {branch : Branch} (checked : branch.checked = .valid branch)
    (records : ∀ record ∈ branch.blocks, record.InRange) (wide : 256 ≤ length)
    (short : (Text.natural branch.chainwork.natAbs).length ≤ length) :
    Plain length (depth + 4) branch.toJson := by
  obtain ⟨⟨height, _⟩, _⟩ := branch.checked_eq_valid_iff.mp checked
  have blocks : Plain length (depth + 3) (.array (branch.blocks.map BlockRecord.toJson)) :=
    plain_array_map (depth + 2) fun record mem =>
      BlockRecord.plain_toJson depth (records record mem) wide
  refine Plain.object ?_
  simp only [List.forall_mem_cons, List.not_mem_nil, false_implies, implies_true, and_true]
  refine ⟨?_, ?_, ?_, blocks⟩
  · exact branch.tipHash.plain_toJson _
  · exact height.plain _ (by omega) (by omega)
  · exact Plain.integer _ short

theorem ChainState.plain_toJson {state : ChainState} (checked : state.checked = .valid state)
    (branches : ∀ branch ∈ state.forks, branch.checked = .valid branch)
    (records : ∀ record ∈ state.forks.flatMap Branch.blocks, record.InRange)
    (wide : 256 ≤ length)
    (short : ∀ branch ∈ state.forks, (Text.natural branch.chainwork.natAbs).length ≤ length) :
    Plain length (depth + 6) state.toJson := by
  obtain ⟨windowed, _⟩ := state.checked_eq_valid_iff.mp checked
  have inRange := windowed.inRange
  have forks : Plain length (depth + 5) (.array (state.forks.map Branch.toJson)) := by
    refine plain_array_map (depth + 4) fun branch mem => ?_
    refine Branch.plain_toJson depth (branches branch mem) ?_ wide (short branch mem)
    exact fun record held => records record (List.mem_flatMap.mpr ⟨branch, mem, held⟩)
  refine Plain.object ?_
  simp only [List.forall_mem_cons, List.not_mem_nil, false_implies, implies_true, and_true]
  refine ⟨?_, ?_, ?_, ?_, ?_, ?_, ?_, forks⟩
  · exact inRange.height.plain _ (by omega) (by omega)
  · exact state.confirmed.tipHash.plain_toJson _
  · exact inRange.bits.plain _ (by omega) (by omega)
  · exact inRange.timestamp.plain _ (by omega) (by omega)
  · exact plain_integersToJson _ inRange.recentTimestamps (by omega)
  · exact inRange.epochStart.plain _ (by omega) (by omega)
  · exact state.history.plain_toJson _

end Plain

theorem Merkle.Accumulator.ofJson_toJson (accumulator : Accumulator) :
    ofJson accumulator.toJson = .valid accumulator := by
  have slots : ∀ slot ∈ accumulator.slots,
      Reader.optionalDigest (slotToJson slot) = .valid slot := by
    intro slot _
    cases slot with
    | none => rfl
    | some node => exact Reader.optionalDigest_toJson node
  refine Fields.readObject_eq_valid ?_ rfl
  exact read_map mk (read_optional rfl (Reader.list_map slots))

namespace BlockRecord

theorem ofJson_toJson {record : BlockRecord} (inRange : record.InRange) :
    ofJson record.toJson = .valid record := by
  have tip := inRange.tip
  have whole : record = ofFields record.hash record.prevHash record.height record.addedTime
      record.work record.tip.bits record.tip.timestamp record.tip.recentTimestamps
      record.tip.epochStart := rfl
  refine Fields.readObject_eq_valid ?_ rfl
  rw [whole]
  refine read_seq (read_seq (read_seq (read_seq (read_seq (read_seq (read_seq (read_seq
    (read_map _ ?_) ?_) ?_) ?_) ?_) ?_) ?_) ?_) ?_
  · exact read_required rfl (Reader.digest_toJson _)
  · exact read_required rfl (Reader.digest_toJson _)
  · exact read_required rfl (Reader.unsigned_integer tip.height)
  · exact read_required rfl (Reader.unsigned_integer inRange.addedTime)
  · exact read_required rfl (Reader.unsigned_integer inRange.work)
  · exact read_required rfl (Reader.unsigned_integer tip.bits)
  · exact read_required rfl (Reader.unsigned_integer tip.timestamp)
  · exact read_required rfl (Reader.list_integers tip.recentTimestamps)
  · exact read_required rfl (Reader.unsigned_integer tip.epochStart)

end BlockRecord

namespace Branch

theorem ofJson_toJson {branch : Branch} (checked : branch.checked = .valid branch)
    (records : ∀ record ∈ branch.blocks, record.InRange) :
    ofJson branch.toJson = .valid branch := by
  obtain ⟨⟨height, nonneg⟩, named⟩ := branch.checked_eq_valid_iff.mp checked
  have whole : branch = ofFields branch.tipHash branch.tipHeight branch.chainwork
      (branch.newest, branch.older) := rfl
  have blocks : ∀ record ∈ branch.newest :: branch.older,
      BlockRecord.ofJson record.toJson = .valid record :=
    fun record mem => BlockRecord.ofJson_toJson (records record mem)
  have read : fields.readObject branch.toJson = .valid branch := by
    refine Fields.readObject_eq_valid ?_ rfl
    rw [whole]
    refine read_seq (read_seq (read_seq (read_map _ ?_) ?_) ?_) ?_
    · exact read_required rfl (Reader.digest_toJson _)
    · exact read_required rfl (Reader.unsigned_integer height)
    · exact read_required rfl (Reader.natural_integer nonneg)
    · exact read_required rfl (Reader.nonempty_map blocks)
  rw [ofJson, read, Checked.ensure, branch.objection?_eq_none_iff.mpr named]

end Branch

namespace ChainState

theorem readWindow_integers {window : List Int} (fit : ∀ time ∈ window, Unsigned 32 time)
    (sound : windowObjection? window = none) :
    readWindow (integersToJson window) = .valid window := by
  rw [readWindow, Reader.list_integers fit, Checked.ensure, sound]

theorem ofJson_toJson {state : ChainState} (checked : state.checked = .valid state)
    (branches : ∀ branch ∈ state.forks, branch.checked = .valid branch)
    (records : ∀ record ∈ state.forks.flatMap Branch.blocks, record.InRange) :
    ofJson state.toJson = .valid state := by
  obtain ⟨windowed, ordered⟩ := state.checked_eq_valid_iff.mp checked
  have inRange := windowed.inRange
  have window : windowObjection? state.confirmed.recentTimestamps = none := by
    have length := windowed.length
    simp only [windowLength] at length
    exact (windowObjection?_eq_none_iff _).mpr ⟨by omega, windowed.newestFirst⟩
  have forks : ∀ branch ∈ state.forks, Branch.ofJson branch.toJson = .valid branch := by
    intro branch mem
    refine Branch.ofJson_toJson (branches branch mem) fun record there => ?_
    exact records record (List.mem_flatMap.mpr ⟨branch, mem, there⟩)
  have whole : state = ofFields state.confirmed.height state.confirmed.tipHash
      state.confirmed.bits state.confirmed.timestamp state.confirmed.recentTimestamps
      state.confirmed.epochStart state.history state.forks := rfl
  have read : fields.readObject state.toJson = .valid state := by
    refine Fields.readObject_eq_valid ?_ rfl
    rw [whole]
    refine read_seq (read_seq (read_seq (read_seq (read_seq (read_seq (read_seq
      (read_map _ ?_) ?_) ?_) ?_) ?_) ?_) ?_) ?_
    · exact read_required rfl (Reader.unsigned_integer inRange.height)
    · exact read_required rfl (Reader.digest_toJson _)
    · exact read_required rfl (Reader.unsigned_integer inRange.bits)
    · exact read_required rfl (Reader.unsigned_integer inRange.timestamp)
    · exact read_required rfl (readWindow_integers inRange.recentTimestamps window)
    · exact read_required rfl (Reader.unsigned_integer inRange.epochStart)
    · exact read_required rfl (Merkle.Accumulator.ofJson_toJson _)
    · exact read_optional rfl (Reader.list_map forks)
  have tip : state.tipObjection? = none :=
    state.tipObjection?_eq_none_iff.mpr ⟨windowed.length, windowed.included⟩
  have order : state.orderObjection? = none := state.orderObjection?_eq_none_iff.mpr ordered
  simp only [ofJson, read, Checked.ensure, tip, order]

/-- A state that passes with all its parts is read back from its text, if the work of its branches
is not too long to be read. -/
theorem decode_encode {state : ChainState} (checked : state.checked = .valid state)
    (branches : ∀ branch ∈ state.forks, branch.checked = .valid branch)
    (records : ∀ record ∈ state.forks.flatMap Branch.blocks, record.InRange)
    (short : ∀ branch ∈ state.forks,
      (Text.natural branch.chainwork.natAbs).length ≤ Document.limits.length) :
    Document.decode (Document.encode state) = .valid state := by
  have plain : Plain Document.limits.length Document.limits.depth state.toJson :=
    plain_toJson 194 checked branches records (by decide) short
  have parsed : Json.parseWithin? Document.limits (Document.encode state) = some state.toJson :=
    Json.parseWithin?_text plain
  rw [Document.decode, parsed]
  exact ofJson_toJson checked branches records

end ChainState

end HeaderRelay
