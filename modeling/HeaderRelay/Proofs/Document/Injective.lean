import Mathlib
import HeaderRelay.Chain.State
import HeaderRelay.Proofs.Document.Fields
import HeaderRelay.Proofs.Json.RoundTrip

set_option autoImplicit false

namespace HeaderRelay

open Function (Injective)
open Json (Exact)

theorem Digest.toJson_injective : Injective Digest.toJson := by
  intro digest other same
  have read := Reader.digest_toJson digest
  rw [same, Reader.digest_toJson] at read
  exact (Checked.valid.inj read).symm

theorem Digest.exact_toJson (digest : Digest) : Exact digest.toJson := Exact.string digest.hex

theorem array_map_injective {α : Type} {write : α → Json} (injective : Injective write) :
    Injective fun values : List α => Json.array (values.map write) :=
  fun _ _ same => injective.list_map (Json.array.inj same)

theorem exact_array_map {α : Type} {write : α → Json} {values : List α}
    (each : ∀ value ∈ values, Exact (write value)) : Exact (.array (values.map write)) := by
  refine Exact.array fun item mem => ?_
  obtain ⟨value, there, rfl⟩ := List.mem_map.mp mem
  exact each value there

theorem integersToJson_injective : Injective integersToJson :=
  array_map_injective fun _ _ same => Json.integer.inj same

theorem exact_integersToJson (values : List Int) : Exact (integersToJson values) :=
  exact_array_map fun value _ => Exact.integer value

namespace Merkle.Accumulator

theorem slotToJson_injective : Injective slotToJson := by
  intro slot other same
  cases slot with
  | none =>
    cases other with
    | none => rfl
    | some node => cases same
  | some node =>
    cases other with
    | none => cases same
    | some nodeToo => exact congrArg some (Digest.toJson_injective same)

theorem toJson_injective : Injective toJson := by
  intro accumulator other same
  simp only [toJson, Json.object.injEq, List.cons.injEq, Prod.mk.injEq, true_and, and_true] at same
  have slots := array_map_injective slotToJson_injective same
  cases accumulator
  cases other
  exact congrArg mk slots

theorem exact_toJson (accumulator : Accumulator) : Exact accumulator.toJson := by
  refine Exact.object (List.forall_mem_singleton.mpr (exact_array_map fun slot _ => ?_))
  cases slot with
  | none => exact Exact.null
  | some node => exact node.exact_toJson

end Merkle.Accumulator

namespace BlockRecord

theorem toJson_injective : Injective toJson := by
  intro record other same
  simp only [toJson, Json.object.injEq, List.cons.injEq, Prod.mk.injEq, Json.integer.injEq,
    true_and, and_true] at same
  obtain ⟨hash, prevHash, height, addedTime, work, bits, timestamp, recent, epochStart⟩ := same
  have hashes := Digest.toJson_injective hash
  have parents := Digest.toJson_injective prevHash
  have windows := integersToJson_injective recent
  obtain ⟨⟨_, _, _, _, _, _⟩, _, _, _⟩ := record
  obtain ⟨⟨_, _, _, _, _, _⟩, _, _, _⟩ := other
  simp only [BlockRecord.hash, BlockRecord.height] at hashes height
  simp only at parents addedTime work bits timestamp epochStart windows
  rw [hashes, parents, height, addedTime, work, bits, timestamp, windows, epochStart]

theorem exact_toJson (record : BlockRecord) : Exact record.toJson := by
  refine Exact.object ?_
  simp only [List.forall_mem_cons, List.not_mem_nil, false_implies, implies_true, and_true]
  exact ⟨record.hash.exact_toJson, record.prevHash.exact_toJson, Exact.integer _, Exact.integer _,
    Exact.integer _, Exact.integer _, Exact.integer _, exact_integersToJson _, Exact.integer _⟩

end BlockRecord

namespace Branch

theorem toJson_injective : Injective toJson := by
  intro branch other same
  simp only [toJson, Json.object.injEq, List.cons.injEq, Prod.mk.injEq, Json.integer.injEq,
    true_and, and_true] at same
  obtain ⟨tipHash, tipHeight, chainwork, blocks⟩ := same
  have tips := Digest.toJson_injective tipHash
  have held := array_map_injective BlockRecord.toJson_injective blocks
  obtain ⟨_, _, _, _, _⟩ := branch
  obtain ⟨_, _, _, _, _⟩ := other
  obtain ⟨newest, older⟩ := List.cons.inj held
  simp only at tips tipHeight chainwork newest older
  rw [tips, tipHeight, chainwork, newest, older]

theorem exact_toJson (branch : Branch) : Exact branch.toJson := by
  refine Exact.object ?_
  simp only [List.forall_mem_cons, List.not_mem_nil, false_implies, implies_true, and_true]
  exact ⟨branch.tipHash.exact_toJson, Exact.integer _, Exact.integer _,
    exact_array_map fun record _ => record.exact_toJson⟩

end Branch

namespace ChainState

theorem toJson_injective : Injective toJson := by
  intro state other same
  simp only [toJson, Json.object.injEq, List.cons.injEq, Prod.mk.injEq, Json.integer.injEq,
    true_and, and_true] at same
  obtain ⟨height, tipHash, bits, timestamp, recent, epochStart, history, forks⟩ := same
  have tips := Digest.toJson_injective tipHash
  have windows := integersToJson_injective recent
  have histories := Merkle.Accumulator.toJson_injective history
  have branches := array_map_injective Branch.toJson_injective forks
  obtain ⟨⟨_, _, _, _, _, _⟩, _, _⟩ := state
  obtain ⟨⟨_, _, _, _, _, _⟩, _, _⟩ := other
  simp only at tips windows histories branches height bits timestamp epochStart
  rw [height, bits, timestamp, windows, epochStart, tips, histories, branches]

theorem exact_toJson (state : ChainState) : Exact state.toJson := by
  refine Exact.object ?_
  simp only [List.forall_mem_cons, List.not_mem_nil, false_implies, implies_true, and_true]
  exact ⟨Exact.integer _, state.confirmed.tipHash.exact_toJson, Exact.integer _, Exact.integer _,
    exact_integersToJson _, Exact.integer _, state.history.exact_toJson,
    exact_array_map fun branch _ => branch.exact_toJson⟩

/-- Two states of the same text are the same, whether or not they pass their checks. -/
theorem encode_injective : Injective (Document.encode : ChainState → String) :=
  fun state other same =>
    toJson_injective (state.exact_toJson.eq_of_text_eq other.exact_toJson same)

end ChainState

end HeaderRelay
