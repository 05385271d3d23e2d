import Mathlib
import HeaderRelay.Params
import HeaderRelay.Proofs.Chain.Forest
import HeaderRelay.Proofs.Document.RoundTrip
import HeaderRelay.Proofs.Document.Soundness

set_option autoImplicit false

namespace HeaderRelay

open Fields (read_seq read_map read_required)
open Json (Plain)

/-- The texts of a kind of values. A value that passes its checks is read back from its text exactly
when its numbers without a range have no more digits than a reader admits. Whatever is read passes
the checks, and is read back from the text that is written for it. -/
structure Document.RoundTrips (α : Type) [Document α] (Sound : α → Prop)
    (unbounded : α → List Int) : Prop where
  decode_encode_iff : ∀ value : α, Sound value →
    (decode (encode value) = .valid value ↔
      ∀ number ∈ unbounded value, number.natAbs < 10 ^ limits.length)
  sound_of_decode : ∀ (text : String) (value : α), decode text = .valid value →
    Sound value ∧ decode (encode value) = .valid value

/-- Texts carry their values when readers undo writers, documents of short numbers are plain, and
readers guarantee the checks. -/
theorem Document.roundTrips {α : Type} [Document α] {Sound : α → Prop} {unbounded : α → List Int}
    (reads : ∀ value, Sound value → ofJson (toJson value) = .valid value)
    (plain : ∀ value, Sound value →
      (∀ number ∈ unbounded value, number.natAbs < 10 ^ limits.length) →
        Plain limits.length limits.depth (toJson value))
    (gives : Reader.Gives limits.length (ofJson : Json → Checked α) fun value =>
      Sound value ∧ ∀ number ∈ unbounded value, number.natAbs < 10 ^ limits.length) :
    Document.RoundTrips α Sound unbounded := by
  have back : ∀ value : α, Sound value →
      (∀ number ∈ unbounded value, number.natAbs < 10 ^ limits.length) →
      decode (encode value) = .valid value := by
    intro value sound short
    have parsed : Json.parseWithin? limits (encode value) = some (toJson value) :=
      Json.parseWithin?_text (plain value sound short)
    rw [decode, parsed]
    exact reads value sound
  refine ⟨?_, ?_⟩
  · intro value sound
    exact ⟨fun decoded => (Document.of_decode gives decoded).2, back value sound⟩
  · intro text value decoded
    obtain ⟨sound, short⟩ := Document.of_decode gives decoded
    exact ⟨sound, back value sound short⟩

/-- A number with so many digits at most is short enough. -/
theorem plain_of_natAbs_lt {length : Nat} (depth : Nat) {number : Int} (positive : 0 < length)
    (below : number.natAbs < 10 ^ length) : Plain length depth (.integer number) :=
  Plain.integer depth ((Nat.length_toDigits_le_iff (by omega) positive).mpr below)

theorem Reader.word_toNat {width : Nat} (word : BitVec width) :
    Reader.word width (.integer word.toNat) = .valid word := by
  rw [Reader.word, Reader.unsigned_integer (unsigned_toNat word), Checked.map_valid,
    BitVec.ofInt_natCast, BitVec.ofNat_toNat, BitVec.setWidth_eq]

section Plain

variable {length : Nat} (depth : Nat)

theorem plain_word {width : Nat} (word : BitVec width) (positive : 0 < width)
    (narrow : width ≤ length) : Plain length depth (.integer word.toNat) :=
  (unsigned_toNat word).plain depth positive narrow

end Plain

namespace Interval

theorem ofJson_toJson (interval : Interval) : ofJson interval.toJson = .valid interval := by
  have read : fields.readObject interval.toJson = .valid (interval.lower, interval.upper) := by
    refine Fields.readObject_eq_valid ?_ rfl
    refine read_seq (read_map _ ?_) ?_
    · exact read_required rfl (Reader.word_toNat _)
    · exact read_required rfl (Reader.word_toNat _)
  rw [ofJson, read]
  exact dif_pos interval.ordered

theorem roundTrips :
    Document.RoundTrips Interval (fun interval => interval.lower ≤ interval.upper)
      fun _ => [] := by
  refine Document.roundTrips (fun interval _ => interval.ofJson_toJson) ?_ ?_
  · intro interval _ _
    refine Plain.object ?_
    simp only [List.forall_mem_cons, List.not_mem_nil, false_implies, implies_true, and_true]
    exact ⟨plain_word _ _ (by omega) (by decide), plain_word _ _ (by omega) (by decide)⟩
  · exact (Reader.gives_any _).imp fun interval _ => ⟨interval.ordered, List.forall_mem_nil _⟩

end Interval

namespace Snapshot

theorem ofJson_toJson {snapshot : Snapshot} (inRange : snapshot.InRange) :
    ofJson snapshot.toJson = .valid snapshot := by
  refine Fields.readObject_eq_valid ?_ rfl
  refine read_seq (read_seq (read_seq (read_seq (read_seq (read_map _ ?_) ?_) ?_) ?_) ?_) ?_
  · exact read_required rfl (Reader.unsigned_integer inRange.height)
  · exact read_required rfl (Reader.unsigned_integer inRange.bits)
  · exact read_required rfl (Reader.unsigned_integer inRange.timestamp)
  · exact read_required rfl (Reader.list_integers inRange.recentTimestamps)
  · exact read_required rfl (Reader.unsigned_integer inRange.epochStart)
  · exact read_required rfl (Reader.digest_toJson _)

theorem roundTrips : Document.RoundTrips Snapshot InRange fun _ => [] := by
  refine Document.roundTrips (fun _ => ofJson_toJson) ?_ ?_
  · intro snapshot inRange _
    refine Plain.object ?_
    simp only [List.forall_mem_cons, List.not_mem_nil, false_implies, implies_true, and_true]
    refine ⟨?_, ?_, ?_, ?_, ?_, ?_⟩
    · exact inRange.height.plain _ (by omega) (by decide)
    · exact inRange.bits.plain _ (by omega) (by decide)
    · exact inRange.timestamp.plain _ (by omega) (by decide)
    · exact plain_integersToJson _ inRange.recentTimestamps (by decide)
    · exact inRange.epochStart.plain _ (by omega) (by decide)
    · exact snapshot.tipHash.plain_toJson _
  · exact gives_ofJson.imp fun _ inRange => ⟨inRange, List.forall_mem_nil _⟩

end Snapshot

theorem BlockRecord.roundTrips : Document.RoundTrips BlockRecord InRange fun _ => [] := by
  refine Document.roundTrips (fun _ => ofJson_toJson) ?_ ?_
  · exact fun record inRange _ => plain_toJson 198 inRange (by decide)
  · exact gives_ofJson.imp fun _ inRange => ⟨inRange, List.forall_mem_nil _⟩

theorem Branch.roundTrips :
    Document.RoundTrips Branch Admissible fun branch => [branch.chainwork] := by
  refine Document.roundTrips ?_ ?_ ?_
  · intro branch admissible
    exact ofJson_toJson (branch.admissible_iff.mp admissible).1 admissible.records
  · intro branch admissible short
    refine plain_toJson 196 (branch.admissible_iff.mp admissible).1 admissible.records
      (by decide) ?_
    exact (Nat.length_toDigits_le_iff (by omega) (by decide)).mpr
      (short branch.chainwork List.mem_cons_self)
  · exact gives_ofJson.imp fun branch good => ⟨good.1, List.forall_mem_singleton.mpr good.2⟩

namespace Merkle

theorem Accumulator.roundTrips :
    Document.RoundTrips Accumulator (fun _ => True) fun _ => [] := by
  refine Document.roundTrips (fun accumulator _ => accumulator.ofJson_toJson) ?_ ?_
  · exact fun accumulator _ _ => accumulator.plain_toJson 198
  · exact (Reader.gives_any _).imp fun _ _ => ⟨trivial, List.forall_mem_nil _⟩

theorem Path.ofJson_toJson (path : Path) : ofJson path.toJson = .valid path := by
  have read : ofJson path.toJson = .valid (mk (Int.toNat (path.index : Int)) path.siblings) := by
    refine Fields.readObject_eq_valid ?_ rfl
    refine read_seq (read_map mk (read_map Int.toNat ?_)) ?_
    · exact read_required rfl (Reader.natural_integer (Int.natCast_nonneg _))
    · exact read_required rfl (Reader.list_map fun _ _ => Reader.digest_toJson _)
  exact read

theorem Path.roundTrips :
    Document.RoundTrips Path (fun _ => True) fun path => [(path.index : Int)] := by
  refine Document.roundTrips (fun path _ => path.ofJson_toJson) ?_ ?_
  · intro path _ short
    refine Plain.object ?_
    simp only [List.forall_mem_cons, List.not_mem_nil, false_implies, implies_true, and_true]
    refine ⟨?_, ?_⟩
    · exact plain_of_natAbs_lt _ (by decide) (short _ List.mem_cons_self)
    · exact plain_array_map 198 fun digest _ => digest.plain_toJson _
  · exact gives_ofJson.imp fun path short => ⟨trivial, List.forall_mem_singleton.mpr short⟩

theorem OddPolicy.ofJson_name (policy : OddPolicy) :
    ofJson (.string policy.name) = .valid policy := by
  cases policy <;> rfl

theorem Tree.ofJson_toJson {tree : Tree} (capped : tree.Capped) :
    ofJson tree.toJson = .valid tree := by
  have levels : ∀ level ∈ tree.levels,
      Reader.list Reader.digest (.array (level.map Digest.toJson)) = .valid level :=
    fun level _ => Reader.list_map fun digest _ => Reader.digest_toJson digest
  have read : fields.readObject tree.toJson = .valid tree := by
    refine Fields.readObject_eq_valid ?_ rfl
    refine read_seq (read_map mk ?_) ?_
    · exact read_required rfl tree.policy.ofJson_name
    · exact read_required rfl (Reader.list_map levels)
  rw [ofJson, read, Checked.ensure, tree.objection?_eq_none_iff.mpr capped]

theorem Tree.roundTrips : Document.RoundTrips Tree Capped fun _ => [] := by
  refine Document.roundTrips (fun _ => ofJson_toJson) ?_ ?_
  · intro tree _ _
    refine Plain.object ?_
    simp only [List.forall_mem_cons, List.not_mem_nil, false_implies, implies_true, and_true]
    refine ⟨Plain.string _ _, plain_array_map 198 fun level _ => ?_⟩
    exact plain_array_map 197 fun digest _ => digest.plain_toJson _
  · exact gives_ofJson.imp fun _ capped => ⟨capped, List.forall_mem_nil _⟩

end Merkle

namespace Params

theorem ofJson_toJson (params : Params) : ofJson params.toJson = .valid params := by
  refine Fields.readObject_eq_valid ?_ rfl
  refine read_seq (read_seq (read_seq (read_seq (read_seq (read_seq (read_seq (read_seq (read_seq
    (read_map mk ?_) ?_) ?_) ?_) ?_) ?_) ?_) ?_) ?_) ?_
  · exact read_required rfl rfl
  all_goals exact read_required rfl (Reader.word_toNat _)

theorem roundTrips : Document.RoundTrips Params (fun _ => True) fun _ => [] := by
  refine Document.roundTrips (fun params _ => params.ofJson_toJson) ?_ ?_
  · intro params _ _
    refine Plain.object ?_
    simp only [members, List.forall_mem_cons, List.not_mem_nil, false_implies, implies_true,
      and_true]
    refine ⟨Plain.string _ _, ?_, ?_, ?_, ?_, ?_, ?_, ?_, ?_, ?_⟩
    all_goals exact plain_word _ _ (by omega) (by decide)
  · exact (Reader.gives_any _).imp fun _ _ => ⟨trivial, List.forall_mem_nil _⟩

end Params

namespace ChainState

theorem Admissible.inRange {state : ChainState} (admissible : state.Admissible) :
    ∀ record ∈ state.forks.flatMap Branch.blocks, record.InRange := by
  intro record mem
  obtain ⟨branch, there, held⟩ := List.mem_flatMap.mp mem
  exact (admissible.branches branch there).records record held

theorem roundTrips :
    Document.RoundTrips ChainState Admissible fun state => state.forks.map Branch.chainwork := by
  refine Document.roundTrips ?_ ?_ ?_
  · intro state admissible
    have branches := fun branch mem =>
      (Branch.admissible_iff branch).mp (admissible.branches branch mem)
    exact ofJson_toJson (state.admissible_iff.mp admissible).1
      (fun branch mem => (branches branch mem).1) admissible.inRange
  · intro state admissible short
    have branches := fun branch mem =>
      (Branch.admissible_iff branch).mp (admissible.branches branch mem)
    refine plain_toJson 194 (state.admissible_iff.mp admissible).1
      (fun branch mem => (branches branch mem).1) admissible.inRange (by decide) ?_
    intro branch mem
    exact (Nat.length_toDigits_le_iff (by omega) (by decide)).mpr
      (short branch.chainwork (List.mem_map_of_mem mem))
  · exact gives_ofJson.imp fun state good => ⟨good.1, List.forall_mem_map.mpr good.2⟩

end ChainState

namespace Document

inductive Kind where
  | interval
  | snapshot
  | record
  | branch
  | accumulator
  | path
  | tree
  | params
  | state

namespace Kind

def Value : Kind → Type
  | .interval => Interval
  | .snapshot => Snapshot
  | .record => BlockRecord
  | .branch => Branch
  | .accumulator => Merkle.Accumulator
  | .path => Merkle.Path
  | .tree => Merkle.Tree
  | .params => Params
  | .state => ChainState

instance : (kind : Kind) → Document kind.Value
  | .interval => inferInstanceAs (Document Interval)
  | .snapshot => inferInstanceAs (Document Snapshot)
  | .record => inferInstanceAs (Document BlockRecord)
  | .branch => inferInstanceAs (Document Branch)
  | .accumulator => inferInstanceAs (Document Merkle.Accumulator)
  | .path => inferInstanceAs (Document Merkle.Path)
  | .tree => inferInstanceAs (Document Merkle.Tree)
  | .params => inferInstanceAs (Document Params)
  | .state => inferInstanceAs (Document ChainState)

/-- A value is in all its ranges and passes all its checks. For an accumulator, a path and
parameters there is nothing to check beyond their types. -/
def Sound : (kind : Kind) → kind.Value → Prop
  | .interval => fun value : Interval => value.lower ≤ value.upper
  | .snapshot => Snapshot.InRange
  | .record => BlockRecord.InRange
  | .branch => Branch.Admissible
  | .accumulator => fun _ => True
  | .path => fun _ => True
  | .tree => Merkle.Tree.Capped
  | .params => fun _ => True
  | .state => ChainState.Admissible

/-- The numbers of a value that may be of any size. -/
def unbounded : (kind : Kind) → kind.Value → List Int
  | .branch => fun value : Branch => [value.chainwork]
  | .path => fun value : Merkle.Path => [(value.index : Int)]
  | .state => fun value : ChainState => value.forks.map Branch.chainwork
  | .interval | .snapshot | .record | .accumulator | .tree | .params => fun _ => []

theorem roundTrips (kind : Kind) : RoundTrips kind.Value kind.Sound kind.unbounded := by
  cases kind with
  | interval => exact Interval.roundTrips
  | snapshot => exact Snapshot.roundTrips
  | record => exact BlockRecord.roundTrips
  | branch => exact Branch.roundTrips
  | accumulator => exact Merkle.Accumulator.roundTrips
  | path => exact Merkle.Path.roundTrips
  | tree => exact Merkle.Tree.roundTrips
  | params => exact Params.roundTrips
  | state => exact ChainState.roundTrips

end Kind

end Document

namespace Sample

/-- A state with a branch of one block for which as much work is claimed as a document can tell. -/
def weighty : ChainState :=
  let opened := (origin.unchecked Params.regtest).submit Params.regtest (submit [first])
  { opened with
    forks := opened.forks.map fun branch => { branch with chainwork := (10 ^ 4300 - 1 : Nat) } }

/-- The state after another block came on this branch. -/
def weightier : ChainState := weighty.submit Params.regtest (submit [afterFirst])

end Sample

namespace Document

/-- A value of any kind that passes its checks is read back from its canonical text exactly when its
numbers that may be of any size have no more digits than a reader admits. Whatever is read from a
text, canonical or not, passes the checks and is read back from its own. -/
theorem decode_encode_iff_of_sound (kind : Kind) (value : kind.Value) :
    (kind.Sound value →
      (decode (encode value) = .valid value ↔
        ∀ number ∈ kind.unbounded value, number.natAbs < 10 ^ limits.length)) ∧
      ∀ text, decode text = .valid value →
        kind.Sound value ∧ decode (encode value) = .valid value :=
  ⟨kind.roundTrips.decode_encode_iff value, fun text => kind.roundTrips.sound_of_decode text value⟩

theorem decode_encode_weighty :
    Sample.weighty.Admissible ∧
      (∀ number ∈ Sample.weighty.forks.map Branch.chainwork,
        number.natAbs < 10 ^ limits.length) ∧
      decode (encode Sample.weighty) = .valid Sample.weighty := by
  obtain ⟨admissible, short⟩ :
      Sample.weighty.Admissible ∧
        ∀ number ∈ Sample.weighty.forks.map Branch.chainwork,
          number.natAbs < 10 ^ limits.length := by
    decide +kernel
  exact ⟨admissible, short,
    ((decode_encode_iff_of_sound .state Sample.weighty).1 admissible).mpr short⟩

theorem weightier_not_read_back :
    decode (encode Sample.weighty) = .valid Sample.weighty ∧
      Sample.weighty.outcome Params.regtest (Sample.submit [Sample.afterFirst]) =
        .ok (.accepted Sample.weightier 0) ∧
      Sample.weightier.Admissible ∧
      decode (encode Sample.weightier) ≠ .valid Sample.weightier := by
  obtain ⟨before, short, accepts, after, long⟩ :
      Sample.weighty.Admissible ∧
        (∀ number ∈ Sample.weighty.forks.map Branch.chainwork,
          number.natAbs < 10 ^ limits.length) ∧
        Sample.weighty.outcome Params.regtest (Sample.submit [Sample.afterFirst]) =
          .ok (.accepted Sample.weightier 0) ∧
        Sample.weightier.Admissible ∧
        ¬ ∀ number ∈ Sample.weightier.forks.map Branch.chainwork,
          number.natAbs < 10 ^ limits.length := by
    decide +kernel
  refine ⟨(ChainState.roundTrips.decode_encode_iff _ before).mpr short, accepts, after, ?_⟩
  intro decoded
  exact long ((ChainState.roundTrips.decode_encode_iff _ after).mp decoded)

end Document

end HeaderRelay
