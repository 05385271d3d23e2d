import Mathlib
import HeaderRelay.Chain.State
import HeaderRelay.Merkle.Tree
import HeaderRelay.Proofs.Document.Guarantees
import HeaderRelay.Proofs.Validation.Window

set_option autoImplicit false

namespace HeaderRelay

open Fields (Gives)
open Reader (gives_any gives_unsigned gives_natural gives_list gives_nonempty)

variable {length : Nat}

theorem Snapshot.gives_ofJson : Reader.Gives length Snapshot.ofJson Snapshot.InRange := by
  refine Gives.readObject ?_
  unfold fields
  refine (Gives.required (gives_any _)).seq <|
    (Gives.required (gives_unsigned 32)).seq <|
    (Gives.required (gives_list (gives_unsigned 32))).seq <|
    (Gives.required (gives_unsigned 32)).seq <|
    (Gives.required (gives_unsigned 32)).seq <|
    (Gives.required (gives_unsigned 64)).map ?_
  intro _ height _ bits _ timestamp _ recent _ epochStart _ _
  exact ⟨height, bits, timestamp, recent, epochStart⟩

theorem BlockRecord.gives_ofJson : Reader.Gives length BlockRecord.ofJson BlockRecord.InRange := by
  refine Gives.readObject ?_
  unfold fields
  refine (Gives.required (gives_unsigned 32)).seq <|
    (Gives.required (gives_list (gives_unsigned 32))).seq <|
    (Gives.required (gives_unsigned 32)).seq <|
    (Gives.required (gives_unsigned 32)).seq <|
    (Gives.required (gives_unsigned 256)).seq <|
    (Gives.required (gives_unsigned 64)).seq <|
    (Gives.required (gives_unsigned 64)).seq <|
    (Gives.required (gives_any _)).seq <|
    (Gives.required (gives_any _)).map ?_
  intro _ _ _ _ _ height _ addedTime _ work _ bits _ timestamp _ recent _ epochStart
  exact ⟨⟨height, bits, timestamp, recent, epochStart⟩, addedTime, work⟩

/-- A branch passes its check, and so do its blocks. -/
structure Branch.Admissible (branch : Branch) : Prop where
  tipHeight : Unsigned 64 branch.tipHeight
  chainwork : 0 ≤ branch.chainwork
  records : ∀ record ∈ branch.blocks, record.InRange
  tip : branch.newest.hash = branch.tipHash ∧ branch.newest.height = branch.tipHeight

theorem Branch.admissible_iff (branch : Branch) :
    branch.Admissible ↔
      branch.checked = .valid branch ∧
        ∀ record ∈ branch.blocks, record.checked = .valid record := by
  simp only [checked_eq_valid_iff, BlockRecord.checked_eq_valid_iff]
  constructor
  · rintro ⟨tipHeight, chainwork, records, tip⟩
    exact ⟨⟨⟨tipHeight, chainwork⟩, tip⟩, records⟩
  · rintro ⟨⟨⟨tipHeight, chainwork⟩, tip⟩, records⟩
    exact ⟨tipHeight, chainwork, records, tip⟩

instance (branch : Branch) : Decidable branch.Admissible :=
  decidable_of_iff _ branch.admissible_iff.symm

theorem Branch.gives_ofJson :
    Reader.Gives length Branch.ofJson fun branch =>
      branch.Admissible ∧ branch.chainwork.natAbs < 10 ^ length := by
  have read : Gives length fields fun branch =>
      (Unsigned 64 branch.tipHeight ∧ 0 ≤ branch.chainwork ∧
        ∀ record ∈ branch.blocks, record.InRange) ∧ branch.chainwork.natAbs < 10 ^ length := by
    unfold fields
    refine (Gives.required (gives_nonempty BlockRecord.gives_ofJson)).seq <|
      (Gives.required gives_natural).seq <|
      (Gives.required (gives_unsigned 64)).seq <|
      (Gives.required (gives_any _)).map ?_
    intro _ _ _ height _ work _ records
    exact ⟨⟨height, work.1, records⟩, work.2⟩
  refine (read.readObject.ensure objection?).imp ?_
  rintro branch ⟨⟨⟨height, chainwork, records⟩, short⟩, sound⟩
  exact ⟨⟨height, chainwork, records, branch.objection?_eq_none_iff.mp sound⟩, short⟩

namespace Merkle

theorem Path.gives_ofJson :
    Reader.Gives length Path.ofJson fun path => path.index < 10 ^ length := by
  have index : Gives length (Int.toNat <$> Fields.required (.plain "index") Reader.natural)
      fun index => index < 10 ^ length := by
    refine (Gives.required gives_natural).map ?_
    rintro index ⟨nonneg, short⟩
    omega
  refine Gives.readObject ?_
  unfold fields
  refine (Gives.required (gives_any _)).seq (index.map ?_)
  intro index short _ _
  exact short

/-- The topmost level, where there is one, holds the root alone. -/
def Tree.Capped (tree : Tree) : Prop :=
  ∀ top, tree.levels.getLast? = some top → top.length = 1

theorem Tree.objection?_eq_none_iff (tree : Tree) : tree.objection? = none ↔ tree.Capped := by
  unfold objection? Capped
  split
  · rename_i top last
    simp only [ite_eq_left_iff, reduceCtorEq, imp_false, not_not, last, Option.some.injEq,
      forall_eq']
  · rename_i bare
    simp only [bare, reduceCtorEq, false_implies, implies_true]

theorem Tree.gives_ofJson : Reader.Gives length Tree.ofJson Tree.Capped :=
  ((gives_any _).ensure objection?).imp fun tree sound =>
    tree.objection?_eq_none_iff.mp sound.2

end Merkle

namespace ChainState

/-- A state passes its check, and so do its branches and their blocks. -/
structure Admissible (state : ChainState) : Prop where
  confirmed : state.confirmed.Windowed
  ordered : Branch.Ordered state.forks
  branches : ∀ branch ∈ state.forks, branch.Admissible

theorem admissible_iff (state : ChainState) :
    state.Admissible ↔
      state.checked = .valid state ∧ ∀ branch ∈ state.forks, branch.Admissible := by
  rw [checked_eq_valid_iff]
  constructor
  · rintro ⟨confirmed, ordered, branches⟩
    exact ⟨⟨confirmed, ordered⟩, branches⟩
  · rintro ⟨⟨confirmed, ordered⟩, branches⟩
    exact ⟨confirmed, ordered, branches⟩

instance (state : ChainState) : Decidable state.Admissible :=
  decidable_of_iff _ state.admissible_iff.symm

theorem gives_readWindow :
    Reader.Gives length readWindow fun window =>
      (∀ time ∈ window, Unsigned 32 time) ∧ windowObjection? window = none :=
  (gives_list (gives_unsigned 32)).ensure windowObjection?

theorem gives_ofJson :
    Reader.Gives length ChainState.ofJson fun state =>
      state.Admissible ∧ ∀ branch ∈ state.forks, branch.chainwork.natAbs < 10 ^ length := by
  have read : Gives length fields fun state =>
      (state.confirmed.InRange ∧ windowObjection? state.confirmed.recentTimestamps = none) ∧
        ∀ branch ∈ state.forks,
          branch.Admissible ∧ branch.chainwork.natAbs < 10 ^ length := by
    unfold fields
    refine (Gives.optional (gives_list Branch.gives_ofJson) (List.forall_mem_nil _)).seq <|
      (Gives.required (gives_any _)).seq <|
      (Gives.required (gives_unsigned 32)).seq <|
      (Gives.required gives_readWindow).seq <|
      (Gives.required (gives_unsigned 32)).seq <|
      (Gives.required (gives_unsigned 32)).seq <|
      (Gives.required (gives_any _)).seq <|
      (Gives.required (gives_unsigned 64)).map ?_
    intro _ height _ _ _ bits _ timestamp _ window _ epochStart _ _ _ branches
    exact ⟨⟨⟨height, bits, timestamp, window.1, epochStart⟩, window.2⟩, branches⟩
  refine ((read.readObject.ensure tipObjection?).ensure orderObjection?).imp ?_
  rintro state ⟨⟨⟨⟨inRange, window⟩, branches⟩, tip⟩, order⟩
  obtain ⟨length, included⟩ := state.tipObjection?_eq_none_iff.mp tip
  have sorted := ((windowObjection?_eq_none_iff _).mp window).2
  exact ⟨⟨⟨inRange, sorted, length, included⟩, state.orderObjection?_eq_none_iff.mp order,
    fun branch mem => (branches branch mem).1⟩, fun branch mem => (branches branch mem).2⟩

end ChainState

end HeaderRelay
