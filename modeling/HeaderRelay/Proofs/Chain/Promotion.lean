import Mathlib
import HeaderRelay.Forks.Promotion
import HeaderRelay.Proofs.Chain.BranchMap

set_option autoImplicit false

namespace HeaderRelay

namespace Branch

/-- What is left of a branch when its oldest block is detached. -/
structure Shortened (branch remaining : Branch) : Prop where
  blocks : branch.blocks = remaining.blocks ++ [branch.oldest]
  newest : remaining.newest = branch.newest
  tipHash : remaining.tipHash = branch.tipHash
  tipHeight : remaining.tipHeight = branch.tipHeight
  chainwork : remaining.chainwork = branch.chainwork - branch.oldest.work

theorem getLast?_blocks (branch : Branch) : branch.blocks.getLast? = some branch.oldest :=
  List.getLast?_cons

theorem oldest_mem_blocks (branch : Branch) : branch.oldest ∈ branch.blocks :=
  List.mem_of_getLast? branch.getLast?_blocks

/-- The oldest block is the one before which there is none. -/
theorem oldest_of_blocks {branch : Branch} {newer : List BlockRecord} {record : BlockRecord}
    (split : branch.blocks = newer ++ [record]) : branch.oldest = record := by
  have last := branch.getLast?_blocks
  rw [split, List.getLast?_concat] at last
  exact (Option.some.inj last).symm

/-- The oldest block is all of the branch, or a shorter branch remains. -/
theorem popOldest_cases (branch : Branch) :
    (branch.blocks = [branch.oldest] ∧ branch.popOldest = (branch.oldest, none)) ∨
      ∃ remaining, branch.Shortened remaining ∧
        branch.popOldest = (branch.oldest, some remaining) := by
  cases last : branch.older.getLast? with
  | none =>
    have only : branch.older = [] := List.getLast?_eq_none_iff.mp last
    refine Or.inl ?_
    simp only [popOldest, oldest, blocks, only, List.getLast?_nil, Option.getD_none, and_self]
  | some record =>
    have first : branch.oldest = record := by rw [oldest, last, Option.getD_some]
    have split : branch.older = branch.older.dropLast ++ [record] :=
      (List.dropLast_append_getLast? record last).symm
    refine Or.inr ⟨{ branch with
      chainwork := branch.chainwork - record.work
      older := branch.older.dropLast }, ?_, ?_⟩
    · refine ⟨?_, rfl, rfl, rfl, ?_⟩
      · rw [first, blocks, blocks, List.cons_append, ← split]
      · rw [first]
    · rw [popOldest, last, first]

theorem popOldest_fst (branch : Branch) : branch.popOldest.1 = branch.oldest := by
  rcases branch.popOldest_cases with ⟨_, whole⟩ | ⟨remaining, _, rest⟩
  · rw [whole]
  · rw [rest]

theorem shortened_of_mem_popOldest {branch remaining : Branch}
    (mem : remaining ∈ branch.popOldest.2.toList) : branch.Shortened remaining := by
  rcases branch.popOldest_cases with ⟨_, whole⟩ | ⟨shorter, short, rest⟩
  · rw [whole] at mem
    cases mem
  · rw [rest, Option.toList_some, List.mem_singleton] at mem
    rw [mem]
    exact short

end Branch

namespace ChainState

variable {state : ChainState} {branch : Branch} {interval : Interval} {params : Params}

theorem highest_mem {branches : List Branch} (chosen : highest branches = some branch) :
    branch ∈ branches := by
  induction branches generalizing branch with
  | nil => cases chosen
  | cons first rest ih =>
    rw [highest] at chosen
    split at chosen
    · cases chosen
      exact List.mem_cons_self
    · rename_i rival top
      split at chosen
      · cases chosen
        exact List.mem_cons_of_mem _ (ih top)
      · cases chosen
        exact List.mem_cons_self

/-- A block is only ever confirmed of a branch that is there and mature. -/
theorem mem_of_winner? (wins : state.winner? interval params = some branch) :
    branch ∈ state.forks ∧ branch.isMature interval params = true :=
  List.mem_filter.mp (highest_mem wins)

def Rooted (state : ChainState) : Prop :=
  ∀ branch ∈ state.forks, branch.rootHash = state.confirmed.tipHash

/-- Where all branches stand on the confirmed tip, only the branch whose block is confirmed can
stay. Its rivals stand on the tip of before, which is not the block confirmed. -/
theorem forks_promoteOldest (rooted : state.Rooted) (mem : branch ∈ state.forks)
    (proper : branch.oldest.hash ≠ branch.oldest.prevHash) :
    (state.promoteOldest branch).forks = branch.popOldest.2.toList := by
  have dropped : (state.forks.filter fun other =>
      other.tipHash ≠ branch.tipHash && other.rootHash = branch.oldest.hash) = [] := by
    refine List.filter_eq_nil_iff.mpr ?_
    intro other there stays
    have onBlock : other.rootHash = branch.oldest.hash :=
      of_decide_eq_true (Bool.and_eq_true_iff.mp stays).2
    have root : branch.oldest.prevHash = state.confirmed.tipHash := rooted branch mem
    rw [rooted other there, ← root] at onBlock
    exact proper onBlock.symm
  have alone : Branch.Ordered branch.popOldest.2.toList := by
    cases branch.popOldest.2 with
    | none => exact List.Pairwise.nil
    | some remaining => exact List.pairwise_singleton _ _
  have kept := Branch.ofList_keyed_ordered alone
  simp only [Branch.keyed] at kept
  simp only [promoteOldest, survivors, branch.popOldest_fst, dropped, List.append_nil, kept]
  exact Branch.values_keyed

/-- No branch is left when the block is all of its branch, and otherwise the rest of this branch is
the only one. -/
theorem forks_promoteOldest_cases (rooted : state.Rooted) (mem : branch ∈ state.forks)
    (proper : branch.oldest.hash ≠ branch.oldest.prevHash) :
    (branch.blocks = [branch.oldest] ∧ (state.promoteOldest branch).forks = []) ∨
      ∃ remaining, branch.Shortened remaining ∧
        (state.promoteOldest branch).forks = [remaining] := by
  have forks := forks_promoteOldest rooted mem proper
  rcases branch.popOldest_cases with ⟨only, whole⟩ | ⟨remaining, short, rest⟩
  · rw [whole, Option.toList_none] at forks
    exact Or.inl ⟨only, forks⟩
  · rw [rest, Option.toList_some] at forks
    exact Or.inr ⟨remaining, short, forks⟩

/-- What holds of a state and a count, and stays when one more block is confirmed and counted, holds
when promotion ends. -/
theorem promoteUpTo_induction {motive : ChainState → Nat → Prop}
    (step : ∀ state count branch, motive state count →
      state.winner? interval params = some branch →
      motive (state.promoteOldest branch) (count + 1))
    (limit : Nat) (state : ChainState) (count : Nat) (holds : motive state count) :
    motive (promoteUpTo interval params limit state).1
      (count + (promoteUpTo interval params limit state).2) := by
  induction limit generalizing state count with
  | zero => exact holds
  | succ limit ih =>
    simp only [promoteUpTo]
    split
    · exact holds
    · rename_i branch wins
      have rest := ih _ _ (step state count branch holds wins)
      rw [Nat.add_assoc, Nat.add_comm 1] at rest
      exact rest

theorem promote_induction {motive : ChainState → Nat → Prop}
    (step : ∀ state count branch, motive state count →
      state.winner? interval params = some branch →
      motive (state.promoteOldest branch) (count + 1))
    (holds : motive state 0) :
    motive (state.promote interval params).1 (state.promote interval params).2 := by
  have final := promoteUpTo_induction step state.trackedCount state 0 holds
  rw [Nat.zero_add] at final
  exact final

end ChainState

end HeaderRelay
