import Mathlib
import HeaderRelay.Proofs.Chain.Promotion

set_option autoImplicit false

namespace HeaderRelay.ChainState

variable {state final : ChainState} {branch : Branch} {interval : Interval} {params : Params}
  {count : Nat}

/-- The branches that stay, as far as they are of different tips, are some of what remains of the
branch and of those that stand on its oldest block. -/
theorem forks_promoteOldest_subperm (state : ChainState) (branch : Branch) :
    Branch.Ordered (state.promoteOldest branch).forks ∧
      (state.promoteOldest branch).forks.Subperm (branch.popOldest.2.toList ++
        state.forks.filter fun other =>
          other.tipHash ≠ branch.tipHash && other.rootHash = branch.oldest.hash) := by
  obtain ⟨joined, same, ordered, fewer⟩ := Branch.exists_ofList_keyed
    (branch.popOldest.2.toList ++ state.forks.filter fun other =>
      other.tipHash ≠ branch.tipHash && other.rootHash = branch.oldest.hash)
  have forks : (state.promoteOldest branch).forks = joined := by
    simp only [Branch.keyed] at same
    simp only [promoteOldest, survivors, branch.popOldest_fst, same]
    exact Branch.values_keyed
  rw [forks]
  exact ⟨ordered, fewer⟩

/-- Whatever the branches stand on, one that stays is what remains of the branch whose block is
confirmed, or was there before. -/
theorem mem_forks_promoteOldest {other : Branch}
    (mem : other ∈ (state.promoteOldest branch).forks) :
    branch.Shortened other ∨ other ∈ state.forks := by
  rcases List.mem_append.mp ((forks_promoteOldest_subperm state branch).2.subset mem) with
    rest | stays
  · exact Or.inl (Branch.shortened_of_mem_popOldest rest)
  · exact Or.inr (List.mem_filter.mp stays).1

theorem length_blocks_popOldest (branch : Branch) :
    (branch.popOldest.2.toList.flatMap Branch.blocks).length + 1 = branch.blocks.length := by
  rcases branch.popOldest_cases with ⟨only, whole⟩ | ⟨remaining, short, rest⟩
  · simp [whole, only]
  · simp [rest, short.blocks]

theorem length_blocks_le_of_subperm {branches more : List Branch} (fewer : branches.Subperm more) :
    (branches.flatMap Branch.blocks).length ≤ (more.flatMap Branch.blocks).length := by
  obtain ⟨part, perm, sublist⟩ := fewer
  have same : (part.flatMap Branch.blocks).length = (branches.flatMap Branch.blocks).length :=
    (perm.flatMap_right Branch.blocks).length_eq
  have some : (part.flatMap Branch.blocks).length ≤ (more.flatMap Branch.blocks).length :=
    (sublist.map Branch.blocks).flatten.length_le
  omega

theorem trackedCount_promoteOldest_lt (mem : branch ∈ state.forks) :
    (state.promoteOldest branch).trackedCount < state.trackedCount := by
  let others := state.forks.filter fun other => !decide (other.tipHash = branch.tipHash)
  have kept : (state.promoteOldest branch).trackedCount ≤
      (branch.popOldest.2.toList.flatMap Branch.blocks).length +
        (others.flatMap Branch.blocks).length := by
    have standing : (state.forks.filter fun other =>
        other.tipHash ≠ branch.tipHash && other.rootHash = branch.oldest.hash).Sublist others := by
      apply List.monotone_filter_right
      intro other stays
      have apart := (Bool.and_eq_true_iff.mp stays).1
      simpa using apart
    have fewer := (forks_promoteOldest_subperm state branch).2
    rw [← List.length_append, ← List.flatMap_append]
    exact length_blocks_le_of_subperm (fewer.trans (standing.append_left _).subperm)
  -- the branch itself is one of those with its tip
  have whole : branch.blocks.length + (others.flatMap Branch.blocks).length ≤
      state.trackedCount := by
    have split := List.filter_append_perm (fun other => decide (other.tipHash = branch.tipHash))
      state.forks
    have there : branch ∈ state.forks.filter fun other => other.tipHash = branch.tipHash :=
      List.mem_filter.mpr ⟨mem, by simp⟩
    have alone := (List.singleton_sublist.mpr there).append_right others
    have fewer := length_blocks_le_of_subperm (alone.subperm.trans split.subperm)
    simpa [trackedCount] using fewer
  have shorter := length_blocks_popOldest branch
  omega

theorem winner?_eq_none_of_trackedCount (nothing : state.trackedCount = 0) :
    state.winner? interval params = none := by
  cases wins : state.winner? interval params with
  | none => rfl
  | some branch =>
    have fewer := trackedCount_promoteOldest_lt (mem_of_winner? wins).1
    omega

/-- Bounds that cover the tracked blocks all allow the same. -/
theorem promoteUpTo_congr (limit bound : Nat) (state : ChainState)
    (enough : state.trackedCount ≤ limit) (covers : state.trackedCount ≤ bound) :
    promoteUpTo interval params limit state = promoteUpTo interval params bound state := by
  induction limit generalizing bound state with
  | zero =>
    have none : state.winner? interval params = none :=
      winner?_eq_none_of_trackedCount (Nat.le_zero.mp enough)
    cases bound <;> simp only [promoteUpTo, none]
  | succ limit ih =>
    cases bound with
    | zero =>
      have none : state.winner? interval params = none :=
        winner?_eq_none_of_trackedCount (Nat.le_zero.mp covers)
      simp only [promoteUpTo, none]
    | succ bound =>
      simp only [promoteUpTo]
      cases wins : state.winner? interval params with
      | none => rfl
      | some branch =>
        have fewer := trackedCount_promoteOldest_lt (mem_of_winner? wins).1
        have rest := ih bound (state.promoteOldest branch) (by omega) (by omega)
        simp only [rest]

theorem promote_of_winner (wins : state.winner? interval params = some branch) :
    state.promote interval params =
      (((state.promoteOldest branch).promote interval params).1,
        ((state.promoteOldest branch).promote interval params).2 + 1) := by
  have fewer := trackedCount_promoteOldest_lt (mem_of_winner? wins).1
  have some : state.trackedCount ≠ 0 := by omega
  obtain ⟨rest, tracked⟩ := Nat.exists_eq_add_one_of_ne_zero some
  have onward : promoteUpTo interval params rest (state.promoteOldest branch) =
      (state.promoteOldest branch).promote interval params :=
    promoteUpTo_congr _ _ _ (by omega) (Nat.le_refl _)
  simp only [promote, tracked, promoteUpTo, wins] at onward ⊢
  simp only [onward]

/-- So many blocks are confirmed, one after the other, and lead from a state to another one. -/
inductive Confirms (interval : Interval) (params : Params) : ChainState → Nat → ChainState → Prop
  | refl (state : ChainState) : Confirms interval params state 0 state
  | step {state final : ChainState} {branch : Branch} {count : Nat}
      (wins : state.winner? interval params = some branch)
      (rest : Confirms interval params (state.promoteOldest branch) count final) :
      Confirms interval params state (count + 1) final

theorem confirms_promoteUpTo (limit : Nat) (state : ChainState) :
    Confirms interval params state (promoteUpTo interval params limit state).2
      (promoteUpTo interval params limit state).1 := by
  induction limit generalizing state with
  | zero => exact Confirms.refl state
  | succ limit ih =>
    simp only [promoteUpTo]
    split
    · exact Confirms.refl state
    · rename_i branch wins
      exact Confirms.step wins (ih _)

theorem confirms_promote (state : ChainState) :
    Confirms interval params state (state.promote interval params).2
      (state.promote interval params).1 :=
  confirms_promoteUpTo _ state

/-- What is confirmed first is part of what is confirmed in all. -/
theorem Confirms.promote (steps : Confirms interval params state count final) :
    state.promote interval params =
      ((final.promote interval params).1, count + (final.promote interval params).2) := by
  induction steps with
  | refl state => rw [Nat.zero_add]
  | step wins rest ih =>
    rw [promote_of_winner wins, ih]
    simp only [Prod.mk.injEq, true_and]
    omega

end HeaderRelay.ChainState
