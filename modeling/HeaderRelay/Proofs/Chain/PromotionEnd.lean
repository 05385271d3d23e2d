import Mathlib
import HeaderRelay.Proofs.Chain.PromotionEffect

/- Branches that do not stand on the confirmed tip, share blocks or share a tip may survive a
promotion and win the next one, but each confirmed block is taken off one branch and none is put
back. So the blocks that the branches hold are a measure of what is left to do. -/

set_option autoImplicit false

namespace HeaderRelay

namespace ChainState

variable {state final : ChainState} {branch : Branch} {interval : Interval} {params : Params}
  {count : Nat}

/-- Each confirmed block is one that the branches hold no more. -/
theorem Confirms.add_trackedCount_le (steps : Confirms interval params state count final) :
    count + final.trackedCount ≤ state.trackedCount := by
  induction steps with
  | refl state => exact Nat.le_of_eq (Nat.zero_add _)
  | step wins rest ih =>
    have fewer := trackedCount_promoteOldest_lt (mem_of_winner? wins).1
    omega

/-- Promotion does nothing only where there is nothing to confirm. -/
theorem winner?_eq_none_of_promote (nothing : (state.promote interval params).2 = 0) :
    state.winner? interval params = none := by
  cases wins : state.winner? interval params with
  | none => rfl
  | some branch =>
    rw [promote_of_winner wins] at nothing
    exact absurd nothing (Nat.succ_ne_zero _)

/-- The bound on the number of promotions does not cut them off: no branch is left to win. -/
theorem winner?_promote (state : ChainState) (interval : Interval) (params : Params) :
    (state.promote interval params).1.winner? interval params = none := by
  have settled := promote_promote state interval params
  exact winner?_eq_none_of_promote (congrArg Prod.snd settled)

/-- Whatever was confirmed so far, going on leads to where promotion ends. -/
theorem Confirms.rest (steps : Confirms interval params state count final) :
    ∃ left, (state.promote interval params).2 = count + left ∧
      Confirms interval params final left (state.promote interval params).1 := by
  have whole := steps.promote
  refine ⟨(final.promote interval params).2, congrArg Prod.snd whole, ?_⟩
  rw [congrArg Prod.fst whole]
  exact confirms_promote final

/-- From any state at all, promotion confirms blocks one after the other until no branch is mature,
and not more of them than the branches hold. There is no other way to go on for longer: every
sequence of promotions from the state is the beginning of this one. -/
theorem promote_ends (state : ChainState) (interval : Interval) (params : Params) :
    ∃ final count, state.promote interval params = (final, count) ∧
      Confirms interval params state count final ∧
      count + final.trackedCount ≤ state.trackedCount ∧
      final.winner? interval params = none ∧
      (∀ branch ∈ final.forks, branch.isMature interval params = false) ∧
      ∀ sofar now, Confirms interval params state sofar now →
        sofar ≤ count ∧ Confirms interval params now (count - sofar) final := by
  have whole : Confirms interval params state _ _ := confirms_promote state
  have done := winner?_promote state interval params
  refine ⟨(state.promote interval params).1, (state.promote interval params).2, rfl, whole,
    whole.add_trackedCount_le, done, ?_, ?_⟩
  · intro branch mem
    exact Bool.eq_false_iff.mpr (winner?_eq_none_iff.mp done branch mem)
  · intro sofar now steps
    obtain ⟨left, total, onward⟩ := steps.rest
    have remaining : (state.promote interval params).2 - sofar = left := by omega
    rw [remaining]
    exact ⟨by omega, onward⟩

end ChainState

namespace Sample

/-- Two branches that share a block. One stands on the confirmed tip, and the other one on a block
inside of the first, with a newest block that was added after the time of promotion. -/
def entangled : ChainState where
  confirmed := (block 0 0 10 0 2).tip
  history := Merkle.Accumulator.empty.append (Merkle.repeated 0)
  forks :=
    [⟨Merkle.repeated 2, 12, 5, block 2 1 12 0 2, [block 1 0 11 0 2]⟩,
      ⟨Merkle.repeated 3, 13, 4, block 3 2 13 500 2, [block 2 1 12 0 2]⟩]

def immediate : Params := { Params.regtest with maturationDepth := 0, challengeAging := 0 }

end Sample

namespace ChainState

/-- The branch on the confirmed tip wins first, and then the other one, which has more work than
what remains of the first. Only the block from after the time of promotion is left. -/
theorem promote_ends_entangled :
    ¬ Sample.entangled.Rooted ∧ Sample.entangled.trackedCount = 4 ∧
      ∃ final, Sample.entangled.promote Sample.settling Sample.immediate = (final, 2) ∧
        final.trackedCount = 1 ∧ final.winner? Sample.settling Sample.immediate = none ∧
        (∀ branch ∈ final.forks,
          branch.isMature Sample.settling Sample.immediate = false) ∧
        ∀ sofar now, Confirms Sample.settling Sample.immediate Sample.entangled sofar now →
          sofar ≤ 2 ∧ Confirms Sample.settling Sample.immediate now (2 - sofar) final := by
  have unrooted : ¬ Sample.entangled.Rooted := by
    intro rooted
    have onTip := List.forall_mem_cons.mp (List.forall_mem_cons.mp rooted).2
    revert onTip
    decide +kernel
  have two : (Sample.entangled.promote Sample.settling Sample.immediate).2 = 2 := by
    decide +kernel
  have one : (Sample.entangled.promote Sample.settling Sample.immediate).1.trackedCount = 1 := by
    decide +kernel
  obtain ⟨final, count, promoted, _, _, done, young, longest⟩ :=
    promote_ends Sample.entangled Sample.settling Sample.immediate
  rw [promoted] at two one
  cases two
  exact ⟨unrooted, by decide +kernel, final, promoted, one, done, young, longest⟩

end ChainState

end HeaderRelay
