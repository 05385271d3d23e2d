import Mathlib
import HeaderRelay.Proofs.Chain.Promotion

set_option autoImplicit false

namespace HeaderRelay

theorem Branch.isMature_iff {branch : Branch} {interval : Interval} {params : Params} :
    branch.isMature interval params = true ↔
      params.maturationDepth.toNat ≤ branch.blocks.length ∧
        (params.challengeAging.toNat : Int) ≤ interval.lower.toNat - branch.oldest.addedTime := by
  simp only [isMature, Bool.and_eq_true, decide_eq_true_eq]

namespace ChainState

variable {state : ChainState} {branches : List Branch} {branch rival other : Branch}
  {interval : Interval} {params : Params}

theorem outranks_iff (branch rival : Branch) :
    outranks branch rival = true ↔
      rival.chainwork < branch.chainwork ∨
        branch.chainwork = rival.chainwork ∧ branch.tipHash < rival.tipHash := by
  simp [outranks]

theorem outranks_asymm (above : outranks branch rival = true) : ¬ outranks rival branch = true := by
  rw [outranks_iff] at above ⊢
  intro below
  rcases above with more | ⟨same, tip⟩
  · omega
  · have tipToo : rival.tipHash < branch.tipHash := by
      rcases below with more | ⟨_, tipToo⟩
      · omega
      · exact tipToo
    exact List.lt_asymm tip tipToo

/-- Ranks compare like numbers: what is not outranked by something lower is not outranked. -/
theorem outranks_or_outranks (middle : Branch) (above : outranks branch rival = true) :
    outranks branch middle = true ∨ outranks middle rival = true := by
  simp only [outranks_iff] at above ⊢
  by_cases less : middle.chainwork < branch.chainwork
  · exact Or.inl (Or.inl less)
  by_cases more : rival.chainwork < middle.chainwork
  · exact Or.inr (Or.inl more)
  -- all three have the same work, and the tips decide
  have level : branch.chainwork = rival.chainwork := by omega
  have tip : branch.tipHash < rival.tipHash := by
    rcases above with higher | ⟨_, tip⟩
    · omega
    · exact tip
  rcases Bytes.lt_trichotomy branch.tipHash.bytes middle.tipHash.bytes with before | same | after
  · exact Or.inl (Or.inr ⟨by omega, before⟩)
  · have tips : branch.tipHash = middle.tipHash := SizedBytes.ext_bytes same
    exact Or.inr (Or.inr ⟨by omega, tips ▸ tip⟩)
  · exact Or.inr (Or.inr ⟨by omega, List.lt_trans after tip⟩)

theorem outranks_of_tipHash_ne (different : branch.tipHash ≠ rival.tipHash) :
    outranks branch rival = true ∨ outranks rival branch = true := by
  simp only [outranks_iff]
  by_cases less : branch.chainwork < rival.chainwork
  · exact Or.inr (Or.inl less)
  by_cases more : rival.chainwork < branch.chainwork
  · exact Or.inl (Or.inl more)
  have level : branch.chainwork = rival.chainwork := by omega
  rcases Bytes.lt_trichotomy branch.tipHash.bytes rival.tipHash.bytes with before | same | after
  · exact Or.inl (Or.inr ⟨level, before⟩)
  · exact absurd (SizedBytes.ext_bytes same) different
  · exact Or.inr (Or.inr ⟨level.symm, after⟩)

theorem highest_eq_none_iff : highest branches = none ↔ branches = [] := by
  cases branches with
  | nil => simp [highest]
  | cons first rest =>
    simp only [highest, reduceCtorEq, iff_false]
    split
    · simp
    · split <;> simp

theorem not_outranks_highest (chosen : highest branches = some branch) (mem : other ∈ branches) :
    ¬ outranks other branch = true := by
  induction branches generalizing branch with
  | nil => cases chosen
  | cons first rest ih =>
    simp only [highest] at chosen
    split at chosen
    · rename_i alone
      cases chosen
      rw [highest_eq_none_iff.mp alone, List.mem_singleton] at mem
      intro above
      rw [mem] at above
      exact outranks_asymm above above
    · rename_i top ofRest
      split at chosen
      · rename_i higher
        cases chosen
        rcases List.mem_cons.mp mem with rfl | later
        · exact outranks_asymm higher
        · exact ih ofRest later
      · rename_i notHigher
        cases chosen
        rcases List.mem_cons.mp mem with rfl | later
        · exact fun above => outranks_asymm above above
        · intro above
          rcases outranks_or_outranks top above with overTop | overFirst
          · exact ih ofRest later overTop
          · exact notHigher overFirst

theorem highest_eq_some_iff (distinct : Branch.Distinct branches) :
    highest branches = some branch ↔
      branch ∈ branches ∧ ∀ other ∈ branches, ¬ outranks other branch = true := by
  constructor
  · intro chosen
    exact ⟨highest_mem chosen, fun other mem => not_outranks_highest chosen mem⟩
  · rintro ⟨mem, unbeaten⟩
    cases chosen : highest branches with
    | none =>
      rw [highest_eq_none_iff.mp chosen] at mem
      cases mem
    | some top =>
      have memTop : top ∈ branches := highest_mem chosen
      by_cases same : top.tipHash = branch.tipHash
      · rw [distinct.eq_of_tipHash_eq memTop mem same]
      · rcases outranks_of_tipHash_ne same with above | below
        · exact absurd above (unbeaten top memTop)
        · exact absurd below (not_outranks_highest chosen mem)

theorem winner?_eq_none_iff :
    state.winner? interval params = none ↔
      ∀ branch ∈ state.forks, ¬ branch.isMature interval params = true := by
  rw [winner?, highest_eq_none_iff, List.filter_eq_nil_iff]

/-- The winner is mature, and no mature branch outranks it. -/
theorem winner?_eq_some_iff (distinct : Branch.Distinct state.forks) :
    state.winner? interval params = some branch ↔
      (branch ∈ state.forks ∧ branch.isMature interval params = true) ∧
        ∀ other ∈ state.forks, other.isMature interval params = true →
          ¬ outranks other branch = true := by
  rw [winner?, highest_eq_some_iff (distinct.filter _)]
  simp only [List.mem_filter, and_imp]

end ChainState

end HeaderRelay
