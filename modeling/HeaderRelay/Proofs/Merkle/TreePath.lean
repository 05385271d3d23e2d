import Mathlib
import HeaderRelay.Proofs.Merkle.BlockProof

set_option autoImplicit false

namespace HeaderRelay.Merkle

variable {policy : OddPolicy} {level : List Digest} {position : Nat} {node : Digest}

namespace Tree

/-- The way up from a position of a level of several nodes: a step at this level, if there is one,
and then the way up from the level above. -/
theorem stepsFrom_levelsFrom (policy : OddPolicy) (level : List Digest) (position : Nat)
    (several : 2 ≤ level.length) :
    stepsFrom policy position (levelsFrom policy level) =
      let onward := stepsFrom policy (position / 2) (levelsFrom policy (parents policy level))
      match level[position ^^^ 1]?, policy with
      | some sibling, _ => onward.map ((decide (position % 2 = 1), sibling) :: ·)
      | none, .carry => onward
      | none, .duplicate =>
        match level[position]? with
        | some node => onward.map ((false, node) :: ·)
        | none => .error .node := by
  rw [levelsFrom_several policy level several]
  cases above : levelsFrom policy (parents policy level) with
  | nil => exact absurd above (levelsFrom_ne_nil policy _)
  | cons next rest => rfl

end Tree

/-- The partner of a node in a pair, and their parent. -/
theorem exists_partner (policy : OddPolicy) (there : level[position]? = some node)
    (partner : 2 * (position / 2) + 1 < level.length) :
    ∃ sibling, level[position ^^^ 1]? = some sibling ∧
      (parents policy level)[position / 2]? = some
        (hashNodes (ordered (decide (position % 2 = 1)) node sibling).1
          (ordered (decide (position % 2 = 1)) node sibling).2) := by
  by_cases side : position % 2 = 1
  · have other : position ^^^ 1 = 2 * (position / 2) := by
      rw [Nat.xor_one_of_odd (Nat.odd_iff.mpr side)]
      omega
    have own : 2 * (position / 2) + 1 = position := by omega
    have left := List.getElem?_eq_getElem (show 2 * (position / 2) < level.length by omega)
    have right : level[2 * (position / 2) + 1]? = some node := by rw [own, there]
    rw [other]
    refine ⟨_, left, ?_⟩
    simp only [side, decide_true, ordered, ↓reduceIte]
    exact (parents_of_pair policy level _ _ _ left right).1
  · have own : 2 * (position / 2) = position := by omega
    have other : position ^^^ 1 = 2 * (position / 2) + 1 := by
      rw [Nat.xor_one_of_even (Nat.even_iff.mpr (by omega)), own]
    have left : level[2 * (position / 2)]? = some node := by rw [own, there]
    have right := List.getElem?_eq_getElem partner
    rw [other]
    refine ⟨_, right, ?_⟩
    simp only [side, decide_false, ordered, Bool.false_eq_true, ↓reduceIte]
    exact (parents_of_pair policy level _ _ _ left right).1

/-- A node without a partner is the last of its level, which ends the level on an even place. -/
theorem alone_of_no_partner (policy : OddPolicy) (there : level[position]? = some node)
    (alone : ¬ 2 * (position / 2) + 1 < level.length) :
    level[position ^^^ 1]? = none ∧ position % 2 = 0 ∧ level.length = position + 1 ∧
      (parents policy level)[position / 2]? = some (policy.close node) := by
  have within : position < level.length := (List.getElem?_eq_some_iff.mp there).1
  have even : position % 2 = 0 := by omega
  have own : 2 * (position / 2) = position := by omega
  have last : level.length = position + 1 := by omega
  refine ⟨?_, even, last, ?_⟩
  · rw [Nat.xor_one_of_even (Nat.even_iff.mpr even)]
    exact List.getElem?_eq_none (by omega)
  · rw [← own] at there
    exact parents_of_last policy level _ node there (by omega)

/-- Which path index the steps up from a position give: the position itself where the last node is
paired with itself, and the bits without the carried levels where it is carried. -/
def BitsOf (policy : OddPolicy) (position width : Nat) (bits : List Bool) : Prop :=
  match policy with
  | .duplicate => bitsValue bits = position
  | .carry => bits = carriedBits position width

namespace BitsOf

variable {width : Nat} {bits : List Bool}

theorem narrow (policy : OddPolicy) (within : position < width) (small : width ≤ 1) :
    BitsOf policy position width [] := by
  cases policy with
  | carry => exact (carriedBits_narrow position width small).symm
  | duplicate =>
    change 0 = position
    omega

theorem paired (partner : 2 * (position / 2) + 1 < width)
    (above : BitsOf policy (position / 2) ((width + 1) / 2) bits) :
    BitsOf policy position width (decide (position % 2 = 1) :: bits) := by
  cases policy with
  | carry =>
    change bits = _ at above
    rw [BitsOf, carriedBits_paired position width partner, above]
  | duplicate =>
    change bitsValue bits = position / 2 at above
    change (decide (position % 2 = 1)).toNat + 2 * bitsValue bits = position
    rw [above]
    by_cases side : position % 2 = 1 <;> simp only [side, decide_true, decide_false,
      Bool.toNat_true, Bool.toNat_false] <;> omega

end BitsOf

/-- From each node of a level the way up the levels above it ends at their root, and its bits are
those of the position. -/
theorem exists_steps (policy : OddPolicy) (level : List Digest) (position : Nat) (node : Digest)
    (there : level[position]? = some node) :
    ∃ steps, Tree.stepsFrom policy position (levelsFrom policy level) = .ok steps ∧
      fold (bitsValue (steps.map Prod.fst) : Nat) node (steps.map Prod.snd) =
        rootOf policy level ∧
      BitsOf policy position level.length (steps.map Prod.fst) := by
  induction level using level_induction policy generalizing position node with
  | nil => cases there
  | single only =>
    have first : position = 0 := by simpa using (List.getElem?_eq_some_iff.mp there).1
    subst first
    cases Option.some.inj there
    rw [levelsFrom_narrow policy [only] (by simp), rootOf_singleton]
    exact ⟨[], rfl, rfl, BitsOf.narrow policy (by simp) (by simp)⟩
  | step level several ih =>
    rw [length_parents] at ih
    rw [Tree.stepsFrom_levelsFrom policy level position several,
      ← rootOf_parents policy level several]
    by_cases partner : 2 * (position / 2) + 1 < level.length
    · obtain ⟨sibling, beside, parent⟩ := exists_partner policy there partner
      obtain ⟨steps, onward, reached, bits⟩ := ih (position / 2) _ parent
      refine ⟨(decide (position % 2 = 1), sibling) :: steps, ?_, ?_, bits.paired partner⟩
      · rw [beside, onward]
        rfl
      · rw [List.map_cons, List.map_cons, fold_bit]
        exact reached
    · -- a carried node makes no step here, a duplicated one has itself for a sibling
      obtain ⟨bare, even, last, parent⟩ := alone_of_no_partner policy there partner
      obtain ⟨steps, onward, reached, bits⟩ := ih (position / 2) _ parent
      cases policy with
      | carry =>
        refine ⟨steps, ?_, reached, ?_⟩
        · rw [bare, onward]
        · exact bits.trans (carriedBits_carried position level.length several (by omega)
            (by omega)).symm
      | duplicate =>
        refine ⟨(false, node) :: steps, ?_, ?_, ?_⟩
        · rw [bare, there, onward]
          rfl
        · rw [List.map_cons, List.map_cons, fold_bit]
          exact reached
        · have up : bitsValue (steps.map Prod.fst) = position / 2 := bits
          change 0 + 2 * bitsValue (steps.map Prod.fst) = position
          omega

theorem carriedIndex_natCast {count : Nat} (within : position < count) :
    carriedIndex position count = .ok (bitsValue (carriedBits position count)) := by
  rw [carriedIndex, if_pos (by omega), Int.toNat_natCast, Int.toNat_natCast]

/-- The tree over some leaves gives a path for each of them, and the path leads from the leaf to the
root. Its index is the position of the leaf or, where odd nodes are carried upward, the one that is
computed from the position and the number of leaves. -/
theorem exists_prove (policy : OddPolicy) (leaves : List Digest) (position : Nat) (leaf : Digest)
    (there : leaves[position]? = some leaf) :
    ∃ path, (Tree.ofLeaves policy leaves).prove position = .ok path ∧
      path.root leaf = rootOf policy leaves ∧
      match policy with
      | .duplicate => path.index = position
      | .carry => carriedIndex position leaves.length = .ok path.index := by
  have within : position < leaves.length := (List.getElem?_eq_some_iff.mp there).1
  have nonempty : leaves ≠ [] := List.length_pos_iff.mp (by omega)
  obtain ⟨steps, onward, reached, bits⟩ := exists_steps policy leaves position leaf there
  refine ⟨⟨bitsValue (steps.map Prod.fst), steps.map Prod.snd⟩, ?_, reached, ?_⟩
  · rw [Tree.prove, leafCount_ofLeaves, if_pos (by omega), policy_ofLeaves,
      levels_ofLeaves policy leaves nonempty, Int.toNat_natCast, onward]
    rfl
  · cases policy with
    | duplicate => exact bits
    | carry =>
      have same : steps.map Prod.fst = carriedBits position leaves.length := bits
      rw [carriedIndex_natCast within, same]

/-- Each leaf of a tree has a path, which leads from this leaf to the root of the tree and is
accepted for them. -/
theorem verify_prove (policy : OddPolicy) (leaves : List Digest) (index : Fin leaves.length) :
    ∃ path, (Tree.ofLeaves policy leaves).prove (index : Nat) = .ok path ∧
      path.root (leaves.get index) = (Tree.ofLeaves policy leaves).root ∧
      path.verify (leaves.get index) (Tree.ofLeaves policy leaves).root = true ∧
      match policy with
      | .duplicate => path.index = index
      | .carry => carriedIndex (index : Nat) leaves.length = .ok path.index := by
  obtain ⟨path, proved, reached, named⟩ := exists_prove policy leaves index (leaves.get index)
    (List.getElem?_eq_getElem index.isLt)
  exact ⟨path, proved, reached, decide_eq_true reached, named⟩

example : (Tree.ofLeaves .carry threeLeaves).prove 2 =
    .ok ⟨1, [hashNodes (repeated 1) (repeated 2)]⟩ := by
  decide +kernel

end HeaderRelay.Merkle
