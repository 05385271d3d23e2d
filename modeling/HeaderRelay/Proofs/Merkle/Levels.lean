import Mathlib
import HeaderRelay.Merkle.Tree

set_option autoImplicit false

namespace HeaderRelay.Merkle

@[simp] theorem rootOf_nil (policy : OddPolicy) : rootOf policy [] = Digest.zero := rfl

@[simp] theorem rootOf_singleton (policy : OddPolicy) (node : Digest) :
    rootOf policy [node] = node := by
  simp [rootOf, Tree.ofLeaves, levelsFrom, Tree.root]

theorem levelsFrom_ne_nil (policy : OddPolicy) (level : List Digest) :
    levelsFrom policy level ≠ [] := by
  unfold levelsFrom
  split <;> simp

theorem levelsFrom_narrow (policy : OddPolicy) (level : List Digest) (narrow : level.length ≤ 1) :
    levelsFrom policy level = [level] := by
  rw [levelsFrom, if_pos narrow]

/-- Above a level of two nodes or more stand the levels of its parents. -/
theorem levelsFrom_several (policy : OddPolicy) (level : List Digest)
    (several : 2 ≤ level.length) :
    levelsFrom policy level = level :: levelsFrom policy (parents policy level) := by
  rw [levelsFrom, if_neg (by omega)]

theorem levelsFrom_getElem?_zero (policy : OddPolicy) (level : List Digest) :
    (levelsFrom policy level)[0]? = some level := by
  by_cases narrow : level.length ≤ 1
  · rw [levelsFrom_narrow policy level narrow]
    rfl
  · rw [levelsFrom_several policy level (by omega)]
    rfl

theorem length_levelsFrom_pos (policy : OddPolicy) (level : List Digest) :
    0 < (levelsFrom policy level).length :=
  List.length_pos_iff.mpr (levelsFrom_ne_nil policy level)

theorem several_of_levels (policy : OddPolicy) (level : List Digest)
    (more : 1 < (levelsFrom policy level).length) : 2 ≤ level.length := by
  apply Decidable.byContradiction
  intro narrow
  rw [levelsFrom_narrow policy level (by omega), List.length_singleton] at more
  omega

theorem levels_ofLeaves (policy : OddPolicy) (leaves : List Digest) (nonempty : leaves ≠ []) :
    (Tree.ofLeaves policy leaves).levels = levelsFrom policy leaves := by
  cases leaves with
  | nil => exact absurd rfl nonempty
  | cons first rest => rfl

theorem policy_ofLeaves (policy : OddPolicy) (leaves : List Digest) :
    (Tree.ofLeaves policy leaves).policy = policy := by
  cases leaves <;> rfl

theorem leafCount_ofLeaves (policy : OddPolicy) (leaves : List Digest) :
    (Tree.ofLeaves policy leaves).leafCount = leaves.length := by
  cases leaves with
  | nil => rfl
  | cons first rest =>
    have lowest := levelsFrom_getElem?_zero policy (first :: rest)
    rw [← List.head?_eq_getElem?] at lowest
    simp only [Tree.ofLeaves, Tree.leafCount, lowest, Option.getD_some]

theorem parents_ne_nil (policy : OddPolicy) (level : List Digest) (nonempty : level ≠ []) :
    parents policy level ≠ [] := by
  have some := List.length_pos_iff.mpr nonempty
  apply List.length_pos_iff.mp
  rw [length_parents]
  omega

/-- Building from the level above a level gives the same root. -/
theorem rootOf_parents (policy : OddPolicy) (level : List Digest) (several : 2 ≤ level.length) :
    rootOf policy (parents policy level) = rootOf policy level := by
  match level, several with
  | left :: right :: rest, several =>
    have top : (levelsFrom policy (left :: right :: rest)).getLast? =
        (levelsFrom policy (parents policy (left :: right :: rest))).getLast? := by
      rw [levelsFrom_several policy _ several]
      exact List.getLast?_cons_of_ne_nil (levelsFrom_ne_nil policy _)
    simp only [rootOf, Tree.root, Tree.ofLeaves, top]
    rfl

/-- What holds of levels of at most one node, and of a level when it holds of the level above it,
holds of every level. -/
theorem level_induction {motive : List Digest → Prop} (policy : OddPolicy)
    (nil : motive []) (single : ∀ node, motive [node])
    (step : ∀ level, 2 ≤ level.length → motive (parents policy level) → motive level)
    (level : List Digest) : motive level := by
  induction size : level.length using Nat.strongRecOn generalizing level with
  | ind width ih =>
    match level, size with
    | [], _ => exact nil
    | [node], _ => exact single node
    | left :: right :: rest, size =>
      have several : 2 ≤ (left :: right :: rest).length := by simp
      have smaller : (parents policy (left :: right :: rest)).length < width := by
        rw [length_parents, ← size]
        omega
      exact step _ several (ih _ smaller _ rfl)

end HeaderRelay.Merkle
