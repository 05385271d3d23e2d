import Mathlib
import HeaderRelay.Proofs.Merkle.BlockProof
import HeaderRelay.Proofs.Merkle.RollingRoot

set_option autoImplicit false

namespace HeaderRelay.Merkle

theorem unpaired?_eq (level : List Digest) :
    unpaired? level = if level.length % 2 = 1 then level[level.length - 1]? else none := by
  induction level using pairUp.induct with
  | case1 left right rest ih =>
    have parity : (rest.length + 1 + 1) % 2 = rest.length % 2 := by omega
    rw [unpaired?, ih, List.length_cons, List.length_cons, parity]
    split
    · have last : rest.length + 1 + 1 - 1 = rest.length - 1 + 1 + 1 := by omega
      rw [last, List.getElem?_cons_succ, List.getElem?_cons_succ]
    · rfl
  | case2 last => rfl
  | case3 => rfl

theorem pairUp_drop (half : Nat) (level : List Digest) :
    pairUp (level.drop (2 * half)) = (pairUp level).drop half := by
  induction half generalizing level with
  | zero => rfl
  | succ half ih =>
    match level with
    | [] => rfl
    | [last] => rfl
    | left :: right :: rest => exact ih rest

theorem pairUp_take (half : Nat) (level : List Digest) :
    pairUp (level.take (2 * half)) = (pairUp level).take half := by
  induction half generalizing level with
  | zero => rfl
  | succ half ih =>
    match level with
    | [] => rfl
    | [last] => rfl
    | left :: right :: rest => exact congrArg (hashNodes left right :: ·) (ih rest)

/-- Going up from a level on which every node has a partner keeps the root. -/
theorem rootOf_pairUp {level : List Digest} (even : level.length % 2 = 0) :
    rootOf .carry (pairUp level) = rootOf .carry level := by
  have paired : unpaired? level = none := by
    rw [unpaired?_eq, if_neg (by omega)]
  have above := parents_append level none
  simp only [paired, joined, Option.toList_none, List.append_nil] at above
  rw [← above, rootOf_carry_parents]

theorem length_iterate_pairUp (height : Nat) (nodes : List Digest) :
    (pairUp^[height] nodes).length = nodes.length / 2 ^ height := by
  induction height generalizing nodes with
  | zero => rw [Function.iterate_zero_apply, Nat.pow_zero, Nat.div_one]
  | succ height ih =>
    rw [Function.iterate_succ_apply, ih, length_pairUp, Nat.div_div_eq_div_mul, Nat.pow_succ']

/-- Each node above stands over a whole group of nodes, and is the root of the tree over them. -/
theorem getElem?_iterate_pairUp (height place : Nat) (nodes : List Digest)
    (within : (place + 1) * 2 ^ height ≤ nodes.length) :
    (pairUp^[height] nodes)[place]? =
      some (rootOf .carry ((nodes.drop (place * 2 ^ height)).take (2 ^ height))) := by
  induction height generalizing nodes with
  | zero =>
    rw [Nat.pow_zero, Nat.mul_one] at within
    have alone : (nodes.drop place).take 1 = [nodes[place]] := by
      rw [List.drop_eq_getElem_cons within, List.take_succ_cons, List.take_zero]
    rw [Function.iterate_zero_apply, Nat.pow_zero, Nat.mul_one, alone, rootOf_singleton,
      List.getElem?_eq_getElem within]
  | succ height ih =>
    rw [Nat.pow_succ'] at within ⊢
    have start : place * (2 * 2 ^ height) = 2 * (place * 2 ^ height) := Nat.mul_left_comm _ _ _
    rw [Nat.succ_mul, start] at within
    have pairs : (place + 1) * 2 ^ height ≤ (pairUp nodes).length := by
      rw [length_pairUp, Nat.succ_mul]
      omega
    have even : ((nodes.drop (2 * (place * 2 ^ height))).take (2 * 2 ^ height)).length % 2 = 0 := by
      rw [List.length_take, List.length_drop, Nat.min_eq_left (by omega)]
      omega
    rw [Function.iterate_succ_apply, ih (pairUp nodes) pairs, start, ← pairUp_drop, ← pairUp_take,
      rootOf_pairUp even]

namespace Accumulator

/-- The higher slots over some nodes are those over the nodes above. -/
theorem drop_addAll (height : Nat) (nodes : List Digest) :
    (addAll [] nodes).drop height = addAll [] (pairUp^[height] nodes) := by
  induction height generalizing nodes with
  | zero => rfl
  | succ height ih =>
    rw [Function.iterate_succ_apply, ← ih]
    by_cases empty : nodes = []
    · subst empty
      exact List.drop_nil.trans List.drop_nil.symm
    · rw [addAll_nil nodes empty, List.drop_succ_cons]

theorem slot_addAll (nodes : List Digest) (place : Nat) :
    (addAll [] nodes)[place]?.join = unpaired? (pairUp^[place] nodes) := by
  have lowest : ∀ above : List Digest, (addAll [] above).head?.join = unpaired? above := by
    intro above
    by_cases empty : above = []
    · subst empty
      rfl
    · rw [addAll_nil above empty]
      rfl
  rw [← lowest, ← drop_addAll, List.head?_drop]

theorem countSlots_addAll (nodes : List Digest) : countSlots (addAll [] nodes) = nodes.length := by
  rw [← slots_ofLeaves]
  exact leafCount_ofLeaves nodes

/-- There are as many slots as the number of nodes has binary digits. -/
theorem length_addAll (nodes : List Digest) :
    (addAll [] nodes).length = (Nat.digits 2 nodes.length).length := by
  induction size : nodes.length using Nat.strongRecOn generalizing nodes with
  | ind width ih =>
    by_cases empty : nodes = []
    · subst empty
      subst size
      rfl
    · have positive : 0 < width := size ▸ List.length_pos_iff.mpr empty
      have half : (pairUp nodes).length = width / 2 := by rw [length_pairUp, size]
      have digits : Nat.digits 2 width = width % 2 :: Nat.digits 2 (width / 2) :=
        Nat.digits_def' (by decide) positive
      rw [addAll_nil nodes empty, digits, List.length_cons, List.length_cons,
        ih (width / 2) (by omega) _ half]

/-- How many leaves the occupied slots above a place cover together. -/
def coveredAbove (slots : List (Option Digest)) (place : Nat) : Nat :=
  ∑ higher ∈ Finset.Ioo place slots.length, if slots[higher]?.join.isSome then 2 ^ higher else 0

theorem countSlots_eq_sum (slots : List (Option Digest)) :
    countSlots slots =
      ∑ place ∈ Finset.range slots.length, if slots[place]?.join.isSome then 2 ^ place else 0 := by
  induction slots with
  | nil => rfl
  | cons slot rest ih =>
    have double : ∀ place, (if rest[place]?.join.isSome then 2 ^ (place + 1) else 0) =
        2 * if rest[place]?.join.isSome then 2 ^ place else 0 := by
      intro place
      rw [mul_ite, Nat.pow_succ', Nat.mul_zero]
    rw [countSlots, ih, List.length_cons, Finset.sum_range_succ', Finset.mul_sum]
    simp only [List.getElem?_cons_succ, List.getElem?_cons_zero, Option.join_some, double,
      Nat.pow_zero]
    cases slot <;> simp [Nat.add_comm]

theorem coveredAbove_eq (slots : List (Option Digest)) (place : Nat) :
    coveredAbove slots place = 2 ^ (place + 1) * countSlots (slots.drop (place + 1)) := by
  have shift : ∀ higher, (if slots[place + 1 + higher]?.join.isSome then
      2 ^ (place + 1 + higher) else 0) =
        2 ^ (place + 1) * if slots[place + 1 + higher]?.join.isSome then 2 ^ higher else 0 := by
    intro higher
    rw [mul_ite, Nat.pow_add, Nat.mul_zero]
  rw [coveredAbove, countSlots_eq_sum, ← Finset.Ico_add_one_left_eq_Ioo,
    Finset.sum_Ico_eq_sum_range, Finset.mul_sum, List.length_drop]
  simp only [List.getElem?_drop, shift]

/-- The higher slots cover whole groups twice as large, as many as there are. -/
theorem coveredAbove_addAll (nodes : List Digest) (place : Nat) :
    coveredAbove (addAll [] nodes) place = nodes.length / 2 ^ (place + 1) * 2 ^ (place + 1) := by
  rw [coveredAbove_eq, drop_addAll, countSlots_addAll, length_iterate_pairUp, Nat.mul_comm]

/-- A number of groups that is odd leaves the last group over, and the higher slots cover the groups
before it. -/
theorem coveredAbove_of_odd {nodes : List Digest} {place : Nat}
    (odd : nodes.length / 2 ^ place % 2 = 1) :
    coveredAbove (addAll [] nodes) place = (nodes.length / 2 ^ place - 1) * 2 ^ place := by
  have pairs : nodes.length / 2 ^ (place + 1) = nodes.length / 2 ^ place / 2 := by
    rw [Nat.div_div_eq_div_mul, Nat.pow_succ]
  have before : nodes.length / 2 ^ place - 1 = nodes.length / 2 ^ place / 2 * 2 := by omega
  rw [coveredAbove_addAll, pairs, before, Nat.pow_succ', Nat.mul_assoc]

theorem coveredAbove_add_le {nodes : List Digest} {place : Nat}
    (odd : nodes.length / 2 ^ place % 2 = 1) :
    coveredAbove (addAll [] nodes) place + 2 ^ place ≤ nodes.length := by
  have positive : 1 ≤ nodes.length / 2 ^ place := (Nat.odd_iff.mpr odd).pos
  calc
    _ = (nodes.length / 2 ^ place - 1 + 1) * 2 ^ place := by
      rw [coveredAbove_of_odd odd, Nat.succ_mul]
    _ = nodes.length / 2 ^ place * 2 ^ place := by rw [Nat.sub_add_cancel positive]
    _ ≤ nodes.length := Nat.div_mul_le_self _ _

/-- The slot of a digit that is one holds the root over the last group. -/
theorem slot_of_odd {nodes : List Digest} {place : Nat}
    (odd : nodes.length / 2 ^ place % 2 = 1) :
    (addAll [] nodes)[place]?.join =
      some (rootOf .carry
        ((nodes.drop (coveredAbove (addAll [] nodes) place)).take (2 ^ place))) := by
  have within := coveredAbove_add_le odd
  rw [coveredAbove_of_odd odd, ← Nat.succ_mul] at within
  rw [slot_addAll, unpaired?_eq, length_iterate_pairUp, if_pos odd,
    getElem?_iterate_pairUp place _ nodes within, coveredAbove_of_odd odd]

/-- The slots of an accumulator are a binary counter. There are as many as the number of leaves has
binary digits, a slot is occupied when its digit is one, and then it holds the root of the tree over
as many consecutive leaves as the digit is worth, which begin after those that the higher slots
cover. Appending counts one more leaf, whatever slots there are. -/
theorem slots_ofLeaves_binary (leaves : List Digest) :
    (ofLeaves leaves).slots.length = (Nat.digits 2 leaves.length).length ∧
      (∀ place, (ofLeaves leaves).slots[place]?.join =
        if leaves.length.testBit place then
          some (rootOf .carry
            ((leaves.drop (coveredAbove (ofLeaves leaves).slots place)).take (2 ^ place)))
        else none) ∧
      (∀ place, leaves.length.testBit place = true →
        coveredAbove (ofLeaves leaves).slots place + 2 ^ place ≤ leaves.length) ∧
      (ofLeaves leaves).leafCount = leaves.length ∧
      ∀ (accumulator : Accumulator) (leaf : Digest),
        (accumulator.append leaf).leafCount = accumulator.leafCount + 1 := by
  rw [slots_ofLeaves]
  have digit : ∀ place, leaves.length.testBit place = true ↔
      leaves.length / 2 ^ place % 2 = 1 := by
    intro place
    rw [Nat.testBit_eq_decide_div_mod_eq, decide_eq_true_eq]
  refine ⟨length_addAll leaves, ?_, ?_, leafCount_ofLeaves leaves, leafCount_append⟩
  · intro place
    by_cases odd : leaves.length / 2 ^ place % 2 = 1
    · rw [slot_of_odd odd, if_pos ((digit place).mpr odd)]
    · rw [slot_addAll, unpaired?_eq, length_iterate_pairUp, if_neg odd,
        if_neg (mt (digit place).mp odd)]
  · intro place set
    exact coveredAbove_add_le ((digit place).mp set)

/-- Five leaves fill the lowest slot and the third, and the other slot is empty. -/
theorem slots_ofLeaves_binary_fiveLeaves :
    let leaves := [repeated 1, repeated 2, repeated 3, repeated 4, repeated 5]
    (5).testBit 0 = true ∧ coveredAbove (ofLeaves leaves).slots 0 + 2 ^ 0 ≤ leaves.length ∧
      (ofLeaves leaves).slots.length = 3 ∧
      (ofLeaves leaves).slots[0]?.join = some (repeated 5) ∧
      (ofLeaves leaves).slots[1]?.join = none ∧
      (ofLeaves leaves).slots[2]?.join =
        some (rootOf .carry [repeated 1, repeated 2, repeated 3, repeated 4]) := by
  intro leaves
  obtain ⟨length, slots, within, _⟩ := slots_ofLeaves_binary leaves
  have set : leaves.length.testBit 0 = true := by decide
  have covered : ∀ place, coveredAbove (ofLeaves leaves).slots place =
      5 / 2 ^ (place + 1) * 2 ^ (place + 1) := by
    rw [slots_ofLeaves]
    exact coveredAbove_addAll leaves
  refine ⟨set, within 0 set, ?_, ?_, ?_, ?_⟩
  · rw [length]
    decide
  · rw [slots 0, if_pos set, covered 0]
    exact congrArg some (rootOf_singleton .carry (repeated 5))
  · exact (slots 1).trans (if_neg (by decide))
  · rw [slots 2, if_pos (by decide), covered 2]
    rfl

end Accumulator

end HeaderRelay.Merkle
