import Mathlib
import HeaderRelay.Proofs.Merkle.TreePath

set_option autoImplicit false

namespace HeaderRelay.Merkle

/-- With the side known, the pair that is hashed tells the running hash and the sibling. -/
theorem eq_of_ordered_eq (siblingLeft : Bool) {running sibling running' sibling' : Digest}
    (first : (ordered siblingLeft running sibling).1 = (ordered siblingLeft running' sibling').1)
    (second : (ordered siblingLeft running sibling).2 = (ordered siblingLeft running' sibling').2) :
    running = running' ∧ sibling = sibling' := by
  cases siblingLeft with
  | true => exact ⟨second, first⟩
  | false => exact ⟨first, second⟩

/-- Folds that reach the same node with the same index and as many siblings began at the same leaf
and have the same siblings. -/
theorem eq_of_fold_eq (index : Int) (leaf leaf' : Digest) (siblings siblings' : List Digest)
    (sameLength : siblings.length = siblings'.length)
    (free : CollisionFree (foldStrings index leaf siblings ++ foldStrings index leaf' siblings'))
    (same : fold index leaf siblings = fold index leaf' siblings') :
    leaf = leaf' ∧ siblings = siblings' := by
  induction siblings generalizing index leaf leaf' siblings' with
  | nil =>
    cases List.eq_nil_of_length_eq_zero sameLength.symm
    exact ⟨same, rfl⟩
  | cons sibling rest ih =>
    obtain ⟨sibling', rest', rfl⟩ := List.exists_of_length_succ siblings' sameLength.symm
    rw [fold_ordered, fold_ordered] at same
    rw [foldStrings_ordered, foldStrings_ordered] at free
    have freeAbove := free.tail.mono fun _ mem => List.mem_cons_of_mem _ mem
    -- the nodes above the two leaves start the shorter folds, so they agree before the leaves do
    obtain ⟨above, sameRest⟩ := ih (index / 2) _ _ rest' (Nat.succ.inj sameLength) freeAbove same
    have children := children_eq free (List.mem_append_left _ List.mem_cons_self)
      (List.mem_append_right _ List.mem_cons_self) above
    obtain ⟨sameLeaf, sameSibling⟩ := eq_of_ordered_eq _ children.1 children.2
    exact ⟨sameLeaf, by rw [sameSibling, sameRest]⟩

/-- Where a leaf is accepted with some siblings, a change of the leaf or of a sibling is refused. -/
theorem refused_of_changed {index : Int} {leaf leaf' root : Digest}
    {siblings siblings' : List Digest} (sameLength : siblings'.length = siblings.length)
    (free : CollisionFree (foldStrings index leaf siblings ++ foldStrings index leaf' siblings'))
    (accepted : verifies index leaf siblings root = true)
    (changed : leaf' ≠ leaf ∨ siblings' ≠ siblings) :
    verifies index leaf' siblings' root = false := by
  apply decide_eq_false
  intro reached
  have same : fold index leaf siblings = fold index leaf' siblings' :=
    (of_decide_eq_true accepted).trans reached.symm
  obtain ⟨sameLeaf, sameSiblings⟩ :=
    eq_of_fold_eq index leaf leaf' siblings siblings' sameLength.symm free same
  rcases changed with otherLeaf | otherSiblings
  · exact otherLeaf sameLeaf.symm
  · exact otherSiblings sameSiblings.symm

/-- Among paths of one index and one length the root tells the leaf and the siblings. So a tree
gives each of its leaves a path that is accepted, and with another leaf, or with a sibling changed,
this path is refused. -/
theorem binding_along_path :
    (∀ (index : Int) (leaf leaf' : Digest) (siblings siblings' : List Digest),
      siblings.length = siblings'.length →
      CollisionFree (foldStrings index leaf siblings ++ foldStrings index leaf' siblings') →
      fold index leaf siblings = fold index leaf' siblings' →
      leaf = leaf' ∧ siblings = siblings') ∧
    ∀ (policy : OddPolicy) (leaves : List Digest) (position : Fin leaves.length),
      ∃ path, (Tree.ofLeaves policy leaves).prove (position : Nat) = .ok path ∧
        path.verify (leaves.get position) (Tree.ofLeaves policy leaves).root = true ∧
        ∀ (leaf' : Digest) (siblings' : List Digest),
          siblings'.length = path.siblings.length →
          CollisionFree (foldStrings path.index (leaves.get position) path.siblings ++
            foldStrings path.index leaf' siblings') →
          leaf' ≠ leaves.get position ∨ siblings' ≠ path.siblings →
          verifies path.index leaf' siblings' (Tree.ofLeaves policy leaves).root = false := by
  refine ⟨eq_of_fold_eq, ?_⟩
  intro policy leaves position
  obtain ⟨path, proved, reached, _⟩ := exists_prove policy leaves position (leaves.get position)
    (List.getElem?_eq_getElem position.isLt)
  have accepted : path.verify (leaves.get position) (Tree.ofLeaves policy leaves).root = true :=
    decide_eq_true reached
  refine ⟨path, proved, accepted, ?_⟩
  intro leaf' siblings' sameLength free changed
  exact refused_of_changed sameLength free accepted changed

/-- The third of three leaves is carried upward, where its path index is 1, or paired with itself.
In the first tree another leaf is refused, in the second one another copy beside the leaf. -/
theorem binding_along_path_thirdLeaf :
    let siblings := [repeated 2, repeated 3]
    let listed := [2, 3].map repeated
    let carried := Tree.ofLeaves .carry threeLeaves
    let paired := Tree.ofLeaves .duplicate threeLeaves
    let above := hashNodes (repeated 1) (repeated 2)
    (siblings.length = listed.length ∧
      CollisionFree (foldStrings (-3) (repeated 1) siblings ++
        foldStrings (-3) (repeated 1) listed) ∧
      fold (-3) (repeated 1) siblings = fold (-3) (repeated 1) listed ∧ siblings = listed) ∧
    repeated 4 ≠ repeated 3 ∧
    (carried.prove 2 = .ok ⟨1, [above]⟩ ∧
      CollisionFree (foldStrings 1 (repeated 3) [above] ++ foldStrings 1 (repeated 4) [above]) ∧
      verifies 1 (repeated 4) [above] carried.root = false) ∧
    paired.prove 2 = .ok ⟨2, [repeated 3, above]⟩ ∧
      CollisionFree (foldStrings 2 (repeated 3) [repeated 3, above] ++
        foldStrings 2 (repeated 3) [repeated 4, above]) ∧
      verifies 2 (repeated 3) [repeated 4, above] paired.root = false := by
  intro siblings listed carried paired above
  obtain ⟨free, provedCarried, freeCarried, provedPaired, freePaired⟩ :
      CollisionFree (foldStrings (-3) (repeated 1) siblings ++
          foldStrings (-3) (repeated 1) listed) ∧
        carried.prove 2 = .ok ⟨1, [above]⟩ ∧
        CollisionFree (foldStrings 1 (repeated 3) [above] ++ foldStrings 1 (repeated 4) [above]) ∧
        paired.prove 2 = .ok ⟨2, [repeated 3, above]⟩ ∧
        CollisionFree (foldStrings 2 (repeated 3) [repeated 3, above] ++
          foldStrings 2 (repeated 3) [repeated 4, above]) := by
    decide +kernel
  have bound := binding_along_path.1 (-3) (repeated 1) (repeated 1) siblings listed rfl free rfl
  have other : repeated 4 ≠ repeated 3 := by decide
  have otherSiblings : [repeated 4, above] ≠ [repeated 3, above] := by simp [other]
  refine ⟨⟨rfl, free, rfl, bound.2⟩, other, ⟨provedCarried, freeCarried, ?_⟩,
    provedPaired, freePaired, ?_⟩
  · obtain ⟨path, given, _, refuses⟩ := binding_along_path.2 .carry threeLeaves ⟨2, by decide⟩
    cases provedCarried.symm.trans given
    exact refuses (repeated 4) _ rfl freeCarried (Or.inl other)
  · obtain ⟨path, given, _, refuses⟩ := binding_along_path.2 .duplicate threeLeaves ⟨2, by decide⟩
    cases provedPaired.symm.trans given
    exact refuses (repeated 3) _ rfl freePaired (Or.inr otherSiblings)

/-- Folds of different lengths reach the same node from different leaves. -/
example : fold 0 (repeated 1) [repeated 2] = fold 0 (hashNodes (repeated 1) (repeated 2)) [] := by
  decide +kernel

end HeaderRelay.Merkle
