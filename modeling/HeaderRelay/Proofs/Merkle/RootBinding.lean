import Mathlib
import HeaderRelay.Proofs.Merkle.BlockProof

set_option autoImplicit false

namespace HeaderRelay.Merkle

theorem eq_of_parents_eq (policy : OddPolicy) {strings : List Bytes} (free : CollisionFree strings)
    (first second : List Digest) (sameLength : first.length = second.length)
    (hashed : ∀ string ∈ parentStrings policy first, string ∈ strings)
    (hashed' : ∀ string ∈ parentStrings policy second, string ∈ strings)
    (sameParents : parents policy first = parents policy second) : first = second := by
  induction first using parents.induct generalizing second with
  | case1 left right rest ih =>
    obtain ⟨left', more, rfl⟩ := List.exists_of_length_succ second sameLength.symm
    obtain ⟨right', rest', rfl⟩ := List.exists_of_length_succ more (Nat.succ.inj sameLength.symm)
    obtain ⟨sameFirst, sameRest⟩ := List.cons.inj sameParents
    obtain ⟨rfl, rfl⟩ := children_eq free (hashed _ List.mem_cons_self)
      (hashed' _ List.mem_cons_self) sameFirst
    have rests : rest = rest' := ih rest' (by simpa using sameLength)
      (fun string mem => hashed string (List.mem_cons_of_mem _ mem))
      (fun string mem => hashed' string (List.mem_cons_of_mem _ mem)) sameRest
    rw [rests]
  | case2 last =>
    obtain ⟨last', rfl⟩ := List.length_eq_one_iff.mp sameLength.symm
    have closed : policy.close last = policy.close last' := (List.cons.inj sameParents).1
    cases policy with
    | carry => exact congrArg (fun node => [node]) closed
    | duplicate =>
      have children := children_eq free (hashed _ List.mem_cons_self)
        (hashed' _ List.mem_cons_self) closed
      rw [children.1]
  | case3 => exact (List.eq_nil_of_length_eq_zero sameLength.symm).symm

theorem eq_of_rootOf_eq (policy : OddPolicy) (first second : List Digest)
    (sameLength : first.length = second.length)
    (free : CollisionFree (treeStrings policy first ++ treeStrings policy second))
    (sameRoot : rootOf policy first = rootOf policy second) : first = second := by
  induction first using level_induction policy generalizing second with
  | nil => exact (List.eq_nil_of_length_eq_zero sameLength.symm).symm
  | single node =>
    obtain ⟨node', rfl⟩ := List.length_eq_one_iff.mp sameLength.symm
    rw [rootOf_singleton, rootOf_singleton] at sameRoot
    rw [sameRoot]
  | step first several ih =>
    have several' : 2 ≤ second.length := sameLength ▸ several
    rw [← rootOf_parents policy first several, ← rootOf_parents policy second several'] at sameRoot
    rw [treeStrings_eq policy first several, treeStrings_eq policy second several'] at free
    have above := ih (parents policy second)
      (by rw [length_parents, length_parents, sameLength])
      (free.mono (by simp only [List.mem_append]; tauto)) sameRoot
    exact eq_of_parents_eq policy free first second sameLength
      (fun string mem => by simp [mem]) (fun string mem => by simp [mem]) above

/-- What is hashed above a level is hashed for its parents, or higher up. -/
theorem mem_treeStrings {policy : OddPolicy} {level : List Digest} {string : Bytes}
    (mem : string ∈ treeStrings policy level) :
    string ∈ parentStrings policy level ∨ string ∈ treeStrings policy (parents policy level) := by
  by_cases several : 2 ≤ level.length
  · rw [treeStrings_eq policy level several] at mem
    exact List.mem_append.mp mem
  · rw [treeStrings, if_pos (by omega)] at mem
    cases mem

/-- The string that is hashed when an unpaired node meets a node on its right. -/
def joinedStrings : Option Digest → Option Digest → List Bytes
  | some last, some node => [nodeString last node]
  | _, _ => []

theorem parentStrings_append (level : List Digest) (below : Option Digest) :
    parentStrings .carry (level ++ below.toList) =
      parentStrings .carry level ++ joinedStrings (unpaired? level) below := by
  induction level using parents.induct with
  | case1 left right rest ih =>
    simp only [List.cons_append, parentStrings, unpaired?, ih]
  | case2 last => cases below <;> rfl
  | case3 => cases below <;> rfl

namespace Accumulator

def carryStrings (node : Digest) : List (Option Digest) → List Bytes
  | [] => []
  | none :: _ => []
  | some occupant :: rest =>
    nodeString occupant node :: carryStrings (hashNodes occupant node) rest

def appendStrings (slots : List (Option Digest)) : List Digest → List Bytes
  | [] => []
  | node :: rest => carryStrings node slots ++ appendStrings (carryInto node slots) rest

def joinStrings (below : Option Digest) : List (Option Digest) → List Bytes
  | [] => []
  | slot :: rest => joinedStrings slot below ++ joinStrings (joined slot below) rest

/-- The strings hashed while an accumulator of some leaves is built and its root is taken. -/
def strings (leaves : List Digest) : List Bytes :=
  appendStrings [] leaves ++ joinStrings none (ofLeaves leaves).slots

/-- Above an empty lowest slot the pairs are hashed, and then what their parents are hashed for. -/
theorem mem_appendStrings_none (slots : List (Option Digest)) (nodes : List Digest)
    (string : Bytes) (mem : string ∈ parentStrings .carry nodes ∨
      string ∈ appendStrings slots (pairUp nodes)) :
    string ∈ appendStrings (none :: slots) nodes := by
  induction nodes using parents.induct generalizing slots with
  | case1 left right rest ih =>
    have pair : appendStrings (none :: slots) (left :: right :: rest) =
        nodeString left right :: carryStrings (hashNodes left right) slots ++
          appendStrings (none :: carryInto (hashNodes left right) slots) rest := rfl
    have onward := ih (carryInto (hashNodes left right) slots)
    rw [pair]
    simp only [parentStrings, pairUp, appendStrings, List.mem_append, List.mem_cons] at mem
    simp only [List.mem_append, List.mem_cons]
    tauto
  | case2 last => simp [parentStrings, closeStrings, pairUp, appendStrings] at mem
  | case3 => simp [parentStrings, pairUp, appendStrings] at mem

/-- Whatever the tree in which a node stands behind some leaves hashes is hashed when the leaves are
added one by one, or when the slots are joined to the node. -/
theorem mem_append_of_mem_treeStrings (nodes : List Digest) (below : Option Digest)
    {string : Bytes} (mem : string ∈ treeStrings .carry (nodes ++ below.toList)) :
    string ∈ appendStrings [] nodes ++ joinStrings below (addAll [] nodes) := by
  -- on the number of nodes: the slots above the lowest one are those of the paired nodes, behind
  -- which the lowest slot puts what it joins
  induction size : nodes.length using Nat.strongRecOn generalizing nodes below with
  | ind width ih =>
    by_cases empty : nodes = []
    · subst empty
      rw [treeStrings, if_pos (by cases below <;> simp)] at mem
      cases mem
    · have positive : 0 < nodes.length := List.length_pos_iff.mpr empty
      have smaller : (pairUp nodes).length < width := by
        rw [length_pairUp]
        omega
      have fromNone : appendStrings [] nodes = appendStrings [none] nodes := by
        cases nodes with
        | nil => exact absurd rfl empty
        | cons node rest => rfl
      have pairs := mem_appendStrings_none [] nodes string
      rw [fromNone, addAll_nil nodes empty, joinStrings]
      rcases mem_treeStrings mem with here | higher
      · rw [parentStrings_append] at here
        simp only [List.mem_append] at here ⊢
        tauto
      · rw [parents_append] at higher
        have rest := ih _ smaller (pairUp nodes) _ higher rfl
        simp only [List.mem_append] at rest ⊢
        tauto

/-- An accumulator hashes all that the tree over its leaves hashes. -/
theorem mem_strings_of_mem_treeStrings (leaves : List Digest) :
    ∀ string ∈ treeStrings .carry leaves, string ∈ strings leaves := by
  intro string mem
  have whole : leaves ++ (none : Option Digest).toList = leaves := List.append_nil leaves
  rw [← whole] at mem
  rw [strings, slots_ofLeaves]
  exact mem_append_of_mem_treeStrings leaves none mem

/-- The root of an accumulator and the number of its leaves tell the leaves. -/
theorem leaves_eq_of_root_eq (first second : List Digest)
    (sameLength : first.length = second.length)
    (free : CollisionFree (strings first ++ strings second))
    (sameRoot : (ofLeaves first).root = (ofLeaves second).root) : first = second := by
  rw [root_of_slots _ first (slots_ofLeaves first),
    root_of_slots _ second (slots_ofLeaves second)] at sameRoot
  refine eq_of_rootOf_eq .carry first second sameLength (free.mono ?_) sameRoot
  intro string mem
  exact List.mem_append.mpr ((List.mem_append.mp mem).imp
    (mem_strings_of_mem_treeStrings first string) (mem_strings_of_mem_treeStrings second string))

theorem leaves_eq_of_root_eq_threeLeaves :
    let listed := [1, 2, 3].map repeated
    threeLeaves.length = listed.length ∧
      CollisionFree (strings threeLeaves ++ strings listed) ∧
      (ofLeaves threeLeaves).root = (ofLeaves listed).root ∧ threeLeaves = listed := by
  intro listed
  have free : CollisionFree (strings threeLeaves ++ strings listed) := by decide +kernel
  exact ⟨rfl, free, rfl, leaves_eq_of_root_eq threeLeaves listed rfl free rfl⟩

/-- The root alone does not tell how many leaves there are. -/
example : (ofLeaves [repeated 1, repeated 2]).root =
    (ofLeaves [hashNodes (repeated 1) (repeated 2)]).root := by
  decide +kernel

end Accumulator

end HeaderRelay.Merkle
