import Mathlib
import HeaderRelay.Proofs.Merkle.Levels

set_option autoImplicit false

namespace HeaderRelay

/-- No two of some strings have the same hash. -/
def CollisionFree (strings : List Bytes) : Prop :=
  ∀ first ∈ strings, ∀ second ∈ strings, doubleSha256 first = doubleSha256 second → first = second

instance (strings : List Bytes) : Decidable (CollisionFree strings) :=
  inferInstanceAs (Decidable (∀ first ∈ strings, ∀ second ∈ strings, _ → _))

theorem CollisionFree.mono {part all : List Bytes} (free : CollisionFree all)
    (within : ∀ string ∈ part, string ∈ all) : CollisionFree part :=
  fun first mem second mem' => free first (within first mem) second (within second mem')

theorem CollisionFree.tail {before after : List Bytes} {string : Bytes}
    (free : CollisionFree (before ++ string :: after)) : CollisionFree (before ++ after) := by
  apply free.mono
  intro string mem
  rcases List.mem_append.mp mem with inBefore | inAfter
  · exact List.mem_append_left _ inBefore
  · exact List.mem_append_right _ (List.mem_cons_of_mem _ inAfter)

namespace Merkle

def nodeString (left right : Digest) : Bytes := left.bytes ++ right.bytes

/-- The string of two nodes has 64 bytes, so it is no header. -/
theorem length_nodeString (left right : Digest) : (nodeString left right).length = 64 := by
  rw [nodeString, List.length_append, left.length_eq, right.length_eq]

theorem nodeString_injective {left right left' right' : Digest}
    (same : nodeString left right = nodeString left' right') : left = left' ∧ right = right' := by
  have lengths : left.bytes.length = left'.bytes.length := by
    rw [left.length_eq, left'.length_eq]
  obtain ⟨first, second⟩ := List.append_inj same lengths
  exact ⟨SizedBytes.ext_bytes first, SizedBytes.ext_bytes second⟩

/-- Where strings do not collide, a parent determines the two nodes below it. -/
theorem children_eq {strings : List Bytes}
    (free : CollisionFree strings) {left right left' right' : Digest}
    (mem : nodeString left right ∈ strings) (mem' : nodeString left' right' ∈ strings)
    (same : hashNodes left right = hashNodes left' right') : left = left' ∧ right = right' :=
  nodeString_injective (free _ mem _ mem' same)

/-- The strings hashed for the parent of a node without a partner. -/
def closeStrings : OddPolicy → Digest → List Bytes
  | .carry, _ => []
  | .duplicate, last => [nodeString last last]

def parentStrings (policy : OddPolicy) : List Digest → List Bytes
  | left :: right :: rest => nodeString left right :: parentStrings policy rest
  | [last] => closeStrings policy last
  | [] => []

/-- The strings hashed while a tree is built over some leaves. -/
def treeStrings (policy : OddPolicy) (level : List Digest) : List Bytes :=
  if level.length ≤ 1 then []
  else parentStrings policy level ++ treeStrings policy (parents policy level)
termination_by level.length
decreasing_by
  rw [length_parents]
  omega

/-- The strings hashed while siblings are folded over a leaf. -/
def foldStrings (index : Int) (leaf : Digest) : List Digest → List Bytes
  | [] => []
  | sibling :: rest =>
    if index % 2 = 0 then
      nodeString leaf sibling :: foldStrings (index / 2) (hashNodes leaf sibling) rest
    else nodeString sibling leaf :: foldStrings (index / 2) (hashNodes sibling leaf) rest

/-- A running hash and a sibling in the order in which they are hashed. -/
def ordered (siblingLeft : Bool) (running sibling : Digest) : Digest × Digest :=
  if siblingLeft then (sibling, running) else (running, sibling)

theorem eq_or_eq_ordered (siblingLeft : Bool) (running sibling : Digest) :
    running = (ordered siblingLeft running sibling).1 ∨
      running = (ordered siblingLeft running sibling).2 := by
  cases siblingLeft with
  | true => exact Or.inr rfl
  | false => exact Or.inl rfl

/-- One step of a fold: the parity of the index orders the running hash and the sibling. -/
theorem fold_ordered (index : Int) (start sibling : Digest) (rest : List Digest) :
    fold index start (sibling :: rest) =
      fold (index / 2) (hashNodes (ordered (decide (index % 2 ≠ 0)) start sibling).1
        (ordered (decide (index % 2 ≠ 0)) start sibling).2) rest := by
  by_cases even : index % 2 = 0 <;> simp [fold, ordered, even]

theorem foldStrings_ordered (index : Int) (start sibling : Digest) (rest : List Digest) :
    foldStrings index start (sibling :: rest) =
      nodeString (ordered (decide (index % 2 ≠ 0)) start sibling).1
          (ordered (decide (index % 2 ≠ 0)) start sibling).2 ::
        foldStrings (index / 2) (hashNodes (ordered (decide (index % 2 ≠ 0)) start sibling).1
          (ordered (decide (index % 2 ≠ 0)) start sibling).2) rest := by
  by_cases even : index % 2 = 0 <;> simp [foldStrings, ordered, even]

/-- What the first sibling of a path does: its string is hashed, and the rest is folded over the
node above. -/
theorem fold_cons (index : Int) (start sibling : Digest) (rest : List Digest) :
    ∃ left right, fold index start (sibling :: rest) =
        fold (index / 2) (hashNodes left right) rest ∧
      foldStrings index start (sibling :: rest) =
        nodeString left right :: foldStrings (index / 2) (hashNodes left right) rest ∧
      (start = left ∨ start = right) :=
  ⟨_, _, fold_ordered index start sibling rest, foldStrings_ordered index start sibling rest,
    eq_or_eq_ordered _ start sibling⟩

theorem length_of_mem_foldStrings (index : Int) (start : Digest) (siblings : List Digest) :
    ∀ string ∈ foldStrings index start siblings, string.length = 64 := by
  induction siblings generalizing index start with
  | nil => intro string mem; cases mem
  | cons sibling rest ih =>
    obtain ⟨left, right, _, strings, _⟩ := fold_cons index start sibling rest
    intro string mem
    rw [strings] at mem
    rcases List.mem_cons.mp mem with first | later
    · rw [first, length_nodeString]
    · exact ih _ _ string later

theorem treeStrings_eq (policy : OddPolicy) (level : List Digest) (several : 2 ≤ level.length) :
    treeStrings policy level =
      parentStrings policy level ++ treeStrings policy (parents policy level) := by
  have wide : ¬ level.length ≤ 1 := by omega
  rw [treeStrings]
  simp only [wide, ↓reduceIte]

/-- Two nodes side by side have their parent in the level above, and are hashed for it. -/
theorem parents_of_pair (policy : OddPolicy) (level : List Digest) (place : Nat)
    (left right : Digest) (first : level[2 * place]? = some left)
    (second : level[2 * place + 1]? = some right) :
    (parents policy level)[place]? = some (hashNodes left right) ∧
      nodeString left right ∈ parentStrings policy level := by
  induction level using parents.induct generalizing place with
  | case1 left' right' rest ih =>
    cases place with
    | zero =>
      cases Option.some.inj first
      cases Option.some.inj second
      exact ⟨rfl, List.mem_cons_self⟩
    | succ place =>
      obtain ⟨above, hashed⟩ := ih place first second
      exact ⟨above, List.mem_cons_of_mem _ hashed⟩
  | case2 last => cases second
  | case3 => cases first

/-- A last node without a partner has what closes the level above it. -/
theorem parents_of_last (policy : OddPolicy) (level : List Digest) (place : Nat) (last : Digest)
    (there : level[2 * place]? = some last) (ends : level.length = 2 * place + 1) :
    (parents policy level)[place]? = some (policy.close last) := by
  induction level using parents.induct generalizing place with
  | case1 left right rest ih =>
    cases place with
    | zero => simp at ends
    | succ place =>
      refine ih place there ?_
      simp only [List.length_cons] at ends
      omega
  | case2 only =>
    cases place with
    | zero =>
      cases Option.some.inj there
      rfl
    | succ place => cases there
  | case3 => cases there

/-- What is hashed above a level is hashed for the level as well. -/
theorem collisionFree_parents {policy : OddPolicy} {level : List Digest} {folded : List Bytes}
    (several : 2 ≤ level.length) (free : CollisionFree (treeStrings policy level ++ folded)) :
    CollisionFree (treeStrings policy (parents policy level) ++ folded) := by
  rw [treeStrings_eq policy level several] at free
  apply free.mono
  intro string mem
  rw [List.append_assoc]
  exact List.mem_append_right _ mem

/-- Where the last node is paired with itself, each node of the level above is the hash of two nodes
of the level. -/
theorem mem_parents_duplicate (level : List Digest) (node : Digest)
    (mem : node ∈ parents .duplicate level) :
    ∃ left ∈ level, ∃ right ∈ level, node = hashNodes left right ∧
      nodeString left right ∈ parentStrings .duplicate level := by
  induction level using parents.induct with
  | case1 first second rest ih =>
    rcases List.mem_cons.mp mem with here | later
    · exact ⟨first, by simp, second, by simp, here, List.mem_cons_self⟩
    · obtain ⟨left, inLeft, right, inRight, hashed, string⟩ := ih later
      exact ⟨left, by simp [inLeft], right, by simp [inRight], hashed,
        List.mem_cons_of_mem _ string⟩
  | case2 last =>
    exact ⟨last, List.mem_cons_self, last, List.mem_cons_self, List.mem_singleton.mp mem,
      List.mem_cons_self⟩
  | case3 => cases mem

end Merkle

end HeaderRelay
