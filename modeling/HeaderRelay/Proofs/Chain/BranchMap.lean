import Mathlib
import HeaderRelay.Chain.Branch
import HeaderRelay.Proofs.ByteMap

set_option autoImplicit false

namespace HeaderRelay.Branch

/-- The branches stand in strictly ascending order of their tip hashes. -/
def Ordered (branches : List Branch) : Prop :=
  branches.Pairwise fun first second => first.tipHash < second.tipHash

instance (branches : List Branch) : Decidable (Ordered branches) :=
  inferInstanceAs (Decidable (branches.Pairwise _))

def Distinct (branches : List Branch) : Prop :=
  branches.Pairwise fun first second => first.tipHash ≠ second.tipHash

def keyed (branches : List Branch) : List (Bytes × Branch) :=
  branches.map fun branch => (branch.tipHash.bytes, branch)

variable {branches : List Branch} {branch : Branch}

theorem Ordered.distinct (ordered : Ordered branches) : Distinct branches := by
  refine List.Pairwise.imp ?_ ordered
  intro first second below same
  rw [same] at below
  exact List.lt_irrefl second.tipHash.bytes below

theorem Distinct.eq_of_tipHash_eq (distinct : Distinct branches) {other : Branch}
    (mem : branch ∈ branches) (memOther : other ∈ branches)
    (same : branch.tipHash = other.tipHash) : branch = other :=
  List.inj_on_of_nodup_map (List.pairwise_map.mpr distinct) mem memOther same

theorem ascending_keyed : ByteMap.Ascending (keyed branches) ↔ Ordered branches := by
  rw [ByteMap.Ascending, keyed, List.pairwise_map]
  exact Iff.rfl

@[simp] theorem values_keyed : ByteMap.values ⟨keyed branches⟩ = branches := by
  rw [ByteMap.values, keyed, List.map_map]
  exact List.map_id branches

/-- Pairs whose keys are those of their branches. -/
theorem keyed_of_own_keys {entries : List (Bytes × Branch)}
    (own : ∀ entry ∈ entries, entry.1 = entry.2.tipHash.bytes) :
    keyed (entries.map Prod.snd) = entries := by
  rw [keyed, List.map_map]
  refine (List.map_congr_left ?_).trans (List.map_id entries)
  intro entry mem
  exact Prod.ext (own entry mem).symm rfl

theorem mem_of_find?_keyed {tip : Digest}
    (found : ByteMap.find? ⟨keyed branches⟩ tip.bytes = some branch) :
    branch ∈ branches ∧ branch.tipHash = tip := by
  obtain ⟨holder, mem, same⟩ := List.mem_map.mp (ByteMap.mem_of_find? found)
  obtain ⟨key, value⟩ := Prod.ext_iff.mp same
  subst value
  exact ⟨mem, SizedBytes.ext_bytes key⟩

theorem tipHash_ne_of_find?_keyed {tip : Digest}
    (missing : ByteMap.find? ⟨keyed branches⟩ tip.bytes = none) :
    ∀ branch ∈ branches, branch.tipHash ≠ tip := by
  intro branch mem same
  refine ByteMap.ne_of_find?_eq_none missing (branch.tipHash.bytes, branch) ?_ ?_
  · exact List.mem_map_of_mem mem
  · exact congrArg SizedBytes.bytes same

theorem find?_keyed_eq_none {tip : Digest} (apart : ∀ branch ∈ branches, branch.tipHash ≠ tip) :
    ByteMap.find? ⟨keyed branches⟩ tip.bytes = none := by
  cases found : ByteMap.find? ⟨keyed branches⟩ tip.bytes with
  | none => rfl
  | some branch =>
    obtain ⟨mem, same⟩ := mem_of_find?_keyed found
    exact absurd same (apart branch mem)

/-- Taking a branch out of the map leaves the others in their order. -/
theorem erase?_keyed (mem : branch ∈ branches) :
    ByteMap.erase? ⟨keyed branches⟩ branch.tipHash.bytes =
      some ⟨keyed (branches.filter fun other => other.tipHash ≠ branch.tipHash)⟩ := by
  have entry : (branch.tipHash.bytes, branch) ∈ keyed branches := List.mem_map_of_mem mem
  refine (ByteMap.erase?_of_mem entry).trans ?_
  rw [keyed, List.filter_map]
  congr 3
  refine List.filter_congr ?_
  intro other _
  have bytes : other.tipHash.bytes = branch.tipHash.bytes ↔ other.tipHash = branch.tipHash :=
    ⟨SizedBytes.ext_bytes, congrArg SizedBytes.bytes⟩
  simp only [Function.comp_apply, ne_eq, bytes]

/-- A list without shared tips is one branch and those with other tips. -/
theorem Distinct.perm_cons_filter (distinct : Distinct branches) (mem : branch ∈ branches) :
    branches.Perm (branch :: branches.filter fun other => other.tipHash ≠ branch.tipHash) := by
  have nodup : branches.Nodup :=
    distinct.imp fun apart same => apart (congrArg tipHash same)
  have others : (branches.filter fun other => other.tipHash ≠ branch.tipHash) =
      branches.erase branch := by
    rw [nodup.erase_eq_filter]
    refine List.filter_congr ?_
    intro other there
    have differ : other.tipHash ≠ branch.tipHash ↔ other ≠ branch :=
      not_congr ⟨distinct.eq_of_tipHash_eq there mem, congrArg tipHash⟩
    rw [Bool.eq_iff_iff, decide_eq_true_iff, bne_iff_ne]
    exact differ
  rw [others]
  exact List.perm_cons_erase mem

/-- A branch with a new tip joins the others. -/
theorem insert_keyed (ordered : Ordered branches)
    (fresh : ∀ other ∈ branches, other.tipHash ≠ branch.tipHash) :
    ∃ joined, ByteMap.insert ⟨keyed branches⟩ branch.tipHash.bytes branch = ⟨keyed joined⟩ ∧
      Ordered joined ∧ joined.Perm (branch :: branches) := by
  let entries := ByteMap.insertEntry branch.tipHash.bytes branch (keyed branches)
  have own : keyed (entries.map Prod.snd) = entries := by
    refine keyed_of_own_keys ?_
    intro entry mem
    rcases ByteMap.mem_insertEntry mem with new | old
    · rw [new]
    · obtain ⟨other, _, same⟩ := List.mem_map.mp old
      rw [← same]
  have absent : ∀ entry ∈ keyed branches, entry.1 ≠ branch.tipHash.bytes := by
    intro entry mem same
    obtain ⟨other, there, keyOf⟩ := List.mem_map.mp mem
    rw [← keyOf] at same
    exact fresh other there (SizedBytes.ext_bytes same)
  refine ⟨entries.map Prod.snd, congrArg ByteMap.mk own.symm, ?_, ?_⟩
  · rw [← ascending_keyed, own]
    exact ByteMap.ascending_insertEntry _ _ _ (ascending_keyed.mpr ordered)
  · have added := (ByteMap.insertEntry_perm _ branch _ absent).map Prod.snd
    rw [List.map_cons] at added
    have old : (keyed branches).map Prod.snd = branches := values_keyed
    rw [old] at added
    exact added

theorem ofList_keyed_ordered (ordered : Ordered branches) :
    ByteMap.ofList (keyed branches) = ⟨keyed branches⟩ :=
  congrArg ByteMap.mk (ByteMap.entries_ofList _ (ascending_keyed.mpr ordered))

/-- The map of any branches holds some of them, in order. Of those that share a tip one is left. -/
theorem exists_ofList_keyed (branches : List Branch) :
    ∃ joined, ByteMap.ofList (keyed branches) = ⟨keyed joined⟩ ∧ Ordered joined ∧
      joined.Subperm branches := by
  induction branches using List.reverseRecOn with
  | nil => exact ⟨[], rfl, List.Pairwise.nil, List.Subperm.refl _⟩
  | append_singleton branches branch ih =>
    obtain ⟨joined, same, ordered, fewer⟩ := ih
    let entries := ByteMap.insertEntry branch.tipHash.bytes branch (keyed joined)
    have own : keyed (entries.map Prod.snd) = entries := by
      apply keyed_of_own_keys
      intro entry mem
      rcases ByteMap.mem_insertEntry mem with new | old
      · rw [new]
      · obtain ⟨other, _, keyOf⟩ := List.mem_map.mp old
        rw [← keyOf]
    refine ⟨entries.map Prod.snd, ?_, ?_, ?_⟩
    · have last : ByteMap.ofList (keyed (branches ++ [branch])) =
          (ByteMap.ofList (keyed branches)).insert branch.tipHash.bytes branch := by
        simp only [ByteMap.ofList, keyed, List.map_append, List.foldl_append, List.map_cons,
          List.map_nil, List.foldl_cons, List.foldl_nil]
      rw [last, same, own]
      rfl
    · rw [← ascending_keyed, own]
      exact ByteMap.ascending_insertEntry _ _ _ (ascending_keyed.mpr ordered)
    · obtain ⟨part, perm, sublist⟩ :=
        ByteMap.insertEntry_subperm branch.tipHash.bytes branch (keyed joined)
      have old : (keyed joined).map Prod.snd = joined := values_keyed
      have inserted : (entries.map Prod.snd).Subperm (branch :: joined) := by
        rw [← old]
        exact ⟨part.map Prod.snd, perm.map _, sublist.map _⟩
      have more : (branch :: joined).Subperm (branch :: branches) :=
        (List.subperm_cons branch).mpr fewer
      exact (inserted.trans more).trans (List.perm_append_singleton branch branches).symm.subperm

end HeaderRelay.Branch
