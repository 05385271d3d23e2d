import Mathlib
import HeaderRelay.Forks.Absorb
import HeaderRelay.Proofs.Chain.BranchMap
import HeaderRelay.Proofs.Validation.Rules

set_option autoImplicit false

namespace HeaderRelay

namespace Branch

/-- The branch with one more block at its newest end, before it is checked. -/
def grow (branch : Branch) (record : BlockRecord) : Branch :=
  ⟨record.hash, record.height, branch.chainwork + record.work, record, branch.blocks⟩

def single (record : BlockRecord) : Branch :=
  ⟨record.hash, record.height, record.work, record, []⟩

def Named (branches : List Branch) : Prop :=
  ∀ branch ∈ branches, branch.tipHash = branch.newest.hash

theorem checked_eq_valid {branch result : Branch} (valid : branch.checked = .valid result) :
    result = branch := by
  rw [checked, Checked.ensure_eq_valid, Checked.ofFaults_eq_valid] at valid
  exact valid.1.2

theorem eq_grow_of_extend {branch result : Branch} {record : BlockRecord}
    (valid : branch.extend record = .valid result) : result = branch.grow record :=
  checked_eq_valid valid

theorem eq_single_of_start {result : Branch} {record : BlockRecord}
    (valid : start record = .valid result) : result = single record :=
  checked_eq_valid valid

end Branch

namespace ChainState

variable {state next : ChainState} {header : Header} {interval : Interval} {params : Params}

/-- The place that a record finds in a state: the tip that it extends, the branches that it does not
touch and the branch that it makes. -/
inductive Place (state : ChainState) (record : BlockRecord) :
    Snapshot → List Branch → Branch → Prop
  | extend (parent : Branch) (others : List Branch) (named : parent.tipHash = record.prevHash)
      (split : state.forks.Perm (parent :: others)) :
      Place state record parent.newest.tip others (parent.grow record)
  | start (named : record.prevHash = state.confirmed.tipHash)
      (elsewhere : ∀ branch ∈ state.forks, branch.tipHash ≠ record.prevHash) :
      Place state record state.confirmed state.forks (Branch.single record)

theorem Place.subset {record : BlockRecord} {tip : Snapshot} {others : List Branch}
    {branch : Branch} (place : Place state record tip others branch) : others ⊆ state.forks := by
  cases place with
  | extend parent others named split =>
    exact fun other mem => split.mem_iff.mpr (List.mem_cons_of_mem _ mem)
  | start named elsewhere => exact List.Subset.refl _

def Placed (state : ChainState) (header : Header) (interval : Interval) (params : Params)
    (branches : List Branch) : Prop :=
  ∃ tip record others branch, record.Extends tip header interval params ∧
    Place state record tip others branch ∧ branches.Perm (branch :: others)

/-- What a header that is attached makes of a state. -/
structure Absorbed (state : ChainState) (header : Header) (interval : Interval) (params : Params)
    (next : ChainState) : Prop where
  untracked : state.tracks header.hash = false
  confirmed : next.confirmed = state.confirmed
  history : next.history = state.history
  ordered : Branch.Ordered next.forks
  placed : state.Placed header interval params next.forks

/-- What holds of every branch, and of the one that a record makes on its place, holds of every
branch once a header is attached. -/
theorem Absorbed.forall_branch {property : Branch → Prop}
    (absorbed : state.Absorbed header interval params next)
    (kept : ∀ branch ∈ state.forks, property branch)
    (made : ∀ tip record others branch, record.Extends tip header interval params →
      Place state record tip others branch → property branch) :
    ∀ branch ∈ next.forks, property branch := by
  obtain ⟨tip, record, others, joined, extended, place, perm⟩ := absorbed.placed
  intro branch mem
  rcases List.mem_cons.mp (perm.mem_iff.mp mem) with rfl | old
  · exact made tip record others branch extended place
  · exact kept branch (place.subset old)

theorem hash_ne_of_untracked {blockHash : Digest} (untracked : state.tracks blockHash = false) :
    ∀ branch ∈ state.forks, ∀ record ∈ branch.blocks, record.hash ≠ blockHash := by
  intro branch mem record there same
  have tracked : state.tracks blockHash = true :=
    List.any_eq_true.mpr
      ⟨branch, mem, List.any_eq_true.mpr ⟨record, there, decide_eq_true same⟩⟩
  rw [untracked] at tracked
  exact Bool.false_ne_true tracked

theorem tipHash_ne_of_untracked {blockHash : Digest} (named : Branch.Named state.forks)
    (untracked : state.tracks blockHash = false) :
    ∀ branch ∈ state.forks, branch.tipHash ≠ blockHash := by
  intro branch mem
  rw [named branch mem]
  exact hash_ne_of_untracked untracked branch mem branch.newest List.mem_cons_self

theorem branchMap_of_ordered (ordered : Branch.Ordered state.forks) :
    state.branchMap = ⟨Branch.keyed state.forks⟩ :=
  Branch.ofList_keyed_ordered ordered

/-- A branch that is named by a new block joins others in order. -/
theorem placed_of_insert {tip : Snapshot} {record : BlockRecord} {others : List Branch}
    {branch : Branch} (made : record.Extends tip header interval params)
    (place : Place state record tip others branch) (ordered : Branch.Ordered others)
    (fresh : ∀ other ∈ others, other.tipHash ≠ branch.tipHash) :
    Branch.Ordered (ByteMap.insert ⟨Branch.keyed others⟩ branch.tipHash.bytes branch).values ∧
      state.Placed header interval params
        (ByteMap.insert ⟨Branch.keyed others⟩ branch.tipHash.bytes branch).values := by
  obtain ⟨joined, inserted, joinedOrdered, perm⟩ := Branch.insert_keyed ordered fresh
  rw [inserted, Branch.values_keyed]
  exact ⟨joinedOrdered, tip, record, others, branch, made, place, perm⟩

theorem placed_of_extendBranch {parent : Branch} {branches : ByteMap Branch}
    (ordered : Branch.Ordered state.forks) (named : Branch.Named state.forks)
    (untracked : state.tracks header.hash = false)
    (mem : parent ∈ state.forks) (builds : parent.tipHash = header.prevHash)
    (extended : extendBranch ⟨Branch.keyed state.forks⟩ parent header interval params =
      .ok branches) :
    Branch.Ordered branches.values ∧ state.Placed header interval params branches.values := by
  simp only [extendBranch, bind_eq_ok, withoutBranch, Branch.erase?_keyed mem,
    Checked.orFail_eq_ok, pure, Except.pure, Except.ok.injEq, recordAfter_eq_ok] at extended
  obtain ⟨record, made, _, rfl, branch, valid, rfl⟩ := extended
  rw [Branch.eq_grow_of_extend valid]
  refine placed_of_insert made ?_ (ordered.filter _) ?_
  · exact Place.extend parent _ (builds.trans made.named.symm)
      (ordered.distinct.perm_cons_filter mem)
  · intro other there
    have away := tipHash_ne_of_untracked named untracked other (List.mem_filter.mp there).1
    rw [← made.hash] at away
    exact away

theorem placed_of_openBranch {branches : ByteMap Branch}
    (ordered : Branch.Ordered state.forks) (named : Branch.Named state.forks)
    (untracked : state.tracks header.hash = false)
    (elsewhere : ∀ branch ∈ state.forks, branch.tipHash ≠ header.prevHash)
    (opened : openBranch ⟨Branch.keyed state.forks⟩ state.confirmed header interval params =
      .ok branches) :
    Branch.Ordered branches.values ∧ state.Placed header interval params branches.values := by
  simp only [openBranch, bind_eq_ok, Checked.orFail_eq_ok, pure, Except.pure, Except.ok.injEq,
    recordAfter_eq_ok] at opened
  obtain ⟨record, made, branch, valid, rfl⟩ := opened
  rw [Branch.eq_single_of_start valid]
  refine placed_of_insert made (Place.start made.prevHash ?_) ordered ?_
  · rw [made.named]
    exact elsewhere
  · intro other there
    have away := tipHash_ne_of_untracked named untracked other there
    rw [← made.hash] at away
    exact away

/-- A header that is attached to branches in order finds one place and keeps the order. -/
theorem absorbed_of_absorb (ordered : Branch.Ordered state.forks)
    (named : Branch.Named state.forks)
    (absorbs : state.absorb header interval params = .ok next) :
    state.Absorbed header interval params next := by
  unfold absorb at absorbs
  split at absorbs
  · cases absorbs
  · rename_i absent
    have untracked : state.tracks header.hash = false := Bool.eq_false_iff.mpr absent
    obtain ⟨branches, attached, grown⟩ := (map_eq_ok _ _ _).mp absorbs
    rw [attach, branchMap_of_ordered ordered] at attached
    have placed : Branch.Ordered branches.values ∧
        state.Placed header interval params branches.values := by
      split at attached
      · rename_i parent found
        obtain ⟨mem, builds⟩ := Branch.mem_of_find?_keyed found
        exact placed_of_extendBranch ordered named untracked mem builds attached
      · rename_i missing
        split at attached
        · exact placed_of_openBranch ordered named untracked
            (Branch.tipHash_ne_of_find?_keyed missing) attached
        · cases attached
    subst grown
    exact ⟨untracked, rfl, rfl, placed.1, placed.2⟩

end ChainState

end HeaderRelay
