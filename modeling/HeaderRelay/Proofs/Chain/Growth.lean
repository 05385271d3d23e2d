import Mathlib
import HeaderRelay.Proofs.Chain.Attachment
import HeaderRelay.Proofs.Document.Soundness
import HeaderRelay.Proofs.Validation.Refusals

set_option autoImplicit false

namespace HeaderRelay

namespace ChainState

variable {state next : ChainState} {header : Header} {interval : Interval} {params : Params}
  {branch : Branch} {record : BlockRecord} {tip : Snapshot} {others : List Branch}

/-- The tips on which a header may stand. -/
def tips (state : ChainState) : List Snapshot :=
  state.confirmed :: state.forks.map fun branch => branch.newest.tip

/-- How a header can fail to be attached to a state. -/
inductive Fails (state : ChainState) (header : Header) (params : Params) : Failure → Prop
  | duplicate (tracked : state.tracks header.hash = true) :
      Fails state header params (.refused (.duplicate header.hash))
  | unattached (untracked : state.tracks header.hash = false)
      (elsewhere : ∀ branch ∈ state.forks, branch.tipHash ≠ header.prevHash)
      (apart : header.prevHash ≠ state.confirmed.tipHash) :
      Fails state header params (.refused (.unattached header.prevHash))
  | check {tip : Snapshot} {failure : Failure} (mem : tip ∈ state.tips)
      (fails : tip.Fails params failure) : Fails state header params failure

theorem Admissible.named (admissible : state.Admissible) : Branch.Named state.forks :=
  fun branch mem => (admissible.branches branch mem).tip.1.symm

theorem Admissible.absorbed (admissible : state.Admissible)
    (absorbs : state.absorb header interval params = .ok next) :
    state.Absorbed header interval params next :=
  absorbed_of_absorb admissible.ordered admissible.named absorbs

/-- A branch that is found under its key is there to be taken out, and passes with one more record,
so that extending it fails only in the check of the header. -/
theorem failsOnly_extendBranch (mem : branch ∈ state.forks) (before : 0 ≤ branch.chainwork) :
    FailsOnly (state.Fails header params)
      (extendBranch ⟨Branch.keyed state.forks⟩ branch header interval params) := by
  have held : branch.newest.tip ∈ state.tips :=
    List.mem_cons_of_mem _ (List.mem_map_of_mem mem)
  unfold extendBranch
  refine ((failsOnly_recordAfter _ _ _ _).mono fun _ => .check held).bind fun record recorded => ?_
  have made := (recordAfter_eq_ok _ _ _ _ _).mp recorded
  simp only [withoutBranch, Branch.erase?_keyed mem, made.extend_eq before]
  exact .of_ok _

theorem failsOnly_openBranch :
    FailsOnly (state.Fails header params)
      (openBranch ⟨Branch.keyed state.forks⟩ state.confirmed header interval params) := by
  have held : state.confirmed ∈ state.tips := List.mem_cons_self
  unfold openBranch
  refine ((failsOnly_recordAfter _ _ _ _).mono fun _ => .check held).bind fun record recorded => ?_
  have made := (recordAfter_eq_ok _ _ _ _ _).mp recorded
  simp only [made.start_eq]
  exact .of_ok _

/-- A header is not attached because it is tracked, because it stands nowhere, or because of its
check; no step after that fails. -/
theorem failsOnly_absorb (admissible : state.Admissible) (header : Header) (interval : Interval)
    (params : Params) :
    FailsOnly (state.Fails header params) (state.absorb header interval params) := by
  unfold absorb
  split
  · rename_i tracked
    exact .of_error (.duplicate tracked)
  · rename_i absent
    refine FailsOnly.map ?_ _
    rw [attach, branchMap_of_ordered admissible.ordered]
    split
    · rename_i parent found
      have mem := (Branch.mem_of_find?_keyed found).1
      exact failsOnly_extendBranch mem (admissible.branches parent mem).chainwork
    · rename_i missing
      split
      · exact failsOnly_openBranch
      · rename_i apart
        exact .of_error (.unattached (Bool.eq_false_iff.mpr absent)
          (Branch.tipHash_ne_of_find?_keyed missing) apart)

theorem absorb_of_tracked (tracked : state.tracks header.hash = true) :
    state.absorb header interval params = .error (.refused (.duplicate header.hash)) := by
  rw [absorb, if_pos tracked]

theorem absorb_of_unattached (ordered : Branch.Ordered state.forks)
    (untracked : state.tracks header.hash = false)
    (elsewhere : ∀ branch ∈ state.forks, branch.tipHash ≠ header.prevHash)
    (apart : header.prevHash ≠ state.confirmed.tipHash) :
    state.absorb header interval params = .error (.refused (.unattached header.prevHash)) := by
  rw [absorb, if_neg (Bool.eq_false_iff.mp untracked), attach, branchMap_of_ordered ordered,
    Branch.find?_keyed_eq_none elsewhere]
  simp only [if_neg apart, Except.map]

/-- The branch that a record makes on its place passes the checks. -/
theorem Place.admissible (admissible : state.Admissible)
    (made : record.Extends tip header interval params)
    (place : Place state record tip others branch) : branch.Admissible := by
  have inRange := (BlockRecord.faults_eq_nil_iff record).mp made.inRange
  have positive := made.work_pos
  cases place with
  | extend parent others named split =>
    have before := admissible.branches parent (split.mem_iff.mpr List.mem_cons_self)
    refine ⟨inRange.tip.height, ?_, ?_, rfl, rfl⟩
    · have nonneg := before.chainwork
      change 0 ≤ parent.chainwork + record.work
      omega
    · exact List.forall_mem_cons.mpr ⟨inRange, before.records⟩
  | start named elsewhere =>
    refine ⟨inRange.tip.height, ?_, List.forall_mem_singleton.mpr inRange, rfl, rfl⟩
    change 0 ≤ record.work
    omega

/-- Attaching a header keeps a state that passes its checks so. -/
theorem Admissible.absorb (admissible : state.Admissible)
    (absorbs : state.absorb header interval params = .ok next) : next.Admissible := by
  have absorbed := admissible.absorbed absorbs
  refine ⟨?_, absorbed.ordered, absorbed.forall_branch admissible.branches ?_⟩
  · rw [absorbed.confirmed]
    exact admissible.confirmed
  · intro tip record others branch made place
    exact place.admissible admissible made

/-- The branches of a state with one more record, and with no other change. -/
inductive Grown (state : ChainState) (record : BlockRecord) (forks : List Branch) : Prop
  | extend (parent : Branch) (others : List Branch) (ends : parent.tipHash = record.prevHash)
      (elsewhere : ∀ other ∈ others, other.tipHash ≠ record.prevHash)
      (split : state.forks.Perm (parent :: others))
      (joined : forks.Perm (parent.grow record :: others))
      (heavier : parent.chainwork + 1 ≤ (parent.grow record).chainwork)
  | start (ends : state.confirmed.tipHash = record.prevHash)
      (elsewhere : ∀ branch ∈ state.forks, branch.tipHash ≠ record.prevHash)
      (joined : forks.Perm (Branch.single record :: state.forks))
      (heavier : 1 ≤ (Branch.single record).chainwork)

/-- A state with the record of a header, and with no other change. -/
structure Gains (state : ChainState) (header : Header) (next : ChainState) : Prop where
  confirmed : next.confirmed = state.confirmed
  history : next.history = state.history
  ordered : Branch.Ordered next.forks
  untracked : state.tracks header.hash = false
  tracked : ∀ hash, next.tracks hash = true ↔ hash = header.hash ∨ state.tracks hash = true
  grown : ∃ record, record.hash = header.hash ∧ record.prevHash = header.prevHash ∧
    Grown state record next.forks

theorem Place.grown (ordered : Branch.Ordered state.forks)
    (made : record.Extends tip header interval params)
    (place : Place state record tip others branch) {forks : List Branch}
    (perm : forks.Perm (branch :: others)) : Grown state record forks := by
  have positive := made.work_pos
  cases place with
  | extend parent others named split =>
    refine Grown.extend parent others named ?_ split perm ?_
    · have distinct : Branch.Distinct (parent :: others) :=
        split.pairwise ordered.distinct Ne.symm
      intro other mem
      rw [← named]
      exact ((List.pairwise_cons.mp distinct).1 other mem).symm
    · change parent.chainwork + 1 ≤ parent.chainwork + record.work
      omega
  | start named elsewhere => exact Grown.start named.symm elsewhere perm positive

theorem Absorbed.gains (ordered : Branch.Ordered state.forks)
    (absorbed : state.Absorbed header interval params next) : state.Gains header next where
  confirmed := absorbed.confirmed
  history := absorbed.history
  ordered := absorbed.ordered
  untracked := absorbed.untracked
  tracked := absorbed.tracks_iff
  grown := by
    obtain ⟨tip, record, others, branch, made, place, perm⟩ := absorbed.placed
    exact ⟨record, made.hash, made.named, place.grown ordered made perm⟩

theorem absorb_eq_duplicate_iff (admissible : state.Admissible) (hash : Digest) :
    state.absorb header interval params = .error (.refused (.duplicate hash)) ↔
      hash = header.hash ∧ state.tracks hash = true := by
  constructor
  · intro failed
    cases failsOnly_absorb admissible header interval params _ failed with
    | duplicate tracked => exact ⟨rfl, tracked⟩
    | check mem fails =>
      cases fails with
      | rule concerns => cases concerns
  · rintro ⟨rfl, tracked⟩
    exact absorb_of_tracked tracked

theorem absorb_eq_unattached_iff (admissible : state.Admissible) (hash : Digest) :
    state.absorb header interval params = .error (.refused (.unattached hash)) ↔
      hash = header.prevHash ∧ state.tracks header.hash = false ∧
        (∀ branch ∈ state.forks, branch.tipHash ≠ hash) ∧ hash ≠ state.confirmed.tipHash := by
  constructor
  · intro failed
    cases failsOnly_absorb admissible header interval params _ failed with
    | unattached untracked elsewhere apart => exact ⟨rfl, untracked, elsewhere, apart⟩
    | check mem fails =>
      cases fails with
      | rule concerns => cases concerns
  · rintro ⟨rfl, untracked, elsewhere, apart⟩
    exact absorb_of_unattached admissible.ordered untracked elsewhere apart

/-- Whatever is looked up among the branches is there to be taken out. -/
theorem absorb_ne_absentKey (admissible : state.Admissible) (key : Bytes) :
    state.absorb header interval params ≠ .error (.absentKey key) := by
  intro failed
  cases failsOnly_absorb admissible header interval params _ failed with
  | check mem fails => cases fails

/-- In any state that passes its checks, a header that is attached adds its record and changes
nothing else. It is refused as a duplicate exactly when it is tracked, and as unattached exactly
when it is not and stands on no tip, and no branch is ever missed by its key. -/
theorem absorb_adds_one (admissible : state.Admissible) (header : Header) (interval : Interval)
    (params : Params) :
    (∀ next, state.absorb header interval params = .ok next → state.Gains header next) ∧
      (∀ hash, state.absorb header interval params = .error (.refused (.duplicate hash)) ↔
        hash = header.hash ∧ state.tracks hash = true) ∧
      (∀ hash, state.absorb header interval params = .error (.refused (.unattached hash)) ↔
        hash = header.prevHash ∧ state.tracks header.hash = false ∧
          (∀ branch ∈ state.forks, branch.tipHash ≠ hash) ∧ hash ≠ state.confirmed.tipHash) ∧
      ∀ key, state.absorb header interval params ≠ .error (.absentKey key) := by
  refine ⟨?_, absorb_eq_duplicate_iff admissible, absorb_eq_unattached_iff admissible,
    absorb_ne_absentKey admissible⟩
  intro next absorbs
  exact (admissible.absorbed absorbs).gains admissible.ordered

end ChainState

namespace Sample

/-- A state that no run reaches: its only branch claims to weigh nothing. -/
def weightless : ChainState :=
  let opened := (origin.unchecked Params.regtest).submit Params.regtest (submit [first])
  { opened with forks := opened.forks.map fun branch => { branch with chainwork := 0 } }

def now : Interval := (submit []).interval

end Sample

namespace ChainState

/-- A child of the only block is attached to its branch, the block itself is known already, and a
child of its missing rival stands nowhere. -/
theorem absorb_adds_one_weightless :
    Sample.weightless.Admissible ∧
      (∃ next, Sample.weightless.absorb Sample.afterFirst Sample.now Params.regtest = .ok next ∧
        Sample.weightless.Gains Sample.afterFirst next) ∧
      Sample.weightless.absorb Sample.first Sample.now Params.regtest =
        .error (.refused (.duplicate Sample.first.hash)) ∧
      Sample.weightless.absorb Sample.afterRival Sample.now Params.regtest =
        .error (.refused (.unattached Sample.rival.hash)) := by
  let grown := Sample.weightless.submit Params.regtest (Sample.submit [Sample.afterFirst])
  obtain ⟨admissible, absorbs, tracked, untracked, elsewhere, apart⟩ :
      Sample.weightless.Admissible ∧
        Sample.weightless.absorb Sample.afterFirst Sample.now Params.regtest = .ok grown ∧
        Sample.weightless.tracks Sample.first.hash = true ∧
        Sample.weightless.tracks Sample.afterRival.hash = false ∧
        (∀ branch ∈ Sample.weightless.forks, branch.tipHash ≠ Sample.rival.hash) ∧
        Sample.rival.hash ≠ Sample.weightless.confirmed.tipHash := by
    decide +kernel
  have added := absorb_adds_one admissible Sample.afterFirst Sample.now Params.regtest
  have again := absorb_adds_one admissible Sample.first Sample.now Params.regtest
  have stray := absorb_adds_one admissible Sample.afterRival Sample.now Params.regtest
  exact ⟨admissible, ⟨grown, absorbs, added.1 grown absorbs⟩,
    (again.2.1 _).mpr ⟨rfl, tracked⟩,
    (stray.2.2.1 _).mpr ⟨rfl, untracked, elsewhere, apart⟩⟩

end ChainState

end HeaderRelay
