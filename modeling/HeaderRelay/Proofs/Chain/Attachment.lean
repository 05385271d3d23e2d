import Mathlib
import HeaderRelay.Proofs.Chain.Lineage
import HeaderRelay.Proofs.Document.Ranges

set_option autoImplicit false

namespace HeaderRelay

/-- Branches in order are determined by which they are. -/
theorem Branch.Ordered.eq_of_perm {first second : List Branch} (ordered : Branch.Ordered first)
    (orderedToo : Branch.Ordered second) (perm : first.Perm second) : first = second := by
  refine perm.eq_of_pairwise ?_ ordered orderedToo
  intro one other _ _ below above
  exact absurd above (List.lt_asymm below)

/-- A branch passes its check when its numbers are in range and it names its newest block. -/
theorem Branch.checked_of_newest {branch : Branch} (named : branch.newest.hash = branch.tipHash)
    (high : branch.newest.height = branch.tipHeight) (inRange : branch.newest.faults = [])
    (positive : 0 ≤ branch.chainwork) : branch.checked = .valid branch := by
  have height : Unsigned 64 branch.tipHeight := by
    rw [← high]
    exact ((BlockRecord.faults_eq_nil_iff _).mp inRange).tip.height
  exact branch.checked_eq_valid_iff.mpr ⟨⟨height, positive⟩, named, high⟩

section Made

variable {tip : Snapshot} {header : Header} {interval : Interval} {params : Params}
  {record : BlockRecord} {branch : Branch}

/-- The record of a valid header passes as the newest of any branch without negative work. -/
theorem BlockRecord.Extends.extend_eq (made : record.Extends tip header interval params)
    (before : 0 ≤ branch.chainwork) : branch.extend record = .valid (branch.grow record) := by
  have positive := made.work_pos
  refine Branch.checked_of_newest rfl rfl made.inRange ?_
  change 0 ≤ branch.chainwork + record.work
  omega

/-- The record of a valid header passes as a branch of its own. -/
theorem BlockRecord.Extends.start_eq (made : record.Extends tip header interval params) :
    Branch.start record = .valid (Branch.single record) := by
  have positive := made.work_pos
  refine Branch.checked_of_newest rfl rfl made.inRange ?_
  change 0 ≤ record.work
  omega

end Made

namespace ChainState

variable {origin : Digest} {seen : List Header} {state next : ChainState} {header : Header}
  {interval : Interval} {params : Params} {branch : Branch}

/-- Attaching headers in order stops at the first that fails. -/
theorem absorbAll_append (front back : List Header) :
    state.absorbAll interval params (front ++ back) =
      match state.absorbAll interval params front with
      | .ok grown => grown.absorbAll interval params back
      | .error failure => .error failure := by
  induction front generalizing state with
  | nil => rfl
  | cons header rest ih =>
    simp only [List.cons_append, absorbAll]
    split
    · rfl
    · exact ih

theorem absorbAll_append_eq_ok (front back : List Header) :
    state.absorbAll interval params (front ++ back) = .ok next ↔
      ∃ grown, state.absorbAll interval params front = .ok grown ∧
        grown.absorbAll interval params back = .ok next := by
  rw [absorbAll_append]
  cases state.absorbAll interval params front with
  | error failure => simp
  | ok grown => simp

theorem absorbAll_cons_eq_ok (header : Header) (rest : List Header) :
    state.absorbAll interval params (header :: rest) = .ok next ↔
      ∃ grown, state.absorb header interval params = .ok grown ∧
        grown.absorbAll interval params rest = .ok next := by
  simp only [absorbAll]
  cases state.absorb header interval params with
  | error failure => simp
  | ok grown => simp

theorem Lineage.chainwork_nonneg (lineage : state.Lineage origin seen)
    (mem : branch ∈ state.forks) : 0 ≤ branch.chainwork := by
  refine (lineage.forest.linked branch mem).chainwork_nonneg fun tip record recorded => ?_
  have positive := recorded.work_pos
  omega

/-- A header that is not tracked and valid on its place is attached there. -/
theorem exists_absorb_of_place {record : BlockRecord} {tip : Snapshot} {others : List Branch}
    (lineage : state.Lineage origin seen) (untracked : state.tracks header.hash = false)
    (made : record.Extends tip header interval params)
    (place : Place state record tip others branch) :
    ∃ next, state.absorb header interval params = .ok next ∧
      next.forks.Perm (branch :: others) := by
  have ordered := lineage.forest.ordered
  have recorded := (recordAfter_eq_ok tip header interval params record).mpr made
  have fresh : ∀ other ∈ state.forks, other.tipHash ≠ record.hash := by
    rw [made.hash]
    exact tipHash_ne_of_untracked lineage.forest.named untracked
  -- it is enough that the branches by tip end up as the new one beside the others
  suffices attached : ∃ joined, state.attach header interval params = .ok ⟨Branch.keyed joined⟩ ∧
      joined.Perm (branch :: others) by
    obtain ⟨joined, succeeds, perm⟩ := attached
    refine ⟨{ state with forks := joined }, ?_, perm⟩
    rw [absorb, if_neg (Bool.eq_false_iff.mp untracked), succeeds, Except.map,
      Branch.values_keyed]
  rw [attach, branchMap_of_ordered ordered]
  cases place with
  | extend parent others named split =>
    have mem : parent ∈ state.forks := split.mem_iff.mpr List.mem_cons_self
    have found : ByteMap.find? ⟨Branch.keyed state.forks⟩ header.prevHash.bytes = some parent := by
      rw [← made.named, ← named]
      exact ByteMap.find?_of_mem (Branch.ascending_keyed.mpr ordered) (List.mem_map_of_mem mem)
    have checked := made.extend_eq (lineage.chainwork_nonneg mem)
    have rest := ordered.distinct.perm_cons_filter mem
    have apart : ∀ other ∈ state.forks.filter fun other => other.tipHash ≠ parent.tipHash,
        other.tipHash ≠ (parent.grow record).tipHash :=
      fun other there => fresh other (List.mem_filter.mp there).1
    obtain ⟨joined, inserted, _, perm⟩ := Branch.insert_keyed (ordered.filter _) apart
    refine ⟨joined, ?_, ?_⟩
    · simp only [found, extendBranch, bind_eq_ok, withoutBranch, Branch.erase?_keyed mem,
        Checked.orFail_eq_ok, pure, Except.pure, Except.ok.injEq]
      exact ⟨record, recorded, _, rfl, _, checked, inserted⟩
    · exact perm.trans ((rest.symm.trans split).cons_inv.cons _)
  | start named elsewhere =>
    have missing : ByteMap.find? ⟨Branch.keyed state.forks⟩ header.prevHash.bytes = none := by
      rw [← made.named]
      exact Branch.find?_keyed_eq_none elsewhere
    have apart : ∀ other ∈ state.forks, other.tipHash ≠ (Branch.single record).tipHash := fresh
    obtain ⟨joined, inserted, _, perm⟩ := Branch.insert_keyed ordered apart
    refine ⟨joined, ?_, perm⟩
    rw [made.named] at named
    rw [missing]
    simp only [if_pos named, openBranch, bind_eq_ok, Checked.orFail_eq_ok, pure, Except.pure,
      Except.ok.injEq]
    exact ⟨record, recorded, _, made.start_eq, inserted⟩

/-- The last of two records, on a place that is not the first one, could have come before it. It
makes the same branch of the same tip, and so does the first record after it. -/
theorem Place.swap {first second : BlockRecord} {tip tipToo : Snapshot}
    {others othersToo : List Branch} {branchToo : Branch} {middle : ChainState}
    (place : Place state first tip others branch)
    (unmoved : middle.confirmed = state.confirmed) (grown : middle.forks.Perm (branch :: others))
    (placeToo : Place middle second tipToo othersToo branchToo)
    (apart : second.prevHash ≠ first.hash) (new : second.hash ≠ first.prevHash)
    (offTip : ∀ branch ∈ state.forks, branch.tipHash ≠ state.confirmed.tipHash) :
    ∃ rest, Place state second tipToo rest branchToo ∧
      ∀ other : ChainState, other.confirmed = state.confirmed →
        other.forks.Perm (branchToo :: rest) →
        ∃ last, Place other first tip last branch ∧
          (branch :: last).Perm (branchToo :: othersToo) := by
  cases placeToo with
  | extend parent othersToo named split =>
    -- the branch that the second record extends was there before the first record
    have old : parent ∈ others := by
      have there : parent ∈ branch :: others :=
        (split.symm.trans grown).mem_iff.mp List.mem_cons_self
      rcases List.mem_cons.mp there with made | old
      · rw [made, place.tipHash] at named
        exact absurd named.symm apart
      · exact old
    have away : others.Perm (parent :: others.erase parent) := List.perm_cons_erase old
    have final : othersToo.Perm (branch :: others.erase parent) := by
      have whole := split.symm.trans (grown.trans (away.cons branch))
      exact (whole.trans (List.Perm.swap _ _ _)).cons_inv
    cases place with
    | extend root others namedFirst splitFirst =>
      refine ⟨root :: others.erase parent, Place.extend parent _ named ?_, ?_⟩
      · exact (splitFirst.trans (away.cons root)).trans (List.Perm.swap _ _ _)
      · intro other _ perm
        refine ⟨parent.grow second :: others.erase parent, Place.extend root _ namedFirst ?_, ?_⟩
        · exact perm.trans (List.Perm.swap _ _ _)
        · exact (List.Perm.swap _ _ _).trans (final.symm.cons _)
    | start confirmed elsewhere =>
      refine ⟨state.forks.erase parent, Place.extend parent _ named away, ?_⟩
      intro other unmovedToo perm
      refine ⟨other.forks, ?_, ?_⟩
      · rw [← unmovedToo]
        refine Place.start (confirmed.trans (congrArg _ unmovedToo.symm)) ?_
        intro held there
        rcases List.mem_cons.mp (perm.mem_iff.mp there) with made | old
        · rw [made]
          exact new
        · exact elsewhere held (List.mem_of_mem_erase old)
      · exact ((perm.cons _).trans (List.Perm.swap _ _ _)).trans (final.symm.cons _)
  | start named elsewhereToo =>
    have kept : ∀ held ∈ others, held.tipHash ≠ second.prevHash := fun held there =>
      elsewhereToo held (grown.mem_iff.mpr (List.mem_cons_of_mem _ there))
    rw [unmoved] at named
    rw [unmoved]
    cases place with
    | extend root others namedFirst splitFirst =>
      refine ⟨state.forks, Place.start named ?_, ?_⟩
      · intro held there
        rcases List.mem_cons.mp (splitFirst.mem_iff.mp there) with made | old
        · rw [named]
          exact offTip held there
        · exact kept held old
      · intro other _ perm
        refine ⟨Branch.single second :: others, Place.extend root _ namedFirst ?_, ?_⟩
        · exact (perm.trans (splitFirst.cons _)).trans (List.Perm.swap _ _ _)
        · exact (List.Perm.swap _ _ _).trans (grown.symm.cons _)
    | start confirmed elsewhere =>
      refine ⟨state.forks, Place.start named kept, ?_⟩
      intro other unmovedToo perm
      refine ⟨other.forks, ?_, ?_⟩
      · rw [← unmovedToo]
        refine Place.start (confirmed.trans (congrArg _ unmovedToo.symm)) ?_
        intro held there
        rcases List.mem_cons.mp (perm.mem_iff.mp there) with made | old
        · rw [made]
          exact new
        · exact elsewhere held old
      · exact ((perm.cons _).trans (List.Perm.swap _ _ _)).trans (grown.symm.cons _)

/-- No branch has the confirmed tip for its own. -/
theorem Lineage.tipHash_ne (lineage : state.Lineage origin seen) :
    ∀ branch ∈ state.forks, branch.tipHash ≠ state.confirmed.tipHash := by
  intro branch mem
  rw [lineage.forest.named branch mem]
  exact lineage.buried branch.newest (newest_mem mem)

theorem Lineage.absorbed (lineage : state.Lineage origin seen)
    (absorbs : state.absorb header interval params = .ok next) :
    state.Absorbed header interval params next :=
  absorbed_of_absorb lineage.forest.ordered lineage.forest.named absorbs

theorem Absorbed.tracks_iff (absorbed : state.Absorbed header interval params next)
    (hash : Digest) :
    next.tracks hash = true ↔ hash = header.hash ∨ state.tracks hash = true := by
  obtain ⟨tip, record, others, branch, made, place, perm⟩ := absorbed.placed
  have records := place.records_perm perm
  simp only [ChainState.tracks_iff, records.mem_iff, List.mem_cons, exists_eq_or_imp, made.hash]
  exact or_congr_left eq_comm

/-- A state is its confirmed part and its branches, whose order is fixed. -/
theorem eq_of_forks_perm {first second : ChainState}
    (confirmed : first.confirmed = second.confirmed) (history : first.history = second.history)
    (ordered : Branch.Ordered first.forks) (orderedToo : Branch.Ordered second.forks)
    (perm : first.forks.Perm second.forks) : first = second := by
  obtain ⟨firstConfirmed, firstHistory, firstForks⟩ := first
  obtain ⟨secondConfirmed, secondHistory, secondForks⟩ := second
  have forks : firstForks = secondForks := ordered.eq_of_perm orderedToo perm
  subst confirmed history forks
  rfl

/-- Two headers of which the second does not stand on the first can be attached in either order. -/
theorem absorb_swap {first second : Header} {middle : ChainState}
    (lineage : state.Lineage origin seen)
    (separate : Header.Separate origin (seen ++ [first, second]))
    (absorbs : state.absorb first interval params = .ok middle)
    (absorbsToo : middle.absorb second interval params = .ok next)
    (apart : second.prevHash ≠ first.hash) :
    ∃ other, state.absorb second interval params = .ok other ∧
      other.absorb first interval params = .ok next := by
  have earlier : Header.Separate origin (seen ++ [first]) := by
    refine separate.mono ?_
    simp
  have lineageMiddle := lineage.absorb earlier absorbs
  have one := lineage.absorbed absorbs
  have two := lineageMiddle.absorbed absorbsToo
  obtain ⟨tip, record, others, branch, made, place, perm⟩ := one.placed
  obtain ⟨tipToo, recordToo, othersToo, branchToo, madeToo, placeToo, permToo⟩ := two.placed
  have fresh : second ∉ seen ++ [first] := lineageMiddle.fresh_of_absorb absorbsToo
  -- nothing that was known when the first header came has the hash of the second
  have new : recordToo.hash ≠ record.prevHash := by
    have known : Known origin (seen ++ [first]) record.prevHash :=
      Lineage.known_append (lineage.known_of_place place)
    rw [madeToo.hash]
    refine Lineage.ne_of_known ?_ fresh known
    rw [List.append_assoc]
    exact separate
  have untrackedToo : state.tracks second.hash = false := by
    refine Bool.eq_false_iff.mpr fun tracked => ?_
    exact Bool.eq_false_iff.mp two.untracked ((one.tracks_iff _).mpr (Or.inr tracked))
  have stands : recordToo.prevHash ≠ record.hash := by
    rw [madeToo.named, made.hash]
    exact apart
  obtain ⟨rest, placed, onward⟩ :=
    place.swap one.confirmed perm placeToo stands new lineage.tipHash_ne
  obtain ⟨other, absorbsSecond, permOther⟩ :=
    exists_absorb_of_place lineage untrackedToo madeToo placed
  have three := lineage.absorbed absorbsSecond
  have lineageOther := lineage.absorb (separate.mono (by simp)) absorbsSecond
  obtain ⟨last, lastPlace, lastPerm⟩ := onward other three.confirmed permOther
  have untracked : other.tracks first.hash = false := by
    refine Bool.eq_false_iff.mpr fun tracked => ?_
    rcases (three.tracks_iff _).mp tracked with same | before
    · have equal := separate.injective first (by simp) second (by simp) same
      exact fresh (by simp [equal])
    · exact Bool.eq_false_iff.mp one.untracked before
  obtain ⟨final, absorbsFirst, permFinal⟩ :=
    exists_absorb_of_place lineageOther untracked made lastPlace
  have four := lineageOther.absorbed absorbsFirst
  have same : final = next := by
    refine eq_of_forks_perm ?_ ?_ four.ordered two.ordered ?_
    · rw [four.confirmed, three.confirmed, two.confirmed, one.confirmed]
    · rw [four.history, three.history, two.history, one.history]
    · exact (permFinal.trans lastPerm).trans permToo.symm
  exact ⟨other, absorbsSecond, same ▸ absorbsFirst⟩

end ChainState

end HeaderRelay
