import Mathlib
import HeaderRelay.Proofs.Chain.Batch
import HeaderRelay.Proofs.Chain.Confirmation
import HeaderRelay.Proofs.Chain.Forest

set_option autoImplicit false

namespace HeaderRelay

/-- Records that stand on one another from a root to a tip, oldest first. -/
inductive Path (link : Link) (root : Snapshot) : List BlockRecord → Snapshot → Prop
  | nil : Path link root [] root
  | snoc {records : List BlockRecord} {tip : Snapshot} {record : BlockRecord}
      (path : Path link root records tip) (linked : link tip record) :
      Path link root (records ++ [record]) record.tip

namespace Path

variable {link : Link} {root middle tip : Snapshot} {records : List BlockRecord}

theorem trans {first second : List BlockRecord} (lower : Path link root first middle)
    (upper : Path link middle second tip) : Path link root (first ++ second) tip := by
  induction upper with
  | nil =>
    rw [List.append_nil]
    exact lower
  | snoc path linked ih =>
    rw [← List.append_assoc]
    exact ih.snoc linked

theorem mono {other : Link} (path : Path link root records tip)
    (weaker : ∀ tip record, link tip record → other tip record) :
    Path other root records tip := by
  induction path with
  | nil => exact Path.nil
  | snoc path linked ih => exact ih.snoc (weaker _ _ linked)

theorem height (path : Path link root records tip)
    (next : ∀ tip record, link tip record → record.height = tip.height + 1) :
    tip.height = root.height + records.length := by
  induction path with
  | nil => exact (Int.add_zero _).symm
  | @snoc records tip record path linked ih =>
    have above : record.tip.height = tip.height + 1 := next tip record linked
    rw [above, ih, List.length_append, List.length_singleton]
    omega

end Path

/-- The moment at which a block is confirmed: the state before, and the branch whose oldest block it
is. -/
structure Promotion where
  state : ChainState
  branch : Branch

def Promotion.record (promotion : Promotion) : BlockRecord := promotion.branch.oldest

/-- A header that was read from a batch is carried by its submission. -/
theorem Submission.carries_of_mem {submission : Submission} {header : Header}
    (mem : header ∈ submission.headers) : submission.Carries header := by
  obtain ⟨raw, there, same⟩ := List.mem_filterMap.mp mem
  refine ⟨raw, there, ?_⟩
  cases read : Header.ofWire raw with
  | error cause =>
    rw [read] at same
    cases same
  | ok found =>
    rw [read] at same
    exact congrArg Except.ok (Option.some.inj same)

namespace ChainState

variable {params : Params} {interval : Interval} {start state next grown final : ChainState}
  {submission : Submission} {accepted : List Submission} {promotions : List Promotion}
  {count : Nat} {link : Link}

/-- One block after the other is confirmed, each of the branch that wins at its moment, and they
lead from a state to another one. -/
inductive Promotes (interval : Interval) (params : Params) :
    ChainState → List Promotion → ChainState → Prop
  | refl (state : ChainState) : Promotes interval params state [] state
  | step {state final : ChainState} {branch : Branch} {promotions : List Promotion}
      (wins : state.winner? interval params = some branch)
      (rest : Promotes interval params (state.promoteOldest branch) promotions final) :
      Promotes interval params state (⟨state, branch⟩ :: promotions) final

theorem Confirms.exists_promotes (confirms : Confirms interval params state count final) :
    ∃ promotions, promotions.length = count ∧ Promotes interval params state promotions final := by
  induction confirms with
  | refl state => exact ⟨[], rfl, Promotes.refl state⟩
  | @step state final branch count wins rest ih =>
    obtain ⟨promotions, length, promotes⟩ := ih
    refine ⟨⟨state, branch⟩ :: promotions, ?_, Promotes.step wins promotes⟩
    rw [List.length_cons, length]

/-- An accepted submission attaches its headers, and then confirms as many blocks as it reports. -/
theorem exists_promotes_of_outcome
    (accepts : state.outcome params submission = .ok (.accepted next count)) :
    ∃ grown promotions,
      state.absorbAll submission.interval params submission.headers = .ok grown ∧
        Promotes submission.interval params grown promotions next ∧ promotions.length = count := by
  by_cases empty : submission.batch = []
  · obtain ⟨rfl, rfl⟩ := unchanged_of_outcome empty accepts
    have none : submission.headers = [] := by
      rw [Submission.headers, empty]
      rfl
    rw [none]
    exact ⟨next, [], rfl, Promotes.refl next, rfl⟩
  · obtain ⟨grown, _, absorbs, promoted⟩ := (outcome_eq_accepted_iff empty).mp accepts
    have confirms : Confirms submission.interval params grown
        (grown.promote submission.interval params).2
        (grown.promote submission.interval params).1 :=
      confirms_promote grown
    rw [promoted] at confirms
    obtain ⟨promotions, length, promotes⟩ := confirms.exists_promotes
    exact ⟨grown, promotions, absorbs, promotes, length⟩

/-- At each moment the branches still form the forest from which the promotion started. -/
theorem Promotes.forest_of_mem (promotes : Promotes interval params state promotions final)
    (forest : state.Forest link) (proper : Link.Proper link) :
    ∀ promotion ∈ promotions, promotion.state.Forest link ∧
      promotion.state.winner? interval params = some promotion.branch := by
  induction promotes with
  | refl state => exact List.forall_mem_nil _
  | step wins rest ih =>
    refine List.forall_mem_cons.mpr ⟨⟨forest, wins⟩, ih ?_⟩
    exact forest.promoteOldest proper (mem_of_winner? wins).1

/-- The history takes the hashes of the confirmed blocks in order, on whatever they stand. -/
theorem Promotes.history_eq (promotes : Promotes interval params state promotions final) :
    final.history = (promotions.map fun promotion => promotion.record.hash).foldl
      Merkle.Accumulator.append state.history := by
  induction promotes with
  | refl state => rfl
  | step wins rest ih => exact ih

theorem Promotes.confirmed_eq (promotes : Promotes interval params state promotions final) :
    final.confirmed =
      (promotions.map fun promotion => promotion.record.tip).getLastD state.confirmed := by
  induction promotes with
  | refl state => rfl
  | step wins rest ih =>
    rw [ih, List.map_cons, List.getLastD_cons]
    rfl

/-- The confirmed blocks lead from the confirmed tip to the new one, and the history takes their
hashes in order. -/
theorem Promotes.path (promotes : Promotes interval params state promotions final)
    (forest : state.Forest link) (proper : Link.Proper link) :
    Path link state.confirmed (promotions.map Promotion.record) final.confirmed ∧
      final.history = (promotions.map fun promotion => promotion.record.hash).foldl
        Merkle.Accumulator.append state.history := by
  refine ⟨?_, promotes.history_eq⟩
  induction promotes with
  | refl state => exact Path.nil
  | @step state final branch promotions wins rest ih =>
    have mem := (mem_of_winner? wins).1
    have first : Path link state.confirmed [branch.oldest] branch.oldest.tip :=
      Path.nil.snoc (forest.linked branch mem).rooted
    exact first.trans (ih (forest.promoteOldest proper mem))

/-- The moments at which the accepted submissions of a run confirm blocks, in order. -/
inductive Chronicle (params : Params) (start : ChainState) :
    List Submission → List Promotion → ChainState → Prop
  | start : Chronicle params start [] [] start
  | accept {accepted : List Submission} {promotions more : List Promotion}
      {state grown next : ChainState} {submission : Submission} {count : Nat}
      (before : Chronicle params start accepted promotions state)
      (accepts : state.outcome params submission = .ok (.accepted next count))
      (absorbs : state.absorbAll submission.interval params submission.headers = .ok grown)
      (promotes : Promotes submission.interval params grown more next) :
      Chronicle params start (accepted ++ [submission]) (promotions ++ more) next

theorem Chronicle.run (chronicle : Chronicle params start accepted promotions state) :
    Run params start accepted state := by
  induction chronicle with
  | start => exact Run.start
  | accept before accepts absorbs promotes ih => exact Run.accept ih accepts

/-- Attaching headers changes nothing that is confirmed. -/
theorem confirmed_of_absorbAll {headers : List Header}
    (absorbs : state.absorbAll interval params headers = .ok grown) :
    grown.confirmed = state.confirmed ∧ grown.history = state.history := by
  refine absorbAll_induction (motive := fun grown =>
    grown.confirmed = state.confirmed ∧ grown.history = state.history) ?_ ⟨rfl, rfl⟩ absorbs
  intro current header next _ same attaches
  unfold absorb at attaches
  split at attaches
  · cases attaches
  · obtain ⟨branches, _, rfl⟩ := (map_eq_ok _ _ _).mp attaches
    exact same

theorem Forest.absorbAll {headers : List Header} (forest : state.Forest link)
    (links : ∀ header ∈ headers, ∀ tip record, record.Extends tip header interval params →
      link tip record)
    (absorbs : state.absorbAll interval params headers = .ok grown) : grown.Forest link :=
  absorbAll_induction (motive := fun state => state.Forest link)
    (fun _ header _ mem forest attaches => forest.absorb (links header mem) attaches) forest absorbs

theorem recorded_of_mem {header : Header} {tip : Snapshot} {record : BlockRecord}
    (mem : header ∈ submission.headers)
    (made : record.Extends tip header submission.interval params) :
    Recorded params (accepted ++ [submission]) tip record :=
  ⟨submission, List.mem_append_right _ List.mem_cons_self, header,
    Submission.carries_of_mem mem, made⟩

/-- The confirmed blocks of a run lead from the tip at which it started to the confirmed tip. -/
theorem Chronicle.path (chronicle : Chronicle params start accepted promotions state)
    (bare : start.forks = []) (proper : ∀ submission ∈ accepted, submission.Proper) :
    Path (Recorded params accepted) start.confirmed (promotions.map Promotion.record)
      state.confirmed := by
  induction chronicle with
  | start => exact Path.nil
  | @accept accepted promotions more state grown next submission count before accepts absorbs
      promotes ih =>
    have earlier := fun other mem => proper other (List.mem_append_left _ mem)
    have forest : grown.Forest (Recorded params (accepted ++ [submission])) :=
      (before.run.forest bare earlier).append.absorbAll
        (fun header mem tip record => recorded_of_mem mem) absorbs
    have onward := (promotes.path forest (recorded_proper proper)).1
    rw [(confirmed_of_absorbAll absorbs).1] at onward
    rw [List.map_append]
    exact ((ih earlier).mono fun _ _ => Recorded.mono (List.subset_append_left _ _)).trans onward

theorem Run.exists_chronicle (reached : Run params start accepted state) :
    ∃ promotions, Chronicle params start accepted promotions state := by
  induction reached with
  | start => exact ⟨[], Chronicle.start⟩
  | accept reached accepts ih =>
    obtain ⟨promotions, before⟩ := ih
    obtain ⟨grown, more, absorbs, promotes, _⟩ := exists_promotes_of_outcome accepts
    exact ⟨promotions ++ more, Chronicle.accept before accepts absorbs promotes⟩

end ChainState

end HeaderRelay
