import Mathlib
import HeaderRelay.Proofs.Chain.Chronicle
import HeaderRelay.Proofs.Chain.Replay

set_option autoImplicit false

namespace HeaderRelay

namespace Difficulty

variable {params : Params} {height : Int}

def periodOpening (params : Params) (height : Int) : Int :=
  params.difficultyAdjustmentInterval.toNat * (height / params.difficultyAdjustmentInterval.toNat)

theorem periodOpening_le (params : Params) (height : Int)
    (positive : 0 < params.difficultyAdjustmentInterval.toNat) :
    periodOpening params height ≤ height :=
  Int.mul_ediv_self_le (Int.natCast_ne_zero.mpr (Nat.ne_of_gt positive))

theorem periodOpening_of_dvd (opens : (params.difficultyAdjustmentInterval.toNat : Int) ∣ height) :
    periodOpening params height = height :=
  Int.mul_ediv_cancel' opens

/-- Where no period opens, that of the height before goes on. -/
theorem periodOpening_of_not_dvd (positive : 0 < params.difficultyAdjustmentInterval.toNat)
    (within : ¬ (params.difficultyAdjustmentInterval.toNat : Int) ∣ height) :
    periodOpening params height = periodOpening params (height - 1) := by
  have span : (0 : Int) < params.difficultyAdjustmentInterval.toNat := Int.natCast_pos.mpr positive
  have rest : 0 ≤ height % params.difficultyAdjustmentInterval.toNat :=
    Int.emod_nonneg _ (Int.ne_of_gt span)
  have less : height % params.difficultyAdjustmentInterval.toNat <
      params.difficultyAdjustmentInterval.toNat :=
    Int.emod_lt_of_pos _ span
  have some : height % params.difficultyAdjustmentInterval.toNat ≠ 0 :=
    fun none => within (Int.dvd_of_emod_eq_zero none)
  have whole := Int.emod_add_mul_ediv height params.difficultyAdjustmentInterval.toNat
  have same : (height - 1) / params.difficultyAdjustmentInterval.toNat =
      height / params.difficultyAdjustmentInterval.toNat := by
    have unique : (height - 1) / (params.difficultyAdjustmentInterval.toNat : Int) =
          height / params.difficultyAdjustmentInterval.toNat ∧
        (height - 1) % (params.difficultyAdjustmentInterval.toNat : Int) =
          height % params.difficultyAdjustmentInterval.toNat - 1 :=
      (Int.ediv_emod_unique span).mpr ⟨by omega, by omega, by omega⟩
    exact unique.1
  rw [periodOpening, periodOpening, same]

theorem opensPeriod_eq_ok {opens : Bool} (decided : opensPeriod params height = .ok opens) :
    opens = true ↔ (params.difficultyAdjustmentInterval.toNat : Int) ∣ height + 1 := by
  unfold opensPeriod at decided
  split at decided
  · cases decided
  · cases decided
    rw [decide_eq_true_iff]
    exact Int.dvd_iff_emod_eq_zero.symm

variable {bits timestamp epochStart next : Int}

/-- Within a period the bits stay. -/
theorem nextBits_of_not_dvd
    (required : nextBits params height bits timestamp epochStart = .ok next)
    (within : ¬ (params.difficultyAdjustmentInterval.toNat : Int) ∣ height + 1) : next = bits := by
  rw [nextBits, bind_eq_ok] at required
  obtain ⟨opens, decided, rest⟩ := required
  rw [if_neg (fun opened => within ((opensPeriod_eq_ok decided).mp opened))] at rest
  cases rest
  rfl

/-- Where a period opens, the target scales with the time that the last one took, of which no less
than a quarter and no more than four times the planned time counts. -/
theorem nextBits_of_dvd
    (required : nextBits params height bits timestamp epochStart = .ok next)
    (opening : (params.difficultyAdjustmentInterval.toNat : Int) ∣ height + 1) :
    ∃ target, Compact.target params bits = .ok target ∧
      next = Compact.encode (min params.powLimit.toNat
        (target * min (max (timestamp - epochStart) (params.targetTimespan / 4))
          (4 * params.targetTimespan) / params.targetTimespan)) := by
  rw [nextBits, bind_eq_ok] at required
  obtain ⟨opens, decided, rest⟩ := required
  rw [if_pos ((opensPeriod_eq_ok decided).mpr opening), retarget, bind_eq_ok] at rest
  obtain ⟨target, claimed, scaled⟩ := rest
  refine ⟨target, (RelayError.orFail_eq_ok _ _).mp claimed, ?_⟩
  split at scaled
  · cases scaled
  · cases scaled
    rw [clampTimespan, Int.min_comm, Int.mul_comm 4]

end Difficulty

open Difficulty (periodOpening)

/-- The tip of a height on a chain of records from a root on, where it reaches this height. -/
def tipAt? (root : Snapshot) (records : List BlockRecord) (height : Int) : Option Snapshot :=
  if height < root.height then none
  else (root :: records.map BlockRecord.tip)[(height - root.height).toNat]?

/-- The timestamp at which the period of difficulty of a height began on a chain: that of the block
at its first height or, when this is not above the root, the one known at the root. -/
def periodStart? (params : Params) (root : Snapshot) (records : List BlockRecord) (height : Int) :
    Option Int :=
  if root.height < periodOpening params height then
    (tipAt? root records (periodOpening params height)).map Snapshot.timestamp
  else some root.epochStart

variable {params : Params} {root tip parent : Snapshot} {records : List BlockRecord}
  {height : Int} {accepted : List Submission} {record : BlockRecord}

/-- A longer chain has the same tips below. -/
theorem tipAt?_append (more : List BlockRecord) (found : tipAt? root records height = some tip) :
    tipAt? root (records ++ more) height = some tip := by
  unfold tipAt? at found ⊢
  split at found
  · cases found
  · rename_i above
    obtain ⟨inside, _⟩ := List.getElem?_eq_some_iff.mp found
    rw [if_neg above, List.map_append, ← List.cons_append, List.getElem?_append_left inside]
    exact found

theorem periodStart?_append {start : Int} (more : List BlockRecord)
    (began : periodStart? params root records height = some start) :
    periodStart? params root (records ++ more) height = some start := by
  unfold periodStart? at began ⊢
  split at began
  · rename_i above
    obtain ⟨tip, found, same⟩ := Option.map_eq_some_iff.mp began
    rw [if_pos above, tipAt?_append more found, Option.map_some, same]
  · rename_i below
    rw [if_neg below]
    exact began

theorem Path.tipAt?_tip (path : Path (ChainState.Recorded params accepted) root records tip) :
    tipAt? root records tip.height = some tip := by
  have risen := path.height fun _ _ recorded => recorded.height
  have above : ¬ tip.height < root.height := by omega
  have position : (tip.height - root.height).toNat = records.length := by omega
  rw [tipAt?, if_neg above, position]
  cases path with
  | nil => rfl
  | @snoc records tip record path linked =>
    rw [List.length_append, List.length_singleton, List.getElem?_cons_succ, List.map_append,
      List.getElem?_append_right (List.length_map _).le, List.length_map, Nat.sub_self]
    rfl

/-- A block of a chain of accepted headers, with the one before it, has the difficulty that follows
from the timestamps of the chain, and the work of this difficulty. -/
structure Scheduled (params : Params) (accepted : List Submission) (root : Snapshot)
    (records : List BlockRecord) (record : BlockRecord) (parent : Snapshot) : Prop where
  placed : tipAt? root records record.height = some record.tip
  below : tipAt? root records (record.height - 1) = some parent
  submitted : ∃ submission ∈ accepted, ∃ header, submission.Carries header ∧
    header.hash = record.hash ∧ header.prevHash = parent.tipHash ∧
    header.bits.toNat = record.tip.bits ∧ header.timestamp.toNat = record.tip.timestamp
  began : periodStart? params root records record.height = some record.tip.epochStart
  carried : ¬ (params.difficultyAdjustmentInterval.toNat : Int) ∣ record.height →
    record.tip.bits = parent.bits
  retargeted : (params.difficultyAdjustmentInterval.toNat : Int) ∣ record.height →
    ∃ target start, Compact.target params parent.bits = .ok target ∧
      periodStart? params root records (record.height - 1) = some start ∧
      record.tip.bits = Compact.encode (min params.powLimit.toNat
        (target * min (max (parent.timestamp - start) (params.targetTimespan / 4))
          (4 * params.targetTimespan) / params.targetTimespan))
  worked : ∃ target, Compact.target params record.tip.bits = .ok target ∧
    Header.hashValue record.hash.bytes ≤ target

theorem Scheduled.append (scheduled : Scheduled params accepted root records record parent)
    (more : List BlockRecord) :
    Scheduled params accepted root (records ++ more) record parent where
  placed := tipAt?_append more scheduled.placed
  below := tipAt?_append more scheduled.below
  submitted := scheduled.submitted
  began := periodStart?_append more scheduled.began
  carried := scheduled.carried
  retargeted := by
    intro opens
    obtain ⟨target, start, claimed, began, bits⟩ := scheduled.retargeted opens
    exact ⟨target, start, claimed, periodStart?_append more began, bits⟩
  worked := scheduled.worked

/-- The block that comes next on a chain has the difficulty that the chain asks for, when the tip of
the chain carries the timestamp at which its period began. -/
theorem Path.scheduled_snoc (path : Path (ChainState.Recorded params accepted) root records tip)
    (recorded : ChainState.Recorded params accepted tip record)
    (positive : 0 < params.difficultyAdjustmentInterval.toNat)
    (began : periodStart? params root records tip.height = some tip.epochStart) :
    Scheduled params accepted root (records ++ [record]) record tip := by
  have height := recorded.height
  have under : record.height - 1 = tip.height := by omega
  have placed := (path.snoc recorded).tipAt?_tip
  have risen := path.height fun _ _ recorded => recorded.height
  obtain ⟨submission, mem, header, carried, made⟩ := recorded
  obtain ⟨opens, decided, grown⟩ := made.follows.grown
  have required := made.follows.bits
  have bits : record.tip.bits = header.bits.toNat := by rw [grown, Snapshot.extended]
  have timestamp : record.tip.timestamp = header.timestamp.toNat := by
    rw [grown, Snapshot.extended]
  have epochStart : record.tip.epochStart =
      if opens then record.tip.timestamp else tip.epochStart := by
    rw [timestamp, grown, Snapshot.extended]
  have decides := Difficulty.opensPeriod_eq_ok decided
  rw [← height] at decides
  rw [Snapshot.requiredBits, ← bits] at required
  refine ⟨placed, ?_, ?_, ?_, ?_, ?_, ?_⟩
  · rw [under]
    exact tipAt?_append [record] path.tipAt?_tip
  · exact ⟨submission, mem, header, carried, made.hash.symm, made.follows.builds, bits.symm,
      timestamp.symm⟩
  · by_cases opening : (params.difficultyAdjustmentInterval.toNat : Int) ∣ record.height
    · -- the period opens at this very block
      rw [epochStart, if_pos (decides.mpr opening), periodStart?,
        Difficulty.periodOpening_of_dvd opening, if_pos (by omega)]
      exact congrArg (Option.map Snapshot.timestamp) placed
    · rw [epochStart, if_neg (fun opened => opening (decides.mp opened)), periodStart?,
        Difficulty.periodOpening_of_not_dvd positive opening, under]
      exact periodStart?_append [record] began
  · intro within
    rw [height] at within
    exact Difficulty.nextBits_of_not_dvd required within
  · intro opening
    rw [height] at opening
    obtain ⟨target, claimed, scaled⟩ := Difficulty.nextBits_of_dvd required opening
    rw [under]
    exact ⟨target, tip.epochStart, claimed, periodStart?_append [record] began, scaled⟩
  · rw [bits, made.hash]
    exact made.follows.worked

/-- Each block of a chain of accepted headers has the difficulty that the chain below it asks for,
and its tip carries the timestamp at which its period began. -/
theorem Path.scheduled (path : Path (ChainState.Recorded params accepted) root records tip)
    (positive : 0 < params.difficultyAdjustmentInterval.toNat) :
    periodStart? params root records tip.height = some tip.epochStart ∧
      ∀ record ∈ records, ∃ parent, Scheduled params accepted root records record parent := by
  induction path with
  | nil =>
    refine ⟨?_, List.forall_mem_nil _⟩
    have below := Difficulty.periodOpening_le params root.height positive
    rw [periodStart?, if_neg (by omega)]
  | @snoc records tip record path recorded ih =>
    have last := path.scheduled_snoc recorded positive ih.1
    refine ⟨last.began, List.forall_mem_append.mpr ⟨?_, ?_⟩⟩
    · intro earlier mem
      obtain ⟨parent, scheduled⟩ := ih.2 earlier mem
      exact ⟨parent, scheduled.append [record]⟩
    · exact List.forall_mem_singleton.mpr ⟨tip, last⟩

namespace Sample

/-- A network on which every second block opens a period of difficulty. -/
def brisk : Params := { hasty with difficultyAdjustmentInterval := 2 }

/-- The first block of a period. It comes so early that its target is a quarter of that before. -/
def harder : Header := { childOf first.hash 1300000002 5 with bits := 0x201FFFFF }

end Sample

namespace ChainState

/-- From a trusted block on, the blocks confirmed by a run and then those of any branch that it
reaches form a chain on which each block has the difficulty that follows from the chain itself. -/
theorem scheduled_of_run (seed : Seed) (seedParams params : Params)
    (positive : 0 < params.difficultyAdjustmentInterval.toNat) (initial : ChainState)
    (started : seed.start seedParams = .ok initial) (accepted : List Submission)
    (state : ChainState) (reached : Run params initial accepted state)
    (proper : ∀ submission ∈ accepted, submission.Proper) :
    initial.confirmed.height = seed.height ∧ initial.confirmed.epochStart = seed.epochStart ∧
      (∃ promotions, Chronicle params initial accepted promotions state) ∧
      ∀ promotions, Chronicle params initial accepted promotions state →
        ∀ tail, (tail = [] ∨ ∃ branch ∈ state.forks, tail = branch.blocks.reverse) →
          ∀ record ∈ promotions.map Promotion.record ++ tail, ∃ parent,
            Scheduled params accepted initial.confirmed (promotions.map Promotion.record ++ tail)
              record parent := by
  have bare := Seed.forks_of_start started
  refine ⟨?_, ?_, reached.exists_chronicle, ?_⟩
  · rw [Seed.eq_unchecked_of_start started, Seed.unchecked]
  · rw [Seed.eq_unchecked_of_start started, Seed.unchecked]
  · rintro promotions chronicle tail ends
    have path := chronicle.path bare proper
    rcases ends with rfl | ⟨branch, mem, rfl⟩
    · rw [List.append_nil]
      exact (path.scheduled positive).2
    · have onward := ((reached.forest bare proper).linked branch mem).path
      exact ((path.trans onward).scheduled positive).2

theorem scheduled_of_run_harder :
    let initial := Sample.origin.unchecked Sample.brisk
    let accepted := [Sample.submit [Sample.first], Sample.submit [Sample.harder]]
    let state := initial.submitAll Sample.brisk accepted
    Sample.origin.start Sample.brisk = .ok initial ∧ Run Sample.brisk initial accepted state ∧
      state.confirmed.tipHash = Sample.first.hash ∧
      ∃ branch ∈ state.forks, branch.oldest.hash = Sample.harder.hash ∧
        ∃ (confirmed : List BlockRecord) (parent : Snapshot),
          Scheduled Sample.brisk accepted initial.confirmed (confirmed ++ branch.blocks.reverse)
            branch.oldest parent := by
  intro initial accepted state
  let opened := initial.submit Sample.brisk (Sample.submit [Sample.first])
  obtain ⟨started, opens, confirms, proper, tip, branch, mem, oldest⟩ :
      Sample.origin.start Sample.brisk = .ok initial ∧
        initial.outcome Sample.brisk (Sample.submit [Sample.first]) =
          .ok (.accepted opened 0) ∧
        opened.outcome Sample.brisk (Sample.submit [Sample.harder]) = .ok (.accepted state 1) ∧
        (∀ submission ∈ accepted, submission.Proper) ∧
        state.confirmed.tipHash = Sample.first.hash ∧
        ∃ branch ∈ state.forks, branch.oldest.hash = Sample.harder.hash := by
    decide +kernel
  have reached : Run Sample.brisk initial accepted state := (Run.start.accept opens).accept confirms
  obtain ⟨_, _, ⟨promotions, chronicle⟩, scheduled⟩ := scheduled_of_run Sample.origin Sample.brisk
    Sample.brisk (by decide) initial started accepted state reached proper
  have held : branch.oldest ∈ branch.blocks.reverse :=
    List.mem_reverse.mpr branch.oldest_mem_blocks
  obtain ⟨parent, follows⟩ := scheduled promotions chronicle branch.blocks.reverse
    (Or.inr ⟨branch, mem, rfl⟩) branch.oldest (List.mem_append_right _ held)
  exact ⟨started, reached, tip, branch, mem, oldest, _, parent, follows⟩

end ChainState

end HeaderRelay
