import Mathlib
import HeaderRelay.Proofs.Chain.History
import HeaderRelay.Proofs.Chain.Resubmission

set_option autoImplicit false

namespace HeaderRelay

structure Arrival where
  header : Header
  interval : Interval

namespace Arrival

def Among (accepted : List Submission) (arrival : Arrival) : Prop :=
  ∃ submission ∈ accepted, submission.Carries arrival.header ∧
    submission.interval = arrival.interval

/-- What a record keeps of a header beside the tip that the header makes. -/
structure KeptBy (params : Params) (arrival : Arrival) (record : BlockRecord) : Prop where
  addedTime : record.addedTime = arrival.interval.lower.toNat
  prevHash : record.prevHash = arrival.header.prevHash
  work : ∃ target, Compact.target params arrival.header.bits.toNat = .ok target ∧
    Difficulty.work target = .ok record.work

end Arrival

namespace Snapshot

/-- The tips that headers make one after the other, each validated in its own interval. A tip is
checked before it is extended, as every tip is that was kept. -/
def replay (params : Params) : Snapshot → List Arrival → Except Failure (List Snapshot)
  | _, [] => .ok []
  | tip, arrival :: rest => do
    let tip ← tip.checked.orFail
    let next ← tip.validate arrival.header arrival.interval params
    let later ← next.replay params rest
    return next :: later

variable {params : Params} {tip next last : Snapshot} {arrival : Arrival}

theorem replay_cons_eq_ok {rest : List Arrival} {tips : List Snapshot} :
    tip.replay params (arrival :: rest) = .ok tips ↔
      ∃ next later, tip.faults = [] ∧
        tip.validate arrival.header arrival.interval params = .ok next ∧
        next.replay params rest = .ok later ∧ tips = next :: later := by
  simp only [replay, bind_eq_ok, Checked.orFail_eq_ok, checked_eq_valid, pure, Except.pure,
    Except.ok.injEq]
  constructor
  · rintro ⟨_, ⟨inRange, rfl⟩, next, valid, later, onward, rfl⟩
    exact ⟨next, later, inRange, valid, onward, rfl⟩
  · rintro ⟨next, later, inRange, valid, onward, rfl⟩
    exact ⟨tip, ⟨inRange, rfl⟩, next, valid, later, onward, rfl⟩

/-- Headers that go on from the last tip of others can be replayed after them. -/
theorem replay_append {front back : List Arrival} {tips more : List Snapshot}
    (replayed : tip.replay params front = .ok tips) (ends : tips.getLast?.getD tip = last)
    (onward : last.replay params back = .ok more) :
    tip.replay params (front ++ back) = .ok (tips ++ more) := by
  induction front generalizing tip tips with
  | nil =>
    cases replayed
    have start : tip = last := ends
    rw [List.nil_append, List.nil_append, start]
    exact onward
  | cons arrival front ih =>
    obtain ⟨next, later, inRange, valid, rest, rfl⟩ := replay_cons_eq_ok.mp replayed
    have ends : later.getLast?.getD next = last := by
      rw [← ends, List.getLast?_cons, Option.getD_some]
    rw [List.cons_append, replay_cons_eq_ok]
    exact ⟨next, later ++ more, inRange, valid, ih rest ends, List.cons_append⟩

end Snapshot

open ChainState (Recorded)

variable {params : Params} {accepted : List Submission}

/-- A record was made by one arrival, and the arrival makes its tip again. -/
theorem ChainState.Recorded.exists_arrival {tip : Snapshot} {record : BlockRecord}
    (recorded : Recorded params accepted tip record) :
    ∃ arrival, arrival.Among accepted ∧ arrival.KeptBy params record ∧
      tip.replay params [arrival] = .ok [record.tip] := by
  obtain ⟨submission, mem, header, carried, made⟩ := recorded
  refine ⟨⟨header, submission.interval⟩, ⟨submission, mem, carried, rfl⟩,
    ⟨made.stamped, made.named, made.worth⟩, ?_⟩
  apply Snapshot.replay_cons_eq_ok.mpr
  exact ⟨record.tip, [], made.tipInRange, Snapshot.validate_eq_ok.mpr made.follows, rfl, rfl⟩

/-- The blocks of a branch, oldest first, lead from its root to its tip. -/
theorem Branch.Linked.path {link : Link} {root : Snapshot} {branch : Branch}
    (linked : branch.Linked link root) :
    Path link root branch.blocks.reverse branch.newest.tip := by
  -- induction on the older blocks, from the newest end, where the path ends
  obtain ⟨chain, rooted, -, -, -⟩ := linked
  obtain ⟨tipHash, tipHeight, chainwork, newest, older⟩ := branch
  induction older generalizing newest with
  | nil => exact Path.nil.snoc rooted
  | cons next older ih =>
    obtain ⟨first, rest⟩ := List.isChain_cons_cons.mp chain
    have below : Path link root (next :: older).reverse next.tip := by
      apply ih next rest
      have last : (next :: older).getLast?.getD newest = older.getLast?.getD next := by
        rw [List.getLast?_cons, Option.getD_some]
      simpa only [Branch.oldest, last] using rooted
    have whole := below.snoc first
    rwa [← List.reverse_cons] at whole

namespace Path

variable {root tip : Snapshot} {records : List BlockRecord}

theorem getLast?_tips {link : Link} (path : Path link root records tip) :
    (records.map BlockRecord.tip).getLast?.getD root = tip := by
  cases path with
  | nil => rfl
  | snoc path linked => rw [List.map_append, List.map_singleton, List.getLast?_concat]; rfl

/-- Records that stand on one another are made again by the headers that made them. -/
theorem exists_replay (path : Path (Recorded params accepted) root records tip) :
    ∃ arrivals, (∀ arrival ∈ arrivals, arrival.Among accepted) ∧
      root.replay params arrivals = .ok (records.map BlockRecord.tip) ∧
      List.Forall₂ (Arrival.KeptBy params) arrivals records := by
  induction path with
  | nil => exact ⟨[], List.forall_mem_nil _, rfl, List.Forall₂.nil⟩
  | @snoc records tip record path recorded ih =>
    obtain ⟨arrivals, among, replayed, kept⟩ := ih
    obtain ⟨arrival, came, keeps, makes⟩ := recorded.exists_arrival
    refine ⟨arrivals ++ [arrival], ?_, ?_, ?_⟩
    · exact List.forall_mem_append.mpr ⟨among, List.forall_mem_singleton.mpr came⟩
    · rw [List.map_append]
      exact Snapshot.replay_append replayed path.getLast?_tips makes
    · exact List.rel_append kept (List.Forall₂.cons keeps List.Forall₂.nil)

end Path

namespace ChainState

variable {state : ChainState} {branch : Branch}

/-- Wherever the branches of a state form a forest of accepted headers, each can be replayed from
the confirmed tip on. -/
theorem Forest.exists_replay (forest : state.Forest (Recorded params accepted))
    (mem : branch ∈ state.forks) :
    ∃ arrivals, (∀ arrival ∈ arrivals, arrival.Among accepted) ∧
      state.confirmed.replay params arrivals = .ok (branch.blocks.reverse.map BlockRecord.tip) ∧
      List.Forall₂ (Arrival.KeptBy params) arrivals branch.blocks.reverse :=
  (forest.linked branch mem).path.exists_replay

/-- In every state that accepted submissions lead to from a trusted block, each branch can be
replayed: from the confirmed tip on, headers of these submissions are valid one after the other in
the intervals of their batches and make the tips of its records, oldest first, and the records keep
what came with the headers. -/
theorem exists_replay_of_run (seed : Seed) (seedParams params : Params) (initial : ChainState)
    (started : seed.start seedParams = .ok initial) (accepted : List Submission)
    (state : ChainState) (reached : Run params initial accepted state)
    (proper : ∀ submission ∈ accepted, submission.Proper) :
    ∀ branch ∈ state.forks,
      ∃ arrivals, (∀ arrival ∈ arrivals, arrival.Among accepted) ∧
        state.confirmed.replay params arrivals =
          .ok (branch.blocks.reverse.map BlockRecord.tip) ∧
        List.Forall₂ (Arrival.KeptBy params) arrivals branch.blocks.reverse := by
  have forest := reached.forest (Seed.forks_of_start started) proper
  intro branch mem
  exact forest.exists_replay mem

theorem exists_replay_settled :
    Sample.origin.start Sample.hasty = .ok (Sample.origin.unchecked Sample.hasty) ∧
      Run Sample.hasty (Sample.origin.unchecked Sample.hasty) Sample.contest Sample.settled ∧
      (∀ submission ∈ Sample.contest, submission.Proper) ∧
      Sample.settled.confirmed.tipHash = Sample.first.hash ∧
      ∃ branch ∈ Sample.settled.forks, branch.tipHash = Sample.afterFirst.hash ∧
        ∃ arrivals, (∀ arrival ∈ arrivals, arrival.Among Sample.contest) ∧
          Sample.settled.confirmed.replay Sample.hasty arrivals =
            .ok (branch.blocks.reverse.map BlockRecord.tip) ∧
          List.Forall₂ (Arrival.KeptBy Sample.hasty) arrivals branch.blocks.reverse := by
  obtain ⟨proper, confirmed, branch, mem, tip⟩ :
      (∀ submission ∈ Sample.contest, submission.Proper) ∧
        Sample.settled.confirmed.tipHash = Sample.first.hash ∧
        ∃ branch ∈ Sample.settled.forks, branch.tipHash = Sample.afterFirst.hash := by
    decide +kernel
  exact ⟨Sample.started, Sample.run_contest, proper, confirmed, branch, mem, tip,
    exists_replay_of_run Sample.origin Sample.hasty Sample.hasty _ Sample.started Sample.contest
      Sample.settled Sample.run_contest proper branch mem⟩

end ChainState

end HeaderRelay
