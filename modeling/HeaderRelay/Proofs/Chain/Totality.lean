import Mathlib
import HeaderRelay.Proofs.Chain.Batch
import HeaderRelay.Proofs.Chain.Growth
import HeaderRelay.Proofs.Document.Canonical

set_option autoImplicit false

namespace HeaderRelay

def Failure.IsRefusal (failure : Failure) : Prop := ∃ error, failure = .refused error

namespace ChainState

variable {state next : ChainState} {header : Header} {interval : Interval} {params : Params}
  {branch : Branch} {record : BlockRecord} {tip : Snapshot} {others : List Branch} {count : Nat}

/-- Above every tip there is room for so many blocks. -/
def Room (state : ChainState) (count : Nat) : Prop :=
  ∀ tip ∈ state.tips, tip.height + count < 2 ^ 64

theorem room_iff (admissible : state.Admissible) :
    state.Room count ↔ state.confirmed.height + count < 2 ^ 64 ∧
      ∀ branch ∈ state.forks, branch.tipHeight + count < 2 ^ 64 := by
  rw [Room, tips, List.forall_mem_cons, List.forall_mem_map]
  refine and_congr_right fun _ => forall₂_congr fun branch mem => ?_
  have height : branch.newest.tip.height = branch.tipHeight :=
    (admissible.branches branch mem).tip.2
  rw [height]

theorem Admissible.inRange_of_mem_tips (admissible : state.Admissible) (mem : tip ∈ state.tips) :
    tip.InRange := by
  rcases List.mem_cons.mp mem with rfl | newest
  · exact admissible.confirmed.inRange
  · obtain ⟨branch, there, rfl⟩ := List.mem_map.mp newest
    exact ((admissible.branches branch there).records _ List.mem_cons_self).tip

theorem Place.mem_tips (place : Place state record tip others branch) : tip ∈ state.tips := by
  cases place with
  | extend parent others named split =>
    have mem : parent ∈ state.forks := split.mem_iff.mpr List.mem_cons_self
    exact List.mem_cons_of_mem _ (List.mem_map_of_mem mem)
  | start named elsewhere => exact List.mem_cons_self

theorem Place.newest (place : Place state record tip others branch) : branch.newest = record := by
  cases place <;> rfl

/-- Attaching a header takes the room of one block. -/
theorem Room.absorb (admissible : state.Admissible) (room : state.Room (count + 1))
    (absorbs : state.absorb header interval params = .ok next) : next.Room count := by
  have absorbed := admissible.absorbed absorbs
  obtain ⟨confirmed, newest⟩ := List.forall_mem_cons.mp room
  refine List.forall_mem_cons.mpr ⟨?_, List.forall_mem_map.mpr (absorbed.forall_branch ?_ ?_)⟩
  · rw [absorbed.confirmed]
    omega
  · intro branch mem
    have before := List.forall_mem_map.mp newest branch mem
    omega
  · intro tip record others branch made place
    have before := room tip place.mem_tips
    have height : branch.newest.tip.height = tip.height + 1 := by
      rw [place.newest]
      exact made.height
    omega

theorem Fails.isRefusal {failure : Failure} (fails : state.Fails header params failure)
    (admissible : state.Admissible) (room : state.Room (count + 1))
    (lasting : params.targetTimespan ≠ 0) : failure.IsRefusal := by
  cases fails with
  | duplicate tracked => exact ⟨_, rfl⟩
  | unattached untracked elsewhere apart => exact ⟨_, rfl⟩
  | check mem fails =>
    cases fails with
    | rule concerns => exact ⟨_, rfl⟩
    | range outside =>
      have above := room _ mem
      exact absurd ⟨admissible.inRange_of_mem_tips mem, by omega⟩ outside
    | instant zero => exact absurd zero lasting

/-- As long as there is room for all of them, headers fail to be attached only by a refusal. -/
theorem failsOnly_absorbAll {headers : List Header} (admissible : state.Admissible)
    (room : state.Room headers.length) (lasting : params.targetTimespan ≠ 0) :
    FailsOnly Failure.IsRefusal (state.absorbAll interval params headers) := by
  induction headers generalizing state with
  | nil => exact .of_ok state
  | cons header rest ih =>
    simp only [absorbAll]
    split
    · rename_i failure failed
      have fails := failsOnly_absorb admissible header interval params failure failed
      exact .of_error (fails.isRefusal admissible room lasting)
    · rename_i grown absorbs
      exact ih (admissible.absorb absorbs) (room.absorb admissible absorbs)

theorem failsOnly_run {batch : List Bytes} {policy : EmptyBatchPolicy}
    (admissible : state.Admissible) (room : state.Room batch.length)
    (lasting : params.targetTimespan ≠ 0) :
    FailsOnly Failure.IsRefusal (state.run batch interval params policy) := by
  unfold run
  split
  · exact .of_ok _
  · exact .of_error ⟨_, rfl⟩
  · split
    · exact .of_error ⟨_, rfl⟩
    · rename_i headers read
      have length : headers.length = batch.length := by
        have items := congrArg List.length (map_ofWire_of_readHeaders read)
        simpa only [List.length_map] using items.symm
      rw [← length] at room
      exact (failsOnly_absorbAll admissible room lasting).map _

/-- A batch submitted to a state that was read from a document is accepted or refused, and applying
it gives the state of its acceptance or the error of its refusal. Periods must last, and the heights
of the batch must fit into their field on every tip. -/
theorem outcome_of_decode {text : String} {state : ChainState}
    (read : Document.decode text = .valid state) (batch : List Bytes) (interval : Interval)
    (params : Params) (policy : EmptyBatchPolicy)
    (periods : 1 ≤ params.difficultyAdjustmentInterval.toNat)
    (spacing : 1 ≤ params.targetBlockSpacing.toNat)
    (low : state.confirmed.height + batch.length < 2 ^ 64)
    (branches : ∀ branch ∈ state.forks, branch.tipHeight + batch.length < 2 ^ 64) :
    (∃ next count, state.transition batch interval params policy = .ok (.accepted next count) ∧
        state.apply batch interval params policy = .ok next) ∨
      ∃ error, state.transition batch interval params policy = .ok (.rejected error) ∧
        state.apply batch interval params policy = .error (.refused error) := by
  have admissible : state.Admissible := (Document.of_decode gives_ofJson read).1
  have lasting : params.targetTimespan ≠ 0 := by
    rw [Params.targetTimespan]
    exact mul_ne_zero (Int.natCast_ne_zero.mpr (by omega)) (Int.natCast_ne_zero.mpr (by omega))
  have only : FailsOnly Failure.IsRefusal (state.run batch interval params policy) :=
    failsOnly_run admissible ((room_iff admissible).mpr ⟨low, branches⟩) lasting
  cases ran : state.run batch interval params policy with
  | ok result =>
    obtain ⟨final, promotions⟩ := result
    refine Or.inl ⟨final, promotions, ?_, ?_⟩
    · rw [transition, ran]
    · rw [apply, ran, Except.map]
  | error failure =>
    obtain ⟨error, rfl⟩ := only failure ran
    refine Or.inr ⟨error, ?_, ?_⟩
    · rw [transition, ran]
    · rw [apply, ran, Except.map]

end ChainState

def Sample.pair : List Bytes := [afterFirst, rival].map Header.wire

namespace ChainState

/-- A state that no run reaches is read from a document, and takes a batch of two headers. -/
theorem outcome_of_decode_weightless :
    Document.decode (Document.encode Sample.weightless) = .valid Sample.weightless ∧
      1 ≤ Params.regtest.difficultyAdjustmentInterval.toNat ∧
      1 ≤ Params.regtest.targetBlockSpacing.toNat ∧
      Sample.weightless.confirmed.height + Sample.pair.length < 2 ^ 64 ∧
      (∀ branch ∈ Sample.weightless.forks, branch.tipHeight + Sample.pair.length < 2 ^ 64) ∧
      ((∃ next count,
          Sample.weightless.transition Sample.pair Sample.now Params.regtest .reject =
              .ok (.accepted next count) ∧
            Sample.weightless.apply Sample.pair Sample.now Params.regtest .reject = .ok next) ∨
        ∃ error,
          Sample.weightless.transition Sample.pair Sample.now Params.regtest .reject =
              .ok (.rejected error) ∧
            Sample.weightless.apply Sample.pair Sample.now Params.regtest .reject =
              .error (.refused error)) := by
  obtain ⟨admissible, short, low, branches⟩ :
      Sample.weightless.Admissible ∧
        (∀ number ∈ Sample.weightless.forks.map Branch.chainwork,
          number.natAbs < 10 ^ Document.limits.length) ∧
        Sample.weightless.confirmed.height + Sample.pair.length < 2 ^ 64 ∧
        ∀ branch ∈ Sample.weightless.forks, branch.tipHeight + Sample.pair.length < 2 ^ 64 := by
    decide +kernel
  have read : Document.decode (Document.encode Sample.weightless) = .valid Sample.weightless :=
    (ChainState.roundTrips.decode_encode_iff _ admissible).mpr short
  exact ⟨read, by decide, by decide, low, branches,
    outcome_of_decode read Sample.pair Sample.now Params.regtest .reject (by decide) (by decide)
      low branches⟩

end ChainState

end HeaderRelay
