import Mathlib
import HeaderRelay.Proofs.Chain.Confirmation
import HeaderRelay.Proofs.Chain.Forest
import HeaderRelay.Proofs.Chain.Winner
import HeaderRelay.Proofs.Merkle.BlockProof

set_option autoImplicit false

namespace HeaderRelay

namespace Branch

def oldestFirst (branch : Branch) : List BlockRecord := branch.blocks.reverse

/-- A branch without some of its oldest blocks and their work. -/
def without (branch : Branch) (count : Nat) : Branch :=
  { branch with
    chainwork := branch.chainwork - ((branch.oldestFirst.take count).map BlockRecord.work).sum
    older := branch.older.rdrop count }

variable {branch remaining : Branch}

theorem oldestFirst_eq_cons (branch : Branch) :
    ∃ newer, branch.oldestFirst = branch.oldest :: newer := by
  have first : branch.oldestFirst.head? = some branch.oldest := by
    rw [oldestFirst, List.head?_reverse, getLast?_blocks]
  exact List.head?_eq_some_iff.mp first

theorem length_oldestFirst (branch : Branch) :
    branch.oldestFirst.length = branch.blocks.length := List.length_reverse

theorem without_zero (branch : Branch) : branch.without 0 = branch := by
  simp only [without, List.take_zero, List.map_nil, List.sum_nil, Int.sub_zero, List.rdrop_zero]

namespace Shortened

theorem oldestFirst (short : branch.Shortened remaining) :
    branch.oldestFirst = branch.oldest :: remaining.oldestFirst := by
  rw [Branch.oldestFirst, short.blocks, List.reverse_append]
  rfl

theorem older (short : branch.Shortened remaining) :
    branch.older = remaining.older ++ [branch.oldest] :=
  (List.cons.inj short.blocks).2

/-- A block more is taken away after the oldest one is. -/
theorem without (short : branch.Shortened remaining) (count : Nat) :
    remaining.without count = branch.without (count + 1) := by
  have work : remaining.chainwork -
        ((remaining.oldestFirst.take count).map BlockRecord.work).sum =
      branch.chainwork - ((branch.oldestFirst.take (count + 1)).map BlockRecord.work).sum := by
    rw [short.oldestFirst, List.take_succ_cons, List.map_cons, List.sum_cons, short.chainwork]
    omega
  have rest : remaining.older.rdrop count = branch.older.rdrop (count + 1) := by
    rw [short.older, List.rdrop_concat_succ]
  rw [Branch.without, Branch.without, work, rest, short.tipHash, short.tipHeight, short.newest]

end Shortened

end Branch

/-- The block at a place of a chain, counted from the oldest, may be confirmed once those before it
are: what is left of the chain is deep enough, and the block is old enough. -/
def Ripe (interval : Interval) (params : Params) (records : List BlockRecord) (place : Nat) :
    Prop :=
  max params.maturationDepth.toNat 1 ≤ records.length - place ∧
    ∃ record, records[place]? = some record ∧
      (params.challengeAging.toNat : Int) ≤ interval.lower.toNat - record.addedTime

/-- How many blocks of a chain, oldest first, are confirmed one after the other. -/
def ripe (interval : Interval) (params : Params) : List BlockRecord → Nat
  | [] => 0
  | record :: newer =>
    if params.maturationDepth.toNat ≤ newer.length + 1 ∧
        (params.challengeAging.toNat : Int) ≤ interval.lower.toNat - record.addedTime then
      ripe interval params newer + 1
    else 0

variable {interval : Interval} {params : Params} {record : BlockRecord}
  {newer : List BlockRecord}

theorem ripe_zero_iff : Ripe interval params (record :: newer) 0 ↔
    params.maturationDepth.toNat ≤ newer.length + 1 ∧
      (params.challengeAging.toNat : Int) ≤ interval.lower.toNat - record.addedTime := by
  simp [Ripe]

theorem ripe_succ_iff (place : Nat) :
    Ripe interval params (record :: newer) (place + 1) ↔ Ripe interval params newer place := by
  rw [Ripe, Ripe, List.length_cons, List.getElem?_cons_succ, Nat.add_sub_add_right]

/-- So many blocks are the most of which each may be confirmed in its turn. -/
theorem isGreatest_ripe (interval : Interval) (params : Params) (records : List BlockRecord) :
    IsGreatest {count | ∀ place < count, Ripe interval params records place}
      (ripe interval params records) := by
  induction records with
  | nil =>
    refine ⟨fun place within => absurd within (Nat.not_lt_zero place), ?_⟩
    intro count all
    by_contra more
    have first : Ripe interval params [] 0 := all 0 (by omega)
    obtain ⟨_, record, there, _⟩ := first
    cases there
  | cons record newer ih =>
    rw [ripe]
    split
    · rename_i here
      constructor
      · rintro (_ | place) within
        · exact ripe_zero_iff.mpr here
        · exact (ripe_succ_iff place).mpr (ih.1 place (by omega))
      · rintro (_ | count) all
        · exact Nat.zero_le _
        · have later : ∀ place < count, Ripe interval params newer place :=
            fun place within => (ripe_succ_iff place).mp (all (place + 1) (by omega))
          exact Nat.succ_le_succ (ih.2 later)
    · rename_i here
      refine ⟨fun place within => absurd within (Nat.not_lt_zero place), ?_⟩
      intro count all
      by_contra more
      exact here (ripe_zero_iff.mp (all 0 (by omega)))

/-- Whether a branch is mature is asked of its oldest block. -/
theorem Branch.isMature_iff_of_cons {branch : Branch}
    (chain : branch.oldestFirst = record :: newer) :
    branch.isMature interval params = true ↔
      params.maturationDepth.toNat ≤ newer.length + 1 ∧
        (params.challengeAging.toNat : Int) ≤ interval.lower.toNat - record.addedTime := by
  obtain ⟨rest, split⟩ := branch.oldestFirst_eq_cons
  have oldest : branch.oldest = record := (List.cons.inj (split.symm.trans chain)).1
  have depth := branch.length_oldestFirst
  rw [chain, List.length_cons] at depth
  rw [isMature_iff, oldest, depth]

namespace ChainState

variable {state : ChainState} {branch remaining : Branch}

/-- The branches are chains on the confirmed tip and differ in their tips, and no block names itself
as the block before it. -/
structure Standing (state : ChainState) : Prop where
  chained : ∀ branch ∈ state.forks,
    branch.blocks.IsChain fun newer older => newer.prevHash = older.hash
  rooted : ∀ branch ∈ state.forks, branch.oldest.prevHash = state.confirmed.tipHash
  distinct : state.forks.Pairwise fun first second => first.tipHash ≠ second.tipHash
  apart : ∀ record ∈ state.records, record.hash ≠ record.prevHash

/-- The mature branch with the most work or, among those with as much, with the smallest tip. -/
structure Leads (state : ChainState) (interval : Interval) (params : Params) (branch : Branch) :
    Prop where
  mem : branch ∈ state.forks
  mature : branch.isMature interval params = true
  ahead : ∀ rival ∈ state.forks, rival.isMature interval params = true → rival ≠ branch →
    rival.chainwork < branch.chainwork ∨
      rival.chainwork = branch.chainwork ∧ branch.tipHash < rival.tipHash

/-- The state after some of the oldest blocks of a branch are confirmed, without its rivals. -/
def confirmOldest (state : ChainState) (branch : Branch) (count : Nat) : ChainState where
  confirmed := ((branch.oldestFirst.take count).map BlockRecord.tip).getLastD state.confirmed
  history := ((branch.oldestFirst.take count).map BlockRecord.hash).foldl
    Merkle.Accumulator.append state.history
  forks := if count = branch.blocks.length then [] else [branch.without count]

theorem leads_of_winner? (standing : state.Standing)
    (wins : state.winner? interval params = some branch) : state.Leads interval params branch := by
  have distinct : Branch.Distinct state.forks := standing.distinct
  obtain ⟨⟨mem, mature⟩, unbeaten⟩ := (winner?_eq_some_iff distinct).mp wins
  refine ⟨mem, mature, ?_⟩
  intro rival there matureToo other
  have tips : branch.tipHash ≠ rival.tipHash :=
    fun same => other (distinct.eq_of_tipHash_eq there mem same.symm)
  rcases outranks_of_tipHash_ne tips with above | below
  · rcases (outranks_iff branch rival).mp above with more | ⟨level, tip⟩
    · exact Or.inl more
    · exact Or.inr ⟨level.symm, tip⟩
  · exact absurd below (unbeaten rival there matureToo)

theorem winner?_of_alone (interval : Interval) (params : Params) (alone : state.forks = [branch]) :
    state.winner? interval params =
      if branch.isMature interval params = true then some branch else none := by
  simp only [winner?, alone, List.filter_cons, List.filter_nil]
  split <;> rfl

theorem promote_of_winner?_eq_none (none : state.winner? interval params = none) :
    state.promote interval params = (state, 0) := by
  rw [promote]
  cases state.trackedCount with
  | zero => rfl
  | succ limit => rw [promoteUpTo, none]

theorem promote_promote (state : ChainState) (interval : Interval) (params : Params) :
    (state.promote interval params).1.promote interval params =
      ((state.promote interval params).1, 0) := by
  have confirms : Confirms interval params state _ _ := confirms_promote state
  have again := confirms.promote
  have first := congrArg Prod.fst again
  have second := congrArg Prod.snd again
  refine Prod.ext first.symm ?_
  omega

theorem confirmed_confirmOldest {count : Nat} {last : BlockRecord}
    (there : branch.oldestFirst[count]? = some last) :
    (state.confirmOldest branch (count + 1)).confirmed = last.tip := by
  simp only [confirmOldest, List.take_add_one, there, Option.toList_some, List.map_append,
    List.map_cons, List.map_nil, List.getLastD_concat]

/-- Where the oldest block of a branch is confirmed, and then more of what remains, they might as
well be confirmed at once. -/
theorem confirmOldest_promoteOldest (short : branch.Shortened remaining) (count : Nat) :
    (state.promoteOldest branch).confirmOldest remaining count =
      state.confirmOldest branch (count + 1) := by
  have depth : branch.blocks.length = remaining.blocks.length + 1 := by
    rw [short.blocks, List.length_append, List.length_singleton]
  simp only [confirmOldest, short.oldestFirst, short.without, depth, promoteOldest,
    List.take_succ_cons, List.map_cons, List.getLastD_cons, List.foldl_cons,
    Nat.add_right_cancel_iff]

/-- With a branch of one block nothing but the block is left. -/
theorem promoteOldest_of_only (only : branch.blocks = [branch.oldest])
    (bare : (state.promoteOldest branch).forks = []) :
    state.promoteOldest branch = state.confirmOldest branch 1 := by
  simp only [confirmOldest, Branch.oldestFirst, only, promoteOldest] at bare ⊢
  rw [bare]
  rfl

/-- A branch without rivals loses its oldest blocks, as many as are ripe, and nothing
else happens. -/
theorem promote_alone (interval : Interval) (params : Params) (alone : state.forks = [branch])
    (chained : branch.blocks.IsChain fun newer older => newer.prevHash = older.hash)
    (rooted : branch.oldest.prevHash = state.confirmed.tipHash)
    (apart : ∀ record ∈ branch.blocks, record.hash ≠ record.prevHash) :
    state.promote interval params =
      (state.confirmOldest branch (ripe interval params branch.oldestFirst),
        ripe interval params branch.oldestFirst) := by
  -- along the chain from its oldest block on; each block that is confirmed leaves a shorter branch
  induction records : branch.oldestFirst generalizing state branch with
  | nil =>
    obtain ⟨newer, split⟩ := branch.oldestFirst_eq_cons
    cases records.symm.trans split
  | cons oldest newer ih =>
    have wins := winner?_of_alone interval params alone
    by_cases mature : branch.isMature interval params = true
    · rw [if_pos mature] at wins
      have mem := (mem_of_winner? wins).1
      have single : state.Rooted := by
        rw [Rooted, alone]
        exact List.forall_mem_singleton.mpr rooted
      have proper := apart branch.oldest branch.oldest_mem_blocks
      rw [promote_of_winner wins, ripe, if_pos ((Branch.isMature_iff_of_cons records).mp mature)]
      rcases forks_promoteOldest_cases single mem proper with
        ⟨only, bare⟩ | ⟨remaining, short, forks⟩
      · -- nothing is left of the branch
        have none : newer = [] := by
          rw [Branch.oldestFirst, only] at records
          exact (List.cons.inj records).2.symm
        have done : (state.promoteOldest branch).winner? interval params = Option.none := by
          rw [winner?_eq_none_iff, bare]
          exact List.forall_mem_nil _
        rw [promote_of_winner?_eq_none done, none, promoteOldest_of_only only bare]
        rfl
      · have chain : remaining.oldestFirst = newer :=
          (List.cons.inj (short.oldestFirst.symm.trans records)).2
        rw [short.blocks, List.isChain_append] at chained
        have onOldest : remaining.oldest.prevHash = branch.oldest.hash :=
          chained.2.2 remaining.oldest remaining.getLast?_blocks branch.oldest rfl
        have onward := ih forks chained.1 onOldest
          (fun record mem => apart record (by rw [short.blocks]; simp [mem])) chain
        rw [onward, confirmOldest_promoteOldest short]
    · rw [if_neg mature] at wins
      have unripe : ripe interval params (oldest :: newer) = 0 :=
        if_neg fun ready => mature ((Branch.isMature_iff_of_cons records).mpr ready)
      have kept : state.confirmOldest branch 0 = state := by
        have some : 0 ≠ branch.blocks.length := (Nat.succ_ne_zero _).symm
        simp only [confirmOldest, List.take_zero, List.map_nil, List.getLastD_nil, List.foldl_nil,
          if_neg some, branch.without_zero, ← alone]
      rw [promote_of_winner?_eq_none wins, unripe, kept]

/-- Confirming the oldest block of a branch leaves what it would leave without the rivals. -/
theorem promoteOldest_eq (rooted : state.Rooted) (mem : branch ∈ state.forks)
    (proper : branch.oldest.hash ≠ branch.oldest.prevHash) :
    state.promoteOldest branch = ⟨branch.oldest.tip, state.history.append branch.oldest.hash,
      branch.popOldest.2.toList⟩ := by
  have forks := forks_promoteOldest rooted mem proper
  simp only [promoteOldest] at forks ⊢
  rw [forks]

namespace Standing

theorem apart_of_mem (standing : state.Standing) (mem : branch ∈ state.forks) :
    ∀ record ∈ branch.blocks, record.hash ≠ record.prevHash :=
  fun record there => standing.apart record (mem_records.mpr ⟨branch, mem, there⟩)

/-- The rivals of the branch that wins at first make no difference. -/
theorem promote_of_winner? (standing : state.Standing)
    (wins : state.winner? interval params = some branch) :
    state.promote interval params =
      (state.confirmOldest branch (ripe interval params branch.oldestFirst),
        ripe interval params branch.oldestFirst) := by
  obtain ⟨mem, mature⟩ := mem_of_winner? wins
  let single : ChainState := { state with forks := [branch] }
  have rooted := standing.rooted branch mem
  have apart := standing.apart_of_mem mem
  have proper := apart branch.oldest branch.oldest_mem_blocks
  have alone : single.Rooted := by
    intro other there
    rw [List.mem_singleton.mp there]
    exact rooted
  have same : state.promoteOldest branch = single.promoteOldest branch := by
    rw [promoteOldest_eq standing.rooted mem proper,
      promoteOldest_eq alone (List.mem_singleton_self branch) proper]
  have winsAlone : single.winner? interval params = some branch := by
    rw [winner?_of_alone interval params rfl, if_pos mature]
  have whole : single.promote interval params = _ :=
    promote_alone interval params rfl (standing.chained branch mem) rooted apart
  rw [ChainState.promote_of_winner winsAlone, ← same, ← ChainState.promote_of_winner wins] at whole
  exact whole

end Standing

/-- Where no branch is mature, promotion changes nothing. Otherwise it confirms blocks of the branch
that leads, from the oldest on, as many as are deep and old enough in their turn. The last of them
becomes the confirmed tip, the history takes their hashes in order, what remains of the branch is
the only branch that stays, and nothing is left to be confirmed. -/
theorem promote_exact (state : ChainState) (standing : state.Standing) (interval : Interval)
    (params : Params) :
    ((∀ branch ∈ state.forks, branch.isMature interval params = false) →
      state.promote interval params = (state, 0)) ∧
    ((∃ branch ∈ state.forks, branch.isMature interval params = true) →
      ∃ winner, state.Leads interval params winner ∧ ∃ count last, 1 ≤ count ∧
        IsGreatest {count | ∀ place < count, Ripe interval params winner.oldestFirst place}
          count ∧
        winner.oldestFirst[count - 1]? = some last ∧
        let final : ChainState :=
          ⟨last.tip,
            ((winner.oldestFirst.take count).map BlockRecord.hash).foldl
              Merkle.Accumulator.append state.history,
            if count = winner.blocks.length then [] else [winner.without count]⟩
        state.promote interval params = (final, count) ∧
          final.promote interval params = (final, 0)) := by
  constructor
  · intro young
    apply promote_of_winner?_eq_none
    rw [winner?_eq_none_iff]
    intro branch mem
    rw [young branch mem]
    exact Bool.false_ne_true
  · rintro ⟨branch, mem, mature⟩
    cases wins : state.winner? interval params with
    | none => exact absurd mature (winner?_eq_none_iff.mp wins branch mem)
    | some winner =>
      have leads := leads_of_winner? standing wins
      have promoted := standing.promote_of_winner? wins
      have greatest := isGreatest_ripe interval params winner.oldestFirst
      have settled := promote_promote state interval params
      obtain ⟨newer, chain⟩ := winner.oldestFirst_eq_cons
      -- a mature branch has at least one block that is ripe
      have some : ripe interval params winner.oldestFirst = ripe interval params newer + 1 := by
        rw [chain, ripe, if_pos ((Branch.isMature_iff_of_cons chain).mp leads.mature)]
      rw [some] at promoted greatest
      obtain ⟨_, last, there, _⟩ := greatest.1 (ripe interval params newer) (Nat.lt_succ_self _)
      refine ⟨winner, leads, ripe interval params newer + 1, last, Nat.le_add_left 1 _, greatest,
        there, ?_⟩
      rw [promoted] at settled ⊢
      rw [← confirmed_confirmOldest there]
      exact ⟨rfl, settled⟩

end ChainState

namespace Sample

open Merkle (repeated)

def block (name parent : UInt8) (height addedTime work : Int) : BlockRecord where
  tip := ⟨height, 0x207FFFFF, 1300000000, [1300000000], 1300000000, repeated name⟩
  prevHash := repeated parent
  addedTime := addedTime
  work := work

/-- A branch of three blocks, one with less work, and one with more work that is too young. -/
def contested : ChainState where
  confirmed := (block 0 0 10 0 2).tip
  history := Merkle.Accumulator.empty.append (repeated 0)
  forks :=
    [⟨repeated 3, 13, 6, block 3 2 13 120 2, [block 2 1 12 250 2, block 1 0 11 100 2]⟩,
      ⟨repeated 5, 12, 5, block 5 4 12 100 4, [block 4 0 11 100 1]⟩,
      ⟨repeated 7, 12, 9, block 7 6 12 380 5, [block 6 0 11 350 4]⟩]

/-- Two blocks have to stand on one another, and the older one has to be there for 100 seconds. -/
def patient : Params := { Params.regtest with maturationDepth := 2, challengeAging := 100 }

def settling : Interval := ⟨400, 400, Nat.le_refl _⟩

end Sample

namespace ChainState

theorem promote_exact_contested :
    Sample.contested.Standing ∧
      (∃ branch ∈ Sample.contested.forks,
        branch.isMature Sample.settling Sample.patient = true) ∧
      ∃ winner last, Sample.contested.Leads Sample.settling Sample.patient winner ∧
        IsGreatest {count | ∀ place < count,
          Ripe Sample.settling Sample.patient winner.oldestFirst place} 2 ∧
        winner.oldestFirst[1]? = some last ∧
        (Sample.contested.promote Sample.settling Sample.patient).1.confirmed = last.tip ∧
        (Sample.contested.promote Sample.settling Sample.patient).2 = 2 := by
  have standing : Sample.contested.Standing := by
    constructor <;> decide +kernel
  have some : ∃ branch ∈ Sample.contested.forks,
      branch.isMature Sample.settling Sample.patient = true := by
    decide +kernel
  have two : (Sample.contested.promote Sample.settling Sample.patient).2 = 2 := by
    decide +kernel
  obtain ⟨winner, leads, count, last, _, greatest, there, promoted, _⟩ :=
    (promote_exact Sample.contested standing Sample.settling Sample.patient).2 some
  rw [promoted] at two ⊢
  cases two
  exact ⟨standing, some, winner, last, leads, greatest, there, rfl, rfl⟩

end ChainState

end HeaderRelay
