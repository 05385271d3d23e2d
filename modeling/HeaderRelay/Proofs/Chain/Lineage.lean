import Mathlib
import HeaderRelay.Proofs.Chain.Batch
import HeaderRelay.Proofs.Chain.Forest

set_option autoImplicit false

namespace HeaderRelay

/-- No two of the headers share a hash, and none has the hash of the trusted block. -/
structure Header.Separate (origin : Digest) (headers : List Header) : Prop where
  injective : ∀ first ∈ headers, ∀ second ∈ headers, first.hash = second.hash → first = second
  apart : ∀ header ∈ headers, header.hash ≠ origin

instance (origin : Digest) (headers : List Header) : Decidable (Header.Separate origin headers) :=
  decidable_of_iff
    ((∀ first ∈ headers, ∀ second ∈ headers, first.hash = second.hash → first = second) ∧
      ∀ header ∈ headers, header.hash ≠ origin)
    ⟨fun ⟨injective, apart⟩ => ⟨injective, apart⟩, fun separate => ⟨separate.1, separate.2⟩⟩

theorem Header.Separate.mono {origin : Digest} {headers more : List Header}
    (separate : Header.Separate origin more) (subset : headers ⊆ more) :
    Header.Separate origin headers where
  injective := fun first mem second there =>
    separate.injective first (subset mem) second (subset there)
  apart := fun header mem => separate.apart header (subset mem)

/-- A record is of one of the headers, and stands on the tip. -/
structure RecordOf (headers : List Header) (tip : Snapshot) (record : BlockRecord) : Prop where
  named : record.prevHash = tip.tipHash
  work_pos : 1 ≤ record.work
  header : ∃ header ∈ headers, header.hash = record.hash ∧ header.prevHash = record.prevHash

theorem RecordOf.mono {headers more : List Header} {tip : Snapshot} {record : BlockRecord}
    (recorded : RecordOf headers tip record) (subset : headers ⊆ more) :
    RecordOf more tip record where
  named := recorded.named
  work_pos := recorded.work_pos
  header := by
    obtain ⟨header, mem, same⟩ := recorded.header
    exact ⟨header, subset mem, same⟩

theorem BlockRecord.Extends.recordOf {record : BlockRecord} {tip : Snapshot} {header : Header}
    {interval : Interval} {params : Params} {headers : List Header}
    (extended : record.Extends tip header interval params) (mem : header ∈ headers) :
    RecordOf headers tip record :=
  ⟨extended.prevHash, extended.work_pos, header, mem, extended.hash.symm, extended.named.symm⟩

namespace ChainState

/-- A hash is that of the trusted block or of a header. -/
def Known (origin : Digest) (seen : List Header) (hash : Digest) : Prop :=
  hash = origin ∨ ∃ header ∈ seen, header.hash = hash

/-- A block is the confirmed tip or on a branch. -/
def Holds (state : ChainState) (hash : Digest) : Prop :=
  hash = state.confirmed.tipHash ∨ ∃ record ∈ state.records, record.hash = hash

/-- Where the headers accepted so far are in a state. -/
structure Lineage (origin : Digest) (seen : List Header) (state : ChainState) : Prop where
  forest : state.Forest (RecordOf seen)
  nodup : seen.Nodup
  proper : ∀ header ∈ seen, header.hash ≠ header.prevHash
  parented : ∀ header ∈ seen, Known origin seen header.prevHash
  confirmed : Known origin seen state.confirmed.tipHash
  buried : ∀ record ∈ state.records, record.hash ≠ state.confirmed.tipHash
  childless : ∀ header ∈ seen, ∀ branch ∈ state.forks, header.prevHash ≠ branch.tipHash
  held : ∀ header ∈ seen, state.Holds header.prevHash → ∃ record ∈ state.records,
    record.hash = header.hash

variable {origin : Digest} {seen : List Header} {state next : ChainState} {header : Header}
  {interval : Interval} {params : Params} {branch : Branch}

theorem tracks_iff (hash : Digest) :
    state.tracks hash = true ↔ ∃ record ∈ state.records, record.hash = hash := by
  simp only [tracks, List.any_eq_true, decide_eq_true_eq, mem_records]
  constructor
  · rintro ⟨branch, mem, record, there, same⟩
    exact ⟨record, ⟨branch, mem, there⟩, same⟩
  · rintro ⟨record, ⟨branch, mem, there⟩, same⟩
    exact ⟨branch, mem, record, there, same⟩

/-- Two records of one block are on one branch. -/
theorem Forest.eq_of_hash_eq {link : Link} (forest : state.Forest link) {other : Branch}
    {record copy : BlockRecord} (mem : branch ∈ state.forks) (memOther : other ∈ state.forks)
    (there : record ∈ branch.blocks) (thereOther : copy ∈ other.blocks)
    (same : record.hash = copy.hash) : branch = other := by
  have unique := forest.unique
  rw [records, List.map_flatMap, List.nodup_flatMap] at unique
  by_contra different
  have symmetric : Std.Symm (Function.onFun List.Disjoint fun branch : Branch =>
      branch.blocks.map BlockRecord.hash) := ⟨fun _ _ apart => List.Disjoint.symm apart⟩
  have apart := unique.2.forall mem memOther different
  refine apart (List.mem_map_of_mem there) ?_
  rw [same]
  exact List.mem_map_of_mem thereOther

/-- A record stands on the confirmed tip or on another record of its branch. -/
theorem Forest.parent_of_mem {headers : List Header} (forest : state.Forest (RecordOf headers))
    (mem : branch ∈ state.forks) {record : BlockRecord} (there : record ∈ branch.blocks) :
    (record = branch.oldest ∧ record.prevHash = state.confirmed.tipHash) ∨
      ∃ older ∈ branch.blocks, record.prevHash = older.hash := by
  have linked := forest.linked branch mem
  obtain ⟨newer, older, split⟩ := List.append_of_mem there
  cases older with
  | nil =>
    have oldest := Branch.oldest_of_blocks split
    exact Or.inl ⟨oldest.symm, oldest ▸ linked.rooted.named⟩
  | cons next rest =>
    refine Or.inr ⟨next, ?_, ?_⟩
    · rw [split]
      simp only [List.mem_append, List.mem_cons, true_or, or_true]
    · have chain := linked.chain
      rw [split] at chain
      exact (List.isChain_cons_cons.mp (List.isChain_append.mp chain).2.1).1.named

namespace Place

variable {record : BlockRecord} {tip : Snapshot} {others : List Branch}

theorem tipHash (place : Place state record tip others branch) : branch.tipHash = record.hash := by
  cases place <;> rfl

/-- No branch that stays has the tip on which the record stands. -/
theorem tipHash_ne (place : Place state record tip others branch)
    (ordered : Branch.Ordered state.forks) {other : Branch} (mem : other ∈ others) :
    other.tipHash ≠ record.prevHash := by
  cases place with
  | extend parent others named split =>
    have distinct : Branch.Distinct (parent :: others) :=
      ordered.distinct.perm split fun apart => apart.symm
    rw [← named]
    exact ((List.pairwise_cons.mp distinct).1 other mem).symm
  | start named elsewhere => exact elsewhere other mem

end Place

namespace Lineage

/-- A header that was accepted before is refused: either its block is still tracked, or there is
nothing left on which it stands. -/
theorem refuses (lineage : state.Lineage origin seen) (mem : header ∈ seen) :
    state.absorb header interval params = .error (.refused
      (if state.tracks header.hash then .duplicate header.hash
        else .unattached header.prevHash)) := by
  rw [absorb]
  by_cases tracked : state.tracks header.hash = true
  · rw [if_pos tracked, if_pos tracked]
  · rw [if_neg tracked, if_neg tracked]
    have nowhere : ¬ state.Holds header.prevHash := by
      intro holds
      exact tracked ((tracks_iff _).mpr (lineage.held header mem holds))
    have offTip : state.branchMap.find? header.prevHash.bytes = none := by
      rw [branchMap_of_ordered lineage.forest.ordered]
      cases found : ByteMap.find? ⟨Branch.keyed state.forks⟩ header.prevHash.bytes with
      | none => rfl
      | some parent =>
        obtain ⟨there, named⟩ := Branch.mem_of_find?_keyed found
        exact absurd named.symm (lineage.childless header mem parent there)
    have offConfirmed : header.prevHash ≠ state.confirmed.tipHash :=
      fun same => nowhere (Or.inl same)
    rw [attach, offTip]
    simp only [offConfirmed, ↓reduceIte]
    rfl

theorem fresh_of_absorb (lineage : state.Lineage origin seen)
    (absorbs : state.absorb header interval params = .ok next) : header ∉ seen := by
  intro mem
  rw [lineage.refuses mem] at absorbs
  cases absorbs

/-- A new header is none of those that are known. -/
theorem ne_of_known {hash : Digest} (separate : Header.Separate origin (seen ++ [header]))
    (fresh : header ∉ seen) (known : Known origin seen hash) : header.hash ≠ hash := by
  have last : header ∈ seen ++ [header] := List.mem_append_right _ List.mem_cons_self
  rcases known with trusted | ⟨other, mem, same⟩
  · rw [trusted]
    exact separate.apart header last
  · intro equal
    have shared : other.hash = header.hash := same.trans equal.symm
    have equal := separate.injective other (List.mem_append_left _ mem) header last shared
    exact fresh (equal ▸ mem)

/-- Every record of the state is of a header that was accepted. -/
theorem header_of_mem (lineage : state.Lineage origin seen) {record : BlockRecord}
    (mem : record ∈ state.records) :
    ∃ header ∈ seen, header.hash = record.hash ∧ header.prevHash = record.prevHash := by
  obtain ⟨branch, there, held⟩ := mem_records.mp mem
  obtain ⟨tip, recorded⟩ := (lineage.forest.linked branch there).exists_link record held
  exact recorded.header

/-- The block on which an attached header stands is known. -/
theorem known_of_place (lineage : state.Lineage origin seen) {record : BlockRecord}
    {tip : Snapshot} {others : List Branch} (place : Place state record tip others branch) :
    Known origin seen record.prevHash := by
  cases place with
  | extend parent others named split =>
    have mem : parent ∈ state.forks := split.mem_iff.mpr List.mem_cons_self
    obtain ⟨header, accepted, same, _⟩ := lineage.header_of_mem (newest_mem mem)
    rw [← named, lineage.forest.named parent mem]
    exact Or.inr ⟨header, accepted, same⟩
  | start named elsewhere =>
    rw [named]
    exact lineage.confirmed

theorem known_append {hash : Digest} (known : Known origin seen hash) :
    Known origin (seen ++ [header]) hash := by
  rcases known with trusted | ⟨other, mem, same⟩
  · exact Or.inl trusted
  · exact Or.inr ⟨other, List.mem_append_left _ mem, same⟩

/-- An attached header finds its place among the others. -/
theorem absorb (lineage : state.Lineage origin seen)
    (separate : Header.Separate origin (seen ++ [header]))
    (absorbs : state.absorb header interval params = .ok next) :
    next.Lineage origin (seen ++ [header]) := by
  have last : header ∈ seen ++ [header] := List.mem_append_right _ List.mem_cons_self
  have absorbed := absorbed_of_absorb lineage.forest.ordered lineage.forest.named absorbs
  have fresh := lineage.fresh_of_absorb absorbs
  obtain ⟨tip, record, others, branch, made, place, perm⟩ := absorbed.placed
  have records := place.records_perm perm
  have parent : Known origin seen header.prevHash := by
    rw [← made.named]
    exact lineage.known_of_place place
  have own : header.hash ≠ header.prevHash := ne_of_known separate fresh parent
  -- no header that was accepted before stands on the new one
  have unparented : ∀ child ∈ seen ++ [header], child.prevHash ≠ header.hash := by
    intro child mem
    rcases List.mem_append.mp mem with old | new
    · exact (ne_of_known separate fresh (lineage.parented child old)).symm
    · rw [List.mem_singleton.mp new]
      exact own.symm
  refine ⟨?_, ?_, ?_, ?_, ?_, ?_, ?_, ?_⟩
  · have before : state.Forest (RecordOf (seen ++ [header])) :=
      lineage.forest.mono fun tip record recorded => recorded.mono (List.subset_append_left _ _)
    exact before.absorb (fun tip record made => made.recordOf last) absorbs
  · exact List.nodup_append.mpr ⟨lineage.nodup, List.nodup_singleton _, by
      intro old mem new only
      rw [List.mem_singleton.mp only]
      exact fun same => fresh (same ▸ mem)⟩
  · intro child mem
    rcases List.mem_append.mp mem with old | new
    · exact lineage.proper child old
    · rw [List.mem_singleton.mp new]
      exact own
  · intro child mem
    rcases List.mem_append.mp mem with old | new
    · exact known_append (lineage.parented child old)
    · rw [List.mem_singleton.mp new]
      exact known_append parent
  · rw [absorbed.confirmed]
    exact known_append lineage.confirmed
  · rw [absorbed.confirmed]
    intro other mem
    rcases List.mem_cons.mp (records.mem_iff.mp mem) with rfl | old
    · rw [made.hash]
      exact ne_of_known separate fresh lineage.confirmed
    · exact lineage.buried other old
  · intro child mem other there
    rcases List.mem_cons.mp (perm.mem_iff.mp there) with rfl | old
    · rw [place.tipHash, made.hash]
      exact unparented child mem
    · rcases List.mem_append.mp mem with before | new
      · exact lineage.childless child before other (place.subset old)
      · rw [List.mem_singleton.mp new, ← made.named]
        exact (place.tipHash_ne lineage.forest.ordered old).symm
  · intro child mem holds
    rcases List.mem_append.mp mem with before | new
    · have held : state.Holds child.prevHash := by
        rcases holds with confirmed | ⟨other, there, same⟩
        · exact Or.inl (absorbed.confirmed ▸ confirmed)
        · rcases List.mem_cons.mp (records.mem_iff.mp there) with rfl | old
          · exact absurd (same.symm.trans made.hash) (unparented child mem)
          · exact Or.inr ⟨other, old, same⟩
      obtain ⟨other, there, same⟩ := lineage.held child before held
      exact ⟨other, records.mem_iff.mpr (List.mem_cons_of_mem _ there), same⟩
    · rw [List.mem_singleton.mp new]
      exact ⟨record, records.mem_iff.mpr List.mem_cons_self, made.hash⟩

theorem link_proper (lineage : state.Lineage origin seen) : Link.Proper (RecordOf seen) where
  named := fun _ _ recorded => recorded.named
  apart := by
    intro tip record recorded
    obtain ⟨header, mem, same, parent⟩ := recorded.header
    rw [← same, ← parent]
    exact lineage.proper header mem

theorem rooted (lineage : state.Lineage origin seen) : state.Rooted :=
  lineage.forest.rooted lineage.link_proper

theorem oldest_apart (lineage : state.Lineage origin seen) (mem : branch ∈ state.forks) :
    branch.oldest.hash ≠ branch.oldest.prevHash :=
  lineage.link_proper.apart _ _ (lineage.forest.linked branch mem).rooted

/-- The records after a block was confirmed: those of its branch that are newer. -/
theorem blocks_eq_of_promoteOldest (lineage : state.Lineage origin seen)
    (mem : branch ∈ state.forks) :
    branch.blocks = (state.promoteOldest branch).records ++ [branch.oldest] := by
  rcases forks_promoteOldest_cases lineage.rooted mem (lineage.oldest_apart mem) with
    ⟨only, forks⟩ | ⟨remaining, short, forks⟩
  · rw [records, forks, only]
    rfl
  · rw [records, forks, short.blocks, List.flatMap_singleton]

/-- Headers that stand on a record of a branch are newer blocks of this branch. -/
theorem mem_of_parent_mem (lineage : state.Lineage origin seen)
    (separate : Header.Separate origin seen) (mem : branch ∈ state.forks) (accepted : header ∈ seen)
    {parent : BlockRecord} (there : parent ∈ branch.blocks)
    (stands : header.prevHash = parent.hash) :
    ∃ record ∈ (state.promoteOldest branch).records, record.hash = header.hash := by
  have tracked : parent ∈ state.records := mem_records.mpr ⟨branch, mem, there⟩
  obtain ⟨record, held, same⟩ :=
    lineage.held header accepted (Or.inr ⟨parent, tracked, stands.symm⟩)
  obtain ⟨other, memOther, thereOther⟩ := mem_records.mp held
  -- the record is of this very header, so it stands on the same parent
  obtain ⟨origin, known, ofRecord, onParent⟩ := lineage.header_of_mem held
  have own : origin = header := separate.injective _ known _ accepted (ofRecord.trans same)
  have onto : record.prevHash = parent.hash := by
    rw [← onParent, own, stands]
  have elsewhere : record.prevHash ≠ state.confirmed.tipHash := by
    rw [onto]
    exact lineage.buried parent tracked
  rcases lineage.forest.parent_of_mem memOther thereOther with ⟨_, rooted⟩ | ⟨older, below, onOlder⟩
  · exact absurd rooted elsewhere
  · have sameBranch : other = branch :=
      lineage.forest.eq_of_hash_eq memOther mem below there (onOlder.symm.trans onto)
    rw [sameBranch, lineage.blocks_eq_of_promoteOldest mem] at thereOther
    rcases List.mem_append.mp thereOther with newer | oldest
    · exact ⟨record, newer, same⟩
    · rw [List.mem_singleton.mp oldest] at elsewhere
      exact absurd (lineage.rooted branch mem) elsewhere

/-- A confirmed block leaves every accepted header where it has no place to come back. -/
theorem promoteOldest (lineage : state.Lineage origin seen)
    (separate : Header.Separate origin seen) (mem : branch ∈ state.forks) :
    (state.promoteOldest branch).Lineage origin seen := by
  have blocks := lineage.blocks_eq_of_promoteOldest mem
  have older : ∀ record ∈ (state.promoteOldest branch).records, record ∈ branch.blocks := by
    intro record there
    rw [blocks]
    exact List.mem_append_left _ there
  refine ⟨?_, lineage.nodup, lineage.proper, lineage.parented, ?_, ?_, ?_, ?_⟩
  · exact lineage.forest.promoteOldest lineage.link_proper mem
  · obtain ⟨header, accepted, same, _⟩ := lineage.header_of_mem (oldest_mem mem)
    exact Or.inr ⟨header, accepted, same⟩
  · intro record there same
    have unique : (branch.blocks.map BlockRecord.hash).Nodup :=
      lineage.forest.unique.sublist ((blocks_sublist_records mem).map BlockRecord.hash)
    rw [blocks, List.map_append, List.nodup_append] at unique
    exact unique.2.2 _ (List.mem_map_of_mem there) _ List.mem_cons_self same
  · intro child accepted remaining there
    rw [forks_promoteOldest lineage.rooted mem (lineage.oldest_apart mem)] at there
    rw [(Branch.shortened_of_mem_popOldest there).tipHash]
    exact lineage.childless child accepted branch mem
  · intro child accepted holds
    rcases holds with confirmed | ⟨parent, there, same⟩
    · exact lineage.mem_of_parent_mem separate mem accepted branch.oldest_mem_blocks confirmed
    · exact lineage.mem_of_parent_mem separate mem accepted (older parent there) same.symm

theorem absorbAll {headers : List Header} (lineage : state.Lineage origin seen)
    (separate : Header.Separate origin (seen ++ headers))
    (absorbs : state.absorbAll interval params headers = .ok next) :
    next.Lineage origin (seen ++ headers) := by
  induction headers generalizing state seen with
  | nil =>
    cases absorbs
    rw [List.append_nil]
    exact lineage
  | cons header rest ih =>
    simp only [ChainState.absorbAll] at absorbs
    split at absorbs
    · cases absorbs
    · rename_i grown attached
      rw [List.append_cons] at separate ⊢
      have first := separate.mono (List.subset_append_left _ _)
      exact ih (lineage.absorb first attached) separate absorbs

theorem promote (lineage : state.Lineage origin seen) (separate : Header.Separate origin seen) :
    (state.promote interval params).1.Lineage origin seen :=
  promote_induction (motive := fun state _ => state.Lineage origin seen)
    (fun _ _ _ lineage wins => lineage.promoteOldest separate (mem_of_winner? wins).1) lineage

/-- An accepted submission adds its headers to those accepted before. -/
theorem outcome {submission : Submission} {count : Nat} (lineage : state.Lineage origin seen)
    (separate : Header.Separate origin (seen ++ submission.headers))
    (accepts : state.outcome params submission = .ok (.accepted next count)) :
    next.Lineage origin (seen ++ submission.headers) := by
  by_cases empty : submission.batch = []
  · obtain ⟨rfl, _⟩ := unchanged_of_outcome empty accepts
    have none : submission.headers = [] := by
      rw [Submission.headers, empty]
      rfl
    rw [none, List.append_nil]
    exact lineage
  · obtain ⟨grown, _, absorbed, promoted⟩ := (outcome_eq_accepted_iff empty).mp accepts
    have final : (grown.promote submission.interval params).1.Lineage origin
        (seen ++ submission.headers) :=
      (lineage.absorbAll separate absorbed).promote separate
    rw [promoted] at final
    exact final

end Lineage

/-- Before anything was submitted, nothing stands on the trusted block. -/
theorem lineage_start {seed : Seed} {seedParams : Params} {initial : ChainState}
    (started : seed.start seedParams = .ok initial) : initial.Lineage seed.hash [] := by
  have bare := Seed.forks_of_start started
  have trusted : initial.confirmed.tipHash = seed.hash := by
    rw [Seed.eq_unchecked_of_start started]
    rfl
  have empty : initial.records = [] := by
    rw [records, bare]
    rfl
  refine ⟨⟨?_, ?_, ?_⟩, List.nodup_nil, ?_, ?_, Or.inl trusted, ?_, ?_, ?_⟩
  · rw [bare]
    exact List.forall_mem_nil _
  · rw [bare]
    exact List.Pairwise.nil
  · rw [empty]
    exact List.nodup_nil
  · exact List.forall_mem_nil _
  · exact List.forall_mem_nil _
  · rw [empty]
    exact List.forall_mem_nil _
  · exact List.forall_mem_nil _
  · exact List.forall_mem_nil _

/-- The headers of all submissions accepted on the way, in order. -/
theorem Reaches.lineage {seed : Seed} {seedParams : Params} {initial : ChainState}
    {allowed : Params → Prop} {accepted : List Submission}
    (started : seed.start seedParams = .ok initial)
    (reached : Reaches allowed initial accepted state)
    (separate : Header.Separate seed.hash (accepted.flatMap Submission.headers)) :
    state.Lineage seed.hash (accepted.flatMap Submission.headers) := by
  induction reached with
  | start => exact lineage_start started
  | accept _ reached accepts ih =>
    rw [List.flatMap_append, List.flatMap_singleton] at separate ⊢
    exact (ih (separate.mono (List.subset_append_left _ _))).outcome separate accepts

end ChainState

end HeaderRelay
