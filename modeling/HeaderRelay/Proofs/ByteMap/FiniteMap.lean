import Mathlib
import HeaderRelay.Proofs.ByteMap.Halving

set_option autoImplicit false

namespace HeaderRelay.ByteMap

inductive Change (α : Type) where
  | insert (key : Bytes) (value : α)
  | erase (key : Bytes)

/-- Something that starts empty and takes changes. -/
structure Store (σ α : Type) where
  empty : σ
  insert : σ → Bytes → α → σ
  erase : σ → Bytes → σ

namespace Store

variable {α σ τ : Type}

def after (store : Store σ α) (held : σ) : Change α → σ
  | .insert key value => store.insert held key value
  | .erase key => store.erase held key

/-- What results from a list of pairs, put in from the first on, and changes made to them. -/
def run (store : Store σ α) (initial : List (Bytes × α)) (changes : List (Change α)) : σ :=
  changes.foldl store.after
    (initial.foldl (fun held (key, value) => store.insert held key value) store.empty)

/-- What relates two stores at first and is kept by every change of both relates them ever after. -/
theorem run_related {first : Store σ α} {second : Store τ α} (related : σ → τ → Prop)
    (empty : related first.empty second.empty)
    (insert : ∀ one other key value, related one other →
      related (first.insert one key value) (second.insert other key value))
    (erase : ∀ one other key, related one other →
      related (first.erase one key) (second.erase other key))
    (initial : List (Bytes × α)) (changes : List (Change α)) :
    related (first.run initial changes) (second.run initial changes) := by
  have filled : ∀ one other, related one other → related
      (initial.foldl (fun held (key, value) => first.insert held key value) one)
      (initial.foldl (fun held (key, value) => second.insert held key value) other) := by
    induction initial with
    | nil => exact fun one other start => start
    | cons pair rest ih =>
      intro one other start
      exact ih _ _ (insert one other pair.1 pair.2 start)
  have changed : ∀ one other, related one other →
      related (changes.foldl first.after one) (changes.foldl second.after other) := by
    induction changes with
    | nil => exact fun one other start => start
    | cons change rest ih =>
      intro one other start
      cases change with
      | insert key value => exact ih _ _ (insert one other key value start)
      | erase key => exact ih _ _ (erase one other key start)
  exact changed _ _ (filled _ _ empty)

end Store

variable {α : Type} {map : ByteMap α} {key other : Bytes} {value : α}

/-- Finite maps from byte strings, in which keys have no order. -/
abbrev Finite (α : Type) : Type := Finmap fun _ : Bytes => α

/-- What a run leaves, also where it failed. -/
def left {ε σ ρ : Type} : EStateM.Result ε σ ρ → σ
  | .ok _ state => state
  | .error _ state => state

/-- Maps as a store, in which a refused deletion is passed over. -/
def sorted : Store (ByteMap α) α :=
  ⟨ByteMap.empty, ByteMap.insert, fun map key => left ((delete key).run map)⟩

example (entries : List (Bytes × α)) : ofList entries = sorted.run entries [] := rfl

/-- Two rows as a store, changed at the places that halving finds. -/
def halved : Store (Rows α) α :=
  ⟨⟨[], []⟩, Rows.insert, fun rows key => left ((Rows.delete key).run rows)⟩

def finite : Store (Finite α) α :=
  ⟨∅, fun held key value => held.insert key value, fun held key => held.erase key⟩

theorem find?_insert (map : ByteMap α) (key : Bytes) (value : α) (other : Bytes) :
    (map.insert key value).find? other = if other = key then some value else map.find? other := by
  obtain ⟨entries⟩ := map
  simp only [find?, insert]
  induction entries with
  | nil =>
    by_cases same : other = key
    · simp [insertEntry, same]
    · simp [insertEntry, same, Ne.symm same]
  | cons head rest ih =>
    obtain ⟨third, old⟩ := head
    simp only [insertEntry]
    split
    · by_cases same : other = key
      · simp [same]
      · simp [same, Ne.symm same]
    · split
      · rename_i here
        by_cases same : other = key
        · simp [same]
        · simp [same, Ne.symm same, ← here]
      · rename_i different
        by_cases first : third = other
        · subst first
          simp [Ne.symm different]
        · simpa [List.find?_cons, first] using ih

/-- To take a key out leaves the pairs under the other keys. -/
theorem sorted_erase (map : ByteMap α) (key : Bytes) :
    sorted.erase map key = ⟨map.entries.filter fun entry => entry.1 ≠ key⟩ := by
  by_cases mem : key ∈ map.keys
  · exact congrArg left (run_delete_of_mem mem)
  · have kept : sorted.erase map key = map := congrArg left (run_delete_of_not_mem mem)
    have others : ∀ entry ∈ map.entries, decide (entry.1 ≠ key) = true := by
      intro entry there
      refine decide_eq_true fun same => mem ?_
      exact same ▸ List.mem_map_of_mem there
    rw [kept, List.filter_eq_self.mpr others]

theorem halved_erase (ascending : Ascending map.entries) (key : Bytes) :
    halved.erase map.rows key = (sorted.erase map key).rows := by
  by_cases mem : key ∈ map.keys
  · rw [sorted_erase]
    exact congrArg left (rows_delete_of_mem ascending mem)
  · have kept : sorted.erase map key = map := congrArg left (run_delete_of_not_mem mem)
    rw [kept]
    exact congrArg left (rows_delete_of_not_mem ascending mem)

theorem find?_erase (map : ByteMap α) (key other : Bytes) :
    (sorted.erase map key).find? other = if other = key then none else map.find? other := by
  rw [sorted_erase]
  simp only [find?, List.find?_filter]
  by_cases same : other = key
  · subst same
    simp
  · rw [if_neg same]
    congr 2
    funext entry
    by_cases found : entry.1 = other
    · simp [found, same]
    · simp [found]

theorem ascending_erase (ascending : Ascending map.entries) (key : Bytes) :
    Ascending (sorted.erase map key).entries := by
  rw [sorted_erase]
  exact ascending.sublist List.filter_sublist

/-- A map in order that holds what a finite map does. -/
structure Represents (map : ByteMap α) (held : Finite α) : Prop where
  ascending : Ascending map.entries
  lookup : ∀ key, map.find? key = held.lookup key

/-- The changes of a map are those of the finite map it stands for. -/
theorem represents_run (initial : List (Bytes × α)) (changes : List (Change α)) :
    Represents (sorted.run initial changes) (finite.run initial changes) := by
  apply Store.run_related Represents
  · refine ⟨List.Pairwise.nil, fun key => ?_⟩
    change none = (∅ : Finite α).lookup key
    rw [Finmap.lookup_empty]
  · intro map held key value represents
    refine ⟨ascending_insertEntry key value _ represents.ascending, fun other => ?_⟩
    change (map.insert key value).find? other = (held.insert key value).lookup other
    rw [find?_insert, represents.lookup]
    by_cases same : other = key
    · rw [if_pos same, same, Finmap.lookup_insert]
    · rw [if_neg same, Finmap.lookup_insert_of_ne held same]
  · intro map held key represents
    refine ⟨ascending_erase represents.ascending key, fun other => ?_⟩
    change (sorted.erase map key).find? other = (held.erase key).lookup other
    rw [find?_erase, represents.lookup]
    by_cases same : other = key
    · rw [if_pos same, same, Finmap.lookup_erase]
    · rw [if_neg same, Finmap.lookup_erase_ne same]

/-- Under the same changes two rows stay those of the map. -/
theorem rows_run (initial : List (Bytes × α)) (changes : List (Change α)) :
    halved.run initial changes = (sorted.run initial changes).rows := by
  have related : Ascending (sorted.run initial changes).entries ∧
      halved.run initial changes = (sorted.run initial changes).rows := by
    apply Store.run_related fun (map : ByteMap α) rows => Ascending map.entries ∧ rows = map.rows
    · exact ⟨List.Pairwise.nil, rfl⟩
    · rintro map rows key value ⟨ascending, rfl⟩
      exact ⟨ascending_insertEntry key value _ ascending, (rows_insert ascending key value).symm⟩
    · rintro map rows key ⟨ascending, rfl⟩
      exact ⟨ascending_erase ascending key, halved_erase ascending key⟩
  exact related.2

namespace Represents

variable {held : Finite α}

theorem mem_entries (represents : Represents map held) :
    (key, value) ∈ map.entries ↔ held.lookup key = some value := by
  rw [← represents.lookup key]
  exact ⟨find?_of_mem represents.ascending, mem_of_find?⟩

theorem contains_iff_mem (represents : Represents map held) (key : Bytes) :
    map.contains key = true ↔ key ∈ held := by
  rw [contains, represents.lookup, Finmap.lookup_isSome]

theorem mem_keys (represents : Represents map held) (key : Bytes) : key ∈ map.keys ↔ key ∈ held :=
  (contains_iff map key).symm.trans (represents.contains_iff_mem key)

theorem keys_toFinset (represents : Represents map held) : map.keys.toFinset = held.keys := by
  ext key
  rw [List.mem_toFinset, represents.mem_keys key, Finmap.mem_keys]

theorem size_eq_card (represents : Represents map held) : map.size = held.keys.card := by
  have distinct : map.keys.Nodup := by
    refine List.Pairwise.imp ?_ (List.pairwise_map.mpr represents.ascending)
    intro first later below same
    exact List.lt_irrefl later (same ▸ below)
  rw [← represents.keys_toFinset, List.toFinset_card_of_nodup distinct, keys, List.length_map, size]

theorem values_eq (represents : Represents map held) :
    map.values.map some = map.keys.map held.lookup := by
  simp only [values, keys, List.map_map, List.map_inj_left]
  rintro ⟨key, value⟩ mem
  exact (represents.mem_entries.mp mem).symm

/-- Only one map in order holds what a finite map does. -/
theorem unique {second : ByteMap α} (represents : Represents map held)
    (represented : Represents second held) : map = second := by
  obtain ⟨entries⟩ := map
  obtain ⟨others⟩ := second
  have antisymmetric : Std.Antisymm fun first later : Bytes × α => first.1 < later.1 :=
    ⟨fun first later below above => absurd above (List.lt_asymm below)⟩
  have irreflexive : Std.Irrefl fun first later : Bytes × α => first.1 < later.1 :=
    ⟨fun entry => List.lt_irrefl entry.1⟩
  refine congrArg ByteMap.mk (represents.ascending.eq_of_mem_iff represented.ascending ?_)
  rintro ⟨key, value⟩
  exact represents.mem_entries.trans represented.mem_entries.symm

end Represents

/-- A map and its two rows that keep and show what a finite map holds: the keys ascend, the values
stand under their keys, and to take out a key succeeds when it is there, and is refused and leaves
everything as it was when it is not. -/
structure Refines (map : ByteMap α) (rows : Rows α) (held : Finite α) : Prop where
  ascending : map.keys.Pairwise (· < ·)
  keys : map.keys.toFinset = held.keys
  values : map.values.map some = map.keys.map held.lookup
  entries : map.entries = map.keys.zip map.values
  mem_entries : ∀ key value, (key, value) ∈ map.entries ↔ held.lookup key = some value
  size : map.size = held.keys.card
  aligned : rows.keys = map.keys ∧ rows.values = map.values
  lookup : ∀ key, map.find? key = held.lookup key ∧ rows.find? key = held.lookup key
  member : ∀ key, (map.contains key = true ↔ key ∈ held) ∧ (rows.has key = true ↔ key ∈ held)
  taken : ∀ key, key ∈ held →
    (delete key).run map = .ok () (sorted.erase map key) ∧
      (Rows.delete key).run rows = .ok () (halved.erase rows key)
  refused : ∀ key, key ∉ held →
    (delete key).run map = .error (.absentKey key) map ∧
      (Rows.delete key).run rows = .error (.absentKey key) rows

theorem Represents.refines {held : Finite α} (represents : Represents map held) :
    Refines map map.rows held where
  ascending := List.pairwise_map.mpr represents.ascending
  keys := represents.keys_toFinset
  values := represents.values_eq
  entries := List.zip_of_prod rfl rfl
  mem_entries := fun key value => represents.mem_entries
  size := represents.size_eq_card
  aligned := ⟨rfl, rfl⟩
  lookup := by
    intro key
    rw [rows_find? represents.ascending, represents.lookup]
    exact ⟨rfl, rfl⟩
  member := by
    intro key
    rw [has_rows represents.ascending, represents.mem_keys]
    exact ⟨represents.contains_iff_mem key, Iff.rfl⟩
  taken := by
    intro key present
    have mem := (represents.mem_keys key).mpr present
    rw [halved_erase represents.ascending, sorted_erase]
    exact ⟨run_delete_of_mem mem, rows_delete_of_mem represents.ascending mem⟩
  refused := by
    intro key absent
    have notMem := mt (represents.mem_keys key).mp absent
    exact ⟨run_delete_of_not_mem notMem, rows_delete_of_not_mem represents.ascending notMem⟩

/-- Whatever pairs are put in at first and whatever changes follow, repeated and absent keys
included, a map and its two rows refine the finite map after the same changes; and whatever else
comes to the same finite map comes to the same map and rows. -/
theorem refines_run (initial : List (Bytes × α)) (changes : List (Change α)) :
    Refines (sorted.run initial changes) (halved.run initial changes)
        (finite.run initial changes) ∧
      ∀ otherInitial otherChanges,
        finite.run otherInitial otherChanges = finite.run initial changes →
          sorted.run otherInitial otherChanges = sorted.run initial changes ∧
            halved.run otherInitial otherChanges = halved.run initial changes := by
  have represents := represents_run initial changes
  refine ⟨?_, ?_⟩
  · rw [rows_run]
    exact represents.refines
  · intro otherInitial otherChanges same
    have represented := represents_run otherInitial otherChanges
    rw [same] at represented
    have equal := represented.unique represents
    exact ⟨equal, by rw [rows_run, rows_run, equal]⟩

/-- Keys that begin other keys, put in twice and taken out, or never there: two ways to one map. -/
theorem refines_run_prefixes :
    finite.run [([1, 2], 7), ([], 5), ([1], 3)] [.erase [9], .insert [1, 2] 4, .erase []] =
        finite.run [([1], 3)] [.insert [1, 2] 4, .erase [1, 2, 0]] ∧
      (sorted.run [([1, 2], 7), ([], 5), ([1], 3)]
        [.erase [9], .insert [1, 2] 4, .erase []]).entries = [([1], 3), ([1, 2], 4)] ∧
      sorted.run [([1, 2], 7), ([], 5), ([1], 3)] [.erase [9], .insert [1, 2] 4, .erase []] =
        sorted.run [([1], 3)] [.insert [1, 2] 4, .erase [1, 2, 0]] ∧
      halved.run [([1, 2], 7), ([], 5), ([1], 3)] [.erase [9], .insert [1, 2] 4, .erase []] =
        halved.run [([1], 3)] [.insert [1, 2] 4, .erase [1, 2, 0]] := by
  have same :
      finite.run [([1, 2], 7), ([], 5), ([1], 3)] [.erase [9], .insert [1, 2] 4, .erase []] =
        finite.run [([1], 3)] [.insert [1, 2] 4, .erase [1, 2, 0]] := by decide +kernel
  exact ⟨same, by decide +kernel, (refines_run _ _).2 _ _ same⟩

end HeaderRelay.ByteMap
