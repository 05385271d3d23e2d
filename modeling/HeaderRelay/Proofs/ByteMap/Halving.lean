import Mathlib
import HeaderRelay.Error
import HeaderRelay.Proofs.ByteMap

set_option autoImplicit false

namespace HeaderRelay.ByteMap

/-- The place of a key from `low` on and up to `high`: half of what is left is passed over at a
time, by comparing with the key in its middle. -/
def halve (keys : List Bytes) (key : Bytes) (low high : Nat) : Nat :=
  if low < high then
    if keys[(low + high) / 2]?.any (· < key) then halve keys key ((low + high) / 2 + 1) high
    else halve keys key low ((low + high) / 2)
  else low
termination_by high - low

/-- Keys and, at the same places, the values under them. -/
structure Rows (α : Type) where
  keys : List Bytes
  values : List α

namespace Rows

variable {α : Type}

def place (rows : Rows α) (key : Bytes) : Nat := halve rows.keys key 0 rows.keys.length

def has (rows : Rows α) (key : Bytes) : Bool := rows.keys[rows.place key]? = some key

def insert (rows : Rows α) (key : Bytes) (value : α) : Rows α :=
  if rows.has key then { rows with values := rows.values.set (rows.place key) value }
  else ⟨rows.keys.insertIdx (rows.place key) key, rows.values.insertIdx (rows.place key) value⟩

def find? (rows : Rows α) (key : Bytes) : Option α :=
  if rows.has key then rows.values[rows.place key]? else none

/-- Takes a key out of its row, and then the value at its place out of the other one. A key that
does not stand in its place is refused before anything is taken. -/
def delete (key : Bytes) : EStateM Failure (Rows α) Unit := do
  let place := (← get).place key
  unless (← get).has key do
    throw (.absentKey key)
  modify fun rows => { rows with keys := rows.keys.eraseIdx place }
  modify fun rows => { rows with values := rows.values.eraseIdx place }

variable {rows : Rows α} {key : Bytes}

theorem run_delete_of_has (present : rows.has key = true) :
    (delete key).run rows =
      .ok () ⟨rows.keys.eraseIdx (rows.place key), rows.values.eraseIdx (rows.place key)⟩ := by
  simp only [delete, EStateM.run_bind, EStateM.run_get, present]
  rfl

theorem run_delete_of_not_has (absent : ¬ rows.has key = true) :
    (delete key).run rows = .error (.absentKey key) rows := by
  simp only [delete, EStateM.run_bind, EStateM.run_get, absent]
  rfl

end Rows

/-- How many keys from the first on are smaller than a key. -/
def smaller (keys : List Bytes) (key : Bytes) : Nat :=
  (keys.takeWhile fun other => other < key).length

section Places

variable {keys : List Bytes} {key other : Bytes}

theorem smaller_cons_of_lt (rest : List Bytes) (below : other < key) :
    smaller (other :: rest) key = smaller rest key + 1 := by
  simp only [smaller, List.takeWhile_cons, below, decide_true, ↓reduceIte, List.length_cons]

theorem smaller_cons_of_not_lt (rest : List Bytes) (above : ¬ other < key) :
    smaller (other :: rest) key = 0 := by
  simp only [smaller, List.takeWhile_cons, above, decide_false, Bool.false_eq_true, ↓reduceIte,
    List.length_nil]

theorem smaller_le_length (keys : List Bytes) (key : Bytes) : smaller keys key ≤ keys.length :=
  (List.takeWhile_prefix _).length_le

/-- In a row that ascends, the smaller keys are those at the places before. -/
theorem any_lt_iff (ascending : keys.Pairwise (· < ·)) (key : Bytes) (place : Nat) :
    keys[place]?.any (· < key) = true ↔ place < smaller keys key := by
  induction keys generalizing place with
  | nil => simp [smaller]
  | cons other rest ih =>
    obtain ⟨first, later⟩ := List.pairwise_cons.mp ascending
    by_cases below : other < key
    · rw [smaller_cons_of_lt rest below]
      cases place with
      | zero => simp [below]
      | succ place => rw [List.getElem?_cons_succ, ih later, Nat.add_lt_add_iff_right]
    · rw [smaller_cons_of_not_lt rest below]
      cases place with
      | zero => simp [below]
      | succ place =>
        -- what comes later is larger still
        simp only [List.getElem?_cons_succ, Option.any_eq_true, decide_eq_true_eq, Nat.not_lt_zero,
          iff_false, not_exists, not_and]
        intro third there less
        exact below (List.lt_trans (first third (List.mem_of_getElem? there)) less)

/-- Halving finds how many keys are smaller, wherever between its bounds this number lies. -/
theorem halve_eq (ascending : keys.Pairwise (· < ·)) {low high : Nat}
    (lower : low ≤ smaller keys key) (upper : smaller keys key ≤ high) :
    halve keys key low high = smaller keys key := by
  induction low, high using halve.induct keys key with
  | case1 low high left below ih =>
    rw [halve, if_pos left, if_pos below]
    have passed := (any_lt_iff ascending key _).mp below
    exact ih (by omega) upper
  | case2 low high left above ih =>
    rw [halve, if_pos left, if_neg above]
    have reached := mt (any_lt_iff ascending key _).mpr above
    exact ih lower (by omega)
  | case3 low high done =>
    rw [halve, if_neg done]
    omega

end Places

variable {α : Type} {map : ByteMap α} {key : Bytes} {value : α} {entries : List (Bytes × α)}

def rows (map : ByteMap α) : Rows α := ⟨map.keys, map.values⟩

theorem place_rows (ascending : Ascending map.entries) (key : Bytes) :
    map.rows.place key = smaller map.keys key :=
  halve_eq (List.pairwise_map.mpr ascending) (Nat.zero_le _) (smaller_le_length _ _)

/-- A pair takes the place of the pair with its key, or is put before the larger keys. -/
theorem insertEntry_eq (key : Bytes) (value : α) (entries : List (Bytes × α)) :
    insertEntry key value entries =
      if (entries.map Prod.fst)[smaller (entries.map Prod.fst) key]? = some key then
        entries.set (smaller (entries.map Prod.fst) key) (key, value)
      else entries.insertIdx (smaller (entries.map Prod.fst) key) (key, value) := by
  induction entries with
  | nil => rfl
  | cons head rest ih =>
    obtain ⟨other, old⟩ := head
    rcases Bytes.lt_trichotomy key other with before | same | after
    · have different : other ≠ key := fun same => List.lt_irrefl key (same ▸ before)
      simp [insertEntry, before, smaller_cons_of_not_lt _ (List.lt_asymm before), different]
    · subst same
      simp [insertEntry, List.lt_irrefl, smaller_cons_of_not_lt _ (List.lt_irrefl key)]
    · have different : key ≠ other := fun same => List.lt_irrefl key (same ▸ after)
      simp only [insertEntry, List.lt_asymm after, different, ↓reduceIte, ih, List.map_cons,
        smaller_cons_of_lt _ after, List.getElem?_cons_succ, List.set_cons_succ,
        List.insertIdx_succ_cons]
      split <;> rfl

/-- A key is in a row that ascends exactly when it stands in its place. -/
theorem getElem?_smaller_iff {keys : List Bytes} (ascending : keys.Pairwise (· < ·)) :
    keys[smaller keys key]? = some key ↔ key ∈ keys := by
  constructor
  · exact List.mem_of_getElem?
  · intro mem
    obtain ⟨place, inside, here⟩ := List.getElem_of_mem mem
    have there : keys[place]? = some key := List.getElem?_eq_some_iff.mpr ⟨inside, here⟩
    have notBefore : ¬ place < smaller keys key := by
      rw [← any_lt_iff ascending key place, there]
      simp [List.lt_irrefl]
    -- nor does the key come later: what stands at the place would be smaller than the key
    have notAfter : ¬ smaller keys key < place := by
      intro after
      have less := List.pairwise_iff_getElem.mp ascending _ place (after.trans inside) inside after
      rw [here] at less
      have counted := (any_lt_iff ascending key (smaller keys key)).mp (by
        rw [List.getElem?_eq_getElem (after.trans inside)]
        exact decide_eq_true less)
      exact lt_irrefl _ counted
    have same : place = smaller keys key := by omega
    rw [← same, there]

theorem has_rows (ascending : Ascending map.entries) (key : Bytes) :
    map.rows.has key = true ↔ key ∈ map.keys := by
  rw [Rows.has, place_rows ascending, decide_eq_true_eq]
  exact getElem?_smaller_iff (List.pairwise_map.mpr ascending)

/-- Taking a key out of pairs that ascend takes the pair at its place. -/
theorem filter_eq_eraseIdx (ascending : Ascending entries) (mem : key ∈ entries.map Prod.fst) :
    entries.filter (fun entry => entry.1 ≠ key) =
      entries.eraseIdx (smaller (entries.map Prod.fst) key) := by
  induction entries with
  | nil => rfl
  | cons head rest ih =>
    obtain ⟨other, old⟩ := head
    obtain ⟨first, later⟩ := List.pairwise_cons.mp ascending
    rw [List.map_cons] at mem ⊢
    by_cases below : other < key
    · have different : other ≠ key := fun same => List.lt_irrefl key (same ▸ below)
      have held : key ∈ rest.map Prod.fst :=
        (List.mem_cons.mp mem).resolve_left different.symm
      rw [smaller_cons_of_lt _ below, List.eraseIdx_cons_succ, ← ih later held]
      exact List.filter_cons_of_pos (decide_eq_true different)
    · have same : other = key := by
        rcases List.mem_cons.mp mem with same | held
        · exact same.symm
        · obtain ⟨entry, there, rfl⟩ := List.mem_map.mp held
          exact absurd (first entry there) below
      have kept : ∀ entry ∈ rest, decide (entry.1 ≠ key) = true := by
        intro entry there
        have above := first entry there
        rw [same] at above
        exact decide_eq_true fun equal => List.lt_irrefl key (equal ▸ above)
      rw [smaller_cons_of_not_lt _ below, List.eraseIdx_cons_zero,
        List.filter_cons_of_neg (by simp [same]), List.filter_eq_self.mpr kept]

/-- Inserting into the rows gives the rows of the map after the insertion. -/
theorem rows_insert (ascending : Ascending map.entries) (key : Bytes) (value : α) :
    (map.insert key value).rows = map.rows.insert key value := by
  have sorted : map.keys.Pairwise (· < ·) := List.pairwise_map.mpr ascending
  have entries : (map.insert key value).entries =
      if map.keys[smaller map.keys key]? = some key then
        map.entries.set (smaller map.keys key) (key, value)
      else map.entries.insertIdx (smaller map.keys key) (key, value) :=
    insertEntry_eq key value map.entries
  have place := place_rows ascending key
  by_cases mem : key ∈ map.keys
  · have there : map.keys[smaller map.keys key]? = some key := (getElem?_smaller_iff sorted).mpr mem
    obtain ⟨inside, here⟩ := List.getElem?_eq_some_iff.mp there
    have same : map.keys.set (smaller map.keys key) key = map.keys := by
      have kept := List.set_getElem_self inside
      rwa [here] at kept
    rw [if_pos there] at entries
    rw [Rows.insert, if_pos ((has_rows ascending key).mpr mem), place]
    simp only [rows, keys, values, entries, List.map_set, Rows.mk.injEq, and_true]
    exact same
  · rw [if_neg (mt (getElem?_smaller_iff sorted).mp mem)] at entries
    rw [Rows.insert, if_neg (mt (has_rows ascending key).mp mem), place]
    simp only [rows, keys, values, entries, List.map_insertIdx]

/-- Takes a key and its value out of a map, or refuses a key that is not there. -/
def delete (key : Bytes) : EStateM Failure (ByteMap α) Unit := do
  match (← get).erase? key with
  | some rest => set rest
  | none => throw (.absentKey key)

theorem run_delete_of_mem (mem : key ∈ map.keys) :
    (delete key).run map = .ok () ⟨map.entries.filter fun entry => entry.1 ≠ key⟩ := by
  have found : map.erase? key = some ⟨map.entries.filter fun entry => entry.1 ≠ key⟩ := by
    rw [erase?, if_pos ((contains_iff map key).mpr mem)]
  simp only [delete, EStateM.run_bind, EStateM.run_get, found, EStateM.run_set]

theorem run_delete_of_not_mem (absent : key ∉ map.keys) :
    (delete key).run map = .error (.absentKey key) map := by
  have none : map.erase? key = none := by
    rw [erase?, if_neg (mt (contains_iff map key).mp absent)]
  simp only [delete, EStateM.run_bind, EStateM.run_get, none, EStateM.run_throw]

theorem rows_delete_of_mem (ascending : Ascending map.entries) (mem : key ∈ map.keys) :
    (Rows.delete key).run map.rows =
      .ok () (rows ⟨map.entries.filter fun entry => entry.1 ≠ key⟩) := by
  rw [Rows.run_delete_of_has ((has_rows ascending key).mpr mem), place_rows ascending,
    filter_eq_eraseIdx ascending mem]
  simp only [rows, keys, values, List.eraseIdx_map]

theorem rows_delete_of_not_mem (ascending : Ascending map.entries) (absent : key ∉ map.keys) :
    (Rows.delete key).run map.rows = .error (.absentKey key) map.rows :=
  Rows.run_delete_of_not_has (mt (has_rows ascending key).mp absent)

/-- What the rows hold under a key is what the map does. -/
theorem rows_find? (ascending : Ascending map.entries) (key : Bytes) :
    map.rows.find? key = map.find? key := by
  by_cases mem : key ∈ map.keys
  · have there : map.keys[smaller map.keys key]? = some key :=
      (getElem?_smaller_iff (List.pairwise_map.mpr ascending)).mpr mem
    rw [Rows.find?, if_pos ((has_rows ascending key).mpr mem), place_rows ascending key]
    rw [keys, List.getElem?_map, Option.map_eq_some_iff] at there
    obtain ⟨entry, here, rfl⟩ := there
    rw [find?_of_mem ascending (List.mem_of_getElem? here)]
    simp only [rows, values, keys, List.getElem?_map, here, Option.map_some]
  · have absent : map.find? key = none :=
      Option.not_isSome_iff_eq_none.mp (mt (contains_iff map key).mp mem)
    rw [Rows.find?, if_neg (mt (has_rows ascending key).mp mem), absent]

end HeaderRelay.ByteMap
