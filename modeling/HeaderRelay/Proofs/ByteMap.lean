import Mathlib
import HeaderRelay.ByteMap

set_option autoImplicit false

namespace HeaderRelay

theorem Bytes.lt_trichotomy (first second : Bytes) :
    first < second ∨ first = second ∨ second < first := by
  by_cases less : first < second
  · exact Or.inl less
  · exact Or.inr ((List.le_iff_lt_or_eq.mp (List.not_lt.mp less)).symm.imp_left Eq.symm)

namespace ByteMap

variable {α : Type}

/-- Each key is smaller than all later ones. -/
def Ascending (entries : List (Bytes × α)) : Prop :=
  entries.Pairwise fun first second => first.1 < second.1

theorem mem_insertEntry {key : Bytes} {value : α} {entries : List (Bytes × α)}
    {entry : Bytes × α} (mem : entry ∈ insertEntry key value entries) :
    entry = (key, value) ∨ entry ∈ entries := by
  induction entries with
  | nil => exact Or.inl (List.mem_singleton.mp mem)
  | cons head rest ih =>
    obtain ⟨other, old⟩ := head
    simp only [insertEntry] at mem
    split at mem
    · exact List.mem_cons.mp mem
    · split at mem
      · exact (List.mem_cons.mp mem).imp_right (List.mem_cons_of_mem _)
      · rcases List.mem_cons.mp mem with first | later
        · exact Or.inr (first ▸ List.mem_cons_self)
        · exact (ih later).imp_right (List.mem_cons_of_mem _)

/-- A pair under a new key is added to the others. -/
theorem insertEntry_perm (key : Bytes) (value : α) (entries : List (Bytes × α))
    (absent : ∀ entry ∈ entries, entry.1 ≠ key) :
    (insertEntry key value entries).Perm ((key, value) :: entries) := by
  induction entries with
  | nil => exact List.Perm.refl _
  | cons head rest ih =>
    obtain ⟨other, old⟩ := head
    have different : key ≠ other := (absent (other, old) List.mem_cons_self).symm
    simp only [insertEntry, different, ↓reduceIte]
    split
    · exact List.Perm.refl _
    · have added := ih fun entry mem => absent entry (List.mem_cons_of_mem _ mem)
      exact (added.cons _).trans (List.Perm.swap _ _ _)

/-- A pair takes the place of at most one other. -/
theorem insertEntry_subperm (key : Bytes) (value : α) (entries : List (Bytes × α)) :
    (insertEntry key value entries).Subperm ((key, value) :: entries) := by
  induction entries with
  | nil => exact List.Subperm.refl _
  | cons head rest ih =>
    obtain ⟨other, old⟩ := head
    simp only [insertEntry]
    split
    · exact List.Subperm.refl _
    · split
      · exact (List.subperm_cons _).mpr List.Subperm.cons_self
      · have later : ((other, old) :: insertEntry key value rest).Subperm
            ((other, old) :: (key, value) :: rest) := (List.subperm_cons _).mpr ih
        exact later.trans (List.Perm.swap _ _ _).subperm

theorem ascending_insertEntry (key : Bytes) (value : α) (entries : List (Bytes × α))
    (ascending : Ascending entries) : Ascending (insertEntry key value entries) := by
  induction entries with
  | nil => exact List.pairwise_singleton _ _
  | cons head rest ih =>
    obtain ⟨other, old⟩ := head
    obtain ⟨below, tail⟩ := List.pairwise_cons.mp ascending
    simp only [insertEntry]
    split
    · rename_i before
      refine List.pairwise_cons.mpr ⟨?_, ascending⟩
      intro entry mem
      rcases List.mem_cons.mp mem with first | later
      · exact first ▸ before
      · exact List.lt_trans before (below entry later)
    · split
      · rename_i same
        subst same
        exact List.pairwise_cons.mpr ⟨below, tail⟩
      · rename_i notBefore different
        refine List.pairwise_cons.mpr ⟨?_, ih tail⟩
        intro entry mem
        rcases mem_insertEntry mem with new | later
        · subst new
          rcases Bytes.lt_trichotomy key other with before | same | after
          · exact absurd before notBefore
          · exact absurd same different
          · exact after
        · exact below entry later

theorem insertEntry_last (key : Bytes) (value : α) (entries : List (Bytes × α))
    (largest : ∀ entry ∈ entries, entry.1 < key) :
    insertEntry key value entries = entries ++ [(key, value)] := by
  induction entries with
  | nil => rfl
  | cons head rest ih =>
    obtain ⟨other, old⟩ := head
    have after : other < key := largest (other, old) List.mem_cons_self
    have notBefore : ¬ key < other := List.lt_asymm after
    have different : key ≠ other := fun same => List.lt_irrefl other (same ▸ after)
    simp only [insertEntry, notBefore, different, ↓reduceIte, List.cons_append]
    rw [ih fun entry mem => largest entry (List.mem_cons_of_mem _ mem)]

theorem entries_ofList (entries : List (Bytes × α)) (ascending : Ascending entries) :
    (ofList entries).entries = entries := by
  induction entries using List.reverseRecOn with
  | nil => rfl
  | append_singleton entries entry ih =>
    obtain ⟨before, _, below⟩ := List.pairwise_append.mp ascending
    have step : ofList (entries ++ [entry]) = (ofList entries).insert entry.1 entry.2 := by
      simp only [ofList, List.foldl_append, List.foldl_cons, List.foldl_nil]
    rw [step, insert, ih before]
    exact insertEntry_last entry.1 entry.2 entries fun other mem =>
      below other mem entry List.mem_cons_self

theorem mem_of_find? {map : ByteMap α} {key : Bytes} {value : α}
    (found : map.find? key = some value) : (key, value) ∈ map.entries := by
  obtain ⟨entry, there, same⟩ := Option.map_eq_some_iff.mp found
  have named := List.find?_some there
  have mem := List.mem_of_find?_eq_some there
  rw [← of_decide_eq_true named, ← same]
  exact mem

theorem ne_of_find?_eq_none {map : ByteMap α} {key : Bytes} (missing : map.find? key = none) :
    ∀ entry ∈ map.entries, entry.1 ≠ key := by
  intro entry mem same
  have absent := List.find?_eq_none.mp (Option.map_eq_none_iff.mp missing) entry mem
  exact absent (decide_eq_true same)

theorem contains_iff (map : ByteMap α) (key : Bytes) :
    map.contains key = true ↔ key ∈ map.keys := by
  simp only [contains, find?, Option.isSome_map, List.find?_isSome, decide_eq_true_eq, keys,
    List.mem_map]

/-- In order, no two pairs have one key. -/
theorem find?_of_mem {map : ByteMap α} {key : Bytes} {value : α} (ascending : Ascending map.entries)
    (mem : (key, value) ∈ map.entries) : map.find? key = some value := by
  cases found : map.find? key with
  | none => exact absurd rfl (ne_of_find?_eq_none found _ mem)
  | some other =>
    by_contra different
    have apart : (key, value) ≠ (key, other) := by
      intro same
      exact different (congrArg some (congrArg Prod.snd same).symm)
    have distinct : map.entries.Pairwise fun first second => first.1 ≠ second.1 := by
      refine List.Pairwise.imp ?_ ascending
      intro first second below same
      rw [same] at below
      exact List.lt_irrefl _ below
    have symmetric : Std.Symm fun first second : Bytes × α => first.1 ≠ second.1 :=
      ⟨fun _ _ apart => apart.symm⟩
    exact distinct.forall mem (mem_of_find? found) apart rfl

theorem erase?_of_mem {map : ByteMap α} {entry : Bytes × α} (mem : entry ∈ map.entries) :
    map.erase? entry.1 = some ⟨map.entries.filter fun other => other.1 ≠ entry.1⟩ := by
  have present : map.contains entry.1 = true := by
    rw [contains, Option.isSome_iff_ne_none]
    intro missing
    exact ne_of_find?_eq_none missing entry mem rfl
  rw [erase?, if_pos present]

end ByteMap

end HeaderRelay
