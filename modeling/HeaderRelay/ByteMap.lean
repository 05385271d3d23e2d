import HeaderRelay.Bytes

set_option autoImplicit false

namespace HeaderRelay

/-- A map from byte strings: its pairs, ascending by key. -/
structure ByteMap (α : Type) where
  entries : List (Bytes × α)

namespace ByteMap

variable {α : Type}

def empty : ByteMap α := ⟨[]⟩

/-- Puts a pair before the first larger key, or in place of the pair with the same key. -/
def insertEntry (key : Bytes) (value : α) : List (Bytes × α) → List (Bytes × α)
  | [] => [(key, value)]
  | (other, old) :: rest =>
    if key < other then (key, value) :: (other, old) :: rest
    else if key = other then (key, value) :: rest
    else (other, old) :: insertEntry key value rest

def insert (map : ByteMap α) (key : Bytes) (value : α) : ByteMap α :=
  ⟨insertEntry key value map.entries⟩

/-- The map that results from inserting pairs in order. -/
def ofList (entries : List (Bytes × α)) : ByteMap α :=
  entries.foldl (fun map (key, value) => map.insert key value) empty

def find? (map : ByteMap α) (key : Bytes) : Option α :=
  (map.entries.find? fun entry => entry.1 = key).map Prod.snd

def contains (map : ByteMap α) (key : Bytes) : Bool := (map.find? key).isSome

/-- Takes a key and its value away; nothing results when the key has none. -/
def erase? (map : ByteMap α) (key : Bytes) : Option (ByteMap α) :=
  if map.contains key then some ⟨map.entries.filter fun entry => entry.1 ≠ key⟩ else none

def keys (map : ByteMap α) : List Bytes := map.entries.map Prod.fst

def values (map : ByteMap α) : List α := map.entries.map Prod.snd

def size (map : ByteMap α) : Nat := map.entries.length

def drain (map : ByteMap α) : ByteMap α :=
  map.keys.foldl (fun rest key => (rest.erase? key).getD rest) map

/-- What may be looked for among the keys. -/
inductive Probe where
  | bytes (key : Bytes)
  | text (value : String)

/-- Whether something is a key. Text never is. -/
def has (map : ByteMap α) : Probe → Bool
  | .bytes key => map.contains key
  | .text _ => false

end ByteMap

end HeaderRelay
