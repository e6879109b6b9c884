import DedupPipeline.Library.OverflowTable

namespace DedupModel

def tableCapacity : Nat := 8192
def associateMemStore : Nat := 64
def seed : UInt32 := 524057

def murmur32Scramble (k : UInt32) : UInt32 :=
  let k := k * 0xcc9e2d51
  let k := (k <<< 15) ||| (k >>> 17)
  k * 0x1b873593

def myHash (key : UInt32) : UInt32 :=
  let h := seed
  let h := h ^^^ murmur32Scramble key
  let h := (h <<< 13) ||| (h >>> 19)
  let h := h * 5 + 0xe6546b64
  let h := h ^^^ murmur32Scramble key
  let h := h ^^^ (h >>> 16)
  let h := h * 0x85ebca6b
  let h := h ^^^ (h >>> 13)
  let h := h * 0xc2b2ae35
  let h := h ^^^ (h >>> 16)
  h % UInt32.ofNat tableCapacity

structure HashEntry where
  key : UInt32
  value : UInt16
  valid : Bool

abbrev HashTable := Nat → HashEntry

structure AssocMem where
  keys : Nat → UInt32
  values : Nat → UInt16
  fill : Nat

def hashLookup (hashTable : HashTable) (key : UInt32) : Option UInt16 :=
  let entry := hashTable (myHash key).toNat
  if entry.valid ∧ entry.key = key then some entry.value else none

/-- The table after the insertion, and `collision`. -/
def hashInsert (hashTable : HashTable) (key : UInt32) (value : UInt16) : HashTable × Bool :=
  let hashVal := (myHash key).toNat
  if (hashTable hashVal).valid then (hashTable, true)
  else (Function.update hashTable hashVal ⟨key, value, true⟩, false)

def assocLookup (mem : AssocMem) (key : UInt32) : Option UInt16 :=
  ((List.range mem.fill).find? fun i => mem.keys i == key).map mem.values

def assocInsert (mem : AssocMem) (key : UInt32) (value : UInt16) : AssocMem × Bool :=
  if mem.fill < associateMemStore then
    (⟨Function.update mem.keys mem.fill key, Function.update mem.values mem.fill value, mem.fill + 1⟩, false)
  else (mem, true)

structure HashedDictionary where
  hashTable : HashTable
  assocMem : AssocMem

def HashedDictionary.insert (dictionary : HashedDictionary) (key : UInt32) (value : UInt16) :
    HashedDictionary × Bool :=
  let (hashTable, collision) := hashInsert dictionary.hashTable key value
  if collision then
    let (assocMem, collision) := assocInsert dictionary.assocMem key value
    (⟨hashTable, assocMem⟩, collision)
  else (⟨hashTable, dictionary.assocMem⟩, collision)

def HashedDictionary.lookup (dictionary : HashedDictionary) (key : UInt32) : Option UInt16 :=
  match hashLookup dictionary.hashTable key with
  | some result => some result
  | none => assocLookup dictionary.assocMem key

/-- `memset` clears the hash table; of the associative memory only `fill` is set. -/
def HashedDictionary.empty (assocMem : AssocMem) : HashedDictionary :=
  ⟨fun _ => ⟨0, 0, false⟩, { assocMem with fill := 0 }⟩

end DedupModel

namespace DedupProof

open DedupModel OverflowTable

def home (key : UInt32) : Nat := (myHash key).toNat

def assocEntries (mem : AssocMem) : List (UInt32 × UInt16) :=
  (List.range mem.fill).map fun i => (mem.keys i, mem.values i)

def entryPair (entry : HashEntry) : Option (UInt32 × UInt16) :=
  if entry.valid then some (entry.key, entry.value) else none

def toTable (dictionary : HashedDictionary) : Table Nat UInt32 UInt16 :=
  ⟨entryPair ∘ dictionary.hashTable, assocEntries dictionary.assocMem⟩

theorem lookup_map {ι κ ν : Type*} [DecidableEq κ] (indices : List ι) (keys : ι → κ) (values : ι → ν) (key : κ) :
    (indices.map fun i => (keys i, values i)).lookup key = (indices.find? fun i => keys i == key).map values := by
  induction indices with
  | nil => rfl
  | cons i indices ih =>
    rw [List.map_cons, List.lookup_cons, List.find?_cons]
    by_cases same : key = keys i
    · rw [same, beq_self_eq_true]
      rfl
    · rw [beq_false_of_ne same, beq_false_of_ne (Ne.symm same)]
      exact ih

theorem assocLookup_eq (mem : AssocMem) (key : UInt32) : assocLookup mem key = (assocEntries mem).lookup key :=
  (lookup_map (List.range mem.fill) mem.keys mem.values key).symm

theorem lookup_toTable (dictionary : HashedDictionary) (key : UInt32) :
    dictionary.lookup key = lookup home (toTable dictionary) key := by
  unfold HashedDictionary.lookup hashLookup lookup toTable entryPair home
  dsimp only [Function.comp_apply]
  rw [assocLookup_eq]
  cases (dictionary.hashTable (myHash key).toNat).valid with
  | false => simp
  | true =>
    by_cases same : (dictionary.hashTable (myHash key).toNat).key = key <;> simp [same]

theorem length_assocEntries (mem : AssocMem) : (assocEntries mem).length = mem.fill := by
  rw [assocEntries, List.length_map, List.length_range]

theorem assocInsert_room {mem : AssocMem} (room : mem.fill < associateMemStore) (key : UInt32) (value : UInt16) :
    (assocInsert mem key value).2 = false ∧
      assocEntries (assocInsert mem key value).1 = assocEntries mem ++ [(key, value)] := by
  rw [assocInsert, if_pos room]
  refine ⟨rfl, ?_⟩
  unfold assocEntries
  dsimp only
  rw [List.range_succ, List.map_append, List.map_singleton, Function.update_self, Function.update_self]
  congr 1
  apply List.map_congr_left
  intro i inside
  have earlier := Nat.ne_of_lt (List.mem_range.mp inside)
  rw [Function.update_of_ne earlier, Function.update_of_ne earlier]

theorem insert_valid {dictionary : HashedDictionary} {key : UInt32}
    (valid : (dictionary.hashTable (home key)).valid = true) (value : UInt16) :
    dictionary.insert key value = (⟨dictionary.hashTable, (assocInsert dictionary.assocMem key value).1⟩,
      (assocInsert dictionary.assocMem key value).2) := by
  unfold home at valid
  simp [HashedDictionary.insert, hashInsert, valid]

theorem insert_invalid {dictionary : HashedDictionary} {key : UInt32}
    (invalid : (dictionary.hashTable (home key)).valid = false) (value : UInt16) :
    dictionary.insert key value =
      (⟨Function.update dictionary.hashTable (home key) ⟨key, value, true⟩, dictionary.assocMem⟩, false) := by
  unfold home at invalid ⊢
  simp [HashedDictionary.insert, hashInsert, invalid]

theorem insert_toTable (dictionary : HashedDictionary) (key : UInt32) (value : UInt16) :
    toTable (dictionary.insert key value).1 = (insert home associateMemStore (toTable dictionary) key value).1 ∧
      (dictionary.insert key value).2 = (insert home associateMemStore (toTable dictionary) key value).2 := by
  cases valid : (dictionary.hashTable (home key)).valid with
  | false =>
    have free : (toTable dictionary).slots (home key) = none := by simp [toTable, entryPair, valid]
    rw [insert_invalid valid, insert_free value free, toTable, Function.comp_update]
    exact ⟨rfl, rfl⟩
  | true =>
    have taken : (toTable dictionary).slots (home key) ≠ none := by simp [toTable, entryPair, valid]
    have size : (toTable dictionary).overflow.length = dictionary.assocMem.fill :=
      length_assocEntries dictionary.assocMem
    rw [insert_valid valid]
    by_cases room : dictionary.assocMem.fill < associateMemStore
    · obtain ⟨stored, entries⟩ := assocInsert_room room key value
      rw [insert_taken value taken (size ▸ room), stored, toTable, entries]
      exact ⟨rfl, rfl⟩
    · rw [insert_full value taken (size ▸ Nat.not_lt.mp room), assocInsert, if_neg room]
      exact ⟨rfl, rfl⟩

theorem toTable_empty (assocMem : AssocMem) : toTable (HashedDictionary.empty assocMem) = empty := rfl

def insertEach (dictionary : HashedDictionary) (inserts : List (UInt32 × UInt16)) : HashedDictionary :=
  inserts.foldl (fun dictionary entry => (dictionary.insert entry.1 entry.2).1) dictionary

theorem insertEach_toTable (dictionary : HashedDictionary) (inserts : List (UInt32 × UInt16)) :
    toTable (insertEach dictionary inserts) = insertAll home associateMemStore (toTable dictionary) inserts := by
  induction inserts generalizing dictionary with
  | nil => rfl
  | cons entry inserts ih =>
    rw [insertAll, List.foldl_cons, ← (insert_toTable dictionary entry.1 entry.2).1]
    exact ih _

/-- The insertion `i` is one of this key and value, and it ends with `collision` false. -/
structure StoredAt (assocMem : AssocMem) (inserts : List (UInt32 × UInt16)) (i : Nat) (key : UInt32)
    (value : UInt16) : Prop where
  inserted : inserts[i]? = some (key, value)
  noCollision : ((insertEach (HashedDictionary.empty assocMem) (inserts.take i)).insert key value).2 = false

theorem storedAt_iff (assocMem : AssocMem) (inserts : List (UInt32 × UInt16)) (i : Nat) (key : UInt32)
    (value : UInt16) :
    StoredAt assocMem inserts i key value ↔ Stored home associateMemStore empty inserts i key value := by
  have collision := (insert_toTable (insertEach (HashedDictionary.empty assocMem) (inserts.take i)) key value).2
  rw [insertEach_toTable, toTable_empty] at collision
  constructor
  · intro stored
    exact ⟨stored.inserted, collision ▸ stored.noCollision⟩
  · intro stored
    exact ⟨stored.inserted, collision ▸ stored.room⟩

theorem insert_stored {dictionary : HashedDictionary} (sound : Sound home associateMemStore (toTable dictionary))
    {key : UInt32} {value : UInt16} (stored : (dictionary.insert key value).2 = false) (other : UInt32) :
    (dictionary.insert key value).1.lookup other =
      (dictionary.lookup other).or (if other = key then some value else none) := by
  obtain ⟨table, flag⟩ := insert_toTable dictionary key value
  rw [lookup_toTable, lookup_toTable, table, lookup_insert sound (flag ▸ stored)]

theorem insert_collision {dictionary : HashedDictionary} {key : UInt32} {value : UInt16}
    (collision : (dictionary.insert key value).2 = true) (other : UInt32) :
    (dictionary.insert key value).1.lookup other = dictionary.lookup other := by
  obtain ⟨table, flag⟩ := insert_toTable dictionary key value
  rw [lookup_toTable, lookup_toTable, table, insert_refused (flag ▸ collision)]

/-- Hash table and associative memory together are a map in which the first stored value of a key wins. -/
theorem dictionary_first_write_wins (assocMem : AssocMem) (inserts : List (UInt32 × UInt16)) :
    (∀ key, ((insertEach (HashedDictionary.empty assocMem) inserts).lookup key).isSome = true ↔
      ∃ i value, StoredAt assocMem inserts i key value) ∧
    (∀ key value, (insertEach (HashedDictionary.empty assocMem) inserts).lookup key = some value ↔
      ∃ i, StoredAt assocMem inserts i key value ∧ ∀ j < i, ∀ other, ¬StoredAt assocMem inserts j key other) ∧
    (insertEach (HashedDictionary.empty assocMem) inserts).assocMem.fill ≤ 64 ∧
    ∀ key value, ((insertEach (HashedDictionary.empty assocMem) inserts).insert key value).2 = true →
      ∀ other, ((insertEach (HashedDictionary.empty assocMem) inserts).insert key value).1.lookup other =
        (insertEach (HashedDictionary.empty assocMem) inserts).lookup other := by
  have table := insertEach_toTable (HashedDictionary.empty assocMem) inserts
  rw [toTable_empty] at table
  refine ⟨?_, ?_, ?_, fun key value => insert_collision⟩
  · intro key
    simp only [lookup_toTable, storedAt_iff, table]
    exact lookup_isSome_iff home associateMemStore inserts key
  · intro key value
    simp only [lookup_toTable, storedAt_iff, table]
    exact lookup_eq_some_iff home associateMemStore inserts key value
  · have sound : Sound home associateMemStore (insertAll home associateMemStore empty inserts) :=
      insertAll_sound empty_sound inserts
    rw [← table] at sound
    rw [← length_assocEntries]
    exact sound.room

end DedupProof
