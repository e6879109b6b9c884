import Mathlib.Data.List.Induction
import Mathlib.Logic.Function.Basic

namespace OverflowTable

structure Table (σ κ ν : Type*) where
  slots : σ → Option (κ × ν)
  overflow : List (κ × ν)

variable {σ κ ν : Type*}

def empty : Table σ κ ν := ⟨fun _ => none, []⟩

/-- A key is in the list only when its slot is taken, so a free slot belongs to no key of the table. -/
structure Sound (home : κ → σ) (capacity : Nat) (table : Table σ κ ν) : Prop where
  taken : ∀ entry ∈ table.overflow, table.slots (home entry.1) ≠ none
  room : table.overflow.length ≤ capacity

variable {home : κ → σ} {capacity : Nat} {table : Table σ κ ν}

theorem empty_sound : Sound home capacity (empty : Table σ κ ν) := ⟨by simp [empty], Nat.zero_le _⟩

variable [DecidableEq σ]

/-- The table after the insertion, and whether there was no room. -/
def insert (home : κ → σ) (capacity : Nat) (table : Table σ κ ν) (key : κ) (value : ν) : Table σ κ ν × Bool :=
  match table.slots (home key) with
  | none => (⟨Function.update table.slots (home key) (some (key, value)), table.overflow⟩, false)
  | some _ =>
    if table.overflow.length < capacity then (⟨table.slots, table.overflow ++ [(key, value)]⟩, false)
    else (table, true)

section Insert

variable {key : κ} (value : ν)

theorem insert_free (free : table.slots (home key) = none) :
    insert home capacity table key value =
      (⟨Function.update table.slots (home key) (some (key, value)), table.overflow⟩, false) := by
  rw [insert, free]

theorem insert_taken (taken : table.slots (home key) ≠ none) (room : table.overflow.length < capacity) :
    insert home capacity table key value = (⟨table.slots, table.overflow ++ [(key, value)]⟩, false) := by
  obtain ⟨entry, held⟩ := Option.ne_none_iff_exists'.mp taken
  rw [insert, held]
  exact if_pos room

theorem insert_full (taken : table.slots (home key) ≠ none) (full : capacity ≤ table.overflow.length) :
    insert home capacity table key value = (table, true) := by
  obtain ⟨entry, held⟩ := Option.ne_none_iff_exists'.mp taken
  rw [insert, held]
  exact if_neg (Nat.not_lt.mpr full)

variable {value}

theorem insert_refused (refused : (insert home capacity table key value).2 = true) :
    (insert home capacity table key value).1 = table := by
  by_cases free : table.slots (home key) = none
  · rw [insert_free value free] at refused
    cases refused
  · by_cases room : table.overflow.length < capacity
    · rw [insert_taken value free room] at refused
      cases refused
    · rw [insert_full value free (Nat.not_lt.mp room)]

theorem Sound.insert (sound : Sound home capacity table) :
    Sound home capacity (insert home capacity table key value).1 := by
  by_cases free : table.slots (home key) = none
  · rw [insert_free value free]
    refine ⟨?_, sound.room⟩
    intro entry member
    dsimp only at member ⊢
    by_cases same : home entry.1 = home key
    · rw [same, Function.update_self]
      exact Option.some_ne_none _
    · rw [Function.update_of_ne same]
      exact sound.taken entry member
  · by_cases room : table.overflow.length < capacity
    · rw [insert_taken value free room]
      constructor
      · intro entry member
        rcases List.mem_append.mp member with old | new
        · exact sound.taken entry old
        · rw [List.mem_singleton.mp new]
          exact free
      · rw [List.length_append, List.length_singleton]
        exact room
    · rw [insert_full value free (Nat.not_lt.mp room)]
      exact sound

end Insert

section Run

variable (home capacity table)

def insertAll (inserts : List (κ × ν)) : Table σ κ ν :=
  inserts.foldl (fun table entry => (insert home capacity table entry.1 entry.2).1) table

structure Stored (inserts : List (κ × ν)) (i : Nat) (key : κ) (value : ν) : Prop where
  inserted : inserts[i]? = some (key, value)
  room : (insert home capacity (insertAll home capacity table (inserts.take i)) key value).2 = false

variable {home capacity table}

theorem insertAll_append (inserts : List (κ × ν)) (entry : κ × ν) :
    insertAll home capacity table (inserts ++ [entry]) =
      (insert home capacity (insertAll home capacity table inserts) entry.1 entry.2).1 := by
  rw [insertAll, List.foldl_append]
  rfl

theorem insertAll_sound (sound : Sound home capacity table) (inserts : List (κ × ν)) :
    Sound home capacity (insertAll home capacity table inserts) := by
  induction inserts using List.reverseRecOn with
  | nil => exact sound
  | append_singleton inserts entry ih =>
    rw [insertAll_append]
    exact ih.insert

theorem Stored.inside {inserts : List (κ × ν)} {i : Nat} {key : κ} {value : ν}
    (stored : Stored home capacity table inserts i key value) : i < inserts.length :=
  (List.getElem?_eq_some_iff.mp stored.inserted).1

theorem stored_append {inserts : List (κ × ν)} {entry : κ × ν} {i : Nat} {key : κ} {value : ν} :
    Stored home capacity table (inserts ++ [entry]) i key value ↔
      Stored home capacity table inserts i key value ∨ i = inserts.length ∧ entry = (key, value) ∧
        (insert home capacity (insertAll home capacity table inserts) entry.1 entry.2).2 = false := by
  have last : (inserts ++ [entry]).take inserts.length = inserts := List.take_left
  constructor
  · intro stored
    have within := stored.inside
    obtain ⟨inserted, room⟩ := stored
    rw [List.length_append, List.length_singleton] at within
    by_cases before : i < inserts.length
    · rw [List.getElem?_append_left before] at inserted
      rw [List.take_append_of_le_length (Nat.le_of_lt before)] at room
      exact Or.inl ⟨inserted, room⟩
    · obtain rfl : i = inserts.length := by omega
      rw [List.getElem?_concat_length, Option.some.injEq] at inserted
      rw [last] at room
      rw [inserted]
      exact Or.inr ⟨rfl, rfl, room⟩
  · rintro (stored | ⟨rfl, rfl, room⟩)
    · refine ⟨?_, ?_⟩
      · rw [List.getElem?_append_left stored.inside, stored.inserted]
      · rw [List.take_append_of_le_length (Nat.le_of_lt stored.inside), stored.room]
    · refine ⟨List.getElem?_concat_length, ?_⟩
      rw [last]
      exact room

theorem Stored.unique {inserts : List (κ × ν)} {i j : Nat} {key : κ} {value other : ν}
    (left : Stored home capacity table inserts i key value) (right : Stored home capacity table inserts j key other)
    (leftFirst : ∀ n < i, ∀ value, ¬Stored home capacity table inserts n key value)
    (rightFirst : ∀ n < j, ∀ value, ¬Stored home capacity table inserts n key value) : value = other := by
  rcases Nat.lt_trichotomy i j with before | rfl | behind
  · exact absurd left (rightFirst i before value)
  · have same := left.inserted.symm.trans right.inserted
    rw [Option.some.injEq, Prod.mk.injEq] at same
    exact same.2
  · exact absurd right (leftFirst j behind other)

/-- How many of these slots are taken when their turn comes, if those in `seen` are taken before. -/
def crowded : List σ → List σ → Nat
  | _, [] => 0
  | seen, slot :: slots => (if slot ∈ seen then 1 else 0) + crowded (slot :: seen) slots

theorem insert_taken_iff {seen : List σ} (taken : ∀ slot, table.slots slot ≠ none ↔ slot ∈ seen)
    (key : κ) (value : ν) (slot : σ) :
    (insert home capacity table key value).1.slots slot ≠ none ↔ slot ∈ home key :: seen := by
  by_cases free : table.slots (home key) = none
  · rw [insert_free value free, List.mem_cons, ← taken]
    dsimp only
    by_cases same : slot = home key
    · simp [same]
    · simp [same]
  · have known := (taken (home key)).mp free
    have kept : (insert home capacity table key value).1.slots = table.slots := by
      by_cases room : table.overflow.length < capacity
      · rw [insert_taken value free room]
      · rw [insert_full value free (Nat.not_lt.mp room)]
    rw [kept, taken, List.mem_cons]
    constructor
    · exact Or.inr
    · rintro (rfl | member)
      · exact known
      · exact member

theorem insert_overflow {seen : List σ} (taken : ∀ slot, table.slots slot ≠ none ↔ slot ∈ seen) (key : κ) (value : ν)
    (room : table.overflow.length + (if home key ∈ seen then 1 else 0) ≤ capacity) :
    (insert home capacity table key value).2 = false ∧
      (insert home capacity table key value).1.overflow.length =
        table.overflow.length + (if home key ∈ seen then 1 else 0) := by
  by_cases known : home key ∈ seen
  · rw [if_pos known] at room ⊢
    rw [insert_taken value ((taken _).mpr known) room]
    exact ⟨rfl, List.length_append⟩
  · rw [if_neg known]
    have free : table.slots (home key) = none := by
      by_contra held
      exact known ((taken _).mp held)
    rw [insert_free value free]
    exact ⟨rfl, rfl⟩

theorem stored_of_crowded {seen : List σ} (taken : ∀ slot, table.slots slot ≠ none ↔ slot ∈ seen)
    {inserts : List (κ × ν)}
    (room : table.overflow.length + crowded seen (inserts.map fun entry => home entry.1) ≤ capacity) {i : Nat}
    {key : κ} {value : ν} (inserted : inserts[i]? = some (key, value)) :
    Stored home capacity table inserts i key value := by
  induction inserts generalizing table seen i with
  | nil => cases inserted
  | cons entry inserts ih =>
    rw [List.map_cons, crowded, ← Nat.add_assoc] at room
    obtain ⟨stored, size⟩ := insert_overflow taken entry.1 entry.2 (Nat.le_trans (Nat.le_add_right _ _) room)
    cases i with
    | zero =>
      obtain rfl : entry = (key, value) := Option.some.inj inserted
      exact ⟨rfl, stored⟩
    | succ i =>
      rw [← size] at room
      have later := ih (insert_taken_iff taken entry.1 entry.2) room inserted
      exact ⟨inserted, later.room⟩

end Run

section Lookup

variable [DecidableEq κ]

def lookup (home : κ → σ) (table : Table σ κ ν) (key : κ) : Option ν :=
  match table.slots (home key) with
  | none => table.overflow.lookup key
  | some entry => if entry.1 = key then some entry.2 else table.overflow.lookup key

variable {key : κ} {value : ν}

theorem lookup_insert_free (sound : Sound home capacity table) (free : table.slots (home key) = none) (other : κ) :
    lookup home (insert home capacity table key value).1 other =
      (lookup home table other).or (if other = key then some value else none) := by
  rw [insert_free value free]
  unfold lookup
  dsimp only
  by_cases same : other = key
  · have missing : table.overflow.lookup key = none := by
      rw [List.lookup_eq_none_iff]
      intro entry member
      by_contra held
      have taken := sound.taken entry member
      rw [bne_iff_ne, ne_eq, not_not] at held
      exact taken (held ▸ free)
    rw [same, Function.update_self, free, missing, if_pos rfl]
    simp
  · rw [if_neg same, Option.or_none]
    by_cases shared : home other = home key
    · rw [shared, Function.update_self, free]
      exact if_neg (Ne.symm same)
    · rw [Function.update_of_ne shared]

theorem lookup_insert_taken (taken : table.slots (home key) ≠ none) (room : table.overflow.length < capacity)
    (other : κ) :
    lookup home (insert home capacity table key value).1 other =
      (lookup home table other).or (if other = key then some value else none) := by
  have added : [(key, value)].lookup other = if other = key then some value else none := by
    by_cases same : other = key
    · rw [same, List.lookup_cons, beq_self_eq_true, if_pos rfl]
    · rw [List.lookup_cons, beq_false_of_ne same, if_neg same]
      rfl
  rw [insert_taken value taken room]
  unfold lookup
  dsimp only
  rw [List.lookup_append, added]
  cases table.slots (home other) with
  | none => rfl
  | some entry =>
    dsimp only
    split
    · rfl
    · rfl

theorem lookup_insert (sound : Sound home capacity table)
    (stored : (insert home capacity table key value).2 = false) (other : κ) :
    lookup home (insert home capacity table key value).1 other =
      (lookup home table other).or (if other = key then some value else none) := by
  by_cases free : table.slots (home key) = none
  · exact lookup_insert_free sound free other
  · apply lookup_insert_taken free
    by_contra full
    rw [insert_full value free (Nat.not_lt.mp full)] at stored
    cases stored

variable (home capacity)

theorem lookup_insertAll (inserts : List (κ × ν)) (key : κ) :
    (lookup home (insertAll home capacity empty inserts) key = none →
      ∀ i value, ¬Stored home capacity empty inserts i key value) ∧
    ∀ value, lookup home (insertAll home capacity empty inserts) key = some value →
      ∃ i, Stored home capacity empty inserts i key value ∧
        ∀ j < i, ∀ other, ¬Stored home capacity empty inserts j key other := by
  induction inserts using List.reverseRecOn with
  | nil =>
    constructor
    · intro _ i value stored
      exact absurd stored.inside (Nat.not_lt_zero i)
    · intro value found
      cases found
  | append_singleton inserts entry ih =>
    obtain ⟨missing, first⟩ := ih
    rw [insertAll_append]
    cases room : (insert home capacity (insertAll home capacity empty inserts) entry.1 entry.2).2 with
    | true =>
      rw [insert_refused room]
      simp only [stored_append, room, Bool.true_eq_false, and_false, or_false]
      exact ⟨missing, first⟩
    | false =>
      rw [lookup_insert (insertAll_sound empty_sound inserts) room]
      simp only [stored_append, room, and_true]
      cases held : lookup home (insertAll home capacity empty inserts) key with
      | some value =>
        refine ⟨fun none => (Option.some_ne_none _ none).elim, ?_⟩
        intro other found
        rw [Option.some_or] at found
        obtain ⟨i, stored, earliest⟩ := first other (held.trans found)
        refine ⟨i, Or.inl stored, ?_⟩
        rintro j earlier value (before | ⟨rfl, _⟩)
        · exact earliest j earlier value before
        · exact absurd stored.inside (Nat.not_lt.mpr (Nat.le_of_lt earlier))
      | none =>
        rw [Option.none_or]
        by_cases same : key = entry.1
        · rw [if_pos same]
          refine ⟨fun none => (Option.some_ne_none _ none).elim, ?_⟩
          intro value found
          rw [Option.some.injEq] at found
          refine ⟨inserts.length, Or.inr ⟨rfl, Prod.ext same.symm found⟩, ?_⟩
          rintro j earlier other (before | ⟨last, _⟩)
          · exact missing held j other before
          · exact absurd earlier (last ▸ Nat.lt_irrefl _)
        · rw [if_neg same]
          constructor
          · rintro _ i value (before | ⟨_, this⟩)
            · exact missing held i value before
            · exact same (congrArg Prod.fst this).symm
          · intro value found
            cases found

theorem lookup_eq_some_iff (inserts : List (κ × ν)) (key : κ) (value : ν) :
    lookup home (insertAll home capacity empty inserts) key = some value ↔
      ∃ i, Stored home capacity empty inserts i key value ∧
        ∀ j < i, ∀ other, ¬Stored home capacity empty inserts j key other := by
  obtain ⟨missing, first⟩ := lookup_insertAll home capacity inserts key
  refine ⟨first value, ?_⟩
  rintro ⟨i, stored, earliest⟩
  cases held : lookup home (insertAll home capacity empty inserts) key with
  | none => exact absurd stored (missing held i value)
  | some other =>
    obtain ⟨j, otherStored, otherEarliest⟩ := first other held
    rw [stored.unique otherStored earliest otherEarliest]

theorem lookup_isSome_iff (inserts : List (κ × ν)) (key : κ) :
    (lookup home (insertAll home capacity empty inserts) key).isSome = true ↔
      ∃ i value, Stored home capacity empty inserts i key value := by
  obtain ⟨missing, first⟩ := lookup_insertAll home capacity inserts key
  cases held : lookup home (insertAll home capacity empty inserts) key with
  | none =>
    simp only [Option.isSome_none, Bool.false_eq_true, false_iff]
    rintro ⟨i, value, stored⟩
    exact missing held i value stored
  | some value =>
    obtain ⟨i, stored, _⟩ := first value held
    simp only [Option.isSome_some, true_iff]
    exact ⟨i, value, stored⟩

end Lookup

end OverflowTable
