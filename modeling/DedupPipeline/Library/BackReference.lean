import DedupPipeline.Library.FirstSeen

namespace BackReference

open FirstSeen

variable {α κ : Type*} [DecidableEq κ]

inductive Record (α : Type*) where
  | fresh (item : α)
  | reference (index : Nat)

def record (key : α → κ) (seen : List κ) (item : α) : Record α :=
  if key item ∈ seen then .reference (number seen (key item)) else .fresh item

def records (key : α → κ) : List κ → List α → List (Record α)
  | _, [] => []
  | seen, item :: items => record key seen item :: records key (register seen (key item)) items

def replayStep (store : List α) : Record α → Option (List α × α)
  | .fresh item => some (store ++ [item], item)
  | .reference index => store[index]?.map fun item => (store, item)

def replay : List α → List (Record α) → Option (List α × List α)
  | store, [] => some (store, [])
  | store, first :: rest => do
    let (store, item) ← replayStep store first
    let (store, items) ← replay store rest
    return (store, item :: items)

variable {key : α → κ} {seen : List κ}

theorem record_fresh {item : α} (new : key item ∉ seen) : record key seen item = .fresh item := if_neg new

theorem record_reference {item : α} (known : key item ∈ seen) :
    record key seen item = .reference (number seen (key item)) := if_pos known

theorem length_records (items : List α) : (records key seen items).length = items.length := by
  induction items generalizing seen with
  | nil => rfl
  | cons item items ih => rw [records, List.length_cons, List.length_cons, ih]

theorem records_append (items more : List α) :
    records key seen (items ++ more) =
      records key seen items ++ records key (registerAll seen (items.map key)) more := by
  induction items generalizing seen with
  | nil => rfl
  | cons item items ih =>
    rw [List.cons_append, records, ih, records, List.cons_append]
    rfl

theorem getElem?_records (items : List α) (i : Nat) :
    (records key seen items)[i]? =
      items[i]?.map (record key (registerAll seen ((items.take i).map key))) := by
  induction items generalizing seen i with
  | nil => rfl
  | cons item items ih =>
    cases i with
    | zero => rfl
    | succ i => exact ih i

theorem take_records (items : List α) (count : Nat) :
    (records key seen items).take count = records key seen (items.take count) := by
  induction items generalizing seen count with
  | nil => rw [List.take_nil, records, List.take_nil]
  | cons item items ih =>
    cases count with
    | zero => rfl
    | succ count => rw [records, List.take_succ_cons, List.take_succ_cons, records, ih]

theorem records_known (items : List α) (known : ∀ item ∈ items, key item ∈ seen) :
    records key seen items = items.map fun item => .reference (number seen (key item)) := by
  induction items with
  | nil => rfl
  | cons item items ih =>
    obtain ⟨first, others⟩ := List.forall_mem_cons.mp known
    rw [records, record_reference first, register_known first, List.map_cons, ih others]

theorem replayStep_record {store : List α} (mirror : store.map key = seen) (item : α) :
    ∃ after delivered, replayStep store (record key seen item) = some (after, delivered) ∧
      after.map key = register seen (key item) ∧ key delivered = key item ∧
      (delivered = item ∨ delivered ∈ store) ∧ (∀ kept ∈ after, kept = item ∨ kept ∈ store) := by
  by_cases known : key item ∈ seen
  · have inside : number seen (key item) < store.length := by
      rw [← store.length_map key, mirror]
      exact number_lt known
    have found : key store[number seen (key item)] = key item := by
      have mapped : (store.map key)[number seen (key item)]? = store[number seen (key item)]?.map key :=
        List.getElem?_map
      rw [mirror, List.getElem?_eq_getElem inside, getElem?_number known] at mapped
      exact (Option.some.inj mapped).symm
    refine ⟨store, store[number seen (key item)], ?_, ?_, found, Or.inr (List.getElem_mem inside), fun _ => Or.inr⟩
    · rw [record_reference known, replayStep, List.getElem?_eq_getElem inside]
      rfl
    · rw [register_known known, mirror]
  · refine ⟨store ++ [item], item, ?_, ?_, rfl, Or.inl rfl, ?_⟩
    · rw [record_fresh known]
      rfl
    · rw [register_new known, List.map_append, mirror]
      rfl
    · intro kept member
      rcases List.mem_append.mp member with old | new
      · exact Or.inr old
      · exact Or.inl (List.mem_singleton.mp new)

theorem replay_records {store : List α} (mirror : store.map key = seen) (items : List α) :
    ∃ after delivered, replay store (records key seen items) = some (after, delivered) ∧
      after.map key = registerAll seen (items.map key) ∧ delivered.map key = items.map key ∧
      ∀ item ∈ delivered, item ∈ items ∨ item ∈ store := by
  induction items generalizing seen store with
  | nil => exact ⟨store, [], rfl, mirror, rfl, by simp⟩
  | cons item items ih =>
    obtain ⟨next, first, step, nextMirror, same, origin, kept⟩ := replayStep_record mirror item
    obtain ⟨after, rest, run, mirrored, keys, origins⟩ := ih nextMirror
    refine ⟨after, first :: rest, ?_, mirrored, ?_, ?_⟩
    · rw [records, replay, step]
      simp [run]
    · rw [List.map_cons, List.map_cons, same, keys]
    · intro other member
      rcases List.mem_cons.mp member with rfl | later
      · rcases origin with rfl | old
        · exact Or.inl List.mem_cons_self
        · exact Or.inr old
      · rcases origins other later with new | old
        · exact Or.inl (List.mem_cons_of_mem _ new)
        · rcases kept other old with rfl | old
          · exact Or.inl List.mem_cons_self
          · exact Or.inr old

theorem replay_records_exact (items : List α)
    (separate : ∀ left ∈ items, ∀ right ∈ items, key left = key right → left = right) :
    ∃ after, replay [] (records key [] items) = some (after, items) := by
  have mirror : List.map key [] = [] := rfl
  obtain ⟨after, delivered, run, mirrored, keys, origins⟩ := replay_records mirror items
  have delivers : delivered = items := by
    have length := congrArg List.length keys
    rw [List.length_map, List.length_map] at length
    apply List.ext_getElem length
    intro i inside bound
    have same := List.getElem_of_eq keys (by simpa using inside)
    rw [List.getElem_map, List.getElem_map] at same
    rcases origins _ (List.getElem_mem inside) with member | none
    · exact separate _ member _ (List.getElem_mem bound) same
    · cases none
  exact ⟨after, delivers ▸ run⟩

def firstWith (key : α → κ) (items : List α) (item : α) : α :=
  (items.find? fun other => key other = key item).getD item

theorem firstWith_key (items : List α) (item : α) : key (firstWith key items item) = key item := by
  unfold firstWith
  cases found : items.find? fun other => key other = key item with
  | none => rfl
  | some other => simpa using List.find?_some found

theorem firstWith_mem {items : List α} {item : α} (member : item ∈ items) : firstWith key items item ∈ items := by
  unfold firstWith
  cases found : items.find? fun other => key other = key item with
  | none => exact member
  | some other => exact List.mem_of_find?_eq_some found

theorem firstWith_congr {items : List α} {left right : α} (same : key left = key right) (member : right ∈ items) :
    firstWith key items left = firstWith key items right := by
  have found : (items.find? fun other => key other = key right).isSome :=
    List.find?_isSome.mpr ⟨right, member, by simp⟩
  obtain ⟨other, first⟩ := Option.isSome_iff_exists.mp found
  rw [firstWith, firstWith, same, first, Option.getD_some, Option.getD_some]

theorem firstWith_self_iff {items : List α} :
    (∀ item ∈ items, firstWith key items item = item) ↔
      ∀ left ∈ items, ∀ right ∈ items, key left = key right → left = right := by
  constructor
  · intro same left inLeft right inRight keys
    rw [← same left inLeft, ← same right inRight, firstWith_congr keys inRight]
  · intro separate item member
    exact separate _ (firstWith_mem member) item member (firstWith_key items item)

theorem firstWith_append_mem {store : List α} (more : List α) {item : α} (known : key item ∈ store.map key) :
    firstWith key (store ++ more) item = firstWith key store item := by
  obtain ⟨other, member, same⟩ := List.mem_map.mp known
  have found : (store.find? fun other => key other = key item).isSome :=
    List.find?_isSome.mpr ⟨other, member, by simpa using same⟩
  rw [firstWith, List.find?_append, Option.or_of_isSome found, firstWith]

theorem firstWith_append_new {store : List α} (more : List α) {item : α} (new : key item ∉ store.map key) :
    firstWith key (store ++ item :: more) item = item := by
  have absent : (store.find? fun other => key other = key item) = none := by
    rw [List.find?_eq_none]
    intro other member same
    exact new (List.mem_map.mpr ⟨other, member, by simpa using same⟩)
  rw [firstWith, List.find?_append, absent, Option.none_or, List.find?_cons_of_pos (by simp), Option.getD_some]

theorem firstWith_skip {store : List α} (more : List α) {item : α} (known : key item ∈ store.map key) (other : α) :
    firstWith key (store ++ item :: more) other = firstWith key (store ++ more) other := by
  by_cases old : key other ∈ store.map key
  · rw [firstWith_append_mem _ old, firstWith_append_mem _ old]
  · have differ : ¬key item = key other := fun same => old (same ▸ known)
    rw [firstWith, firstWith, List.find?_append, List.find?_append, List.find?_cons_of_neg (by simpa using differ)]

theorem getElem?_number_map {store : List α} {item : α} (known : key item ∈ store.map key) :
    store[number (store.map key) (key item)]? = some (firstWith key store item) := by
  induction store with
  | nil => cases known
  | cons first store ih =>
    by_cases same : key first = key item
    · rw [firstWith, List.find?_cons_of_pos (by simpa using same), List.map_cons, number, same, List.idxOf_cons_self]
      rfl
    · have later : key item ∈ store.map key := (List.mem_cons.mp known).resolve_left (Ne.symm same)
      have skipped : firstWith key (first :: store) item = firstWith key store item := by
        rw [firstWith, List.find?_cons_of_neg (by simpa using same), firstWith]
      rw [skipped, List.map_cons, number, List.idxOf_cons_ne _ same, List.getElem?_cons_succ]
      exact ih later

/-- What a reader delivers for an item is the first item with its key, collisions of keys or not. -/
theorem replay_records_first (store items : List α) :
    ∃ after, replay store (records key (store.map key) items) =
      some (after, items.map (firstWith key (store ++ items))) := by
  induction items generalizing store with
  | nil => exact ⟨store, rfl⟩
  | cons item items ih =>
    by_cases known : key item ∈ store.map key
    · obtain ⟨after, run⟩ := ih store
      refine ⟨after, ?_⟩
      have others : items.map (firstWith key (store ++ item :: items)) =
          items.map (firstWith key (store ++ items)) :=
        List.map_congr_left fun other _ => firstWith_skip items known other
      rw [records, record_reference known, register_known known, replay, replayStep, getElem?_number_map known,
        List.map_cons, others, firstWith_append_mem _ known]
      simp [run]
    · obtain ⟨after, run⟩ := ih (store ++ [item])
      rw [List.map_append, List.map_singleton, List.append_assoc, List.singleton_append] at run
      refine ⟨after, ?_⟩
      rw [records, record_fresh known, register_new known, replay, replayStep, List.map_cons,
        firstWith_append_new _ known]
      simp [run]

end BackReference
