import Mathlib.Data.Finset.Card
import Mathlib.Data.List.Dedup

namespace FirstSeen

variable {κ : Type*} [DecidableEq κ]

def number (seen : List κ) (key : κ) : Nat := seen.idxOf key

def register (seen : List κ) (key : κ) : List κ := if key ∈ seen then seen else seen ++ [key]

def registerAll (seen keys : List κ) : List κ := keys.foldl register seen

/-- The number of different keys before the first occurrence of `key`. -/
def rank (keys : List κ) (key : κ) : Nat := (keys.takeWhile (· ≠ key)).toFinset.card

theorem number_lt {seen : List κ} {key : κ} (known : key ∈ seen) : number seen key < seen.length :=
  List.idxOf_lt_length_of_mem known

theorem getElem?_number {seen : List κ} {key : κ} (known : key ∈ seen) : seen[number seen key]? = some key := by
  rw [List.getElem?_eq_getElem (number_lt known)]
  exact congrArg some (List.getElem_idxOf _)

theorem number_append {seen : List κ} (more : List κ) {key : κ} (known : key ∈ seen) :
    number (seen ++ more) key = number seen key := List.idxOf_append_of_mem known

theorem number_last {seen : List κ} {key : κ} (new : key ∉ seen) : number (seen ++ [key]) key = seen.length := by
  rw [number, List.idxOf_append_of_notMem new, List.idxOf_cons_self, Nat.add_zero]

theorem mem_register {seen : List κ} {key other : κ} :
    other ∈ register seen key ↔ other ∈ seen ∨ other = key := by
  unfold register
  split
  · rename_i known
    constructor
    · exact Or.inl
    · rintro (old | rfl)
      · exact old
      · exact known
  · rw [List.mem_append, List.mem_singleton]

theorem register_known {seen : List κ} {key : κ} (known : key ∈ seen) : register seen key = seen := if_pos known

theorem register_new {seen : List κ} {key : κ} (new : key ∉ seen) : register seen key = seen ++ [key] := if_neg new

theorem nodup_register {seen : List κ} (key : κ) (nodup : seen.Nodup) : (register seen key).Nodup := by
  by_cases known : key ∈ seen
  · rwa [register_known known]
  · rw [register_new known, ← List.concat_eq_append]
    exact nodup.concat known

theorem register_extends (seen : List κ) (key : κ) : seen <+: register seen key := by
  by_cases known : key ∈ seen
  · rw [register_known known]
  · rw [register_new known]
    exact List.prefix_append seen [key]

theorem length_register_le (seen : List κ) (key : κ) : (register seen key).length ≤ seen.length + 1 := by
  unfold register
  split
  · exact Nat.le_succ _
  · rw [List.length_append, List.length_singleton]

theorem registerAll_append (seen keys more : List κ) :
    registerAll seen (keys ++ more) = registerAll (registerAll seen keys) more := List.foldl_append

theorem mem_registerAll {seen keys : List κ} {key : κ} : key ∈ registerAll seen keys ↔ key ∈ seen ∨ key ∈ keys := by
  induction keys generalizing seen with
  | nil => simp [registerAll]
  | cons head keys ih =>
    show key ∈ registerAll (register seen head) keys ↔ _
    rw [ih, mem_register, List.mem_cons, or_assoc]

theorem mem_registerAll_nil {keys : List κ} {key : κ} : key ∈ registerAll [] keys ↔ key ∈ keys := by
  simp [mem_registerAll]

theorem nodup_registerAll {seen : List κ} (keys : List κ) (nodup : seen.Nodup) : (registerAll seen keys).Nodup := by
  induction keys generalizing seen with
  | nil => exact nodup
  | cons key keys ih => exact ih (nodup_register key nodup)

theorem registerAll_extends (seen keys : List κ) : seen <+: registerAll seen keys := by
  induction keys generalizing seen with
  | nil => exact List.prefix_refl seen
  | cons key keys ih => exact (register_extends seen key).trans (ih (register seen key))

theorem length_registerAll (keys : List κ) : (registerAll [] keys).length = keys.toFinset.card := by
  rw [← List.toFinset_card_of_nodup (nodup_registerAll keys List.nodup_nil)]
  congr 1
  ext key
  rw [List.mem_toFinset, List.mem_toFinset, mem_registerAll_nil]

theorem number_registerAll {seen : List κ} (keys : List κ) {key : κ} (known : key ∈ seen) :
    number (registerAll seen keys) key = number seen key := by
  obtain ⟨more, grown⟩ := registerAll_extends seen keys
  rw [← grown, number_append more known]

theorem number_eq_rank {keys : List κ} {key : κ} (member : key ∈ keys) :
    number (registerAll [] keys) key = rank keys key := by
  obtain ⟨before, after, parts, first⟩ := List.eq_append_cons_of_mem member
  have earlier : keys.takeWhile (· ≠ key) = before := by
    rw [parts, List.takeWhile_append_of_pos fun other inside => by
      simpa using fun same : other = key => first (same ▸ inside)]
    simp
  -- the keys before the first occurrence are registered first and keep their numbers
  have new : key ∉ registerAll [] before := fun old => first (mem_registerAll_nil.mp old)
  rw [rank, earlier, ← length_registerAll, parts, List.append_cons, registerAll_append,
    number_registerAll after (mem_registerAll_nil.mpr (by simp)), registerAll_append]
  show number (register (registerAll [] before) key) key = _
  rw [register_new new, number_last new]

theorem number_take {keys : List κ} {key : κ} {i : Nat} (known : key ∈ keys.take i) :
    number (registerAll [] (keys.take i)) key = rank keys key := by
  have later := number_registerAll (keys.drop i) (mem_registerAll_nil.mpr known)
  rw [← registerAll_append, List.take_append_drop] at later
  rw [← later, number_eq_rank (List.mem_of_mem_take known)]

theorem rank_lt {keys : List κ} {key : κ} (member : key ∈ keys) : rank keys key < keys.length := by
  have inside := number_lt (mem_registerAll_nil.mpr member)
  rw [number_eq_rank member, length_registerAll] at inside
  exact Nat.lt_of_lt_of_le inside (List.toFinset_card_le keys)

end FirstSeen
