import Mathlib.Data.List.GetD

namespace Memory

variable {α : Type*}

abbrev Store (α : Type*) := Nat → α

def read (memory : Store α) (start count : Nat) : List α := (List.range count).map fun i => memory (start + i)

def write (memory : Store α) (start : Nat) (block : List α) : Store α := fun address =>
  if start ≤ address then block.getD (address - start) (memory address) else memory address

@[simp] theorem length_read (memory : Store α) (start count : Nat) : (read memory start count).length = count := by
  rw [read, List.length_map, List.length_range]

theorem getElem_read (memory : Store α) {start count i : Nat} (inside : i < (read memory start count).length) :
    (read memory start count)[i] = memory (start + i) := by
  simp only [read, List.getElem_map, List.getElem_range]

theorem read_congr {left right : Store α} {start count : Nat}
    (same : ∀ i < count, left (start + i) = right (start + i)) : read left start count = read right start count :=
  List.map_congr_left fun i inside => same i (List.mem_range.mp inside)

theorem read_add (memory : Store α) (start left right : Nat) :
    read memory start (left + right) = read memory start left ++ read memory (start + left) right := by
  rw [read, List.range_add, List.map_append, List.map_map]
  congr 1
  apply List.map_congr_left
  intro i _
  rw [Function.comp_apply, Nat.add_assoc]

theorem write_at (memory : Store α) (start : Nat) (block : List α) {i : Nat} (inside : i < block.length) :
    write memory start block (start + i) = block[i] := by
  rw [write, if_pos (Nat.le_add_right start i), Nat.add_sub_cancel_left, List.getD_eq_getElem _ _ inside]

theorem write_before (memory : Store α) {start address : Nat} (block : List α) (before : address < start) :
    write memory start block address = memory address := by
  rw [write, if_neg (Nat.not_le.mpr before)]

theorem write_behind (memory : Store α) {start address : Nat} (block : List α)
    (behind : start + block.length ≤ address) : write memory start block address = memory address := by
  rw [write, if_pos (by omega), List.getD_eq_default _ _ (by omega)]

theorem read_write (memory : Store α) (start : Nat) (block : List α) :
    read (write memory start block) start block.length = block := by
  apply List.ext_getElem (length_read _ _ _)
  intro i _ inside
  rw [getElem_read, write_at memory start block inside]

theorem read_write_inside (memory : Store α) (place : Nat) {start count : Nat} {block : List α}
    (inside : start + count ≤ block.length) :
    read (write memory place block) (place + start) count = (block.drop start).take count := by
  have size : ((block.drop start).take count).length = count := by
    rw [List.length_take, List.length_drop]
    omega
  apply List.ext_getElem
  · rw [length_read, size]
  · intro i _ within
    rw [size] at within
    rw [getElem_read, Nat.add_assoc, write_at memory place block (by omega), List.getElem_take, List.getElem_drop]

theorem read_write_before (memory : Store α) {start count place : Nat} (block : List α)
    (before : start + count ≤ place) : read (write memory place block) start count = read memory start count :=
  read_congr fun i inside => write_before memory block (by omega)

theorem read_write_behind (memory : Store α) {start count place : Nat} (block : List α)
    (behind : place + block.length ≤ start) : read (write memory place block) start count = read memory start count :=
  read_congr fun i _ => write_behind memory block (by omega)

theorem read_write_append (memory : Store α) (start count : Nat) (block : List α) :
    read (write memory (start + count) block) start (count + block.length) = read memory start count ++ block := by
  rw [read_add, read_write_before memory block (Nat.le_refl _), read_write]

end Memory
