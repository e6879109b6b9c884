import DedupPipeline.Library.StringTable

namespace StringTable

variable {α : Type*}

def mostLetters (roots capacity : Nat) : Nat → Nat
  | 0 => 0
  | count + 1 => mostLetters roots capacity count + min (count + 1) (capacity + 1 - roots)

theorem mostLetters_triangle {roots capacity count : Nat} (short : count ≤ capacity + 1 - roots) :
    mostLetters roots capacity count = count * (count + 1) / 2 := by
  induction count with
  | zero => rfl
  | succ count ih =>
    have longer : (count + 1) * (count + 1 + 1) / 2 = count * (count + 1) / 2 + (count + 1) := by
      rw [← Nat.add_mul_div_right _ _ Nat.two_pos, Nat.mul_comm count, ← Nat.mul_add]
    rw [mostLetters, ih (Nat.le_of_succ_le short), Nat.min_eq_left short, longer]

theorem mostLetters_full {roots capacity : Nat} (more : Nat) :
    mostLetters roots capacity (capacity + 1 - roots + more) =
      mostLetters roots capacity (capacity + 1 - roots) + more * (capacity + 1 - roots) := by
  induction more with
  | zero => simp
  | succ more ih =>
    rw [← Nat.add_assoc, mostLetters, ih, Nat.min_eq_right (by omega), Nat.succ_mul, Nat.add_assoc]

theorem mostLetters_mono {roots capacity left right : Nat} (le : left ≤ right) :
    mostLetters roots capacity left ≤ mostLetters roots capacity right := by
  induction le with
  | refl => exact Nat.le_refl _
  | step _ ih => exact Nat.le_trans ih (Nat.le_add_right _ _)

def Entries (roots : Nat) (table : List (List α)) : Prop :=
  ∀ i string, table[i]? = some string → 1 ≤ string.length ∧ string.length ≤ max 1 (i + 2 - roots)

theorem Entries.start {roots : List (List α)} (single : ∀ string ∈ roots, string.length = 1) :
    Entries roots.length roots := by
  intro i string found
  have one := single string (List.mem_of_getElem? found)
  omega

structure Expanded (roots capacity steps : Nat) (decoder : Decoder α) : Prop where
  entries : Entries roots decoder.table
  size : decoder.table.length = roots + steps
  least : steps + 1 ≤ decoder.output.length
  most : decoder.output.length ≤ mostLetters roots capacity (steps + 1)

theorem Entries.lookup {roots capacity steps : Nat} {decoder : Decoder α} (entries : Entries roots decoder.table)
    (size : decoder.table.length = roots + steps) {new : Nat} (valid : new < capacity) (below : roots ≤ capacity)
    {symbols : List α} (found : decoder.lookup new = some symbols) :
    1 ≤ symbols.length ∧ symbols.length ≤ min (steps + 2) (capacity + 1 - roots) := by
  unfold Decoder.lookup at found
  split at found
  · obtain ⟨previous, atOld, rfl⟩ := Option.map_eq_some_iff.mp found
    have inside := (List.getElem?_eq_some_iff.mp atOld).1
    have bounds := entries _ _ atOld
    rw [List.length_append, List.length_singleton]
    omega
  · have bounds := entries _ _ found
    omega

theorem Expanded.step [Inhabited α] {roots capacity steps : Nat} {decoder after : Decoder α}
    (expanded : Expanded roots capacity steps decoder) {new : Nat} (valid : new < capacity)
    (below : roots ≤ capacity) (made : decoder.step new = some after) :
    Expanded roots capacity (steps + 1) after := by
  obtain ⟨entries, size, least, most⟩ := expanded
  obtain ⟨symbols, found, made⟩ := Option.bind_eq_some_iff.mp made
  obtain ⟨previous, atOld, made⟩ := Option.bind_eq_some_iff.mp made
  obtain rfl := Option.some.inj made
  have inside := (List.getElem?_eq_some_iff.mp atOld).1
  have bounds := entries _ _ atOld
  have letters := entries.lookup size valid below found
  refine ⟨?_, ?_, ?_, ?_⟩
  · intro i string stored
    dsimp only at stored
    by_cases old : i < decoder.table.length
    · rw [List.getElem?_append_left old] at stored
      exact entries i string stored
    · rw [List.getElem?_append_right (Nat.not_lt.mp old), List.getElem?_singleton] at stored
      split at stored
      · obtain rfl := Option.some.inj stored
        rw [List.length_append, List.length_singleton]
        omega
      · cases stored
  · dsimp only
    rw [List.length_append, List.length_singleton, size, Nat.add_assoc]
  · dsimp only
    rw [List.length_append]
    omega
  · dsimp only
    rw [List.length_append, mostLetters]
    omega

theorem Expanded.run [Inhabited α] {roots capacity steps : Nat} {decoder after : Decoder α} {codes : List Nat}
    (expanded : Expanded roots capacity steps decoder) (valid : ∀ code ∈ codes, code < capacity)
    (below : roots ≤ capacity) (ran : codes.foldlM Decoder.step decoder = some after) :
    Expanded roots capacity (steps + codes.length) after := by
  induction codes generalizing decoder steps with
  | nil =>
    obtain rfl : decoder = after := Option.some.inj ran
    exact expanded
  | cons code codes ih =>
    obtain ⟨middle, made, later⟩ := Option.bind_eq_some_iff.mp ran
    obtain ⟨first, others⟩ := List.forall_mem_cons.mp valid
    rw [List.length_cons, Nat.add_comm codes.length, ← Nat.add_assoc]
    exact ih (expanded.step first below made) others later

theorem Expanded.start {roots : List (List α)} {capacity : Nat} (single : ∀ string ∈ roots, string.length = 1)
    (below : roots.length ≤ capacity) (code : Nat) (letter : α) :
    Expanded roots.length capacity 0 ⟨roots, code, letter, [letter]⟩ := by
  refine ⟨Entries.start single, rfl, Nat.le_refl 1, ?_⟩
  rw [mostLetters, mostLetters, List.length_singleton]
  omega

section Longest

variable (roots : List (List α)) (capacity : Nat) (letter : α)

def runTable (steps : Nat) : List (List α) :=
  roots ++ (List.range steps).map fun i => List.replicate (min (i + 1) (capacity + 1 - roots.length) + 1) letter

def runCode (code steps : Nat) : Nat := if steps = 0 then code else min (roots.length + steps - 1) (capacity - 1)

def runCodes (steps : Nat) : List Nat := (List.range steps).map fun i => runCode roots capacity 0 (i + 1)

variable {roots capacity letter}

theorem length_runTable (steps : Nat) : (runTable roots capacity letter steps).length = roots.length + steps := by
  rw [runTable, List.length_append, List.length_map, List.length_range]

theorem getElem?_runTable {steps i : Nat} (inside : i < steps) :
    (runTable roots capacity letter steps)[roots.length + i]? =
      some (List.replicate (min (i + 1) (capacity + 1 - roots.length) + 1) letter) := by
  rw [runTable, List.getElem?_append_right (Nat.le_add_right _ _), Nat.add_sub_cancel_left, List.getElem?_map,
    List.getElem?_range inside, Option.map_some]

theorem runTable_old {code : Nat} (atCode : roots[code]? = some [letter]) (below : roots.length < capacity)
    (steps : Nat) :
    (runTable roots capacity letter steps)[runCode roots capacity code steps]? =
      some (List.replicate (min (steps + 1) (capacity + 1 - roots.length)) letter) := by
  cases steps with
  | zero =>
    rw [runCode, if_pos rfl, runTable, List.range_zero, List.map_nil, List.append_nil, atCode, Nat.zero_add,
      Nat.min_eq_left (by omega)]
    rfl
  | succ steps =>
    obtain ⟨i, place⟩ : ∃ i, min (roots.length + (steps + 1) - 1) (capacity - 1) = roots.length + i :=
      ⟨_, (Nat.add_sub_cancel' (by omega)).symm⟩
    rw [runCode, if_neg (Nat.succ_ne_zero _), place, getElem?_runTable (by omega)]
    congr 2
    omega

theorem runTable_step [Inhabited α] {code : Nat} (atCode : roots[code]? = some [letter])
    (below : roots.length < capacity) (steps : Nat) :
    Decoder.step ⟨runTable roots capacity letter steps, runCode roots capacity code steps, letter,
        List.replicate (mostLetters roots.length capacity (steps + 1)) letter⟩
        (runCode roots capacity code (steps + 1)) =
      some ⟨runTable roots capacity letter (steps + 1), runCode roots capacity code (steps + 1), letter,
        List.replicate (mostLetters roots.length capacity (steps + 2)) letter⟩ := by
  have atOld := runTable_old atCode below steps
  have found : Decoder.lookup ⟨runTable roots capacity letter steps, runCode roots capacity code steps, letter,
      List.replicate (mostLetters roots.length capacity (steps + 1)) letter⟩
      (runCode roots capacity code (steps + 1)) =
      some (List.replicate (min (steps + 2) (capacity + 1 - roots.length)) letter) := by
    unfold Decoder.lookup
    dsimp only
    rw [length_runTable, atOld, runCode, if_neg (Nat.succ_ne_zero _)]
    split
    · rename_i next
      rw [Option.map_some, ← List.replicate_succ']
      congr 2
      omega
    · rename_i full
      obtain ⟨i, place⟩ : ∃ i, min (roots.length + (steps + 1) - 1) (capacity - 1) = roots.length + i :=
        ⟨_, (Nat.add_sub_cancel' (by omega)).symm⟩
      rw [place, getElem?_runTable (by omega)]
      congr 2
      omega
  have head : (List.replicate (min (steps + 2) (capacity + 1 - roots.length)) letter).headD default = letter := by
    obtain ⟨more, positive⟩ : ∃ more, min (steps + 2) (capacity + 1 - roots.length) = more + 1 :=
      ⟨_, (Nat.sub_add_cancel (by omega)).symm⟩
    rw [positive]
    rfl
  simp only [Decoder.step, found, atOld, head, Option.bind_eq_bind, Option.bind_some, Option.pure_def]
  rw [← List.replicate_succ', ← List.replicate_add, runTable, runTable, List.range_succ, List.map_append,
    List.map_singleton, List.append_assoc]
  rfl

theorem foldlM_runCodes [Inhabited α] {code : Nat} (atCode : roots[code]? = some [letter])
    (below : roots.length < capacity) (steps : Nat) :
    (runCodes roots capacity steps).foldlM Decoder.step ⟨roots, code, letter, [letter]⟩ =
      some ⟨runTable roots capacity letter steps, runCode roots capacity code steps, letter,
        List.replicate (mostLetters roots.length capacity (steps + 1)) letter⟩ := by
  induction steps with
  | zero =>
    have one : mostLetters roots.length capacity (0 + 1) = 1 := by
      rw [mostLetters, mostLetters]
      omega
    rw [one, runTable, List.range_zero, List.map_nil, List.append_nil]
    rfl
  | succ steps ih =>
    have next : runCode roots capacity 0 (steps + 1) = runCode roots capacity code (steps + 1) := by
      rw [runCode, runCode, if_neg (Nat.succ_ne_zero _), if_neg (Nat.succ_ne_zero _)]
    rw [runCodes, List.range_succ, List.map_append, List.foldlM_append, ← runCodes, ih, List.map_singleton, next]
    show Option.bind (Decoder.step _ _) _ = _
    rw [runTable_step atCode below steps]
    rfl

end Longest

end StringTable
