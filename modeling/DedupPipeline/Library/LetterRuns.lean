import DedupPipeline.Library.StringTable

namespace StringTable

variable {α : Type*} (table : List (List α)) (letter : α)

def withRuns (count : Nat) : List (List α) :=
  table ++ (List.range count).map fun i => List.replicate (i + 2) letter

theorem withRuns_zero : withRuns table letter 0 = table := List.append_nil table

theorem withRuns_succ (count : Nat) :
    withRuns table letter (count + 1) = withRuns table letter count ++ [List.replicate (count + 2) letter] := by
  rw [withRuns, List.range_succ, List.map_append, List.map_singleton, ← List.append_assoc, ← withRuns]

theorem length_withRuns (count : Nat) : (withRuns table letter count).length = table.length + count := by
  rw [withRuns, List.length_append, List.length_map, List.length_range]

variable {table letter}

theorem run_mem_withRuns (total : Total table) {size count : Nat} (short : size ≤ count) :
    List.replicate (size + 1) letter ∈ withRuns table letter count := by
  cases size with
  | zero => exact List.mem_append_left _ (total letter)
  | succ size => exact List.mem_append_right _ (List.mem_map.mpr ⟨size, List.mem_range.mpr short, rfl⟩)

theorem long_mem_withRuns (single : ∀ string ∈ table, string.length = 1) {string : List α} (long : 2 ≤ string.length)
    {count : Nat} (member : string ∈ withRuns table letter count) :
    ∃ i < count, string = List.replicate (i + 2) letter := by
  rcases List.mem_append.mp member with root | run
  · have one := single string root
    omega
  · obtain ⟨i, inside, rfl⟩ := List.mem_map.mp run
    exact ⟨i, List.mem_range.mp inside, rfl⟩

theorem run_not_mem_withRuns (single : ∀ string ∈ table, string.length = 1) (count : Nat) :
    List.replicate (count + 2) letter ∉ withRuns table letter count := by
  intro member
  obtain ⟨i, inside, same⟩ := long_mem_withRuns single (by rw [List.length_replicate]; omega) member
  have size := congrArg List.length same
  rw [List.length_replicate, List.length_replicate] at size
  omega

theorem other_not_mem_withRuns (single : ∀ string ∈ table, string.length = 1) {other : α} (different : other ≠ letter)
    (first : α) (count : Nat) : [first] ++ [other] ∉ withRuns table letter count := by
  intro member
  obtain ⟨i, _, same⟩ := long_mem_withRuns single (show 2 ≤ ([first] ++ [other]).length from Nat.le_refl 2) member
  have inside : other ∈ List.replicate (i + 2) letter := by
    rw [← same]
    exact List.mem_append_right _ List.mem_cons_self
  exact different (List.eq_of_mem_replicate inside)

section Encoder

variable [DecidableEq α] (capacity : Nat) (letter)

theorem encode_run (total : Total table) (size more : Nat) {count : Nat} (short : size + more ≤ count)
    (rest : List α) :
    encode capacity (withRuns table letter count) (List.replicate (size + 1) letter)
        (List.replicate more letter ++ rest) =
      encode capacity (withRuns table letter count) (List.replicate (size + more + 1) letter) rest := by
  induction more generalizing size with
  | zero => rfl
  | succ more ih =>
    have longer : List.replicate (size + 2) letter ∈ withRuns table letter count := run_mem_withRuns total (by omega)
    have next : List.replicate (more + 1) letter ++ rest = letter :: (List.replicate more letter ++ rest) := rfl
    rw [next, encode, ← List.replicate_succ', if_pos longer, ih (size + 1) (by omega), Nat.add_right_comm size 1 more,
      Nat.add_assoc size more 1]

theorem encode_grow (total : Total table) (single : ∀ string ∈ table, string.length = 1) {count : Nat}
    (room : table.length + count < capacity) (rest : List α) :
    encode capacity (withRuns table letter count) [letter] (List.replicate (count + 1) letter ++ rest) =
      (withRuns table letter count).idxOf (List.replicate (count + 1) letter) ::
        encode capacity (withRuns table letter (count + 1)) [letter] rest := by
  have longest : encode capacity (withRuns table letter count) [letter]
      (List.replicate count letter ++ letter :: rest) =
      encode capacity (withRuns table letter count) (List.replicate (count + 1) letter) (letter :: rest) := by
    have read := encode_run letter capacity total 0 count (Nat.le_of_eq (Nat.zero_add count)) (letter :: rest)
    rw [Nat.zero_add count] at read
    exact read
  rw [List.replicate_succ', List.append_assoc, List.singleton_append, longest, encode, ← List.replicate_succ',
    if_neg (run_not_mem_withRuns single count), add, length_withRuns, if_pos room, ← withRuns_succ,
    List.replicate_succ']

theorem encode_fill (total : Total table) (single : ∀ string ∈ table, string.length = 1) (count : Nat)
    (room : table.length + count ≤ capacity) :
    ∃ codes : List Nat, codes.length = count ∧ ∀ rest,
      encode capacity table [letter] (List.replicate (count * (count + 1) / 2) letter ++ rest) =
        codes ++ encode capacity (withRuns table letter count) [letter] rest := by
  induction count with
  | zero =>
    refine ⟨[], rfl, fun rest => ?_⟩
    rw [withRuns_zero]
    rfl
  | succ count ih =>
    obtain ⟨codes, size, filled⟩ := ih (by omega)
    have longer : (count + 1) * (count + 1 + 1) / 2 = count * (count + 1) / 2 + (count + 1) := by
      rw [← Nat.add_mul_div_right _ _ Nat.two_pos, Nat.mul_comm count, ← Nat.mul_add]
    refine ⟨codes ++ [(withRuns table letter count).idxOf (List.replicate (count + 1) letter)], ?_, fun rest => ?_⟩
    · rw [List.length_append, size, List.length_singleton]
    · rw [longer, List.replicate_add, List.append_assoc, filled, encode_grow letter capacity total single (by omega),
        List.append_assoc, List.singleton_append]

theorem encode_others (single : ∀ string ∈ table, string.length = 1) {other : α} (different : other ≠ letter)
    {count : Nat} (full : capacity ≤ table.length + count) (first : α) (ones : Nat) :
    encode capacity (withRuns table letter count) [first] (List.replicate ones other) =
      (withRuns table letter count).idxOf [first] ::
        List.replicate ones ((withRuns table letter count).idxOf [other]) := by
  induction ones generalizing first with
  | zero => rfl
  | succ ones ih =>
    rw [List.replicate_succ, encode, if_neg (other_not_mem_withRuns single different first count), add,
      length_withRuns, if_neg (Nat.not_lt.mpr full), ih other, List.replicate_succ]

theorem encode_crowded (total : Total table) (single : ∀ string ∈ table, string.length = 1) {other : α}
    (different : other ≠ letter) {count : Nat} (full : table.length + count = capacity) :
    ∃ codes : List Nat, codes.length = count + 1 ∧ ∀ ones,
      encode capacity table [letter] (List.replicate (count * (count + 1) / 2) letter ++ List.replicate ones other) =
        codes ++ List.replicate ones (table.idxOf [other]) := by
  obtain ⟨codes, size, filled⟩ := encode_fill letter capacity total single count (Nat.le_of_eq full)
  refine ⟨codes ++ [(withRuns table letter count).idxOf [letter]], ?_, fun ones => ?_⟩
  · rw [List.length_append, size, List.length_singleton]
  · have code : (withRuns table letter count).idxOf [other] = table.idxOf [other] :=
      List.idxOf_append_of_mem (total other)
    rw [filled, encode_others letter capacity single different (Nat.le_of_eq full.symm), code, List.append_assoc,
      List.singleton_append]

end Encoder

end StringTable
