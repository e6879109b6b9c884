import Mathlib.Data.List.Basic

namespace StringTable

variable {α : Type*}

def add (capacity : Nat) (table : List (List α)) (string : List α) : List (List α) :=
  if table.length < capacity then table ++ [string] else table

theorem add_take (capacity : Nat) (table : List (List α)) (string : List α) :
    add capacity (table.take capacity) string = (table ++ [string]).take capacity := by
  unfold add
  by_cases room : table.length < capacity
  · have short : table.length ≤ capacity := Nat.le_of_lt room
    rw [List.take_of_length_le short, if_pos room, List.take_of_length_le (by simp; omega)]
  · have full : capacity ≤ table.length := by omega
    rw [List.length_take, Nat.min_eq_left full, if_neg (Nat.lt_irrefl _),
      List.take_append_of_le_length full]

theorem subset_add (capacity : Nat) (table : List (List α)) (string : List α) :
    table ⊆ add capacity table string := by
  unfold add
  split <;> simp

theorem length_add_le {capacity : Nat} {table : List (List α)} (string : List α)
    (bound : table.length ≤ capacity) : (add capacity table string).length ≤ capacity := by
  unfold add
  split
  · rw [List.length_append, List.length_singleton]
    omega
  · exact bound

def Total (table : List (List α)) : Prop := ∀ letter : α, [letter] ∈ table

theorem Total.add {table : List (List α)} (total : Total table) (capacity : Nat) (string : List α) :
    Total (add capacity table string) :=
  fun letter => subset_add capacity table string (total letter)

def PrefixClosed (table : List (List α)) : Prop :=
  ∀ string letter, string ≠ [] → string ++ [letter] ∈ table → string ∈ table

theorem PrefixClosed.append {table : List (List α)} (closed : PrefixClosed table) {current : List α}
    (known : current ∈ table) (next : α) : PrefixClosed (table ++ [current ++ [next]]) := by
  intro string letter nonempty member
  rcases List.mem_append.mp member with old | new
  · exact List.mem_append_left _ (closed string letter nonempty old)
  · obtain ⟨rfl, _⟩ := List.append_inj' (List.mem_singleton.mp new) rfl
    exact List.mem_append_left _ known

/-- The string being matched ends what has been read, and the longer entries occur in it. -/
structure Occurs (table : List (List α)) (current read : List α) : Prop where
  matched : current <:+ read
  entries : ∀ string ∈ table, 2 ≤ string.length → string <:+: read

theorem Occurs.extend {table : List (List α)} {current read : List α} (occurs : Occurs table current read)
    (next : α) : Occurs table (current ++ [next]) (read ++ [next]) := by
  obtain ⟨earlier, rfl⟩ := occurs.matched
  refine ⟨⟨earlier, (List.append_assoc _ _ _).symm⟩, ?_⟩
  intro string member long
  exact (occurs.entries string member long).trans (List.prefix_append _ _).isInfix

theorem Occurs.restart {table : List (List α)} {current read : List α} (occurs : Occurs table current read)
    (capacity : Nat) (next : α) : Occurs (add capacity table (current ++ [next])) [next] (read ++ [next]) := by
  have extended := occurs.extend next
  refine ⟨List.suffix_append _ _, ?_⟩
  unfold add
  split
  · intro string member long
    rcases List.mem_append.mp member with old | new
    · exact extended.entries string old long
    · rw [List.mem_singleton.mp new]
      exact extended.matched.isInfix
  · exact extended.entries

structure Decoder (α : Type*) where
  table : List (List α)
  old : Nat
  symbol : α
  output : List α

/-- The decoder learns an entry one code later than the encoder, so a code past the end of its
    table is taken for the entry it is about to add. -/
def Decoder.lookup (decoder : Decoder α) (new : Nat) : Option (List α) :=
  if decoder.table.length ≤ new then decoder.table[decoder.old]?.map (· ++ [decoder.symbol])
  else decoder.table[new]?

def Decoder.step [Inhabited α] (decoder : Decoder α) (new : Nat) : Option (Decoder α) := do
  let symbols ← decoder.lookup new
  let previous ← decoder.table[decoder.old]?
  let symbol := symbols.headD default
  return {
    table := decoder.table ++ [previous ++ [symbol]]
    old := new
    symbol := symbol
    output := decoder.output ++ symbols }

structure Follows (capacity : Nat) (table : List (List α)) (current : List α)
    (decoder : Decoder α) : Prop where
  lag : ∃ previous letter, decoder.table[decoder.old]? = some previous ∧
    previous.head? = some decoder.symbol ∧ current.head? = some letter ∧
    table = (decoder.table ++ [previous ++ [letter]]).take capacity
  total : Total table
  known : current ∈ table

theorem Follows.extend {capacity : Nat} {table : List (List α)} {current : List α}
    {decoder : Decoder α} {next : α} (follows : Follows capacity table current decoder)
    (found : current ++ [next] ∈ table) : Follows capacity table (current ++ [next]) decoder := by
  obtain ⟨previous, letter, atOld, first, head, lagging⟩ := follows.lag
  refine ⟨⟨previous, letter, atOld, first, ?_, lagging⟩, follows.total, found⟩
  rw [List.head?_append, head, Option.some_or]

theorem Follows.restart {capacity : Nat} {table : List (List α)} {current : List α}
    {after : Decoder α} {letter : α} (next : α) (total : Total table)
    (atOld : after.table[after.old]? = some current) (head : current.head? = some letter)
    (symbol : after.symbol = letter) (caught : table = after.table.take capacity) :
    Follows capacity (StringTable.add capacity table (current ++ [next])) [next] after := by
  refine ⟨⟨current, next, atOld, ?_, rfl, ?_⟩, total.add _ _, total.add _ _ next⟩
  · rw [head, symbol]
  · rw [caught, add_take]

section Encoder

variable [DecidableEq α]

def encode (capacity : Nat) : List (List α) → List α → List α → List Nat
  | table, current, [] => [table.idxOf current]
  | table, current, next :: input =>
    if current ++ [next] ∈ table then encode capacity table (current ++ [next]) input
    else table.idxOf current :: encode capacity (add capacity table (current ++ [next])) [next] input

theorem getElem_idxOf {table : List (List α)} {string : List α} (member : string ∈ table) :
    table[table.idxOf string]? = some string := by
  rw [List.getElem?_eq_getElem (List.idxOf_lt_length_of_mem member), List.getElem_idxOf]

theorem encode_length (capacity : Nat) (table : List (List α)) (current input : List α) :
    1 ≤ (encode capacity table current input).length ∧
      (encode capacity table current input).length ≤ input.length + 1 := by
  induction input generalizing table current with
  | nil => simp [encode]
  | cons next input ih =>
    simp only [encode]
    split
    · have rest := ih table (current ++ [next])
      simp only [List.length_cons]
      omega
    · have rest := ih (add capacity table (current ++ [next])) [next]
      simp only [List.length_cons]
      omega

theorem encode_lt {capacity : Nat} {table : List (List α)} {current : List α} (input : List α)
    (total : Total table) (known : current ∈ table) (bound : table.length ≤ capacity) :
    ∀ code ∈ encode capacity table current input, code < capacity := by
  induction input generalizing table current with
  | nil =>
    intro code member
    rw [encode, List.mem_singleton] at member
    have := List.idxOf_lt_length_of_mem known
    omega
  | cons next input ih =>
    simp only [encode]
    split
    · rename_i found
      exact ih total found bound
    · intro code member
      rcases List.mem_cons.mp member with rfl | member
      · have := List.idxOf_lt_length_of_mem known
        omega
      · exact ih (total.add _ _) (total.add _ _ next) (length_add_le _ bound) code member

def phrases (capacity : Nat) : List (List α) → List α → List α → List (List α)
  | _, current, [] => [current]
  | table, current, next :: input =>
    if current ++ [next] ∈ table then phrases capacity table (current ++ [next]) input
    else current :: phrases capacity (add capacity table (current ++ [next])) [next] input

theorem phrases_length (capacity : Nat) (table : List (List α)) (current input : List α) :
    (phrases capacity table current input).length = (encode capacity table current input).length := by
  induction input generalizing table current with
  | nil => rfl
  | cons next input ih =>
    rw [phrases, encode]
    split
    · exact ih _ _
    · rw [List.length_cons, List.length_cons, ih]

theorem phrases_head (capacity : Nat) (table : List (List α)) (current input : List α) :
    ∃ first rest, phrases capacity table current input = first :: rest ∧ current <+: first := by
  induction input generalizing table current with
  | nil => exact ⟨current, [], rfl, List.prefix_refl _⟩
  | cons next input ih =>
    rw [phrases]
    split
    · obtain ⟨first, rest, found, begins⟩ := ih table (current ++ [next])
      exact ⟨first, rest, found, (List.prefix_append _ _).trans begins⟩
    · exact ⟨current, _, rfl, List.prefix_refl _⟩

theorem encode_head (capacity : Nat) {table : List (List α)} {current : List α} (input : List α)
    (known : current ∈ table) :
    ∃ code rest string, encode capacity table current input = code :: rest ∧ table[code]? = some string ∧
      current <+: string := by
  induction input generalizing current with
  | nil => exact ⟨_, [], current, rfl, getElem_idxOf known, List.prefix_refl _⟩
  | cons next input ih =>
    rw [encode]
    split
    · rename_i found
      obtain ⟨code, rest, string, codes, atCode, begins⟩ := ih found
      exact ⟨code, rest, string, codes, atCode, (List.prefix_append _ _).trans begins⟩
    · exact ⟨_, _, current, rfl, getElem_idxOf known, List.prefix_refl _⟩

variable [Inhabited α]

theorem Follows.step {capacity : Nat} {table : List (List α)} {current : List α}
    {decoder : Decoder α} (follows : Follows capacity table current decoder) :
    ∃ letter after, current.head? = some letter ∧ decoder.step (table.idxOf current) = some after ∧
      after.output = decoder.output ++ current ∧ after.table[after.old]? = some current ∧
      after.symbol = letter ∧ table = after.table.take capacity := by
  obtain ⟨previous, letter, atOld, first, head, lagging⟩ := follows.lag
  have atCode := getElem_idxOf follows.known
  have inside : table.idxOf current < table.length := List.idxOf_lt_length_of_mem follows.known
  generalize table.idxOf current = code at atCode inside
  rw [lagging, List.length_take, List.length_append, List.length_singleton] at inside
  have stored : (decoder.table ++ [previous ++ [letter]])[code]? = some current := by
    rw [lagging, List.getElem?_take_of_lt (by omega)] at atCode
    exact atCode
  have read : decoder.lookup code = some current := by
    unfold Decoder.lookup
    by_cases missing : decoder.table.length ≤ code
    -- `current` is the missing entry, so its first letter is both that of `previous` and its own last one
    · have last : code = decoder.table.length := by omega
      rw [last, List.getElem?_concat_length, Option.some.injEq] at stored
      rw [← stored, List.head?_append, first, Option.some_or] at head
      rw [if_pos missing, atOld, Option.map_some, ← stored, Option.some.inj head]
    · rw [if_neg missing, ← stored, List.getElem?_append_left (by omega)]
  have symbol : current.headD default = letter := by
    rw [List.headD_eq_head?_getD, head, Option.getD_some]
  refine ⟨letter, ⟨decoder.table ++ [previous ++ [letter]], code, letter, decoder.output ++ current⟩,
    head, ?_, rfl, stored, rfl, lagging⟩
  simp only [Decoder.step, atOld, read, symbol, Option.bind_eq_bind, Option.bind_some, Option.pure_def]

/-- A decoder that is one entry behind reads back exactly what is still to be encoded. -/
theorem decode_encode {capacity : Nat} {table : List (List α)} {current : List α}
    {decoder : Decoder α} (input : List α) (follows : Follows capacity table current decoder) :
    ∃ after, (encode capacity table current input).foldlM Decoder.step decoder = some after ∧
      after.output = decoder.output ++ (current ++ input) := by
  induction input generalizing table current decoder with
  | nil =>
    obtain ⟨letter, after, _, stepped, output, _⟩ := follows.step
    exact ⟨after, by simp [encode, stepped], by rw [output, List.append_nil]⟩
  | cons next input ih =>
    by_cases found : current ++ [next] ∈ table
    · obtain ⟨after, ran, output⟩ := ih (follows.extend found)
      refine ⟨after, by rw [encode, if_pos found, ran], ?_⟩
      rw [output, List.append_assoc current, List.singleton_append]
    · obtain ⟨letter, middle, head, stepped, output, atOld, symbol, caught⟩ := follows.step
      obtain ⟨after, ran, rest⟩ := ih (Follows.restart next follows.total atOld head symbol caught)
      refine ⟨after, ?_, ?_⟩
      · rw [encode, if_neg found, List.foldlM_cons, stepped]
        exact ran
      · rw [rest, output, List.append_assoc, List.singleton_append]

theorem decode_encode_start (capacity : Nat) {table : List (List α)} (first : α) (input : List α)
    (total : Total table) (single : ∀ string ∈ table, string.length = 1)
    (bound : table.length ≤ capacity) :
    ∃ codes after, encode capacity table [first] input = table.idxOf [first] :: codes ∧
      codes.foldlM Decoder.step ⟨table, table.idxOf [first], first, [first]⟩ = some after ∧
      after.output = first :: input := by
  cases input with
  | nil => exact ⟨[], _, rfl, rfl, rfl⟩
  | cons next input =>
    -- the second letter always starts an entry, so from there on the decoder is one behind
    have miss : [first] ++ [next] ∉ table := by
      intro member
      have := single _ member
      simp at this
    have follows : Follows capacity (add capacity table ([first] ++ [next])) [next]
        ⟨table, table.idxOf [first], first, [first]⟩ :=
      Follows.restart next total (getElem_idxOf (total first)) rfl rfl (List.take_of_length_le bound).symm
    obtain ⟨after, ran, output⟩ := decode_encode input follows
    exact ⟨_, after, by rw [encode, if_neg miss], ran, output⟩

end Encoder

end StringTable
