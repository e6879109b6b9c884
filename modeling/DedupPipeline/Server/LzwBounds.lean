import DedupPipeline.Server.LzwHw

namespace DedupProof

open DedupModel BitString

structure Counted (steps : Nat) (state : LzwState) : Prop where
  lower : 256 ≤ state.dictSize
  upper : state.dictSize ≤ maxDictSize
  current : state.currentCode.toNat < state.dictSize
  codeWords : state.codeWords.length ≤ steps
  entries : state.dictSize ≤ 256 + state.codeWords.length
  stored : ∀ codeWord ∈ state.codeWords, codeWord.toNat < state.dictSize

theorem lzwStart_counted (dictionary : Dictionary) (first : UInt8) : Counted 0 (lzwStart dictionary first) where
  lower := Nat.le_refl 256
  upper := show 256 ≤ maxDictSize by decide
  current := by
    rw [lzwStart, UInt8.toNat_toUInt16]
    exact first.toNat_lt
  codeWords := Nat.le_refl 0
  entries := Nat.le_refl 256
  stored := by simp [lzwStart]

structure BoundedStep (state next : LzwState) : Prop where
  code : state.currentCode.toNat < state.dictSize
  size : next.dictSize ≤ maxDictSize
  codeWords : next.codeWords = state.codeWords ∨
    next.codeWords = state.codeWords ++ [state.currentCode] ∧ state.codeWords.length < inputSize
  dictionary : next.dictionary = state.dictionary ∨
    state.dictSize < maxDictSize ∧
      ∃ entry, next.dictionary = Function.update state.dictionary state.dictSize entry

theorem search_inside {dictionary : Dictionary} {dictSize : Nat} {currentCode : UInt16} {nextChar : UInt8} {j : Nat}
    (found : searchDictionary dictionary dictSize currentCode nextChar = some j) :
    256 ≤ j ∧ j < 256 + (dictSize - 256) := by
  obtain ⟨steps, inside, rfl⟩ := List.mem_range'.mp (List.mem_of_find?_eq_some found)
  omega

theorem growDictionary_cases (state : LzwState) (nextChar : UInt8) :
    state.dictSize < maxDictSize ∧ (growDictionary state nextChar).dictSize = state.dictSize + 1 ∧
        (∃ entry, (growDictionary state nextChar).dictionary =
          Function.update state.dictionary state.dictSize entry) ∨
      growDictionary state nextChar = state := by
  unfold growDictionary
  split
  · rename_i room
    exact Or.inl ⟨room, rfl, _, rfl⟩
  · exact Or.inr rfl

theorem lzwStep_counted {steps : Nat} {state : LzwState} (counted : Counted steps state)
    (room : steps < inputSize) (nextChar : UInt8) :
    Counted (steps + 1) (lzwStep state nextChar) ∧ BoundedStep state (lzwStep state nextChar) := by
  obtain ⟨lower, upper, current, few, entries, stored⟩ := counted
  have bound : state.dictSize ≤ 8192 := upper
  cases found : searchDictionary state.dictionary state.dictSize state.currentCode nextChar with
  | some j =>
    have inside := search_inside found
    have code : (UInt16.ofNat j).toNat = j := by
      rw [UInt16.toNat_ofNat']
      omega
    rw [lzwStep_match found]
    constructor
    · refine ⟨lower, upper, ?_, Nat.le_succ_of_le few, entries, stored⟩
      rw [code]
      exact inside.2.trans_eq (Nat.add_sub_cancel' lower)
    · exact ⟨current, upper, Or.inl rfl, Or.inl rfl⟩
  | none =>
    have byte := nextChar.toNat_lt
    have grown : state.dictSize ≤ (growDictionary state nextChar).dictSize ∧
        (growDictionary state nextChar).dictSize ≤ maxDictSize ∧
        (growDictionary state nextChar).dictSize ≤ 256 + (state.codeWords.length + 1) := by
      rcases growDictionary_cases state nextChar with ⟨space, size, _⟩ | same
      · omega
      · rw [same]
        omega
    rw [lzwStep_miss found]
    constructor
    · refine ⟨Nat.le_trans lower grown.1, grown.2.1, ?_, ?_, ?_, ?_⟩
      · rw [UInt8.toNat_toUInt16]
        exact Nat.lt_of_lt_of_le byte (Nat.le_trans lower grown.1)
      · rw [List.length_append, List.length_singleton]
        exact Nat.succ_le_succ few
      · rw [List.length_append, List.length_singleton]
        exact grown.2.2
      · intro codeWord member
        rcases List.mem_append.mp member with old | new
        · exact Nat.lt_of_lt_of_le (stored codeWord old) grown.1
        · rw [List.mem_singleton.mp new]
          exact Nat.lt_of_lt_of_le current grown.1
    · refine ⟨current, grown.2.1, Or.inr ⟨rfl, Nat.lt_of_le_of_lt few room⟩, ?_⟩
      rcases growDictionary_cases state nextChar with ⟨space, _, entry⟩ | same
      · exact Or.inr ⟨space, entry⟩
      · have kept := congrArg LzwState.dictionary same
        exact Or.inl kept

def lzwAt (step : LzwState → UInt8 → LzwState) (dictionary : Dictionary) (first : UInt8) (input : List UInt8)
    (steps : Nat) : LzwState :=
  (input.take steps).foldl step (lzwStart dictionary first)

theorem lzwAt_succ {step : LzwState → UInt8 → LzwState} {dictionary : Dictionary} {first : UInt8}
    {input : List UInt8} {steps : Nat} (inside : steps < input.length) :
    lzwAt step dictionary first input (steps + 1) = step (lzwAt step dictionary first input steps) input[steps] := by
  rw [lzwAt, List.take_succ_eq_append_getElem inside, List.foldl_append]
  rfl

theorem lzwAt_counted (dictionary : Dictionary) (first : UInt8) {input : List UInt8}
    (admissible : input.length < inputSize) {steps : Nat} (inside : steps ≤ input.length) :
    Counted steps (lzwAt lzwStep dictionary first input steps) := by
  induction steps with
  | zero => exact lzwStart_counted dictionary first
  | succ steps ih =>
    rw [lzwAt_succ inside]
    exact (lzwStep_counted (ih (by omega)) (by omega) _).1

def emittedWords (step : LzwState → UInt8 → LzwState) (dictionary : Dictionary) (first : UInt8)
    (input : List UInt8) : List UInt16 :=
  let final := input.foldl step (lzwStart dictionary first)
  final.codeWords ++ [final.currentCode]

theorem emittedWords_eq (step : LzwState → UInt8 → LzwState) (dictionary : Dictionary) (first : UInt8)
    (input : List UInt8) :
    emittedWords step dictionary first input =
      (lzwAt step dictionary first input input.length).codeWords ++
        [(lzwAt step dictionary first input input.length).currentCode] := by
  rw [lzwAt, List.take_length]
  rfl

theorem masked_codeWord {codeWord : UInt16} (valid : codeWord.toNat < maxDictSize) :
    codeWord &&& codeMask = codeWord := by
  have kept := code_masked valid
  rw [UInt16.toNat_toUInt32] at kept
  exact UInt16.toNat_inj.mp kept

/-- The writer inside the packing loop: `i` code words are packed, the next one is shifted in and some bytes of it
    have been taken out. -/
def writerAt (codeWords : List UInt16) (i : Nat) (codeWord : UInt16) (rounds : Nat) : BitWriter :=
  extractBytes rounds (loadCode ((codeWords.take i).foldl packCode ⟨0, 0, []⟩) codeWord)

theorem writerAt_bounded {codeWords : List UInt16} (valid : ∀ codeWord ∈ codeWords, codeWord.toNat < maxDictSize)
    (few : codeWords.length ≤ inputSize) {i : Nat} {codeWord : UInt16} (found : codeWords[i]? = some codeWord)
    (rounds : Nat) :
    (writerAt codeWords i codeWord rounds).bitCount ≤ 20 ∧
      writtenBits (writerAt codeWords i codeWord rounds) =
        (codeWords.take (i + 1)).flatMap (fun codeWord => bits codeLength codeWord.toNat) ∧
      (writerAt codeWords i codeWord rounds).compressedData.length ≤ 13312 := by
  obtain ⟨packed, room⟩ := foldl_packCode (codeWords.take i) ⟨0, 0, []⟩ (by decide)
    fun other member => valid other (List.mem_of_mem_take member)
  have loaded := loadCode_written _ room (valid codeWord (List.mem_of_getElem? found))
  have count : (loadCode ((codeWords.take i).foldl packCode ⟨0, 0, []⟩) codeWord).bitCount ≤ 20 := by
    show _ + 13 ≤ 20
    omega
  obtain ⟨written, fewer⟩ := extractBytes_written rounds _ (Nat.lt_of_le_of_lt count (by decide))
  have string : writtenBits (writerAt codeWords i codeWord rounds) =
      (codeWords.take (i + 1)).flatMap (fun codeWord => bits codeLength codeWord.toNat) := by
    rw [writerAt, written, loaded, packed, List.take_add_one, found, List.flatMap_append]
    simp [writtenBits]
  refine ⟨Nat.le_trans fewer count, string, ?_⟩
  have size := congrArg List.length string
  rw [writtenBits, List.length_append, length_ofBytes, length_bits, ← List.flatMap_map, length_flatMap_bits,
    List.length_map, List.length_take] at size
  have length : codeLength = 13 := rfl
  have most : codeWords.length ≤ 8192 := few
  rw [length] at size
  omega

/-- Every write of the main loop, of the last code word and of the packing loop is inside its array. -/
structure StaysInBounds (step : LzwState → UInt8 → LzwState) (dictionary : Dictionary) (first : UInt8)
    (input : List UInt8) : Prop where
  steps : ∀ n < input.length,
    BoundedStep (lzwAt step dictionary first input n) (lzwAt step dictionary first input (n + 1))
  last : (lzwAt step dictionary first input input.length).codeWords.length < inputSize ∧
    (lzwAt step dictionary first input input.length).currentCode.toNat <
      (lzwAt step dictionary first input input.length).dictSize
  codes : ∀ codeWord ∈ emittedWords step dictionary first input,
    codeWord.toNat < maxDictSize ∧ codeWord &&& codeMask = codeWord
  count : 1 ≤ (emittedWords step dictionary first input).length ∧
    (emittedWords step dictionary first input).length ≤ (first :: input).length
  packing : ∀ i codeWord rounds, (emittedWords step dictionary first input)[i]? = some codeWord →
    (writerAt (emittedWords step dictionary first input) i codeWord rounds).bitCount ≤ 20 ∧
    writtenBits (writerAt (emittedWords step dictionary first input) i codeWord rounds) =
      ((emittedWords step dictionary first input).take (i + 1)).flatMap
        (fun codeWord => bits codeLength codeWord.toNat) ∧
    (writerAt (emittedWords step dictionary first input) i codeWord rounds).compressedData.length ≤ 13312

theorem lzwStep_staysInBounds (dictionary : Dictionary) (first : UInt8) {input : List UInt8}
    (admissible : input.length < inputSize) : StaysInBounds lzwStep dictionary first input := by
  have final := lzwAt_counted dictionary first admissible (Nat.le_refl _)
  have words := emittedWords_eq lzwStep dictionary first input
  have valid : ∀ codeWord ∈ emittedWords lzwStep dictionary first input, codeWord.toNat < maxDictSize := by
    intro codeWord member
    rw [words] at member
    rcases List.mem_append.mp member with stored | last
    · exact Nat.lt_of_lt_of_le (final.stored codeWord stored) final.upper
    · rw [List.mem_singleton.mp last]
      exact Nat.lt_of_lt_of_le final.current final.upper
  have count : (emittedWords lzwStep dictionary first input).length ≤ (first :: input).length := by
    rw [words, List.length_append, List.length_singleton, List.length_cons]
    exact Nat.succ_le_succ final.codeWords
  refine ⟨?_, ?_, ?_, ?_, ?_⟩
  · intro n inside
    rw [lzwAt_succ inside]
    exact (lzwStep_counted (lzwAt_counted dictionary first admissible (by omega)) (by omega) _).2
  · exact ⟨Nat.lt_of_le_of_lt final.codeWords admissible, final.current⟩
  · exact fun codeWord member => ⟨valid codeWord member, masked_codeWord (valid codeWord member)⟩
  · refine ⟨?_, count⟩
    rw [words, List.length_append, List.length_singleton]
    omega
  · intro i codeWord rounds found
    exact writerAt_bounded valid (Nat.le_trans count admissible) found rounds

structure PackedSize (k : Nat) (compressedSize : UInt32) : Prop where
  bytes : compressedSize.toNat = (13 * k + 7) / 8
  range : 2 ≤ compressedSize.toNat ∧ compressedSize.toNat ≤ 13312
  nonzero : compressedSize ≠ 0
  fits : compressedSize.toNat ≤ outputSize

theorem lzwBytes_packedSize (dictionary : Dictionary) {first : UInt8} {input : List UInt8}
    (admissible : input.length < inputSize) :
    PackedSize (emittedWords lzwStep dictionary first input).length
      (UInt32.ofNat (lzwBytes (first :: input)).length) := by
  have codes := congrArg List.length (emitted_lzwCodes dictionary first input)
  rw [List.length_map] at codes
  obtain ⟨lower, upper⟩ := lzwCodes_length (List.cons_ne_nil first input)
  have bound : input.length < 8192 := admissible
  have size := lzwBytes_size (List.cons_ne_nil first input) admissible
  rw [lzwBytes_length] at size
  rw [List.length_cons] at upper
  have count : (emittedWords lzwStep dictionary first input).length = (lzwCodes (first :: input)).length := codes
  rw [count, lzwBytes_length]
  refine ⟨size, by omega, ?_, ?_⟩
  · intro zero
    rw [zero] at size
    change 0 = _ at size
    omega
  · rw [size]
    show _ ≤ 40960
    omega

/-- Neither encoder leaves its arrays, on any input of 1 to `INPUT_SIZE` bytes and whatever the dictionary holds
    from earlier calls. -/
theorem lzw_encode_in_bounds (globals : LzwGlobals) (first : UInt8) (input : List UInt8)
    (admissible : (first :: input).length ≤ inputSize) :
    (StaysInBounds lzwStep (initializeDictionary globals).dictionary first input ∧
      PackedSize (emittedWords lzwStep (initializeDictionary globals).dictionary first input).length
        (lzwEncode globals (first :: input)).1.compressedSize) ∧
    ∀ inputData inputSize compressedData, Memory.read inputData 0 (UInt16.toNat inputSize) = first :: input →
      StaysInBounds lzwStepHw (hwInitializeDictionary globals).dictionary first input ∧
      PackedSize (emittedWords lzwStepHw (hwInitializeDictionary globals).dictionary first input).length
        (lzwEncodeHw globals inputData inputSize compressedData).compressedSizeBuf := by
  have output := congrArg LzwOutput.compressedSize (lzwEncode_output globals (List.cons_ne_nil first input))
  rw [output, lzwStepHw_eq]
  refine ⟨⟨lzwStep_staysInBounds _ first admissible, lzwBytes_packedSize _ admissible⟩, ?_⟩
  intro inputData inputSize compressedData read
  rw [(lzwEncodeHw_output globals compressedData read (List.cons_ne_nil first input)).2]
  exact ⟨lzwStep_staysInBounds _ first admissible, lzwBytes_packedSize _ admissible⟩

theorem lzw_encode_in_bounds_three :
    (lzwEncode initialGlobals [65, 66, 65]).1.compressedSize.toNat = 5 ∧
      StaysInBounds lzwStep (initializeDictionary initialGlobals).dictionary 65 [66, 65] := by
  obtain ⟨⟨bounds, size⟩, _⟩ := lzw_encode_in_bounds initialGlobals 65 [66, 65] (by decide)
  have count : (emittedWords lzwStep (initializeDictionary initialGlobals).dictionary 65 [66, 65]).length = 3 := by
    decide +kernel
  rw [count] at size
  exact ⟨size.bytes, bounds⟩

end DedupProof
