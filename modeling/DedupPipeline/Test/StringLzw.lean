import DedupPipeline.Server.Lzw
import DedupPipeline.Server.LzwTable

namespace DedupModel

abbrev StringMap := List UInt8 → Option UInt16

def StringMap.assign (map : StringMap) (key : List UInt8) (code : UInt16) : StringMap :=
  Function.update map key (some code)

/-- `dictionary[key]` as a value: a missing key is inserted with the value 0. -/
def StringMap.subscript (map : StringMap) (key : List UInt8) : UInt16 × StringMap :=
  match map key with
  | some code => (code, map)
  | none => (0, map.assign key 0)

structure StringLzwState where
  dictionary : StringMap
  dictSize : Nat
  currentStr : List UInt8
  codeWords : List UInt16

def singleCharacters : StringMap :=
  (List.range 256).foldl (fun dictionary i => StringMap.assign dictionary [UInt8.ofNat i] (UInt16.ofNat i))
    fun _ => none

def growStrings (state : StringLzwState) (combinedStr : List UInt8) : StringLzwState :=
  if state.dictSize < maxDictSize then
    { state with
      dictionary := state.dictionary.assign combinedStr (UInt16.ofNat state.dictSize)
      dictSize := state.dictSize + 1 }
  else state

def stringLzwStep (state : StringLzwState) (nextChar : UInt8) : StringLzwState :=
  let combinedStr := state.currentStr ++ [nextChar]
  if (state.dictionary combinedStr).isSome then { state with currentStr := combinedStr }
  else
    let (code, dictionary) := state.dictionary.subscript state.currentStr
    { growStrings { state with dictionary := dictionary } combinedStr with
      codeWords := state.codeWords ++ [code]
      currentStr := [nextChar] }

def stringLzwStart (first : UInt8) : StringLzwState := ⟨singleCharacters, 256, [first], []⟩

/-- `lzw_encode` of `test.cpp`: what `compressed_data` holds afterwards. An empty input leaves it as
    it was. -/
def stringLzwEncode (inputData compressedData : List UInt8) : List UInt8 :=
  match inputData with
  | [] => compressedData
  | first :: input =>
    let state := input.foldl stringLzwStep (stringLzwStart first)
    packCodeWords (state.codeWords ++ [(state.dictionary.subscript state.currentStr).1])

end DedupModel

namespace DedupProof

open DedupModel StringTable

structure Maps (map : StringMap) (table : List (List UInt8)) : Prop where
  bound : table.length ≤ maxDictSize
  distinct : table.Nodup
  codes : ∀ key, map key = if key ∈ table then some (UInt16.ofNat (table.idxOf key)) else none

structure StringRefines (state : StringLzwState) (table : List (List UInt8)) (current : List UInt8) :
    Prop where
  maps : Maps state.dictionary table
  size : state.dictSize = table.length
  string : state.currentStr = current
  known : current ∈ table

theorem Maps.assign {map : StringMap} {table : List (List UInt8)} {key : List UInt8}
    (maps : Maps map table) (fresh : key ∉ table) (room : table.length < maxDictSize) :
    Maps (map.assign key (UInt16.ofNat table.length)) (table ++ [key]) := by
  refine ⟨?_, ?_, ?_⟩
  · rw [List.length_append, List.length_singleton]
    omega
  · rw [← List.concat_eq_append]
    exact maps.distinct.concat fresh
  · intro other
    by_cases same : other = key
    · subst same
      simp [StringMap.assign, List.idxOf_append_of_notMem fresh]
    · rw [StringMap.assign, Function.update_of_ne same, maps.codes]
      by_cases member : other ∈ table
      · simp [member, List.idxOf_append_of_mem member]
      · simp [member, same]

theorem Maps.subscript {map : StringMap} {table : List (List UInt8)} {key : List UInt8}
    (maps : Maps map table) (member : key ∈ table) :
    map.subscript key = (UInt16.ofNat (table.idxOf key), map) := by
  simp [StringMap.subscript, maps.codes, member]

theorem singleCharacters_maps : Maps singleCharacters byteStrings := by
  have counted : ∀ count ≤ 256, Maps
      ((List.range count).foldl (fun dictionary i =>
        StringMap.assign dictionary [UInt8.ofNat i] (UInt16.ofNat i)) fun _ => none)
      ((List.range count).map fun i => [UInt8.ofNat i]) := by
    intro count
    induction count with
    | zero => intro _; exact ⟨Nat.zero_le _, List.nodup_nil, by simp⟩
    | succ count ih =>
      intro within
      have fresh : [UInt8.ofNat count] ∉ (List.range count).map fun i => [UInt8.ofNat i] := by
        intro member
        obtain ⟨i, below, same⟩ := List.mem_map.mp member
        have number := congrArg UInt8.toNat (List.cons.inj same).1
        rw [List.mem_range] at below
        rw [UInt8.toNat_ofNat', UInt8.toNat_ofNat'] at number
        omega
      have grown := (ih (by omega)).assign fresh (by
        rw [List.length_map, List.length_range]
        exact Nat.lt_of_lt_of_le (Nat.lt_of_succ_le within) (by decide))
      rw [List.range_succ, List.foldl_append, List.map_append]
      rwa [List.length_map, List.length_range] at grown
  exact counted 256 (Nat.le_refl _)

theorem stringLzwStep_found {state : StringLzwState} {table : List (List UInt8)}
    {current : List UInt8} {next : UInt8} (refines : StringRefines state table current)
    (member : current ++ [next] ∈ table) :
    StringRefines (stringLzwStep state next) table (current ++ [next]) ∧
      (stringLzwStep state next).codeWords = state.codeWords := by
  have found : (state.dictionary (state.currentStr ++ [next])).isSome := by
    rw [refines.string, refines.maps.codes, if_pos member]
    rfl
  unfold stringLzwStep
  dsimp only
  rw [if_pos found]
  exact ⟨⟨refines.maps, refines.size, by rw [refines.string], member⟩, rfl⟩

theorem stringLzwStep_missed {state : StringLzwState} {table : List (List UInt8)}
    {current : List UInt8} {next : UInt8} (refines : StringRefines state table current)
    (total : Total table) (fresh : current ++ [next] ∉ table) :
    StringRefines (stringLzwStep state next) (add maxDictSize table (current ++ [next])) [next] ∧
      (stringLzwStep state next).codeWords =
        state.codeWords ++ [UInt16.ofNat (table.idxOf current)] := by
  have missed : ¬ (state.dictionary (state.currentStr ++ [next])).isSome := by
    rw [refines.string, refines.maps.codes, if_neg fresh]
    decide
  have code : state.dictionary.subscript state.currentStr =
      (UInt16.ofNat (table.idxOf current), state.dictionary) := by
    rw [refines.string]
    exact refines.maps.subscript refines.known
  unfold stringLzwStep
  dsimp only
  rw [if_neg missed, code, refines.string]
  refine ⟨?_, rfl⟩
  unfold growStrings add
  rw [refines.size]
  by_cases room : table.length < maxDictSize
  · rw [if_pos room, if_pos room]
    exact ⟨refines.maps.assign fresh room, by simp, rfl, List.mem_append_left _ (total next)⟩
  · rw [if_neg room, if_neg room]
    exact ⟨refines.maps, rfl, rfl, total next⟩

theorem foldl_stringLzwStep {state : StringLzwState} {table : List (List UInt8)}
    {current : List UInt8} (input : List UInt8) (total : Total table)
    (refines : StringRefines state table current) :
    (input.foldl stringLzwStep state).codeWords ++
      [((input.foldl stringLzwStep state).dictionary.subscript
        (input.foldl stringLzwStep state).currentStr).1] =
      state.codeWords ++ (encode maxDictSize table current input).map UInt16.ofNat := by
  induction input generalizing state table current with
  | nil =>
    rw [List.foldl_nil, refines.string, refines.maps.subscript refines.known, encode]
    rfl
  | cons next input ih =>
    rw [List.foldl_cons, encode]
    by_cases member : current ++ [next] ∈ table
    · obtain ⟨after, words⟩ := stringLzwStep_found refines member
      rw [if_pos member, ih total after, words]
    · obtain ⟨after, words⟩ := stringLzwStep_missed refines total member
      rw [if_neg member, ih (total.add _ _) after, words, List.append_assoc]
      rfl

theorem stringLzwStart_refines (first : UInt8) :
    StringRefines (stringLzwStart first) byteStrings [first] where
  maps := by
    simp only [stringLzwStart]
    exact singleCharacters_maps
  size := byteStrings_length.symm
  string := rfl
  known := byteStrings_total first

def stringCodeWords : List UInt8 → List UInt16
  | [] => []
  | first :: input =>
    let state := input.foldl stringLzwStep (stringLzwStart first)
    state.codeWords ++ [(state.dictionary.subscript state.currentStr).1]

def lzwPhrases : List UInt8 → List (List UInt8)
  | [] => []
  | first :: input => phrases maxDictSize byteStrings [first] input

theorem stringCodeWords_eq (inputData : List UInt8) :
    stringCodeWords inputData = (lzwCodes inputData).map UInt16.ofNat := by
  cases inputData with
  | nil => rfl
  | cons first input => exact foldl_stringLzwStep input byteStrings_total (stringLzwStart_refines first)

theorem lzwPhrases_length (inputData : List UInt8) : (lzwPhrases inputData).length = (lzwCodes inputData).length := by
  cases inputData with
  | nil => rfl
  | cons first input => exact phrases_length maxDictSize byteStrings [first] input

theorem stringLzwEncode_bytes {inputData : List UInt8} (nonempty : inputData ≠ [])
    (compressedData : List UInt8) : stringLzwEncode inputData compressedData = lzwBytes inputData := by
  cases inputData with
  | nil => exact absurd rfl nonempty
  | cons first input =>
    rw [lzwBytes, ← stringCodeWords_eq]
    rfl

theorem lzw_encode_eq_string_lzw (globals : LzwGlobals) (inputData compressedData : List UInt8)
    (lower : 1 ≤ inputData.length) (upper : inputData.length ≤ inputSize) :
    (lzwEncode globals inputData).1.compressedData = stringLzwEncode inputData compressedData ∧
      (lzwEncode globals inputData).1.compressedSize.toNat =
        (stringLzwEncode inputData compressedData).length := by
  have nonempty : inputData ≠ [] := List.length_pos_iff.mp lower
  rw [stringLzwEncode_bytes nonempty, lzwEncode_output globals nonempty]
  exact ⟨rfl, lzwBytes_size nonempty upper⟩

/-- A dictionary full of the pair searched for first is not looked at: the codes are 65, 66 and 256. -/
theorem lzw_encode_eq_string_lzw_stale :
    (lzwEncode ⟨fun _ => (65, 66), true⟩ [65, 66, 65, 66]).1.compressedData = [2, 8, 16, 130, 0] ∧
    (lzwEncode ⟨fun _ => (65, 66), true⟩ [65, 66, 65, 66]).1.compressedSize.toNat = 5 ∧
    stringLzwEncode [65, 66, 65, 66] [1, 2, 3] = [2, 8, 16, 130, 0] := by
  obtain ⟨data, size⟩ := lzw_encode_eq_string_lzw ⟨fun _ => (65, 66), true⟩ [65, 66, 65, 66] [1, 2, 3]
    (by decide) (by decide)
  have reference : stringLzwEncode [65, 66, 65, 66] [1, 2, 3] = [2, 8, 16, 130, 0] := by decide +kernel
  rw [reference] at data size
  exact ⟨data, size, reference⟩

end DedupProof
