import DedupPipeline.Decoder.Decompress

namespace DedupModel

/-- The static `Byte` and `Input_position`; the first keeps its value from one stream to the next. -/
structure StringReader where
  byte : UInt8
  inputPosition : Nat

def stringReadBits (inputData : List UInt8) : Nat → Nat → StringReader → Int × StringReader
  | 0, code, reader => (code, reader)
  | length + 1, code, reader =>
    if reader.inputPosition % 8 = 0 ∧ inputData.length ≤ reader.inputPosition / 8 then (-1, reader)
    else
      let byte :=
        if reader.inputPosition % 8 = 0 then inputData.getD (reader.inputPosition / 8) 0 else reader.byte
      let bit := (byte.toNat >>> (7 - reader.inputPosition % 8)) &&& 1
      stringReadBits inputData length ((code <<< 1) ||| bit) ⟨byte, reader.inputPosition + 1⟩

def stringReadCode (inputData : List UInt8) (reader : StringReader) : Int × StringReader :=
  stringReadBits inputData codeLength 0 reader

/-- The table's size is compared as an `int`. -/
def stringSelectSymbols (state : Decompression) (new : Nat) : Option (List UInt8) :=
  if (state.codeTable.length : Int).bmod (2 ^ 32) ≤ new then state.codeTable[state.old]?.map (· ++ [state.symbol])
  else state.codeTable[new]?

def stringDecompressCode (state : Decompression) (new : Nat) : Option Decompression := do
  let symbols ← stringSelectSymbols state new
  let symbol := symbols.headD 0
  let previous ← state.codeTable[state.old]?
  return {
    codeTable := state.codeTable ++ [previous ++ [symbol]]
    old := new
    symbol := symbol
    output := state.output ++ symbols }

/-- `while (true)`. Every round but the last reads more than a byte, so the rounds never run out when there are as
    many as bytes. -/
def stringDecompressLoop (inputData : List UInt8) : Nat → StringReader → Decompression →
    Option (Decompression × StringReader)
  | 0, _, _ => none
  | rounds + 1, reader, state =>
    let (new, reader) := stringReadCode inputData reader
    if new = -1 then some (state, reader)
    else do
      let state ← stringDecompressCode state new.toNat
      stringDecompressLoop inputData rounds reader state

/-- As in `Decompress` of the decoder, `none` stands for an access outside `Code_table`. -/
def stringDecompress (inputData : List UInt8) (reader : StringReader) : Option (List UInt8 × StringReader) :=
  let (old, reader) := stringReadCode inputData { reader with inputPosition := 0 }
  -- Handle EOF or error
  if old = -1 then some ([], reader)
  else do
    let symbol := UInt8.ofNat old.toNat
    let (state, reader) ←
      stringDecompressLoop inputData inputData.length reader ⟨initialCodeTable, old.toNat, symbol, [symbol]⟩
    return (state.output, reader)

end DedupModel

namespace DedupProof

open DedupModel BitString

def stringReadCodes (inputData : List UInt8) : Nat → StringReader → List Int × StringReader
  | 0, reader => ([], reader)
  | rounds + 1, reader =>
    let (code, reader) := stringReadCode inputData reader
    if code = -1 then ([-1], reader)
    else
      let (codes, reader) := stringReadCodes inputData rounds reader
      (code :: codes, reader)

def toReader (inputData : List UInt8) (reader : StringReader) : Reader :=
  ⟨reader.byte, InputStream.opened (inputData.drop ((reader.inputPosition + 7) / 8)), reader.inputPosition⟩

theorem readBit_toReader {inputData : List UInt8} {reader : StringReader} (code : Nat)
    (inside : reader.inputPosition < 8 * inputData.length) :
    readBit (code, toReader inputData reader) =
      let byte :=
        if reader.inputPosition % 8 = 0 then inputData.getD (reader.inputPosition / 8) 0 else reader.byte
      ((code <<< 1) ||| ((byte.toNat >>> (7 - reader.inputPosition % 8)) &&& 1),
        toReader inputData ⟨byte, reader.inputPosition + 1⟩) := by
  by_cases boundary : reader.inputPosition % 8 = 0
  · have within : reader.inputPosition / 8 < inputData.length := by omega
    have here : (reader.inputPosition + 7) / 8 = reader.inputPosition / 8 := by omega
    have next : (reader.inputPosition + 1 + 7) / 8 = reader.inputPosition / 8 + 1 := by omega
    have fetched : (InputStream.opened (inputData.drop (reader.inputPosition / 8))).get =
        (inputData.getD (reader.inputPosition / 8) 0,
          InputStream.opened (inputData.drop (reader.inputPosition / 8 + 1))) := by
      rw [List.drop_eq_getElem_cons within, List.getD_eq_getElem _ _ within]
      rfl
    simp only [readBit, toReader, if_pos boundary, here, next, fetched]
  · have same : (reader.inputPosition + 1 + 7) / 8 = (reader.inputPosition + 7) / 8 := by omega
    simp only [readBit, toReader, boundary, if_false, same]

theorem stringReadBits_inside {inputData : List UInt8} (length code : Nat) {reader : StringReader}
    (inside : reader.inputPosition + length ≤ 8 * inputData.length) :
    ∃ after, stringReadBits inputData length code reader =
        (((readBit^[length] (code, toReader inputData reader)).1 : Int), after) ∧
      toReader inputData after = (readBit^[length] (code, toReader inputData reader)).2 := by
  induction length generalizing code reader with
  | zero => exact ⟨reader, rfl, rfl⟩
  | succ length ih =>
    have more : ¬(reader.inputPosition % 8 = 0 ∧ inputData.length ≤ reader.inputPosition / 8) := by omega
    rw [stringReadBits, if_neg more, Function.iterate_succ_apply, readBit_toReader code (by omega)]
    exact ih _ (by dsimp only; omega)

theorem stringReadBits_end {inputData : List UInt8} (length code : Nat) {reader : StringReader}
    (inside : reader.inputPosition ≤ 8 * inputData.length)
    (short : 8 * inputData.length < reader.inputPosition + length) :
    (stringReadBits inputData length code reader).1 = -1 := by
  induction length generalizing code reader with
  | zero => omega
  | succ length ih =>
    rw [stringReadBits]
    split
    · rfl
    · exact ih _ (by dsimp only; omega) (by dsimp only; omega)

def wholeCodes (size : Nat) : Nat := 8 * size / 13

theorem stringReadCode_whole {inputData : List UInt8} {reader : StringReader} {i : Nat}
    (position : reader.inputPosition = 13 * i) (reading : Reading inputData (toReader inputData reader))
    (whole : i < wholeCodes inputData.length) :
    ∃ after, stringReadCode inputData reader = ((streamCode inputData i : Int), after) ∧
      after.inputPosition = 13 * (i + 1) ∧ Reading inputData (toReader inputData after) := by
  unfold wholeCodes at whole
  have length : codeLength = 13 := rfl
  obtain ⟨after, read, simulated⟩ :=
    stringReadBits_inside codeLength 0 (show reader.inputPosition + codeLength ≤ 8 * inputData.length by omega)
  obtain ⟨code, moved, within⟩ := reading.readCode position
  rw [readCode] at code moved within
  rw [← simulated] at moved within
  refine ⟨after, ?_, moved, within⟩
  rw [stringReadCode, read, code]

theorem stringReadCode_end {inputData : List UInt8} {reader : StringReader}
    (position : reader.inputPosition = 13 * wholeCodes inputData.length) :
    (stringReadCode inputData reader).1 = -1 := by
  unfold wholeCodes at position
  have length : codeLength = 13 := rfl
  exact stringReadBits_end codeLength 0 (by omega) (by omega)

theorem stringReadCodes_stream {inputData : List UInt8} {reader : StringReader} {i rounds : Nat}
    (position : reader.inputPosition = 13 * i) (reading : Reading inputData (toReader inputData reader))
    (inside : i ≤ wholeCodes inputData.length) (enough : wholeCodes inputData.length < i + rounds) :
    (stringReadCodes inputData rounds reader).1 =
        ((List.range' i (wholeCodes inputData.length - i)).map (streamCode inputData)).map Int.ofNat ++ [-1] ∧
      ∀ state, stringDecompressLoop inputData rounds reader state =
        (((List.range' i (wholeCodes inputData.length - i)).map (streamCode inputData)).foldlM stringDecompressCode
          state).map (·, (stringReadCodes inputData rounds reader).2) := by
  induction rounds generalizing reader i with
  | zero => omega
  | succ rounds ih =>
    rcases Nat.lt_or_eq_of_le inside with whole | last
    · obtain ⟨after, read, moved, within⟩ := stringReadCode_whole position reading whole
      obtain ⟨codes, loop⟩ := ih moved within whole (by omega)
      have code : (streamCode inputData i : Int) ≠ -1 := by omega
      have count : wholeCodes inputData.length - i = wholeCodes inputData.length - (i + 1) + 1 := by omega
      constructor
      · simp only [stringReadCodes, read, if_neg code, codes, count, List.range'_succ, List.map_cons,
          List.cons_append]
        rfl
      · intro state
        simp only [stringDecompressLoop, stringReadCodes, read, if_neg code, count, List.range'_succ, List.map_cons,
          List.foldlM_cons, Int.toNat_natCast, loop, Option.bind_eq_bind, Option.map_bind]
        rfl
    · subst last
      have ended := stringReadCode_end position
      constructor
      · simp only [stringReadCodes, ended, if_pos, Nat.sub_self]
        rfl
      · intro state
        simp only [stringDecompressLoop, stringReadCodes, ended, if_pos, Nat.sub_self]
        rfl

def stringDecodeCodes : List Nat → Option (List UInt8)
  | [] => some []
  | first :: codes =>
    (codes.foldlM stringDecompressCode
      ⟨initialCodeTable, first, UInt8.ofNat first, [UInt8.ofNat first]⟩).map Decompression.output

theorem reading_toReader (inputData : List UInt8) (byte : UInt8) :
    Reading inputData (toReader inputData ⟨byte, 0⟩) := by
  have start := reading_start (toReader inputData ⟨byte, 0⟩)
  have all : (toReader inputData ⟨byte, 0⟩).input.rest = inputData := by simp [toReader, InputStream.opened]
  rw [all] at start
  exact start

theorem stringDecompress_stream (inputData : List UInt8) (reader : StringReader) :
    (stringReadCodes inputData (inputData.length + 1) { reader with inputPosition := 0 }).1 =
        ((List.range (wholeCodes inputData.length)).map (streamCode inputData)).map Int.ofNat ++ [-1] ∧
      stringDecompress inputData reader =
        (stringDecodeCodes ((List.range (wholeCodes inputData.length)).map (streamCode inputData))).map
          (·, (stringReadCodes inputData (inputData.length + 1) { reader with inputPosition := 0 }).2) := by
  have start := reading_toReader inputData reader.byte
  have position : (⟨reader.byte, 0⟩ : StringReader).inputPosition = 13 * 0 := rfl
  have few : wholeCodes inputData.length ≤ inputData.length := by
    unfold wholeCodes
    omega
  constructor
  · have reads := (stringReadCodes_stream position start (Nat.zero_le _)
      (show wholeCodes inputData.length < 0 + (inputData.length + 1) by omega)).1
    rw [Nat.sub_zero, ← List.range_eq_range'] at reads
    exact reads
  · rcases Nat.eq_zero_or_pos (wholeCodes inputData.length) with none | some
    · have ended : (stringReadCode inputData ⟨reader.byte, 0⟩).1 = -1 := stringReadCode_end (by rw [none])
      simp only [stringDecompress, stringReadCodes, ended, if_pos, none]
      rfl
    · obtain ⟨after, read, moved, within⟩ := stringReadCode_whole position start some
      obtain ⟨_, loop⟩ := stringReadCodes_stream moved within some
        (show wholeCodes inputData.length < 0 + 1 + inputData.length by omega)
      have code : (streamCode inputData 0 : Int) ≠ -1 := by omega
      have codes : List.range (wholeCodes inputData.length) =
          0 :: List.range' (0 + 1) (wholeCodes inputData.length - (0 + 1)) := by
        rw [List.range_eq_range', ← List.range'_succ, Nat.sub_add_cancel some]
      simp only [stringDecompress, stringReadCodes, read, if_neg code, Int.toNat_natCast, loop]
      rw [codes, List.map_cons, stringDecodeCodes, Option.map_map]
      cases List.foldlM stringDecompressCode _ _ <;> rfl

end DedupProof
