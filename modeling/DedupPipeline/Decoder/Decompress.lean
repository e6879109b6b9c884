import DedupPipeline.Decoder.BitReader
import DedupPipeline.Library.StringTable

namespace DedupProof

open DedupModel BitString

def codeBits (codes : List Nat) : List Bool := codes.flatMap (bits codeLength)

def readCodesLoop (size : Nat) : Nat → Reader → List Nat × Reader
  | 0, reader => ([], reader)
  | rounds + 1, reader =>
    if reader.inputPosition / 8 < size - 1 then
      let (code, reader) := readCode reader
      let (codes, reader) := readCodesLoop size rounds reader
      (code :: codes, reader)
    else ([], reader)

def readCodes (size : Nat) (reader : Reader) : List Nat × Reader :=
  let (first, reader) := readCode { reader with inputPosition := 0 }
  let (codes, reader) := readCodesLoop size size reader
  (first :: codes, reader)

def decodeCodes : List Nat → Option (List UInt8)
  | [] => some []
  | first :: codes =>
    (codes.foldlM decompressCode
      ⟨initialCodeTable, first, UInt8.ofNat first, [UInt8.ofNat first]⟩).map Decompression.output

theorem decompressLoop_readCodesLoop (size rounds : Nat) (reader : Reader) (state : Decompression) :
    decompressLoop size rounds reader state =
      ((readCodesLoop size rounds reader).1.foldlM decompressCode state).map
        (·, (readCodesLoop size rounds reader).2) := by
  induction rounds generalizing reader state with
  | zero => rfl
  | succ rounds ih =>
    rw [decompressLoop, readCodesLoop]
    by_cases more : reader.inputPosition / 8 < size - 1
    · simp only [if_pos more, List.foldlM_cons, Option.bind_eq_bind]
      cases decompressCode state (readCode reader).1 with
      | none => rfl
      | some next => exact ih _ next
    · rw [if_neg more, if_neg more]
      rfl

theorem decompress_readCodes (size : Nat) (reader : Reader) :
    decompress size reader = (decodeCodes (readCodes size reader).1).map (·, (readCodes size reader).2) := by
  simp only [decompress, readCodes, decodeCodes, decompressLoop_readCodesLoop]
  rw [Option.map_map]
  cases List.foldlM decompressCode _ _ <;> rfl

/-- The codes that `Decompress` reads for a record of `size` bytes: it reads one, and others as long as they start
    before the last byte. -/
def codeCount (size : Nat) : Nat := max 1 ((8 * (size - 1) + 12) / 13)

theorem lt_codeCount {size i : Nat} (positive : 0 < i) : i < codeCount size ↔ 13 * i / 8 < size - 1 := by
  unfold codeCount
  omega

theorem codeCount_positive (size : Nat) : 0 < codeCount size := by
  unfold codeCount
  omega

theorem codeCount_le (size : Nat) : codeCount size ≤ size + 1 := by
  unfold codeCount
  omega

theorem codeCount_packed {count : Nat} (positive : 0 < count) : codeCount ((13 * count + 7) / 8) = count := by
  unfold codeCount
  omega

theorem Reading.readCodesLoop {source : List UInt8} {size i rounds : Nat} {reader : Reader}
    (reading : Reading source reader) (position : reader.inputPosition = 13 * i) (positive : 0 < i)
    (inside : i ≤ codeCount size) (enough : codeCount size ≤ i + rounds) :
    (readCodesLoop size rounds reader).1 = (List.range' i (codeCount size - i)).map (streamCode source) ∧
      (readCodesLoop size rounds reader).2.inputPosition = 13 * codeCount size ∧
      Reading source (readCodesLoop size rounds reader).2 := by
  induction rounds generalizing reader i with
  | zero =>
    have last : i = codeCount size := by omega
    rw [← last, Nat.sub_self]
    exact ⟨rfl, position, reading⟩
  | succ rounds ih =>
    have test : i < codeCount size ↔ 13 * i / 8 < size - 1 := lt_codeCount positive
    rw [DedupProof.readCodesLoop, position]
    by_cases more : 13 * i / 8 < size - 1
    · obtain ⟨code, moved, after⟩ := reading.readCode position
      obtain ⟨codes, ended, final⟩ := ih after moved (by omega) (by omega) (by omega)
      rw [if_pos more]
      dsimp only
      have count : codeCount size - i = codeCount size - (i + 1) + 1 := by omega
      rw [code, codes, count, List.range'_succ, List.map_cons]
      exact ⟨rfl, ended, final⟩
    · have last : i = codeCount size := by omega
      rw [if_neg more, ← last, Nat.sub_self]
      exact ⟨rfl, position, reading⟩

theorem readCodes_stream (size : Nat) (reader : Reader) :
    (readCodes size reader).1 = (List.range (codeCount size)).map (streamCode reader.input.rest) ∧
      (readCodes size reader).2.inputPosition = 13 * codeCount size ∧
      Reading reader.input.rest (readCodes size reader).2 := by
  obtain ⟨first, moved, after⟩ := (reading_start reader).readCode (show 0 = 13 * 0 by rfl)
  obtain ⟨codes, ended, final⟩ := after.readCodesLoop moved (by omega) (codeCount_positive size)
    ((codeCount_le size).trans_eq (Nat.add_comm size 1))
  have count : codeCount size = codeCount size - 1 + 1 := by
    have positive := codeCount_positive size
    omega
  unfold readCodes
  dsimp only
  refine ⟨?_, ended, final⟩
  rw [first, codes, List.range_eq_range', count, List.range'_succ, List.map_cons, Nat.add_sub_cancel]

theorem readCodes_length (size : Nat) (reader : Reader) : (readCodes size reader).1.length = codeCount size := by
  rw [(readCodes_stream size reader).1, List.length_map, List.length_range]

theorem readCodes_rest (size : Nat) (reader : Reader) :
    (readCodes size reader).2.input.rest = reader.input.rest.drop ((13 * codeCount size + 7) / 8) := by
  obtain ⟨_, position, reading⟩ := readCodes_stream size reader
  rw [reading.fetched, position]

theorem readCodes_eof (size : Nat) (reader : Reader) :
    (readCodes size reader).2.input.eof = true ↔ reader.input.rest.length < (13 * codeCount size + 7) / 8 := by
  obtain ⟨_, position, reading⟩ := readCodes_stream size reader
  have positive := codeCount_positive size
  rw [reading.ended (by omega), position]

theorem streamCode_packed {codeWords : List UInt16} (tail : List UInt8)
    (valid : ∀ codeWord ∈ codeWords, codeWord.toNat < maxDictSize) :
    (List.range codeWords.length).map (streamCode (packCodeWords codeWords ++ tail)) =
      codeWords.map UInt16.toNat := by
  obtain ⟨padding, _, packed⟩ := packCodeWords_bits codeWords valid
  rw [← List.flatMap_map] at packed
  apply List.ext_getElem?
  intro i
  by_cases inside : i < codeWords.length
  · have code : (codeWords.map UInt16.toNat)[i]? = some codeWords[i].toNat := by simp [inside]
    rw [List.getElem?_map, List.getElem?_range inside, Option.map_some, code, streamCode]
    unfold streamBit
    rw [ofBytes_append, packed, List.append_assoc, range_getD_flatMap_bits codeLength _ _ _ code,
      value_bits_of_lt (valid _ (List.getElem_mem inside))]
  · rw [List.getElem?_eq_none (by simp; omega), List.getElem?_eq_none (by simp; omega)]

theorem readCodes_packed {codeWords : List UInt16} {tail : List UInt8} {reader : Reader}
    (nonempty : codeWords ≠ []) (valid : ∀ codeWord ∈ codeWords, codeWord.toNat < maxDictSize)
    (stream : reader.input.rest = packCodeWords codeWords ++ tail) :
    (readCodes (packCodeWords codeWords).length reader).1 = codeWords.map UInt16.toNat ∧
      (readCodes (packCodeWords codeWords).length reader).2.input.rest = tail ∧
      (readCodes (packCodeWords codeWords).length reader).2.input.eof = false := by
  have positive := List.length_pos_iff.mpr nonempty
  have size := packCodeWords_length codeWords valid
  have count : codeCount (packCodeWords codeWords).length = codeWords.length := by
    rw [size, codeCount_packed positive]
  refine ⟨?_, ?_, ?_⟩
  · rw [(readCodes_stream _ reader).1, count, stream, streamCode_packed tail valid]
  · rw [readCodes_rest, count, ← size, stream, List.drop_left]
  · rw [Bool.eq_false_iff]
    intro ended
    rw [readCodes_eof, count, ← size, stream, List.length_append] at ended
    omega

/-- What the packing loop writes for some codes is read back as these codes, and nothing behind it is touched. -/
theorem packed_codes_read_back {codeWords : List UInt16} (nonempty : codeWords ≠ [])
    (valid : ∀ codeWord ∈ codeWords, codeWord.toNat < maxDictSize) (following : List UInt8) (reader : Reader)
    (stream : reader.input.rest = packCodeWords codeWords ++ following) :
    (packCodeWords codeWords).length = (13 * codeWords.length + 7) / 8 ∧
    (∃ padding < 8, ofBytes (packCodeWords codeWords) =
      codeBits (codeWords.map UInt16.toNat) ++ List.replicate padding false) ∧
    ∃ after, readCodes (packCodeWords codeWords).length reader = (codeWords.map UInt16.toNat, after) ∧
      after.input.rest = following ∧ after.input.eof = false ∧
      decompress (packCodeWords codeWords).length reader =
        (decodeCodes (codeWords.map UInt16.toNat)).map (·, after) := by
  obtain ⟨codes, rest, eof⟩ := readCodes_packed nonempty valid stream
  obtain ⟨padding, small, packed⟩ := packCodeWords_bits codeWords valid
  refine ⟨packCodeWords_length codeWords valid, ⟨padding, small, ?_⟩, _, ?_, rest, eof, ?_⟩
  · rw [packed, codeBits, List.flatMap_map]
  · rw [← codes]
  · rw [decompress_readCodes, codes]

theorem packed_codes_read_back_eight : ∃ after,
    readCodes 13 ⟨0, InputStream.opened (packCodeWords (List.replicate 8 8191) ++ [7]), 0⟩ =
      (List.replicate 8 8191, after) ∧ after.input.rest = [7] := by
  have valid : ∀ codeWord ∈ List.replicate 8 (8191 : UInt16), codeWord.toNat < maxDictSize := by
    intro codeWord member
    rw [List.eq_of_mem_replicate member]
    decide
  obtain ⟨size, _, after, read, rest, _⟩ := packed_codes_read_back (by simp) valid [7]
    ⟨0, InputStream.opened (packCodeWords (List.replicate 8 8191) ++ [7]), 0⟩ rfl
  rw [size] at read
  exact ⟨after, read, rest⟩

end DedupProof
