import DedupPipeline.Decoder.Decompress
import DedupPipeline.Server.LzwTable

namespace DedupProof

open DedupModel StringTable

def toDecoder (state : Decompression) : Decoder UInt8 :=
  ⟨state.codeTable, state.old, state.symbol, state.output⟩

theorem decompressCode_step (state : Decompression) (new : Nat) :
    (decompressCode state new).map toDecoder = (toDecoder state).step new := by
  have symbols : (toDecoder state).lookup new = selectSymbols state new := rfl
  unfold decompressCode Decoder.step
  rw [symbols]
  cases selectSymbols state new with
  | none => rfl
  | some string =>
    have table : (toDecoder state).table[(toDecoder state).old]? = state.codeTable[state.old]? := rfl
    simp only [table, Option.bind_eq_bind, Option.bind_some]
    cases state.codeTable[state.old]? <;> rfl

theorem foldlM_decompressCode (codes : List Nat) (state : Decompression) :
    (codes.foldlM decompressCode state).map toDecoder = codes.foldlM Decoder.step (toDecoder state) := by
  induction codes generalizing state with
  | nil => rfl
  | cons code codes ih =>
    have first := decompressCode_step state code
    rw [List.foldlM_cons, List.foldlM_cons, ← first]
    cases decompressCode state code with
    | none => rfl
    | some next => exact ih next

theorem decodeCodes_lzwCodes (input : List UInt8) : decodeCodes (lzwCodes input) = some input := by
  cases input with
  | nil => rfl
  | cons first input =>
    obtain ⟨codes, decoded, emitted, ran, output⟩ := decode_encode_start maxDictSize
      first input byteStrings_total byteStrings_single (by rw [byteStrings_length]; decide)
    have root : byteStrings.idxOf [first] = first.toNat :=
      nodup_code byteStrings_nodup (getElem_idxOf (byteStrings_total first)) (byteStrings_at first)
    rw [root] at emitted ran
    have codeWords : lzwCodes (first :: input) = first.toNat :: codes := emitted
    have same := foldlM_decompressCode codes ⟨initialCodeTable, first.toNat, first, [first]⟩
    have started : toDecoder ⟨initialCodeTable, first.toNat, first, [first]⟩ =
        ⟨byteStrings, first.toNat, first, [first]⟩ := rfl
    rw [started, ran, Option.map_eq_some_iff] at same
    obtain ⟨final, finished, rfl⟩ := same
    rw [codeWords, decodeCodes, UInt8.ofNat_toNat, finished, ← output]
    rfl

theorem decompress_lzwBytes {input tail : List UInt8} {reader : Reader} (nonempty : input ≠ [])
    (stream : reader.input.rest = lzwBytes input ++ tail) :
    ∃ after, decompress (lzwBytes input).length reader = some (input, after) ∧
      after.input.rest = tail := by
  have some : (lzwCodes input).map UInt16.ofNat ≠ [] := by
    have positive := (lzwCodes_length nonempty).1
    rw [Ne, List.map_eq_nil_iff, ← List.length_eq_zero_iff]
    omega
  obtain ⟨codes, rest, _⟩ := readCodes_packed some (lzwWords_valid input) stream
  refine ⟨_, ?_, rest⟩
  rw [lzwBytes, decompress_readCodes, codes, toNat_words (lzwCodes_valid input), decodeCodes_lzwCodes]
  rfl

/-- Decompressing what `lzw_encode` stores for a string gives the string back and takes exactly the
    stored bytes from the stream. -/
theorem lzw_round_trip (globals : LzwGlobals) (s following : List UInt8) (reader : Reader)
    (lower : 1 ≤ s.length) (upper : s.length ≤ inputSize)
    (stream : reader.input.rest = (lzwEncode globals s).1.compressedData ++ following) :
    (lzwEncode globals s).1.compressedData.length = (lzwEncode globals s).1.compressedSize.toNat ∧
      ∃ after, decompress (lzwEncode globals s).1.compressedSize.toNat reader = some (s, after) ∧
        after.input.rest = following := by
  have nonempty : s ≠ [] := List.length_pos_iff.mp lower
  have size := lzwBytes_size nonempty upper
  rw [lzwEncode_output globals nonempty] at stream ⊢
  dsimp only at stream ⊢
  rw [size]
  exact ⟨rfl, decompress_lzwBytes nonempty stream⟩

theorem lzw_round_trip_repeated : ∃ after,
    decompress 7 ⟨0, InputStream.opened [2, 8, 16, 130, 0, 16, 32, 7], 0⟩ =
      some ([65, 66, 65, 66, 65, 66, 65], after) ∧ after.input.rest = [7] := by
  have run := lzw_round_trip initialGlobals [65, 66, 65, 66, 65, 66, 65] [7]
    ⟨0, InputStream.opened [2, 8, 16, 130, 0, 16, 32, 7], 0⟩ (by decide) (by decide)
    (by decide +kernel)
  have size : (lzwEncode initialGlobals [65, 66, 65, 66, 65, 66, 65]).1.compressedSize.toNat = 7 := by
    decide +kernel
  rw [size] at run
  exact run.2

end DedupProof
