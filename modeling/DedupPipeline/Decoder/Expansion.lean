import DedupPipeline.Decoder.RoundTrip
import DedupPipeline.Decoder.Untrusted
import DedupPipeline.Library.Expansion
import DedupPipeline.Library.LetterRuns

namespace DedupProof

open DedupModel BitString StringTable

def mostBytes (count : Nat) : Nat := mostLetters byteStrings.length maxDictSize count

theorem mostBytes_triangle {count : Nat} (short : count ≤ 7937) : mostBytes count = count * (count + 1) / 2 := by
  rw [mostBytes, byteStrings_length]
  exact mostLetters_triangle short

def mostRecordBytes : Nat := 168566006

theorem mostBytes_record {size : Nat} (bounded : size ≤ 40960) : mostBytes (codeCount size) ≤ mostRecordBytes := by
  have few : codeCount size ≤ 7937 + 17269 := by
    unfold codeCount
    omega
  have triangle := mostBytes_triangle (Nat.le_refl 7937)
  have longest : maxDictSize + 1 - 256 = 7937 := rfl
  have rest := @mostLetters_full 256 maxDictSize 17269
  rw [longest] at rest
  have most : mostBytes (codeCount size) ≤ mostBytes (7937 + 17269) := mostLetters_mono few
  rw [mostBytes, byteStrings_length] at triangle
  rw [mostBytes, mostBytes, byteStrings_length, rest, triangle] at most
  rw [mostBytes, byteStrings_length, mostRecordBytes]
  omega

theorem byteStrings_fit : byteStrings.length < maxDictSize := by
  rw [byteStrings_length]
  decide

theorem streamCode_lt (source : List UInt8) (i : Nat) : streamCode source i < maxDictSize := by
  have small := value_lt ((List.range codeLength).map fun bit => streamBit source (codeLength * i + bit))
  rwa [List.length_map, List.length_range] at small

theorem decodeCodes_length {codes : List Nat} {chunk : List UInt8} (valid : ∀ code ∈ codes, code < maxDictSize)
    (decoded : decodeCodes codes = some chunk) :
    codes.length ≤ chunk.length ∧ chunk.length ≤ mostBytes codes.length := by
  cases codes with
  | nil =>
    obtain rfl := Option.some.inj decoded
    exact ⟨Nat.le_refl 0, Nat.zero_le _⟩
  | cons first codes =>
    obtain ⟨final, ran, rfl⟩ := Option.map_eq_some_iff.mp decoded
    have same := foldlM_decompressCode codes ⟨initialCodeTable, first, UInt8.ofNat first, [UInt8.ofNat first]⟩
    rw [ran] at same
    have start := Expanded.start byteStrings_single (Nat.le_of_lt byteStrings_fit) first (UInt8.ofNat first)
    obtain ⟨_, _, least, most⟩ := start.run (List.forall_mem_cons.mp valid).2 (Nat.le_of_lt byteStrings_fit) same.symm
    rw [Nat.zero_add] at least most
    exact ⟨least, most⟩

def bombCodes (count : Nat) : List Nat := 0 :: runCodes byteStrings maxDictSize (count - 1)

theorem bombCodes_length {count : Nat} (positive : 0 < count) : (bombCodes count).length = count := by
  rw [bombCodes, List.length_cons, runCodes, List.length_map, List.length_range]
  omega

theorem bombCodes_valid (count : Nat) : ∀ code ∈ bombCodes count, code < maxDictSize := by
  have room := byteStrings_fit
  intro code member
  rcases List.mem_cons.mp member with rfl | later
  · decide
  · obtain ⟨i, _, rfl⟩ := List.mem_map.mp later
    rw [runCode, if_neg (Nat.succ_ne_zero i)]
    omega

theorem decodeCodes_bomb {count : Nat} (positive : 0 < count) :
    decodeCodes (bombCodes count) = some (List.replicate (mostBytes count) 0) := by
  have same := foldlM_decompressCode (runCodes byteStrings maxDictSize (count - 1)) ⟨initialCodeTable, 0, 0, [0]⟩
  have started : toDecoder ⟨initialCodeTable, 0, 0, [0]⟩ = ⟨byteStrings, 0, 0, [0]⟩ := rfl
  have zero : byteStrings[0]? = some [0] := byteStrings_at 0
  rw [started, foldlM_runCodes zero byteStrings_fit, Nat.sub_add_cancel positive] at same
  obtain ⟨final, ran, shape⟩ := Option.map_eq_some_iff.mp same
  have output : final.output = List.replicate (mostBytes count) 0 := congrArg Decoder.output shape
  rw [bombCodes, decodeCodes]
  show ((runCodes byteStrings maxDictSize (count - 1)).foldlM decompressCode ⟨initialCodeTable, 0, 0, [0]⟩).map
    Decompression.output = _
  rw [ran, Option.map_some, output]

def bomb (count : Nat) : List UInt8 := packCodeWords ((bombCodes count).map UInt16.ofNat)

theorem readCodes_bomb (size : Nat) :
    (readCodes size ⟨0, InputStream.opened (bomb (codeCount size)), 0⟩).1 = bombCodes (codeCount size) := by
  have valid : ∀ codeWord ∈ (bombCodes (codeCount size)).map UInt16.ofNat, codeWord.toNat < maxDictSize := by
    intro codeWord member
    obtain ⟨code, inside, rfl⟩ := List.mem_map.mp member
    rw [ofNat_valid (bombCodes_valid _ code inside)]
    exact bombCodes_valid _ code inside
  have codes := streamCode_packed [] valid
  rw [List.append_nil, List.length_map, bombCodes_length (codeCount_positive size),
    toNat_words (bombCodes_valid _)] at codes
  rw [(readCodes_stream size _).1]
  exact codes

theorem decompress_length {size : Nat} {reader after : Reader} {chunk : List UInt8}
    (ran : decompress size reader = some (chunk, after)) :
    codeCount size ≤ chunk.length ∧ chunk.length ≤ mostBytes (codeCount size) := by
  have codes := (readCodes_stream size reader).1
  rw [decompress_readCodes] at ran
  obtain ⟨_, decoded, same⟩ := Option.map_eq_some_iff.mp ran
  obtain ⟨rfl, _⟩ := Prod.mk.inj same
  have bounds := decodeCodes_length (fun code member => by
    rw [codes] at member
    obtain ⟨i, _, rfl⟩ := List.mem_map.mp member
    exact streamCode_lt _ i) decoded
  rwa [readCodes_length] at bounds

theorem decompress_bomb (size : Nat) :
    ∃ reader after, decompress size reader = some (List.replicate (mostBytes (codeCount size)) 0, after) := by
  refine ⟨⟨0, InputStream.opened (bomb (codeCount size)), 0⟩,
    (readCodes size ⟨0, InputStream.opened (bomb (codeCount size)), 0⟩).2, ?_⟩
  rw [decompress_readCodes, readCodes_bomb, decodeCodes_bomb (codeCount_positive size), Option.map_some]

/-- What `Decompress` makes of `size` bytes, for the sizes that the main loop lets through, and a stream for which it
    makes the most of them. -/
theorem decompress_expansion (size : Nat) (_ : 1 ≤ size) (passed : size ≤ 40960) :
    (∀ reader chunk after, decompress size reader = some (chunk, after) →
      codeCount size ≤ chunk.length ∧ chunk.length ≤ mostBytes (codeCount size)) ∧
    (∃ reader after, decompress size reader = some (List.replicate (mostBytes (codeCount size)) 0, after)) ∧
    mostBytes (codeCount size) ≤ 168566006 :=
  ⟨fun _ _ _ ran => decompress_length ran, decompress_bomb size, mostBytes_record passed⟩

theorem decompress_expansion_most : ∃ reader after,
    decompress 40960 reader = some (List.replicate 168566006 0, after) := by
  obtain ⟨reader, after, ran⟩ := (decompress_expansion 40960 (by decide) (by decide)).2.1
  have most : mostBytes (codeCount 40960) = 168566006 := by decide +kernel
  rw [most] at ran
  exact ⟨reader, after, ran⟩

structure Bounded (length : Nat) (state : DecoderState) : Prop where
  counted : state.successfulChunks + state.failedChunks = state.totalChunksInHeader
  taken : 4 * state.totalChunksInHeader + state.reader.input.rest.length ≤ length
  sizes : ∀ chunk ∈ state.chunks, 1 ≤ chunk.length ∧ chunk.length ≤ mostRecordBytes
  kept : state.chunks.length ≤ state.successfulChunks
  least : state.successfulChunks ≤ state.output.length
  most : state.output.length ≤ state.successfulChunks * mostRecordBytes

theorem Bounded.write {length : Nat} {state : DecoderState} (bounded : Bounded length state) {chunk : List UInt8}
    (size : 1 ≤ chunk.length ∧ chunk.length ≤ mostRecordBytes) {reader : Reader}
    (taken : 4 * (state.totalChunksInHeader + 1) + reader.input.rest.length ≤ length)
    {chunks : List (List UInt8)} (kept : chunks = state.chunks ∨ chunks = state.chunks ++ [chunk]) :
    Bounded length {
      reader := reader
      chunks := chunks
      output := state.output ++ chunk
      totalChunksInHeader := state.totalChunksInHeader + 1
      successfulChunks := state.successfulChunks + 1
      failedChunks := state.failedChunks } := by
  obtain ⟨counted, _, sizes, fewer, least, most⟩ := bounded
  refine ⟨?_, taken, ?_, ?_, ?_, ?_⟩
  · dsimp only
    omega
  · dsimp only
    rcases kept with rfl | rfl
    · exact sizes
    · intro other member
      rcases List.mem_append.mp member with old | new
      · exact sizes other old
      · exact List.mem_singleton.mp new ▸ size
  · dsimp only
    rcases kept with rfl | rfl
    · omega
    · rw [List.length_append, List.length_singleton]
      omega
  · dsimp only
    rw [List.length_append]
    omega
  · dsimp only
    rw [List.length_append, Nat.succ_mul]
    omega

theorem Bounded.fail {length : Nat} {state : DecoderState} (bounded : Bounded length state) {reader : Reader}
    (taken : 4 * (state.totalChunksInHeader + 1) + reader.input.rest.length ≤ length) :
    Bounded length { state with
      reader := reader
      totalChunksInHeader := state.totalChunksInHeader + 1
      failedChunks := state.failedChunks + 1 } := by
  obtain ⟨counted, _, sizes, fewer, least, most⟩ := bounded
  exact ⟨by dsimp only; omega, taken, sizes, fewer, least, most⟩

theorem decompress_rest_le {size : Nat} {reader after : Reader} {chunk : List UInt8}
    (ran : decompress size reader = some (chunk, after)) :
    after.input.rest.length ≤ reader.input.rest.length := by
  rw [decompress_reader ran, readCodes_rest, List.length_drop]
  exact Nat.sub_le _ _

theorem Bounded.record {length : Nat} {state after : DecoderState} {header : UInt32}
    (bounded : Bounded length state)
    (taken : 4 * (state.totalChunksInHeader + 1) + state.reader.input.rest.length ≤ length)
    (decoded : decodeRecord state header = some after) : Bounded length after := by
  unfold decodeRecord at decoded
  dsimp only at decoded
  split at decoded
  · split at decoded
    · obtain rfl := Option.some.inj decoded
      exact bounded.fail taken
    · rename_i valid
      obtain ⟨⟨chunk, reader⟩, ran, decoded⟩ := Option.bind_eq_some_iff.mp decoded
      have rest : reader.input.rest.length ≤ state.reader.input.rest.length := decompress_rest_le ran
      have behind : 4 * (state.totalChunksInHeader + 1) + reader.input.rest.length ≤ length := by omega
      have sizes := decompress_length ran
      have positive := codeCount_positive (header >>> 1).toNat
      have record := mostBytes_record (show (header >>> 1).toNat ≤ 40960 by
        unfold decoderMaxChunkSize at valid
        omega)
      dsimp only at decoded
      rw [Int.toNat_natCast] at sizes
      split at decoded
      · obtain rfl := Option.some.inj decoded
        exact bounded.fail behind
      · obtain rfl := Option.some.inj decoded
        exact bounded.write ⟨by omega, by omega⟩ behind (Or.inr rfl)
  · split at decoded
    · obtain rfl := Option.some.inj decoded
      exact bounded.fail taken
    · obtain ⟨chunk, found, rfl⟩ := Option.map_eq_some_iff.mp decoded
      exact bounded.write (bounded.sizes chunk (List.mem_of_getElem? found)) taken (Or.inl rfl)

theorem readHeader_cases (input : InputStream) :
    (∃ header, input.readHeader.1 = some header ∧ input.readHeader.2.rest.length + 4 = input.rest.length) ∨
      input.readHeader = (none, InputStream.exhausted) := by
  unfold InputStream.readHeader
  split
  · rename_i stream
    left
    rw [stream]
    exact ⟨_, rfl, rfl⟩
  · exact Or.inr rfl

theorem decodeRecord_rest {state after : DecoderState} {header : UInt32}
    (decoded : decodeRecord state header = some after) :
    after.reader.input.rest.length ≤ state.reader.input.rest.length := by
  unfold decodeRecord at decoded
  dsimp only at decoded
  split at decoded
  · split at decoded
    · obtain rfl := Option.some.inj decoded
      exact Nat.le_refl _
    · obtain ⟨⟨chunk, reader⟩, ran, decoded⟩ := Option.bind_eq_some_iff.mp decoded
      have rest : reader.input.rest.length ≤ state.reader.input.rest.length := decompress_rest_le ran
      dsimp only at decoded
      split at decoded
      · obtain rfl := Option.some.inj decoded
        exact rest
      · obtain rfl := Option.some.inj decoded
        exact rest
  · split at decoded
    · obtain rfl := Option.some.inj decoded
      exact Nat.le_refl _
    · obtain ⟨chunk, found, rfl⟩ := Option.map_eq_some_iff.mp decoded
      exact Nat.le_refl _

theorem Bounded.step {length : Nat} {state : DecoderState} (bounded : Bounded length state) :
    decoderStep state = none ∨
    (∃ after, decoderStep state = some (after, none) ∧ Bounded length after ∧ after.reader.input.eof = true) ∨
    ∃ after header, decoderStep state = some (after, some header) ∧ Bounded length after ∧
      after.reader.input.rest.length < state.reader.input.rest.length := by
  have taken := bounded.taken
  unfold decoderStep
  rcases readHeader_cases state.reader.input with ⟨header, found, rest⟩ | ended
  · generalize state.reader.input.readHeader = read at found rest ⊢
    obtain ⟨value, input⟩ := read
    obtain rfl : value = some header := found
    have behind : Bounded length { state with reader := { state.reader with input := input } } :=
      ⟨bounded.counted, by dsimp only at rest ⊢; omega, bounded.sizes, bounded.kept, bounded.least, bounded.most⟩
    dsimp only at rest ⊢
    cases decoded : decodeRecord { state with reader := { state.reader with input := input } } header with
    | none => exact Or.inl rfl
    | some after =>
      have shorter : after.reader.input.rest.length ≤ input.rest.length := decodeRecord_rest decoded
      have next := behind.record (by dsimp only; omega) decoded
      exact Or.inr (Or.inr ⟨after, header, rfl, next, by omega⟩)
  · rw [ended]
    refine Or.inr (Or.inl ⟨_, rfl, ?_, rfl⟩)
    refine ⟨bounded.counted, ?_, bounded.sizes, bounded.kept, bounded.least, bounded.most⟩
    exact Nat.le_trans (Nat.add_le_add_left (Nat.zero_le _) _) taken

theorem Bounded.loop {length fuel : Nat} {state final : DecoderState} (bounded : Bounded length state)
    (enough : state.reader.input.rest.length < fuel) (ran : decoderLoop fuel state = some final) :
    Bounded length final ∧ final.reader.input.eof = true := by
  induction fuel generalizing state with
  | zero => exact absurd enough (Nat.not_lt_zero _)
  | succ fuel ih =>
    rw [decoderLoop] at ran
    rcases bounded.step with outside | ⟨after, step, ended, eof⟩ | ⟨after, header, step, next, shorter⟩
    · rw [outside] at ran
      cases ran
    · rw [step] at ran
      obtain rfl : after = final := Option.some.inj ran
      exact ⟨ended, eof⟩
    · rw [step] at ran
      exact ih next (by omega) ran

/-- On any file below eight gigabytes on which no code leaves the table, the records are accounted for, each costs the
    file four bytes and those that succeed give a bounded number of bytes each. -/
theorem decoder_bounded (file : List UInt8) (short : file.length < 2 ^ 33) {final : DecoderState}
    (ran : decoderMain file = some final) :
    final.reader.input.eof = true ∧
    final.successfulChunks + final.failedChunks = final.totalChunksInHeader ∧
    4 * final.totalChunksInHeader ≤ file.length ∧
    final.totalChunksInHeader < 2 ^ 31 ∧
    final.chunks.length ≤ final.successfulChunks ∧
    final.successfulChunks ≤ final.output.length ∧
    final.output.length ≤ final.successfulChunks * 168566006 := by
  have start : Bounded file.length (decoderStart file) := by
    refine ⟨rfl, ?_, ?_, Nat.le_refl 0, Nat.le_refl 0, Nat.zero_le _⟩
    · show 4 * 0 + file.length ≤ file.length
      omega
    · intro chunk member
      cases member
  obtain ⟨bounded, eof⟩ := start.loop (Nat.lt_succ_self file.length) ran
  have taken := bounded.taken
  refine ⟨eof, bounded.counted, ?_, ?_, bounded.kept, bounded.least, bounded.most⟩
  · omega
  · omega

theorem decoder_bounded_garbage : ∃ final, decoderMain [0, 0, 0, 0, 1, 0, 0, 0, 7, 7] = some final ∧
    final.successfulChunks + final.failedChunks = 2 ∧ final.output.length ≤ final.successfulChunks * 168566006 := by
  obtain ⟨final, ran, total⟩ : ∃ final, decoderMain [0, 0, 0, 0, 1, 0, 0, 0, 7, 7] = some final ∧
      final.totalChunksInHeader = 2 := ⟨_, rfl, rfl⟩
  obtain ⟨_, counted, _, _, _, _, most⟩ := decoder_bounded [0, 0, 0, 0, 1, 0, 0, 0, 7, 7] (by decide) ran
  exact ⟨final, ran, counted.trans total, most⟩

theorem triangle_parts {size : Nat} (positive : 1 ≤ size) :
    ∃ count more, size = count * (count + 1) / 2 + (more + 1) ∧ more ≤ count := by
  induction size, positive using Nat.le_induction with
  | base => exact ⟨0, 0, rfl, Nat.le_refl 0⟩
  | succ size _ ih =>
    obtain ⟨count, more, rfl, short⟩ := ih
    have longer : (count + 1) * (count + 1 + 1) / 2 = count * (count + 1) / 2 + (count + 1) := by
      rw [← Nat.add_mul_div_right _ _ Nat.two_pos, Nat.mul_comm count, ← Nat.mul_add]
    by_cases last : more = count
    · exact ⟨count + 1, 0, by omega, Nat.zero_le _⟩
    · exact ⟨count, more + 1, by omega, by omega⟩

theorem lzwCodes_constant (letter : UInt8) {count more : Nat} (room : count ≤ 7936) (short : more ≤ count) :
    (lzwCodes (List.replicate (count * (count + 1) / 2 + (more + 1)) letter)).length = count + 1 := by
  have fits : byteStrings.length + count ≤ maxDictSize := by
    rw [byteStrings_length]
    show 256 + count ≤ 8192
    omega
  obtain ⟨codes, size, filled⟩ := encode_fill letter maxDictSize byteStrings_total byteStrings_single count fits
  have last := encode_run letter maxDictSize byteStrings_total 0 more (show 0 + more ≤ count by omega) []
  rw [List.append_nil, Nat.zero_add, List.replicate_one, encode] at last
  rw [← Nat.add_assoc, List.replicate_succ, lzwCodes, List.replicate_add, filled, last, List.length_append, size,
    List.length_singleton]

theorem lzwEncode_size (globals : LzwGlobals) {input : List UInt8} (nonempty : input ≠ [])
    (upper : input.length ≤ inputSize) :
    (lzwEncode globals input).1.compressedSize.toNat = (13 * (lzwCodes input).length + 7) / 8 := by
  rw [lzwEncode_output globals nonempty]
  exact (lzwBytes_size nonempty upper).trans (lzwBytes_length input)

/-- No chunk is compressed to less than a chunk of its size with one byte throughout. -/
theorem lzw_constant_smallest (globals globalsConstant : LzwGlobals) (chunk : List UInt8) (letter : UInt8)
    (lower : 1 ≤ chunk.length) (upper : chunk.length ≤ inputSize) :
    (lzwEncode globalsConstant (List.replicate chunk.length letter)).1.compressedSize.toNat ≤
      (lzwEncode globals chunk).1.compressedSize.toNat ∧
    ∃ count more, chunk.length = count * (count + 1) / 2 + (more + 1) ∧ more ≤ count ∧
      (lzwEncode globalsConstant (List.replicate chunk.length letter)).1.compressedSize.toNat =
        (13 * (count + 1) + 7) / 8 := by
  obtain ⟨count, more, size, short⟩ := triangle_parts lower
  have room : count ≤ 7936 := by
    by_contra large
    have square : 7937 * 7938 ≤ count * (count + 1) := Nat.mul_le_mul (by omega) (by omega)
    have bound : chunk.length ≤ 8192 := upper
    omega
  have nonempty : chunk ≠ [] := List.length_pos_iff.mp lower
  have constant : List.replicate chunk.length letter ≠ [] := by
    rw [Ne, List.replicate_eq_nil_iff]
    omega
  have codes := lzwCodes_constant letter room short
  rw [← size] at codes
  have smallest : count + 1 ≤ (lzwCodes chunk).length := by
    have letters := (decodeCodes_length (lzwCodes_valid chunk) (decodeCodes_lzwCodes chunk)).2
    by_contra fewer
    have most : mostBytes (lzwCodes chunk).length ≤ mostBytes count := mostLetters_mono (by omega)
    rw [mostBytes_triangle (Nat.le_succ_of_le room)] at most
    omega
  rw [lzwEncode_size globals nonempty upper, lzwEncode_size globalsConstant constant (by rwa [List.length_replicate]),
    codes]
  exact ⟨Nat.div_le_div_right (by omega), count, more, size, short, rfl⟩

/-- Seven equal bytes are four codes, which fill seven bytes; so do the seven of `ABABABA`. -/
theorem lzw_constant_smallest_seven :
    (lzwEncode initialGlobals (List.replicate 7 65)).1.compressedSize.toNat ≤
      (lzwEncode initialGlobals [65, 66, 65, 66, 65, 66, 65]).1.compressedSize.toNat :=
  (lzw_constant_smallest initialGlobals initialGlobals [65, 66, 65, 66, 65, 66, 65] 65 (by decide) (by decide)).1

end DedupProof
