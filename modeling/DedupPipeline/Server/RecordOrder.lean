import DedupPipeline.Server.EncoderRecords
import Mathlib.Data.Nat.Digits.Defs

namespace DedupProof

open DedupModel FirstSeen BackReference Splitter

def fileChunks (file : List UInt8) : List (List UInt8) :=
  (chunkBounds file).map fun bounds => (file.drop bounds.1).take (bounds.2 - bounds.1)

theorem fileChunks_eq {file : List UInt8} (bounded : file.length < 2 ^ 32) :
    fileChunks file = contentChunks file := by
  have related := chunkBounds_chunks bounded
  rw [fileChunks]
  generalize chunkBounds file = bounds at related ⊢
  generalize contentChunks file = chunks at related ⊢
  induction related with
  | nil => rfl
  | cons isChunk _ ih => rw [List.map_cons, ih, isChunk.slice.size, Nat.add_sub_cancel_left, isChunk.slice.content]

def lzwRecord (output : LzwOutput) : List UInt8 :=
  appendUint32Le [] (UInt32.ofNat (2 * output.compressedSize.toNat)) ++ output.compressedData

def duplicateRecord (r : Nat) : List UInt8 := appendUint32Le [] (UInt32.ofNat (2 * r + 1))

/-- The four bytes of a number, the lowest one first. -/
structure IsHeader (bytes : List UInt8) (value : Nat) : Prop where
  length : bytes.length = 4
  value : Nat.ofDigits 256 (bytes.map UInt8.toNat) = value

theorem IsHeader.unique {first second : List UInt8} {value : Nat} (one : IsHeader first value)
    (two : IsHeader second value) : first = second := by
  have digits (bytes : List UInt8) : ∀ digit ∈ bytes.map UInt8.toNat, digit < 256 := by
    intro digit member
    obtain ⟨byte, _, rfl⟩ := List.mem_map.mp member
    exact byte.toNat_lt
  have lengths : (first.map UInt8.toNat).length = (second.map UInt8.toNat).length := by
    rw [List.length_map, List.length_map, one.length, two.length]
  have same := Nat.ofDigits_inj_of_len_eq (by decide : 1 < 256) lengths (digits first) (digits second)
    (one.value.trans two.value.symm)
  exact (List.map_inj_right fun _ _ => UInt8.toNat_inj.1).mp same

theorem appendUint32Le_isHeader {value : Nat} (small : value < 2 ^ 32) :
    IsHeader (appendUint32Le [] (UInt32.ofNat value)) value := by
  have kept : (UInt32.ofNat value).toNat = value := UInt32.toNat_ofNat_of_lt' small
  refine ⟨rfl, ?_⟩
  simp only [appendUint32Le, List.nil_append, List.map_cons, List.map_nil, Nat.ofDigits, low_byte,
    UInt32.toNat_shiftRight, kept, UInt32.reduceToNat, Nat.reduceMod, Nat.shiftRight_eq_div_pow, Nat.cast_id]
  omega

theorem isHeader_iff {bytes : List UInt8} {value : Nat} (small : value < 2 ^ 32) :
    IsHeader bytes value ↔ bytes = appendUint32Le [] (UInt32.ofNat value) :=
  ⟨fun header => header.unique (appendUint32Le_isHeader small), fun same => same ▸ appendUint32Le_isHeader small⟩

theorem recordBytes_fresh (lzw : LzwGlobals) {chunk : List UInt8} (nonempty : chunk ≠ [])
    (upper : chunk.length ≤ maxChunkSize) : recordBytes (.fresh chunk) = lzwRecord (lzwEncode lzw chunk).1 := by
  have size := lzwBytes_size nonempty (Nat.le_trans upper (by decide))
  rw [lzwEncode_output lzw nonempty, lzwRecord, size]
  rfl

theorem lzwEncode_size_lt (lzw : LzwGlobals) {chunk : List UInt8} (nonempty : chunk ≠ [])
    (upper : chunk.length ≤ maxChunkSize) : 2 * (lzwEncode lzw chunk).1.compressedSize.toNat < 2 ^ 32 := by
  have codes := (lzwCodes_length nonempty).2
  have bound : chunk.length ≤ 5120 := upper
  have size := lzwBytes_size nonempty (Nat.le_trans upper (by decide))
  rw [lzwEncode_output lzw nonempty]
  show 2 * (UInt32.ofNat (lzwBytes chunk).length).toNat < 2 ^ 32
  rw [size, lzwBytes_length]
  omega

theorem lzwRecord_iff (lzw : LzwGlobals) {chunk record : List UInt8} (nonempty : chunk ≠ [])
    (upper : chunk.length ≤ maxChunkSize) :
    record = lzwRecord (lzwEncode lzw chunk).1 ↔
      ∃ header, IsHeader header (2 * (lzwEncode lzw chunk).1.compressedSize.toNat) ∧
        record = header ++ (lzwEncode lzw chunk).1.compressedData := by
  have header_iff (bytes : List UInt8) : IsHeader bytes _ ↔ bytes = _ :=
    isHeader_iff (lzwEncode_size_lt lzw nonempty upper)
  constructor
  · rintro rfl
    exact ⟨_, (header_iff _).mpr rfl, rfl⟩
  · rintro ⟨header, isHeader, rfl⟩
    rw [(header_iff header).mp isHeader]
    rfl

theorem lzwEncode_data_length (lzw : LzwGlobals) {chunk : List UInt8} (nonempty : chunk ≠ [])
    (upper : chunk.length ≤ maxChunkSize) :
    (lzwEncode lzw chunk).1.compressedData.length = (lzwEncode lzw chunk).1.compressedSize.toNat := by
  have size := lzwBytes_size nonempty (Nat.le_trans upper (by decide))
  rw [lzwEncode_output lzw nonempty]
  exact size.symm

theorem lzwRecord_ne_duplicateRecord (lzw : LzwGlobals) {chunk : List UInt8} (nonempty : chunk ≠ [])
    (r : Nat) : lzwRecord (lzwEncode lzw chunk).1 ≠ duplicateRecord r := by
  intro same
  have codes := (lzwCodes_length nonempty).1
  have size := congrArg List.length same
  rw [lzwEncode_output lzw nonempty, lzwRecord, duplicateRecord, List.length_append, lzwBytes_length] at size
  simp only [appendUint32Le, List.nil_append, List.length_cons, List.length_nil] at size
  omega

theorem mem_take_iff {digests : List SHA256Hash} {digest : SHA256Hash} {i : Nat} :
    digest ∈ digests.take i ↔ ∃ j < i, digests[j]? = some digest := by
  rw [List.mem_iff_getElem?]
  constructor
  · rintro ⟨j, found⟩
    rw [List.getElem?_take] at found
    split at found
    · exact ⟨j, by assumption, found⟩
    · cases found
  · rintro ⟨j, inside, found⟩
    exact ⟨j, by rw [List.getElem?_take, if_pos inside, found]⟩

theorem recordBytes_iff (lzw : LzwGlobals) (hash : List UInt8 → SHA256Hash) {digests : List SHA256Hash} {i : Nat}
    {chunk : List UInt8} (nonempty : chunk ≠ []) (upper : chunk.length ≤ maxChunkSize) :
    (recordBytes (record hash (registerAll [] (digests.take i)) chunk) = lzwRecord (lzwEncode lzw chunk).1 ↔
      ∀ j < i, digests[j]? ≠ some (hash chunk)) ∧
    ((∃ j < i, digests[j]? = some (hash chunk)) →
      recordBytes (record hash (registerAll [] (digests.take i)) chunk) =
        duplicateRecord (rank digests (hash chunk))) := by
  by_cases known : hash chunk ∈ digests.take i
  · rw [record_reference (mem_registerAll_nil.mpr known), number_take known]
    obtain ⟨j, inside, same⟩ := mem_take_iff.mp known
    constructor
    · constructor
      · intro fresh
        exact absurd fresh.symm (lzwRecord_ne_duplicateRecord lzw nonempty _)
      · intro absent
        exact absurd same (absent j inside)
    · exact fun _ => rfl
  · have absent : ∀ j < i, digests[j]? ≠ some (hash chunk) :=
      fun j inside same => known (mem_take_iff.mpr ⟨j, inside, same⟩)
    have new : hash chunk ∉ registerAll [] (digests.take i) := fun old => known (mem_registerAll_nil.mp old)
    rw [record_fresh new, recordBytes_fresh lzw nonempty upper]
    constructor
    · exact ⟨fun _ => absent, fun _ => rfl⟩
    · rintro ⟨j, inside, same⟩
      exact absurd same (absent j inside)

theorem rank_header (file : List UInt8) (short : file.length < 70000000) {i : Nat} {digest : SHA256Hash}
    (earlier : ∃ j < i, ((contentChunks file).map chunkHash)[j]? = some digest) :
    2 * rank ((contentChunks file).map chunkHash) digest + 1 < 2 ^ 32 := by
  have chunks := contentChunks_count file
  have count := rank_lt (List.mem_of_mem_take (mem_take_iff.mpr earlier))
  rw [List.length_map] at count
  omega

theorem numbered_ranks {state : EncoderState} {digests : List SHA256Hash}
    (numbered : NumberedState (registerAll [] digests) state) (digest : SHA256Hash) :
    state.chunkHashMap digest = if digest ∈ digests then some (rank digests digest : Int) else none := by
  have lookup := numbered.lookup digest
  by_cases member : digest ∈ digests
  · rw [if_pos (mem_registerAll_nil.mpr member), number_eq_rank member] at lookup
    rwa [if_pos member]
  · rw [if_neg fun old => member (mem_registerAll_nil.mp old)] at lookup
    rwa [if_neg member]

/-- Every digest is stored once, at its first occurrence. -/
theorem process_packet_records (lzw : LzwGlobals) (globals : EncoderGlobals) (file outputData : List UInt8)
    (short : file.length < 70000000) :
    ∃ recs : List (List UInt8),
      (processPacket globals file outputData).outputData = outputData ++ recs.flatten ∧
      recs.length = (fileChunks file).length ∧
      (∀ (i : Nat) (chunk record : List UInt8), (fileChunks file)[i]? = some chunk → recs[i]? = some record →
        ((∃ header, IsHeader header (2 * (lzwEncode lzw chunk).1.compressedSize.toNat) ∧
            record = header ++ (lzwEncode lzw chunk).1.compressedData) ↔
          ∀ j < i, ((fileChunks file).map chunkHash)[j]? ≠ some (chunkHash chunk)) ∧
        (lzwEncode lzw chunk).1.compressedData.length = (lzwEncode lzw chunk).1.compressedSize.toNat ∧
        ((∃ j < i, ((fileChunks file).map chunkHash)[j]? = some (chunkHash chunk)) →
          IsHeader record (2 * rank ((fileChunks file).map chunkHash) (chunkHash chunk) + 1))) ∧
      (processPacket globals file outputData).lzwChunkIndex = ((fileChunks file).map chunkHash).toFinset.card ∧
      ∀ digest, (processPacket globals file outputData).chunkHashMap digest =
        if digest ∈ (fileChunks file).map chunkHash then
          some (rank ((fileChunks file).map chunkHash) digest : Int) else none := by
  obtain ⟨numbered, output⟩ :=
    processPacketWith_records chunkHash globals outputData (show file.length ≤ 2 ^ 31 by omega)
  rw [fileChunks_eq (by omega)]
  refine ⟨(records chunkHash [] (contentChunks file)).map recordBytes, ?_, ?_, ?_, ?_, ?_⟩
  · rw [← List.flatMap_def]
    exact output
  · rw [List.length_map, length_records]
  · intro i chunk record found stored
    obtain ⟨nonempty, upper⟩ := contentChunks_valid file chunk (List.mem_of_getElem? found)
    rw [List.getElem?_map, getElem?_records, found, List.map_take] at stored
    obtain rfl := Option.some.inj stored
    obtain ⟨first, later⟩ := recordBytes_iff lzw chunkHash nonempty upper
    refine ⟨(lzwRecord_iff lzw nonempty upper).symm.trans first, lzwEncode_data_length lzw nonempty upper, ?_⟩
    intro earlier
    exact (isHeader_iff (rank_header file short earlier)).mpr (later earlier)
  · have next := numbered.next
    rwa [length_registerAll] at next
  · exact numbered_ranks numbered

theorem process_packet_records_twice :
    (processPacket encoderGlobals [27, 27] []).outputData = [4, 0, 0, 0, 0, 216] ++ [1, 0, 0, 0] ∧
      (processPacket encoderGlobals [27, 27] []).lzwChunkIndex = 1 ∧
      (processPacket encoderGlobals [27, 27] []).chunkHashMap (chunkHash [27]) = some 0 := by
  obtain ⟨recs, output, count, order, index, lookup⟩ :=
    process_packet_records initialGlobals encoderGlobals [27, 27] [] (by decide)
  have chunks : fileChunks [27, 27] = [[27], [27]] := by decide +kernel
  have size : (lzwEncode initialGlobals [27]).1.compressedSize.toNat = 2 := by decide +kernel
  have data : (lzwEncode initialGlobals [27]).1.compressedData = [0, 216] := by decide +kernel
  rw [chunks] at count order index lookup
  obtain ⟨first, second, rfl⟩ := List.length_eq_two.mp count
  obtain ⟨header, four, rfl⟩ := (order 0 [27] first rfl rfl).1.mpr fun j inside => absurd inside (Nat.not_lt_zero j)
  have one := (order 1 [27] second rfl rfl).2.2 ⟨0, Nat.zero_lt_one, rfl⟩
  have zero : rank ([[27], [27]].map chunkHash) (chunkHash [27]) = 0 := by simp [rank]
  rw [size, isHeader_iff (by decide)] at four
  rw [zero, isHeader_iff (by decide)] at one
  refine ⟨?_, by rw [index]; simp, ?_⟩
  · rw [output, four, one, data]
    decide
  · rw [lookup, zero]
    simp

theorem contentChunks_append {a b : List UInt8}
    (boundary : a.length ∈ contentDefinedChunking (a ++ b) (a ++ b).length []) :
    contentChunks (a ++ b) = contentChunks a ++ contentChunks b := by
  rw [contentDefinedChunking_eq] at boundary
  obtain ⟨count, position⟩ := mem_ends boundary
  apply split_append contentCut [] a b count
  have whole := contentChunks_flatten (a ++ b)
  rw [← List.take_append_drop count (contentChunks (a ++ b)), List.flatten_append] at whole
  have front : ((contentChunks (a ++ b)).take count).flatten <+: a ++ b := ⟨_, whole⟩
  have size : ((contentChunks (a ++ b)).take count).flatten.length = a.length := by omega
  exact (List.prefix_of_prefix_length_le front (List.prefix_append a b) (Nat.le_of_eq size)).eq_of_length size

end DedupProof
