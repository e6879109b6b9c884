import DedupPipeline.Library.BackReference
import DedupPipeline.Server.Encoder
import DedupPipeline.Server.LzwTable
import DedupPipeline.Server.Sha256Final
import Mathlib.Algebra.BigOperators.Group.List.Basic

namespace DedupProof

open DedupModel FirstSeen BackReference Splitter

theorem chunkHash_stack {chunk : List UInt8} (bounded : chunk.length < 2 ^ 32) (ctxData : Vector UInt8 64)
    (hashOutput : Vector UInt8 32) : sha256Hash ctxData chunk hashOutput = some (chunkHash chunk) := by
  have digest (ctxData : Vector UInt8 64) (hashOutput : Vector UInt8 32) :
      sha256Hash ctxData chunk hashOutput = some (Fips180.digest chunk) :=
    sha256HashWith_digest sha256Transform_compress bounded ctxData hashOutput
  rw [digest, chunkHash, digest, Option.getD_some]

theorem duplicateHeader_eq {index : Nat} (small : index < 2 ^ 31) :
    duplicateHeader index = UInt32.ofNat (2 * index + 1) := by
  have odd := BitString.or_shiftLeft index (show 1 < 2 ^ 1 by decide)
  have wide : (BitVec.ofInt 64 (index : Int) <<< 1 ||| 1#64).toNat = 2 * index + 1 := by
    rw [BitVec.ofInt_natCast, BitVec.toNat_or, BitVec.toNat_shiftLeft, BitVec.toNat_ofNat, BitVec.toNat_ofNat,
      Nat.mod_eq_of_lt (show index < 2 ^ 64 by omega), Nat.mod_eq_of_lt (by rw [Nat.shiftLeft_eq]; omega),
      Nat.or_comm]
    exact odd.trans (by omega)
  apply UInt32.toNat_inj.1
  rw [UInt32.toNat_ofNat']
  show ((BitVec.ofInt 64 (index : Int) <<< 1 ||| 1#64).setWidth 32).toNat = _
  rw [BitVec.toNat_setWidth, wide]

theorem compressedHeader_eq (size : Nat) :
    (UInt32.ofNat size <<< 1) ||| 0 = UInt32.ofNat (2 * size) := by
  apply UInt32.toNat_inj.1
  rw [UInt32.or_zero, UInt32.toNat_shiftLeft, UInt32.toNat_ofNat', UInt32.toNat_ofNat', Nat.shiftLeft_eq]
  show size % 2 ^ 32 * 2 ^ 1 % 2 ^ 32 = _
  omega

def recordBytes : Record (List UInt8) → List UInt8
  | .fresh chunk => appendUint32Le [] (UInt32.ofNat (2 * (lzwBytes chunk).length)) ++ lzwBytes chunk
  | .reference index => appendUint32Le [] (UInt32.ofNat (2 * index + 1))

theorem appendUint32Le_append (buffer : List UInt8) (value : UInt32) :
    appendUint32Le buffer value = buffer ++ appendUint32Le [] value := rfl

structure IsChunk (file : List UInt8) (bounds : Nat × Nat) (chunk : List UInt8) : Prop where
  slice : Slice file bounds chunk
  nonempty : chunk ≠ []
  upper : chunk.length ≤ maxChunkSize

theorem chunkBounds_chunks {file : List UInt8} (bounded : file.length < 2 ^ 32) :
    List.Forall₂ (IsChunk file) (chunkBounds file) (contentChunks file) := by
  have slices := slices_of_ends file 0 (contentChunks file) (contentChunks_flatten file).symm
  rw [chunkBounds, Nat.mod_eq_of_lt bounded, contentDefinedChunking_eq]
  have valid := (List.forall₂_and_left _ _).mpr ⟨contentChunks_valid file, slices.flip⟩
  exact valid.flip.imp fun _ _ both => ⟨both.2, both.1.1, both.1.2⟩

theorem processChunk_chunk (hash : List UInt8 → SHA256Hash) {file : List UInt8} (state : EncoderState)
    {bounds : Nat × Nat} {chunk : List UInt8} (isChunk : IsChunk file bounds chunk) :
    processChunk hash file state bounds = storeChunk hash state chunk := by
  have positive := List.length_pos_iff.mpr isChunk.nonempty
  have upper : chunk.length ≤ 5120 := isChunk.upper
  have size : (bounds.2 - bounds.1) % 2 ^ 16 = chunk.length := by
    rw [isChunk.slice.size]
    omega
  -- 5120 is below 2^16, so the `uint16_t` keeps the size and the check passes
  have valid : ¬(chunk.length = 0 ∨ maxChunkSize < chunk.length) := by
    rintro (empty | long)
    · omega
    · exact absurd isChunk.upper (Nat.not_le.mpr long)
  simp only [processChunk]
  rw [size, if_neg valid, isChunk.slice.content]

theorem foldl_processChunk (hash : List UInt8 → SHA256Hash) {file : List UInt8} {bounds : List (Nat × Nat)}
    {chunks : List (List UInt8)} (related : List.Forall₂ (IsChunk file) bounds chunks) (state : EncoderState) :
    bounds.foldl (processChunk hash file) state = chunks.foldl (storeChunk hash) state := by
  induction related generalizing state with
  | nil => rfl
  | cons isChunk _ ih => rw [List.foldl_cons, List.foldl_cons, processChunk_chunk hash state isChunk, ih]

def NumberedState (seen : List SHA256Hash) (state : EncoderState) : Prop :=
  Numbered seen state.chunkHashMap state.lzwChunkIndex

theorem storeChunk_known {hash : List UInt8 → SHA256Hash} {seen : List SHA256Hash} {state : EncoderState}
    (numbered : NumberedState seen state) {chunk : List UInt8} (known : hash chunk ∈ seen) :
    storeChunk hash state chunk = storeDuplicate state (number seen (hash chunk)) chunk.length := by
  have nonnegative : ((number seen (hash chunk) : Nat) : Int) ≠ -1 := by omega
  simp only [storeChunk, dedup_known numbered known]
  rw [if_pos nonnegative]

theorem storeChunk_new {hash : List UInt8 → SHA256Hash} {seen : List SHA256Hash} {state : EncoderState}
    (numbered : NumberedState seen state) {chunk : List UInt8} (new : hash chunk ∉ seen) :
    storeChunk hash state chunk = storeNew { state with
      chunkHashMap := Function.update state.chunkHashMap (hash chunk) (some state.lzwChunkIndex)
      lzwChunkIndex := state.lzwChunkIndex + 1 } chunk := by
  simp only [storeChunk, dedup_new numbered new]
  rfl

theorem storeChunk_numbered (hash : List UInt8 → SHA256Hash) {seen : List SHA256Hash} {state : EncoderState}
    (numbered : NumberedState seen state) (chunk : List UInt8) :
    NumberedState (register seen (hash chunk)) (storeChunk hash state chunk) := by
  have next := dedup_numbered numbered (hash chunk)
  by_cases known : hash chunk ∈ seen
  · rw [storeChunk_known numbered known]
    rwa [dedup_known numbered known] at next
  · rw [storeChunk_new numbered known]
    rwa [dedup_new numbered known] at next

theorem appendCompressed_record (outputData : List UInt8) {chunk : List UInt8} (nonempty : chunk ≠ [])
    (upper : chunk.length ≤ maxChunkSize) :
    appendCompressed outputData (UInt32.ofNat (lzwBytes chunk).length) (lzwBytes chunk) =
      outputData ++ recordBytes (.fresh chunk) := by
  rw [appendCompressed, compressedHeader_eq, lzwBytes_size nonempty (Nat.le_trans upper (by decide)),
    List.take_length, appendUint32Le_append, List.append_assoc]
  rfl

theorem storeNew_output (state : EncoderState) {chunk : List UInt8} (nonempty : chunk ≠ [])
    (upper : chunk.length ≤ maxChunkSize) :
    (storeNew state chunk).outputData = state.outputData ++ recordBytes (.fresh chunk) := by
  show appendCompressed state.outputData (lzwEncode state.globals.lzw chunk).1.compressedSize
    (lzwEncode state.globals.lzw chunk).1.compressedData = _
  rw [lzwEncode_output _ nonempty]
  exact appendCompressed_record state.outputData nonempty upper

theorem storeChunk_output {hash : List UInt8 → SHA256Hash} {seen : List SHA256Hash} {state : EncoderState}
    (numbered : NumberedState seen state) (few : seen.length < 2 ^ 31) {chunk : List UInt8} (nonempty : chunk ≠ [])
    (upper : chunk.length ≤ maxChunkSize) :
    (storeChunk hash state chunk).outputData = state.outputData ++ recordBytes (record hash seen chunk) := by
  by_cases known : hash chunk ∈ seen
  · have index := number_lt known
    rw [storeChunk_known numbered known, record_reference known, storeDuplicate, duplicateHeader_eq (by omega)]
    rfl
  · rw [storeChunk_new numbered known, record_fresh known, storeNew_output _ nonempty upper]

theorem foldl_storeChunk (hash : List UInt8 → SHA256Hash) {chunks : List (List UInt8)}
    (valid : ∀ chunk ∈ chunks, chunk ≠ [] ∧ chunk.length ≤ maxChunkSize) {seen : List SHA256Hash}
    {state : EncoderState} (numbered : NumberedState seen state) (few : seen.length + chunks.length ≤ 2 ^ 31) :
    NumberedState (registerAll seen (chunks.map hash)) (chunks.foldl (storeChunk hash) state) ∧
      (chunks.foldl (storeChunk hash) state).outputData =
        state.outputData ++ (records hash seen chunks).flatMap recordBytes := by
  induction chunks generalizing seen state with
  | nil => exact ⟨numbered, (List.append_nil _).symm⟩
  | cons chunk chunks ih =>
    obtain ⟨⟨nonempty, upper⟩, others⟩ := List.forall_mem_cons.mp valid
    have grown := length_register_le seen (hash chunk)
    rw [List.length_cons] at few
    obtain ⟨after, output⟩ := ih others (storeChunk_numbered hash numbered chunk) (by omega)
    refine ⟨after, ?_⟩
    rw [List.foldl_cons, output, storeChunk_output numbered (by omega) nonempty upper, records, List.flatMap_cons,
      List.append_assoc]

theorem length_le_flatten {pieces : List (List UInt8)} (nonempty : ∀ piece ∈ pieces, piece ≠ []) :
    pieces.length ≤ pieces.flatten.length := by
  have positive : ∀ size ∈ pieces.map List.length, 1 ≤ size := by
    intro size member
    obtain ⟨piece, inside, rfl⟩ := List.mem_map.mp member
    exact List.length_pos_iff.mpr (nonempty piece inside)
  have count := List.length_le_sum_of_one_le _ positive
  rwa [List.length_map, ← List.length_flatten] at count

theorem contentChunks_count (file : List UInt8) : (contentChunks file).length ≤ file.length := by
  have count := length_le_flatten fun chunk (member : chunk ∈ contentChunks file) => contentChunks_ne_nil member
  rwa [contentChunks_flatten] at count

theorem encoderStart_numbered (globals : EncoderGlobals) (outputData : List UInt8) :
    NumberedState [] (encoderStart globals outputData) := Numbered.empty

def encoderStateAt (hash : List UInt8 → SHA256Hash) (globals : EncoderGlobals) (file outputData : List UInt8)
    (i : Nat) : EncoderState :=
  ((chunkBounds file).take i).foldl (processChunk hash file) (encoderStart globals outputData)

theorem encoderStateAt_records (hash : List UInt8 → SHA256Hash) (globals : EncoderGlobals)
    {file : List UInt8} (outputData : List UInt8) (bounded : file.length ≤ 2 ^ 31) (i : Nat) :
    NumberedState (registerAll [] (((contentChunks file).take i).map hash))
        (encoderStateAt hash globals file outputData i) ∧
      (encoderStateAt hash globals file outputData i).outputData =
        outputData ++ (records hash [] ((contentChunks file).take i)).flatMap recordBytes := by
  have count := contentChunks_count file
  rw [encoderStateAt, foldl_processChunk hash (List.forall₂_take i (chunkBounds_chunks (by omega)))]
  apply foldl_storeChunk hash _ (encoderStart_numbered globals outputData)
  · rw [List.length_nil, List.length_take]
    omega
  · intro chunk member
    exact contentChunks_valid file chunk (List.mem_of_mem_take member)

theorem chunkBounds_length {file : List UInt8} (bounded : file.length < 2 ^ 32) :
    (chunkBounds file).length = (contentChunks file).length := (chunkBounds_chunks bounded).length_eq

/-- The digests get their numbers and the output the records of all chunks. -/
theorem processPacketWith_records (hash : List UInt8 → SHA256Hash) (globals : EncoderGlobals)
    {file : List UInt8} (outputData : List UInt8) (bounded : file.length ≤ 2 ^ 31) :
    NumberedState (registerAll [] ((contentChunks file).map hash))
        (processPacketWith hash globals file outputData) ∧
      (processPacketWith hash globals file outputData).outputData =
        outputData ++ (records hash [] (contentChunks file)).flatMap recordBytes := by
  have all := encoderStateAt_records hash globals outputData bounded (contentChunks file).length
  rwa [encoderStateAt, ← chunkBounds_length (by omega), List.take_length, chunkBounds_length (by omega),
    List.take_length] at all

end DedupProof
