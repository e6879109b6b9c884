import DedupPipeline.Server.Positions

namespace DedupProof

open DedupModel

def lzwChunks (hash : List UInt8 → SHA256Hash) : EncoderState → List (List UInt8) → List (List UInt8)
  | _, [] => []
  | state, chunk :: chunks =>
    let later := lzwChunks hash (storeChunk hash state chunk) chunks
    if (dedup (hash chunk) state.chunkHashMap state.lzwChunkIndex).1 = -1 then chunk :: later else later

def longestLzw (chunk : List UInt8) : Nat := (13 * chunk.length + 7) / 8

/-- The counters when the chunks `done` have been stored, those in `fresh` by way of LZW. -/
structure Accounts (counters : Counters) (outputSize : Nat) (done fresh : List (List UInt8)) : Prop where
  total : counters.totalCompressedSize = outputSize
  contributions : outputSize = counters.deduplicationContribution + counters.lzwContribution
  duplicates : counters.deduplicationContribution = 4 * counters.dedupChunk
  inputs : counters.inputSizeDedup + counters.inputSizeLzw = done.flatten.length
  lzwInput : counters.inputSizeLzw = fresh.flatten.length
  chunks : counters.dedupChunk + counters.lzwChunk = done.length
  lzwChunks : counters.lzwChunk = fresh.length
  size : outputSize ≤ 4 * done.length + (fresh.map longestLzw).sum

theorem Accounts.none : Accounts Counters.zero 0 [] [] := by
  constructor <;> rfl

theorem length_flatten_concat (chunks : List (List UInt8)) (chunk : List UInt8) :
    (chunks ++ [chunk]).flatten.length = chunks.flatten.length + chunk.length := by
  rw [List.flatten_append, List.length_append, List.flatten_singleton]

theorem Accounts.duplicate {counters : Counters} {outputSize : Nat} {done fresh : List (List UInt8)}
    (accounts : Accounts counters outputSize done fresh) (chunk : List UInt8) :
    Accounts (countDuplicate counters chunk.length) (outputSize + 4) (done ++ [chunk]) fresh := by
  obtain ⟨total, contributions, duplicates, inputs, lzwInput, chunks, lzwChunks, size⟩ := accounts
  have count : (done ++ [chunk]).length = done.length + 1 := List.length_append
  have bytes := length_flatten_concat done chunk
  constructor <;> simp only [countDuplicate, count, bytes] <;> omega

theorem Accounts.compressed {counters : Counters} {outputSize : Nat} {done fresh : List (List UInt8)}
    (accounts : Accounts counters outputSize done fresh) {chunk : List UInt8} {compressedSize : UInt32}
    (small : compressedSize.toNat ≤ longestLzw chunk) (room : 4 + compressedSize.toNat < 2 ^ 32) :
    Accounts (countCompressed counters compressedSize chunk.length) (outputSize + (4 + compressedSize.toNat))
      (done ++ [chunk]) (fresh ++ [chunk]) := by
  obtain ⟨total, contributions, duplicates, inputs, lzwInput, chunks, lzwChunks, size⟩ := accounts
  have added : (4 + compressedSize).toNat = 4 + compressedSize.toNat := by
    rw [UInt32.toNat_add]
    exact Nat.mod_eq_of_lt room
  have count : (done ++ [chunk]).length = done.length + 1 := List.length_append
  have freshCount : (fresh ++ [chunk]).length = fresh.length + 1 := List.length_append
  have bytes := length_flatten_concat done chunk
  have freshBytes := length_flatten_concat fresh chunk
  have sizes : ((fresh ++ [chunk]).map longestLzw).sum = (fresh.map longestLzw).sum + longestLzw chunk := by
    rw [List.map_append, List.sum_append, List.map_singleton, List.sum_singleton]
  constructor <;> simp only [countCompressed, added, count, freshCount, bytes, freshBytes, sizes] <;> omega

theorem length_appendUint32Le (buffer : List UInt8) (value : UInt32) :
    (appendUint32Le buffer value).length = buffer.length + 4 := List.length_append

def accountsOf (state : EncoderState) : List (List UInt8) → List (List UInt8) → Prop :=
  Accounts state.globals.counters state.outputData.length

theorem storeDuplicate_accounts {state : EncoderState} {done fresh : List (List UInt8)}
    (accounts : accountsOf state done fresh) (duplicateIndex : Int) (chunk : List UInt8) :
    accountsOf (storeDuplicate state duplicateIndex chunk.length) (done ++ [chunk]) fresh := by
  have next := Accounts.duplicate accounts chunk
  rwa [← length_appendUint32Le state.outputData (duplicateHeader duplicateIndex)] at next

theorem storeNew_accounts {state : EncoderState} {done fresh : List (List UInt8)}
    (accounts : accountsOf state done fresh) {chunk : List UInt8} (nonempty : chunk ≠ [])
    (upper : chunk.length ≤ maxChunkSize) :
    accountsOf (storeNew state chunk) (done ++ [chunk]) (fresh ++ [chunk]) := by
  have codes := (lzwCodes_length nonempty).2
  have bound : chunk.length ≤ 5120 := upper
  have size := lzwBytes_size nonempty (Nat.le_trans upper (by decide))
  have length := lzwBytes_length chunk
  have few : (UInt32.ofNat (lzwBytes chunk).length).toNat ≤ longestLzw chunk := by
    rw [size, length, longestLzw]
    omega
  have next := Accounts.compressed accounts few (by rw [size, length]; omega)
  have grown : (storeNew state chunk).outputData.length =
      state.outputData.length + (4 + (UInt32.ofNat (lzwBytes chunk).length).toNat) := by
    rw [storeNew_output state nonempty upper, List.length_append, recordBytes, List.length_append,
      length_appendUint32Le, size]
    rfl
  have counters : (storeNew state chunk).globals.counters =
      countCompressed state.globals.counters (UInt32.ofNat (lzwBytes chunk).length) chunk.length := by
    have compressed : (lzwEncode state.globals.lzw chunk).1.compressedSize = UInt32.ofNat (lzwBytes chunk).length :=
      congrArg LzwOutput.compressedSize (lzwEncode_output state.globals.lzw nonempty)
    rw [← compressed]
    rfl
  rwa [← counters, ← grown] at next

theorem storeChunk_accounts (hash : List UInt8 → SHA256Hash) {state : EncoderState}
    {done fresh : List (List UInt8)} (accounts : accountsOf state done fresh) {chunk : List UInt8}
    (nonempty : chunk ≠ []) (upper : chunk.length ≤ maxChunkSize) :
    accountsOf (storeChunk hash state chunk) (done ++ [chunk])
      (if (dedup (hash chunk) state.chunkHashMap state.lzwChunkIndex).1 = -1 then fresh ++ [chunk] else fresh) := by
  by_cases unknown : (dedup (hash chunk) state.chunkHashMap state.lzwChunkIndex).1 = -1
  · rw [if_pos unknown]
    simp only [storeChunk, unknown, ne_eq, not_true, if_false]
    exact storeNew_accounts accounts nonempty upper
  · rw [if_neg unknown]
    simp only [storeChunk, ne_eq, unknown, not_false_eq_true, if_true]
    exact storeDuplicate_accounts accounts _ chunk

theorem foldl_storeChunk_accounts (hash : List UInt8 → SHA256Hash) {chunks : List (List UInt8)}
    (valid : ∀ chunk ∈ chunks, chunk ≠ [] ∧ chunk.length ≤ maxChunkSize) {state : EncoderState}
    {done fresh : List (List UInt8)} (accounts : accountsOf state done fresh) :
    accountsOf (chunks.foldl (storeChunk hash) state) (done ++ chunks) (fresh ++ lzwChunks hash state chunks) := by
  induction chunks generalizing state done fresh with
  | nil => rwa [lzwChunks, List.append_nil, List.append_nil]
  | cons chunk chunks ih =>
    obtain ⟨⟨nonempty, upper⟩, others⟩ := List.forall_mem_cons.mp valid
    have rest := ih others (storeChunk_accounts hash accounts nonempty upper)
    rw [List.append_assoc, List.singleton_append] at rest
    rw [List.foldl_cons, lzwChunks]
    split
    · rename_i unknown
      rwa [if_pos unknown, List.append_assoc] at rest
    · rename_i known
      rwa [if_neg known] at rest

/-- At the end the counters agree with the output and with the file. -/
theorem process_packet_accounts (lzw : LzwGlobals) {file : List UInt8} (short : file.length < 70000000)
    {after : EncoderState} (ran : processPacket ⟨lzw, Counters.zero⟩ file [] = after)
    {fresh : List (List UInt8)}
    (branch : lzwChunks chunkHash (encoderStart ⟨lzw, Counters.zero⟩ []) (fileChunks file) = fresh) :
    after.globals.counters.totalCompressedSize = after.outputData.length ∧
    after.outputData.length =
      after.globals.counters.deduplicationContribution + after.globals.counters.lzwContribution ∧
    after.globals.counters.deduplicationContribution = 4 * after.globals.counters.dedupChunk ∧
    after.globals.counters.inputSizeDedup + after.globals.counters.inputSizeLzw = file.length ∧
    after.globals.counters.dedupChunk + after.globals.counters.lzwChunk = (chunkBounds file).length ∧
    after.globals.counters.lzwChunk = fresh.length ∧ after.globals.counters.inputSizeLzw = fresh.flatten.length ∧
    after.outputData.length ≤
      4 * (chunkBounds file).length + (fresh.map fun chunk => (13 * chunk.length + 7) / 8).sum := by
  have bounded : file.length < 2 ^ 32 := by omega
  have run := foldl_storeChunk_accounts chunkHash (contentChunks_valid file)
    (show accountsOf (encoderStart ⟨lzw, Counters.zero⟩ []) [] [] from Accounts.none)
  rw [← foldl_processChunk chunkHash (chunkBounds_chunks bounded), ← fileChunks_eq bounded, branch] at run
  have accounts : Accounts after.globals.counters after.outputData.length (fileChunks file) fresh := ran ▸ run
  obtain ⟨total, contributions, duplicates, inputs, lzwInput, chunks, lzwChunks, size⟩ := accounts
  rw [fileChunks_flatten bounded] at inputs
  rw [fileChunks, List.length_map] at chunks size
  exact ⟨total, contributions, duplicates, inputs, chunks, lzwChunks, lzwInput, size⟩

theorem process_packet_accounts_twice : ∃ after, processPacket encoderGlobals [27, 27] [] = after ∧
    after.globals.counters.dedupChunk + after.globals.counters.lzwChunk = 2 ∧
    after.globals.counters.inputSizeDedup + after.globals.counters.inputSizeLzw = 2 := by
  obtain ⟨after, ran⟩ : ∃ after, processPacket encoderGlobals [27, 27] [] = after := ⟨_, rfl⟩
  obtain ⟨_, _, _, inputs, chunks, _⟩ :=
    process_packet_accounts initialGlobals (show [27, 27].length < 70000000 by decide) ran rfl
  have count : (chunkBounds [27, 27]).length = 2 := by decide +kernel
  rw [count] at chunks
  exact ⟨after, ran, chunks, inputs⟩

end DedupProof
