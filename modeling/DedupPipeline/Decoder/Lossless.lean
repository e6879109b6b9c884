import DedupPipeline.Decoder.Records
import DedupPipeline.Server.RecordOrder

namespace DedupProof

open DedupModel FirstSeen BackReference

def decoderRounds : Nat → DecoderState → Option DecoderState
  | 0, state => some state
  | count + 1, state => do
    match ← decoderStep state with
    | (state, some _) => decoderRounds count state
    | (_, none) => none

structure RecordsRead (state after : DecoderState) (count : Nat) (store items : List (List UInt8))
    (tail : List UInt8) : Prop where
  rounds : decoderRounds count state = some after
  rest : after.reader.input.rest = tail
  chunks : after.chunks = store
  output : after.output = state.output ++ items.flatten
  total : after.totalChunksInHeader = state.totalChunksInHeader + count
  successful : after.successfulChunks = state.successfulChunks + count
  failed : after.failedChunks = state.failedChunks

theorem decoderRounds_records {recs : List (Record (List UInt8))} (encodable : ∀ record ∈ recs, Encodable record)
    {state : DecoderState} {store items : List (List UInt8)} {tail : List UInt8}
    (replayed : replay state.chunks recs = some (store, items))
    (stream : state.reader.input.rest = recs.flatMap recordBytes ++ tail) :
    ∃ after, RecordsRead state after recs.length store items tail := by
  induction recs generalizing state items with
  | nil =>
    rw [replay, Option.some.injEq, Prod.mk.injEq] at replayed
    obtain ⟨rfl, rfl⟩ := replayed
    exact ⟨state, rfl, stream, rfl, (List.append_nil _).symm, rfl, rfl, rfl⟩
  | cons record recs ih =>
    obtain ⟨⟨next, item⟩, stepped, replayed⟩ := Option.bind_eq_some_iff.mp replayed
    obtain ⟨⟨last, later⟩, ran, same⟩ := Option.bind_eq_some_iff.mp replayed
    obtain ⟨rfl, rfl⟩ := Prod.mk.inj (Option.some.inj same)
    rw [List.flatMap_cons, List.append_assoc] at stream
    obtain ⟨fits, others⟩ := List.forall_mem_cons.mp encodable
    obtain ⟨middle, header, first⟩ := decoderStep_record fits stepped stream
    rw [← first.chunks] at ran
    obtain ⟨after, read⟩ := ih others ran first.rest
    refine ⟨after, ?_, read.rest, read.chunks, ?_, ?_, ?_, ?_⟩
    · rw [List.length_cons, decoderRounds, first.step]
      exact read.rounds
    · rw [read.output, first.output, List.flatten_cons, List.append_assoc]
    · rw [read.total, first.total, List.length_cons]
      omega
    · rw [read.successful, first.successful, List.length_cons]
      omega
    · rw [read.failed, first.failed]

theorem decoderLoop_rounds {count : Nat} {state after : DecoderState}
    (rounds : decoderRounds count state = some after) (fuel : Nat) :
    decoderLoop (count + fuel) state = decoderLoop fuel after := by
  induction count generalizing state with
  | zero =>
    rw [decoderRounds, Option.some.injEq] at rounds
    rw [rounds, Nat.zero_add]
  | succ count ih =>
    rw [decoderRounds] at rounds
    obtain ⟨⟨next, header⟩, step, rest⟩ := Option.bind_eq_some_iff.mp rounds
    rw [Nat.add_right_comm, decoderLoop, step]
    cases header with
    | none => cases rest
    | some header => exact ih rest

def atEnd (state : DecoderState) : DecoderState :=
  { state with reader := { state.reader with input := InputStream.exhausted } }

theorem decoderLoop_end {state : DecoderState} (short : state.reader.input.rest.length < 4) (fuel : Nat) :
    decoderLoop (fuel + 1) state = some (atEnd state) := by
  have header : state.reader.input.readHeader = (none, InputStream.exhausted) := by
    unfold InputStream.readHeader
    split
    · rename_i stream
      rw [stream] at short
      simp at short
      omega
    · rfl
  rw [decoderLoop, decoderStep, header]
  rfl

theorem records_encodable (hash : List UInt8 → SHA256Hash) {chunks : List (List UInt8)}
    (valid : ∀ chunk ∈ chunks, chunk ≠ [] ∧ chunk.length ≤ maxChunkSize) {seen : List SHA256Hash}
    (few : seen.length + chunks.length ≤ 2 ^ 31) : ∀ record ∈ records hash seen chunks, Encodable record := by
  induction chunks generalizing seen with
  | nil =>
    intro record member
    cases member
  | cons chunk chunks ih =>
    have grown := length_register_le seen (hash chunk)
    obtain ⟨fits, others⟩ := List.forall_mem_cons.mp valid
    rw [List.length_cons] at few
    intro record member
    rcases List.mem_cons.mp member with rfl | later
    · by_cases known : hash chunk ∈ seen
      · have index := number_lt known
        rw [record_reference known]
        show number seen (hash chunk) < 2 ^ 31
        omega
      · rw [record_fresh known]
        exact fits
    · exact ih others (by omega) record later

def recordStream (hash : List UInt8 → SHA256Hash) (chunks : List (List UInt8)) : List UInt8 :=
  (records hash [] chunks).flatMap recordBytes

theorem recordBytes_ne_nil (record : Record (List UInt8)) : recordBytes record ≠ [] := by
  cases record <;> simp [recordBytes, appendUint32Le]

theorem records_le_stream (hash : List UInt8 → SHA256Hash) (chunks : List (List UInt8)) :
    chunks.length ≤ (recordStream hash chunks).length := by
  have pieces : ∀ piece ∈ (records hash [] chunks).map recordBytes, piece ≠ [] := by
    intro piece member
    obtain ⟨record, _, rfl⟩ := List.mem_map.mp member
    exact recordBytes_ne_nil record
  have count := length_le_flatten pieces
  rwa [List.length_map, length_records, ← List.flatMap_def] at count

section

variable {hash : List UInt8 → SHA256Hash} {chunks : List (List UInt8)}
  (valid : ∀ chunk ∈ chunks, chunk ≠ [] ∧ chunk.length ≤ maxChunkSize) (few : chunks.length ≤ 2 ^ 31)

include valid few

theorem stream_encodable : ∀ record ∈ records hash [] chunks, Encodable record := by
  apply records_encodable hash valid
  rwa [List.length_nil, Nat.zero_add]

theorem decoderMain_stream {store items : List (List UInt8)}
    (replayed : replay [] (records hash [] chunks) = some (store, items)) :
    ∃ final, decoderMain (recordStream hash chunks) = some final ∧ final.reader.input.eof = true ∧
      final.output = items.flatten ∧ final.totalChunksInHeader = chunks.length ∧
      final.successfulChunks = chunks.length ∧ final.failedChunks = 0 := by
  have stream : (decoderStart (recordStream hash chunks)).reader.input.rest =
      (records hash [] chunks).flatMap recordBytes ++ [] := (List.append_nil _).symm
  obtain ⟨after, read⟩ := decoderRounds_records (stream_encodable valid few) replayed stream
  rw [length_records] at read
  obtain ⟨spare, size⟩ := Nat.exists_eq_add_of_le (records_le_stream hash chunks)
  refine ⟨atEnd after, ?_, rfl, read.output, read.total.trans (Nat.zero_add _),
    read.successful.trans (Nat.zero_add _), read.failed⟩
  rw [decoderMain, size, Nat.add_assoc, decoderLoop_rounds read.rounds, decoderLoop_end (by rw [read.rest]; decide)]

theorem decoderRounds_stream {i : Nat} (inside : i < chunks.length) :
    ∃ before after header store item tail, decoderRounds i (decoderStart (recordStream hash chunks)) = some before ∧
      before.chunks.length = (registerAll [] ((chunks.take i).map hash)).length ∧
      RecordRead before after header store item tail := by
  have parts : chunks = chunks.take i ++ chunks[i] :: chunks.drop (i + 1) := by
    rw [← List.drop_eq_getElem_cons inside, List.take_append_drop]
  have split : records hash [] chunks = records hash [] (chunks.take i) ++
      record hash (registerAll [] ((chunks.take i).map hash)) chunks[i] ::
        records hash (register (registerAll [] ((chunks.take i).map hash)) (hash chunks[i]))
          (chunks.drop (i + 1)) := by
    conv_lhs => rw [parts, records_append, records]
  have encodable : ∀ record ∈ records hash [] chunks, Encodable record := stream_encodable valid few
  rw [split] at encodable
  have stream : (decoderStart (recordStream hash chunks)).reader.input.rest =
      (records hash [] (chunks.take i)).flatMap recordBytes ++ (recordBytes
        (record hash (registerAll [] ((chunks.take i).map hash)) chunks[i]) ++
        (records hash (register (registerAll [] ((chunks.take i).map hash)) (hash chunks[i]))
          (chunks.drop (i + 1))).flatMap recordBytes) := by
    show recordStream hash chunks = _
    rw [recordStream, split, List.flatMap_append, List.flatMap_cons]
  have empty : ([] : List (List UInt8)).map hash = [] := rfl
  obtain ⟨store, items, replayed, mirror, _, _⟩ := replay_records empty (chunks.take i)
  -- the rounds before record `i`, then one more
  obtain ⟨before, read⟩ := decoderRounds_records
    (fun record member => encodable record (List.mem_append_left _ member)) replayed stream
  obtain ⟨next, item, stepped, _⟩ := replayStep_record mirror chunks[i]
  rw [← read.chunks] at stepped mirror
  obtain ⟨after, header, last⟩ := decoderStep_record
    (encodable _ (List.mem_append_right _ List.mem_cons_self)) stepped read.rest
  have rounds := read.rounds
  rw [length_records, List.length_take, Nat.min_eq_left (Nat.le_of_lt inside)] at rounds
  refine ⟨before, after, header, next, item, _, rounds, ?_, last⟩
  rw [← mirror, List.length_map]

end

/-- Whatever the digest function, the decoder accepts every record, and before each record it holds as many
    chunks as the encoder had numbered. -/
theorem decoder_lockstep (hash : List UInt8 → SHA256Hash) (globals : EncoderGlobals) (file : List UInt8)
    (short : file.length < 70000000) :
    (∃ final, decoderMain (processPacketWith hash globals file []).outputData = some final ∧
      final.reader.input.eof = true ∧ final.failedChunks = 0 ∧
      final.totalChunksInHeader = (chunkBounds file).length ∧
      final.successfulChunks = (chunkBounds file).length) ∧
    ∀ i < (chunkBounds file).length, ∃ before after header,
      decoderRounds i (decoderStart (processPacketWith hash globals file []).outputData) = some before ∧
      decoderStep before = some (after, some header) ∧
      before.chunks.length = (encoderStateAt hash globals file [] i).lzwChunkIndex ∧
      (header &&& 1 = 0 → 2 ≤ (header >>> 1).toNat ∧ (header >>> 1).toNat ≤ 8320) ∧
      (header &&& 1 = 1 → (header >>> 1).toNat < before.chunks.length) := by
  have valid := contentChunks_valid file
  have count := contentChunks_count file
  have few : (contentChunks file).length ≤ 2 ^ 31 := by omega
  have output : (processPacketWith hash globals file []).outputData = recordStream hash (contentChunks file) :=
    (processPacketWith_records hash globals [] (by omega)).2
  rw [chunkBounds_length (by omega), output]
  constructor
  · have empty : ([] : List (List UInt8)).map hash = [] := rfl
    obtain ⟨store, items, replayed, _⟩ := replay_records empty (contentChunks file)
    obtain ⟨final, ran, ended, _, total, successful, failed⟩ := decoderMain_stream valid few replayed
    exact ⟨final, ran, ended, failed, total, successful⟩
  · intro i inside
    obtain ⟨before, after, header, store, item, tail, rounds, held, read⟩ := decoderRounds_stream valid few inside
    have numbered := (encoderStateAt_records hash globals [] (show file.length ≤ 2 ^ 31 by omega) i).1
    refine ⟨before, after, header, rounds, read.step, ?_, read.size, read.location⟩
    rw [held]
    exact numbered.next.symm

theorem decoder_lockstep_twice : ∃ before after header,
    decoderRounds 1 (decoderStart
      (processPacketWith (fun _ => Vector.replicate 32 0) encoderGlobals [27, 114] []).outputData) = some before ∧
    decoderStep before = some (after, some header) ∧ before.chunks.length = 1 := by
  have bounds : (chunkBounds [27, 114]).length = 2 := by decide +kernel
  have index : (encoderStateAt (fun _ => Vector.replicate 32 0) encoderGlobals [27, 114] [] 1).lzwChunkIndex = 1 := by
    decide +kernel
  obtain ⟨before, after, header, rounds, step, held, _⟩ :=
    (decoder_lockstep (fun _ => Vector.replicate 32 0) encoderGlobals [27, 114] (by decide)).2 1
      (by rw [bounds]; decide)
  rw [index] at held
  exact ⟨before, after, header, rounds, step, by omega⟩

theorem decoder_lossless (globals : EncoderGlobals) (file : List UInt8) (short : file.length < 70000000)
    (separate : ∀ left ∈ fileChunks file, ∀ right ∈ fileChunks file, chunkHash left = chunkHash right → left = right) :
    ∃ final, decoderMain (processPacket globals file []).outputData = some final ∧ final.output = file := by
  have count := contentChunks_count file
  have output : (processPacket globals file []).outputData = recordStream chunkHash (contentChunks file) :=
    (processPacketWith_records chunkHash globals [] (by omega)).2
  rw [fileChunks_eq (by omega)] at separate
  obtain ⟨store, replayed⟩ := replay_records_exact (contentChunks file) separate
  obtain ⟨final, ran, _, written, _⟩ := decoderMain_stream (contentChunks_valid file) (by omega) replayed
  rw [contentChunks_flatten] at written
  exact ⟨final, by rwa [output], written⟩

theorem decoder_lossless_twice : ∃ final,
    decoderMain (processPacket encoderGlobals [27, 27] []).outputData = some final ∧ final.output = [27, 27] := by
  have chunks : fileChunks [27, 27] = [[27], [27]] := by decide +kernel
  apply decoder_lossless encoderGlobals [27, 27] (by decide)
  intro left inLeft right inRight _
  rw [chunks] at inLeft inRight
  simp only [List.mem_cons, List.not_mem_nil, or_false, or_self] at inLeft inRight
  rw [inLeft, inRight]

end DedupProof
