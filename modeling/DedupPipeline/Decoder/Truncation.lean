import DedupPipeline.Decoder.Lossless
import DedupPipeline.Decoder.Untrusted

namespace DedupProof

open DedupModel BackReference FirstSeen

theorem decompress_cut {chunk decoded : List UInt8} {reader after : Reader} (nonempty : chunk ≠ [])
    (short : reader.input.rest.length < (lzwBytes chunk).length)
    (ran : decompress (lzwBytes chunk).length reader = some (decoded, after)) :
    decoded ≠ [] ∧ after.input.rest = [] := by
  have count := (lzwCodes_length nonempty).1
  have size := lzwBytes_length chunk
  refine ⟨decompress_ne_nil ran, ?_⟩
  rw [decompress_reader ran, readCodes_rest, size, codeCount_packed count, ← size]
  exact List.drop_of_length_le (Nat.le_of_lt short)

structure CutRead (state after : DecoderState) : Prop where
  rest : after.reader.input.rest = []
  total : after.totalChunksInHeader = state.totalChunksInHeader + 1
  successful : after.successfulChunks = state.successfulChunks + 1

/-- What is left of a record, without its whole header, or with codes in the table when the bits that are missing
    are taken for ones. -/
def CutInTable (part : List UInt8) : Record (List UInt8) → Prop
  | .reference _ => part.length < 4
  | .fresh chunk => part.length < 4 ∨ InTable (lzwBytes chunk).length (part.drop 4)

theorem decoderStep_cut {state : DecoderState} {record : Record (List UInt8)} (encodable : Encodable record)
    (inside : state.reader.input.rest <+: recordBytes record)
    (shorter : state.reader.input.rest.length < (recordBytes record).length)
    (header : 4 ≤ state.reader.input.rest.length) :
    (¬CutInTable state.reader.input.rest record ∧ decoderStep state = none) ∨
      (CutInTable state.reader.input.rest record ∧
        ∃ after value, decoderStep state = some (after, some value) ∧ CutRead state after) := by
  cases record with
  | reference index =>
    rw [recordBytes] at shorter
    exact absurd header (Nat.not_le.mpr shorter)
  | fresh chunk =>
    obtain ⟨nonempty, upper⟩ := encodable
    obtain ⟨least, most⟩ := lzwBytes_bounds nonempty upper
    obtain ⟨even, size⟩ := even_header (show (lzwBytes chunk).length < 2 ^ 31 by omega)
    rw [recordBytes] at inside shorter
    obtain ⟨payload, stream⟩ := List.prefix_of_prefix_length_le (List.prefix_append _ _) inside header
    rw [← stream, List.length_append, List.length_append, Nat.add_lt_add_iff_left] at shorter
    have step := decoderStep_header stream.symm
    have behind : state.reader.input.rest.drop 4 = payload := by
      rw [← stream]
      rfl
    have table : CutInTable state.reader.input.rest (.fresh chunk) ↔
        (decompress (lzwBytes chunk).length (behindHeader state payload).reader).isSome = true := by
      rw [decompress_isSome_iff, CutInTable, or_iff_right (Nat.not_lt.mpr header), behind]
      rfl
    generalize UInt32.ofNat (2 * (lzwBytes chunk).length) = value at even size step
    rw [← size] at least most
    rw [table]
    cases decoded : decompress (lzwBytes chunk).length (behindHeader state payload).reader with
    | none =>
      left
      rw [step, decodeRecord_even even least most, size, decoded]
      exact ⟨Bool.false_ne_true, rfl⟩
    | some result =>
      obtain ⟨string, reader⟩ := result
      obtain ⟨content, rest⟩ := decompress_cut nonempty shorter decoded
      rw [← size] at decoded
      right
      rw [step, decodeRecord_lzw even least most decoded content]
      exact ⟨rfl, _, value, rfl, rest, rfl, rfl⟩

section

variable {hash : List UInt8 → SHA256Hash} {chunks : List (List UInt8)}
  (valid : ∀ chunk ∈ chunks, chunk ≠ [] ∧ chunk.length ≤ maxChunkSize) (few : chunks.length ≤ 2 ^ 31)

include valid few

def Successful (ran : Option DecoderState) : Prop :=
  ∃ final, ran = some final ∧ final.successfulChunks = final.totalChunksInHeader

omit valid few in
theorem decoderLoop_short {state : DecoderState} (short : state.reader.input.rest.length < 4)
    (agree : state.successfulChunks = state.totalChunksInHeader) (fuel : Nat) :
    Successful (decoderLoop (fuel + 1) state) := ⟨_, decoderLoop_end short fuel, agree⟩

omit valid few in
theorem decoderLoop_cut {state : DecoderState} {record : Record (List UInt8)} {fuel : Nat}
    (encodable : Encodable record) (inside : state.reader.input.rest <+: recordBytes record)
    (shorter : state.reader.input.rest.length < (recordBytes record).length)
    (agree : state.successfulChunks = state.totalChunksInHeader) (enough : state.reader.input.rest.length ≤ fuel) :
    (¬CutInTable state.reader.input.rest record ∧ decoderLoop (fuel + 1) state = none) ∨
      (CutInTable state.reader.input.rest record ∧ Successful (decoderLoop (fuel + 1) state)) := by
  by_cases header : 4 ≤ state.reader.input.rest.length
  · obtain ⟨more, rfl⟩ : ∃ more, fuel = more + 1 := ⟨fuel - 1, by omega⟩
    rcases decoderStep_cut encodable inside shorter header with ⟨out, outside⟩ | ⟨known, after, value, step, read⟩
    · left
      rw [decoderLoop, outside]
      exact ⟨out, rfl⟩
    · right
      have ended : after.reader.input.rest.length < 4 := by
        rw [read.rest]
        decide
      rw [decoderLoop, step]
      exact ⟨known, decoderLoop_short ended (by rw [read.successful, read.total, agree]) more⟩
  · right
    have short := Nat.not_le.mp header
    refine ⟨?_, decoderLoop_short short agree fuel⟩
    cases record with
    | reference index => exact short
    | fresh chunk => exact Or.inl short

theorem decoderMain_cut {cut : List UInt8} (inside : cut <+: recordStream hash chunks) :
    ∃ count part, cut = recordStream hash (chunks.take count) ++ part ∧
      ((part = [] ∧ Successful (decoderMain cut)) ∨
        ∃ record, (records hash [] chunks)[count]? = some record ∧ part <+: recordBytes record ∧
          part.length < (recordBytes record).length ∧
          ((¬CutInTable part record ∧ decoderMain cut = none) ∨
            (CutInTable part record ∧ Successful (decoderMain cut)))) := by
  rw [recordStream, List.flatMap_def] at inside
  obtain ⟨count, part, rfl, last⟩ := Splitter.cut_flatten inside
  rw [← List.map_take, take_records, ← List.flatMap_def]
  refine ⟨count, part, rfl, ?_⟩
  have empty : ([] : List (List UInt8)).map hash = [] := rfl
  obtain ⟨store, items, replayed, _⟩ := replay_records empty (chunks.take count)
  have encodable : ∀ record ∈ records hash [] (chunks.take count), Encodable record := by
    intro record member
    rw [← take_records] at member
    exact stream_encodable valid few record (List.mem_of_mem_take member)
  have stream : (decoderStart ((records hash [] (chunks.take count)).flatMap recordBytes ++ part)).reader.input.rest =
      (records hash [] (chunks.take count)).flatMap recordBytes ++ part := rfl
  obtain ⟨after, read⟩ := decoderRounds_records encodable replayed stream
  have rounds : (records hash [] (chunks.take count)).length = (chunks.take count).length := length_records _
  have size := records_le_stream hash (chunks.take count)
  rw [← rounds, recordStream] at size
  obtain ⟨spare, length⟩ := Nat.exists_eq_add_of_le size
  have main : decoderMain ((records hash [] (chunks.take count)).flatMap recordBytes ++ part) =
      decoderLoop (spare + part.length + 1) after := by
    rw [decoderMain, List.length_append, length, Nat.add_assoc, Nat.add_assoc, decoderLoop_rounds read.rounds,
      ← Nat.add_assoc]
  have agree : after.successfulChunks = after.totalChunksInHeader := by
    rw [read.successful, read.total]
    rfl
  rw [main, ← read.rest]
  rcases last with rfl | ⟨piece, found, inside, shorter⟩
  · exact Or.inl ⟨read.rest, decoderLoop_short (by rw [read.rest]; decide) agree _⟩
  · right
    rw [List.getElem?_map, Option.map_eq_some_iff] at found
    obtain ⟨record, member, rfl⟩ := found
    rw [← read.rest] at inside shorter
    have encodable := stream_encodable valid few record (List.mem_of_getElem? member)
    exact ⟨record, member, inside, shorter, decoderLoop_cut encodable inside shorter agree (Nat.le_add_left _ _)⟩

end

theorem oneByte_stream (hash : List UInt8 → SHA256Hash) : recordStream hash [[27]] = [4, 0, 0, 0, 0, 216] := by
  have bytes : recordBytes (.fresh [27]) = [4, 0, 0, 0, 0, 216] := by decide +kernel
  rw [recordStream, records, record_fresh (by simp), records, List.flatMap_singleton, bytes]

theorem oneByte_output (globals : EncoderGlobals) (i : Nat) :
    (processPacket globals [27] []).outputData = [4, 0, 0, 0, 0, 216] ∧
      (encoderStateAt chunkHash globals [27] [] i).outputData = if i = 0 then [] else [4, 0, 0, 0, 0, 216] := by
  have chunks : contentChunks [27] = [[27]] := by decide +kernel
  have stream := oneByte_stream chunkHash
  unfold recordStream at stream
  constructor
  · rw [processPacket, (processPacketWith_records chunkHash globals [] (by decide)).2, chunks, stream]
    rfl
  · rw [(encoderStateAt_records chunkHash globals [] (by decide) i).2, chunks]
    cases i with
    | zero => rfl
    | succ i =>
      rw [List.take_succ_cons, List.take_nil, stream]
      rfl

/-- A beginning of an output is what has been written behind some chunks and a part of the next record. The decoder
    reports a success on it, or leaves its table, which depends on that part only. -/
theorem truncation_outcome (globals : EncoderGlobals) {file : List UInt8} (short : file.length < 70000000)
    {cut : List UInt8} (inside : cut <+: (processPacket globals file []).outputData) :
    ∃ count part, cut = (encoderStateAt chunkHash globals file [] count).outputData ++ part ∧
      ((part = [] ∧ Successful (decoderMain cut)) ∨
        ∃ record, (records chunkHash [] (fileChunks file))[count]? = some record ∧ part <+: recordBytes record ∧
          part.length < (recordBytes record).length ∧
          ((¬CutInTable part record ∧ decoderMain cut = none) ∨
            (CutInTable part record ∧ Successful (decoderMain cut)))) := by
  have count := contentChunks_count file
  have output : (processPacket globals file []).outputData = recordStream chunkHash (contentChunks file) :=
    (processPacketWith_records chunkHash globals [] (show file.length ≤ 2 ^ 31 by omega)).2
  rw [output] at inside
  obtain ⟨done, part, split, outcome⟩ := decoderMain_cut (contentChunks_valid file) (by omega) inside
  rw [fileChunks_eq (by omega)]
  refine ⟨done, part, split.trans ?_, outcome⟩
  rw [(encoderStateAt_records chunkHash globals [] (show file.length ≤ 2 ^ 31 by omega) done).2]
  rfl

/-- A decoder that is given the beginning of an output never reports a failure. -/
theorem decoder_never_reports_truncation (globals : EncoderGlobals) (file : List UInt8)
    (short : file.length < 70000000) {cut : List UInt8}
    (inside : cut <+: (processPacket globals file []).outputData) :
    ¬∃ final, decoderMain cut = some final ∧ final.successfulChunks ≠ final.totalChunksInHeader := by
  rintro ⟨final, ran, differ⟩
  have success : ¬Successful (decoderMain cut) := by
    rintro ⟨other, finished, agree⟩
    rw [finished, Option.some.injEq] at ran
    exact differ (ran ▸ agree)
  obtain ⟨_, _, _, ⟨_, done⟩ | ⟨_, _, _, _, ⟨_, outside⟩ | ⟨_, done⟩⟩⟩ :=
    truncation_outcome globals short inside
  · exact success done
  · rw [outside] at ran
    cases ran
  · exact success done

theorem decoder_never_reports_truncation_five : ¬∃ final,
    decoderMain [4, 0, 0, 0, 0] = some final ∧ final.successfulChunks ≠ final.totalChunksInHeader := by
  apply decoder_never_reports_truncation encoderGlobals [27] (by decide)
  rw [(oneByte_output encoderGlobals 0).1]
  decide

/-- The last byte of the only record is missing; the decoder writes 31 for the 27 and reports a success. -/
theorem truncation_is_accepted :
    ¬∀ (globals : EncoderGlobals) (file cut : List UInt8), file.length < 70000000 →
      cut <+: (processPacket globals file []).outputData →
      (∀ i, cut ≠ (encoderStateAt chunkHash globals file [] i).outputData) →
      ∃ final, decoderMain cut = some final ∧ final.successfulChunks ≠ final.totalChunksInHeader := by
  intro always
  have result : (decoderMain [4, 0, 0, 0, 0]).map (fun final =>
      (final.output, final.successfulChunks, final.totalChunksInHeader)) = some ([31], 1, 1) := by decide +kernel
  obtain ⟨final, ran, differ⟩ := always encoderGlobals [27] [4, 0, 0, 0, 0] (by decide)
    (by rw [(oneByte_output encoderGlobals 0).1]; decide)
    (by
      intro i boundary
      rw [(oneByte_output encoderGlobals i).2] at boundary
      split at boundary <;> cases boundary)
  rw [ran, Option.map_some, Option.some.injEq, Prod.mk.injEq, Prod.mk.injEq] at result
  rw [result.2.1, result.2.2] at differ
  exact differ rfl

end DedupProof
