import DedupPipeline.Library.Loop
import DedupPipeline.Server.LzwHw
import DedupPipeline.Server.RecordOrder

namespace DedupModel

structure Device where
  inputBuf : Memory.Store UInt8
  outputBuf : Memory.Store UInt8
  compressedSizeBuf : UInt32
  hwGlobals : LzwGlobals

def enqueueTask (device : Device) (inputSize : UInt16) : Device :=
  let output := lzwEncodeHw device.hwGlobals device.inputBuf inputSize device.outputBuf
  ⟨device.inputBuf, output.compressedData, output.compressedSizeBuf, output.globals⟩

structure HostState where
  device : Device
  counters : Counters
  chunkHashMap : ChunkHashMap
  lzwChunkIndex : Int
  outputData : List UInt8

def hostDuplicate (state : HostState) (duplicateIndex : Int) (chunkSize : Nat) : HostState :=
  { state with
    outputData := appendUint32Le state.outputData (duplicateHeader duplicateIndex)
    counters := countDuplicate state.counters chunkSize }

/-- New chunk, perform LZW compression using FPGA: here the OpenCL calls take effect in program order. `none` is the
    `return 1` for a chunk that exceeds the input buffer. -/
def hostNew (state : HostState) (chunk : List UInt8) : Option HostState :=
  let device := { state.device with compressedSizeBuf := 0 }
  if inputSize < chunk.length then none
  else
    let device := { device with inputBuf := Memory.write device.inputBuf 0 chunk }
    let device := enqueueTask device (UInt16.ofNat chunk.length)
    let compressedSize := device.compressedSizeBuf
    let compressedDataHost := Memory.read device.outputBuf 0 compressedSize.toNat
    some { state with
      device := device
      outputData := appendCompressed state.outputData compressedSize compressedDataHost
      counters := countCompressed state.counters compressedSize chunk.length }

/-- One round of the loop; here the size of a chunk is a `size_t`. -/
def hostChunk (file : List UInt8) (state : HostState) (bounds : Nat × Nat) : Option HostState :=
  let (start, stop) := bounds
  let chunkSize := stop - start
  let chunk := (file.drop start).take chunkSize
  if chunkSize = 0 ∨ maxChunkSize < chunkSize then some state
  else
    let (duplicateIndex, chunkHashMap, lzwChunkIndex) :=
      dedup (chunkHash chunk) state.chunkHashMap state.lzwChunkIndex
    let state := { state with chunkHashMap := chunkHashMap, lzwChunkIndex := lzwChunkIndex }
    if duplicateIndex ≠ -1 then some (hostDuplicate state duplicateIndex chunk.length)
    else hostNew state chunk

def hostStart (device : Device) (counters : Counters) : HostState := ⟨device, counters, ChunkHashMap.empty, 0, []⟩

def hostChunkLoop (device : Device) (counters : Counters) (file : List UInt8) : Option HostState :=
  (chunkBounds file).foldlM (hostChunk file) (hostStart device counters)

end DedupModel

namespace DedupProof

open DedupModel

/-- The two drivers agree on the map, the index and the output; the dictionaries and buffers are not compared. -/
structure HostMatches (host : HostState) (encoder : EncoderState) : Prop where
  chunkHashMap : host.chunkHashMap = encoder.chunkHashMap
  lzwChunkIndex : host.lzwChunkIndex = encoder.lzwChunkIndex
  outputData : host.outputData = encoder.outputData

theorem hostNew_record (state : HostState) {chunk : List UInt8} (nonempty : chunk ≠ [])
    (upper : chunk.length ≤ maxChunkSize) :
    ∃ next, hostNew state chunk = some next ∧ next.chunkHashMap = state.chunkHashMap ∧
      next.lzwChunkIndex = state.lzwChunkIndex ∧
      next.outputData = state.outputData ++ recordBytes (.fresh chunk) := by
  have bound : chunk.length ≤ 5120 := upper
  have fits : ¬inputSize < chunk.length := by
    unfold inputSize
    omega
  have size : (UInt16.ofNat chunk.length).toNat = chunk.length := by
    rw [UInt16.toNat_ofNat']
    omega
  have input : Memory.read (Memory.write state.device.inputBuf 0 chunk) 0 (UInt16.ofNat chunk.length).toNat =
      chunk := by
    rw [size, Memory.read_write]
  obtain ⟨stored, counted⟩ := lzwEncodeHw_output state.device.hwGlobals state.device.outputBuf input nonempty
  -- what is read back from the device is what the kernel stored, whatever the buffer held before
  refine ⟨_, if_neg fits, rfl, rfl, ?_⟩
  show appendCompressed state.outputData (lzwEncodeHw _ _ _ _).compressedSizeBuf
    (Memory.read (lzwEncodeHw _ _ _ _).compressedData 0 (lzwEncodeHw _ _ _ _).compressedSizeBuf.toNat) = _
  rw [stored, counted, lzwBytes_size nonempty (Nat.le_trans upper (by decide)), Memory.read_write]
  exact appendCompressed_record state.outputData nonempty upper

theorem hostChunk_matches {file : List UInt8} {host : HostState} {encoder : EncoderState} {bounds : Nat × Nat}
    {chunk : List UInt8} (related : HostMatches host encoder) (isChunk : IsChunk file bounds chunk) :
    ∃ next, hostChunk file host bounds = some next ∧ HostMatches next (storeChunk chunkHash encoder chunk) := by
  obtain ⟨start, stop⟩ := bounds
  have stops : stop = start + chunk.length := isChunk.slice.size
  have size : stop - start = chunk.length := by omega
  have content : (file.drop start).take chunk.length = chunk := isChunk.slice.content
  have positive := List.length_pos_iff.mpr isChunk.nonempty
  have valid : ¬(chunk.length = 0 ∨ maxChunkSize < chunk.length) :=
    not_or.mpr ⟨by omega, Nat.not_lt.mpr isChunk.upper⟩
  simp only [hostChunk, storeChunk, size, content, if_neg valid, related.chunkHashMap, related.lzwChunkIndex]
  obtain ⟨duplicateIndex, chunkHashMap, lzwChunkIndex⟩ :=
    dedup (chunkHash chunk) encoder.chunkHashMap encoder.lzwChunkIndex
  by_cases duplicate : duplicateIndex ≠ -1
  · rw [if_pos duplicate, if_pos duplicate]
    refine ⟨_, rfl, rfl, rfl, ?_⟩
    show appendUint32Le host.outputData _ = appendUint32Le encoder.outputData _
    rw [related.outputData]
  · rw [if_neg duplicate, if_neg duplicate]
    obtain ⟨next, made, map, index, output⟩ := hostNew_record
      { host with chunkHashMap := chunkHashMap, lzwChunkIndex := lzwChunkIndex } isChunk.nonempty isChunk.upper
    refine ⟨next, made, map, index, ?_⟩
    rw [output, storeNew_output _ isChunk.nonempty isChunk.upper]
    show host.outputData ++ _ = encoder.outputData ++ _
    rw [related.outputData]

/-- The FPGA driver never returns early and builds the output of `process_packet`, whatever its buffers and the
    two dictionaries held before. -/
theorem host_eq_process_packet (device : Device) (counters : Counters) (globals : EncoderGlobals) (file : List UInt8)
    (short : file.length < 70000000) :
    ∃ final, hostChunkLoop device counters file = some final ∧
      final.outputData = (processPacket globals file []).outputData := by
  have related := chunkBounds_chunks (show file.length < 2 ^ 32 by omega)
  have start : HostMatches (hostStart device counters) (encoderStart globals []) := ⟨rfl, rfl, rfl⟩
  obtain ⟨final, ran, agree⟩ := Loop.foldlM_lockstep related
    (fun _ _ _ _ before isChunk => hostChunk_matches before isChunk) start
  refine ⟨final, ran, ?_⟩
  rw [processPacket, processPacketWith, foldl_processChunk chunkHash related]
  exact agree.outputData

theorem host_eq_process_packet_twice : ∃ final,
    hostChunkLoop ⟨fun _ => 7, fun _ => 7, 7, initialGlobals⟩ Counters.zero [27, 27] = some final ∧
      final.outputData = (processPacket encoderGlobals [27, 27] []).outputData ∧
      final.outputData = [4, 0, 0, 0, 0, 216] ++ [1, 0, 0, 0] := by
  obtain ⟨final, ran, same⟩ := host_eq_process_packet ⟨fun _ => 7, fun _ => 7, 7, initialGlobals⟩ Counters.zero
    encoderGlobals [27, 27] (by decide)
  have chunks : fileChunks [27, 27] = [[27], [27]] := by decide +kernel
  have code : lzwBytes [27] = [0, 216] := by decide +kernel
  have output : (processPacket encoderGlobals [27, 27] []).outputData = _ :=
    (processPacketWith_records chunkHash encoderGlobals [] (by decide)).2
  have written : BackReference.records chunkHash [] [[27], [27]] = [.fresh [27], .reference 0] := by
    simp [BackReference.records, BackReference.record, FirstSeen.register, FirstSeen.number]
  rw [← fileChunks_eq (by decide), chunks, written, List.flatMap_cons, recordBytes, code] at output
  exact ⟨final, ran, same, same.trans (output.trans (by decide))⟩

end DedupProof
