import DedupPipeline.Client.Udp
import DedupPipeline.Decoder.Lossless
import DedupPipeline.Hls.Host

namespace DedupProof

open DedupModel BackReference Memory

theorem hostChunkLoop_stream (device : Device) (counters : Counters) {file : List UInt8}
    (short : file.length < 70000000) : ∃ host, hostChunkLoop device counters file = some host ∧
      host.outputData = recordStream chunkHash (contentChunks file) := by
  have related := chunkBounds_chunks (show file.length < 2 ^ 32 by omega)
  have start : HostMatches (hostStart device counters) (encoderStart encoderGlobals []) := ⟨rfl, rfl, rfl⟩
  obtain ⟨host, ran, agree⟩ := Loop.foldlM_lockstep related
    (fun _ _ _ _ before isChunk => hostChunk_matches before isChunk) start
  have output : (processPacketWith chunkHash encoderGlobals file []).outputData =
      recordStream chunkHash (contentChunks file) :=
    (processPacketWith_records chunkHash encoderGlobals [] (by omega)).2
  refine ⟨host, ran, agree.outputData.trans ?_⟩
  rw [← output, processPacketWith, foldl_processChunk chunkHash related]

theorem decoderMain_separate {file : List UInt8} (short : file.length < 70000000)
    (separate : ∀ left ∈ fileChunks file, ∀ right ∈ fileChunks file,
      chunkHash left = chunkHash right → left = right) :
    ∃ final, decoderMain (recordStream chunkHash (contentChunks file)) = some final ∧ final.output = file ∧
      final.failedChunks = 0 := by
  have count := contentChunks_count file
  rw [fileChunks_eq (by omega)] at separate
  obtain ⟨store, replayed⟩ := replay_records_exact (contentChunks file) separate
  obtain ⟨final, ran, _, written, _, _, failed⟩ :=
    decoderMain_stream (contentChunks_valid file) (by omega) replayed
  rw [contentChunks_flatten] at written
  exact ⟨final, ran, written, failed⟩

section

variable (heap localBuf : Store UInt8) (inputBuffers : Nat → Store UInt8) (fileBuffer : Store UInt8)
  (device : Device) (counters : Counters) (globals : EncoderGlobals) {file : List UInt8}
  {blocksize serverBlocksize : Nat} {actions : List Network.Action}
  {state : Network.State (List UInt8) (Option ReceiveState)}

/-- When their receive loop has ended, both servers write the same archive of what they have stored. It decodes to a
    part of the file, to all of it exactly if no datagram is missing. -/
theorem lossy_transfer_archive (positive : 1 ≤ blocksize) (bounded : blocksize ≤ 16384)
    (fits : blocksize ≤ serverBlocksize) (whole : blocksize ≤ file.length) (short : file.length < 70000000)
    (inOrder : ∀ action ∈ actions, action.InOrder)
    (ran : udpRun serverBlocksize inputBuffers fileBuffer (clientMain heap localBuf file blocksize).sent actions =
      some state) (ended : loopEnded state.receiver = true)
    (separate : ∀ left ∈ fileChunks (storedFile state.receiver), ∀ right ∈ fileChunks (storedFile state.receiver),
      chunkHash left = chunkHash right → left = right) :
    ∃ host final, (∃ earlier, state.delivered = earlier ++ [lastPacket file blocksize]) ∧
      hostChunkLoop device counters (storedFile state.receiver) = some host ∧
      host.outputData = (processPacket globals (storedFile state.receiver) []).outputData ∧
      decoderMain host.outputData = some final ∧ final.failedChunks = 0 ∧
      final.output = (state.delivered.map payloadOf).flatten ∧
      (final.output = file ↔ state.delivered = (clientMain heap localBuf file blocksize).sent) := by
  obtain ⟨earlier, closed, _⟩ :=
    (udp_delivered heap localBuf inputBuffers fileBuffer positive bounded fits whole ran).2.1 ended
  obtain ⟨stored, part⟩ :=
    lossy_stored heap localBuf inputBuffers fileBuffer positive bounded fits whole short inOrder ran
  rw [← length_storedFile] at part
  have output : (processPacket globals (storedFile state.receiver) []).outputData = _ :=
    (processPacketWith_records chunkHash globals [] (show (storedFile state.receiver).length ≤ 2 ^ 31 by omega)).2
  obtain ⟨host, hostRan, archive⟩ := hostChunkLoop_stream device counters
    (show (storedFile state.receiver).length < 70000000 by omega)
  obtain ⟨final, decoded, written, failed⟩ := decoderMain_separate
    (show (storedFile state.receiver).length < 70000000 by omega) separate
  refine ⟨host, final, ⟨earlier, closed⟩, hostRan, archive.trans output.symm, archive ▸ decoded, failed,
    written.trans stored, ?_⟩
  rw [written]
  constructor
  · intro same
    apply lossy_complete heap localBuf inputBuffers fileBuffer positive bounded fits whole short inOrder ran
    rw [← length_storedFile, same]
  · intro all
    rw [stored, all, (sent_content heap localBuf positive whole).1]

theorem lossy_transfer_archive_second : ∃ state,
    udpRun 4 0 0 (clientMain 0 0 [7, 8, 9] 2).sent [.send, .send, .lose 0, .deliver 0] = some state ∧
    ∃ final, decoderMain (processPacket encoderGlobals (storedFile state.receiver) []).outputData = some final ∧
      final.output = [9] := by
  obtain ⟨state, ran⟩ : ∃ state, udpRun 4 0 0 (clientMain 0 0 [7, 8, 9] 2).sent
      [.send, .send, .lose 0, .deliver 0] = some state := ⟨_, rfl⟩
  have stored : (udpRun 4 0 0 (clientMain 0 0 [7, 8, 9] 2).sent [.send, .send, .lose 0, .deliver 0]).map
      (fun state => storedFile state.receiver) = some [9] := by decide
  have delivered : (udpRun 4 0 0 (clientMain 0 0 [7, 8, 9] 2).sent [.send, .send, .lose 0, .deliver 0]).map
      Network.State.delivered = some [packet true [9]] := by decide
  have ended : (udpRun 4 0 0 (clientMain 0 0 [7, 8, 9] 2).sent [.send, .send, .lose 0, .deliver 0]).map
      (fun state => loopEnded state.receiver) = some true := by decide
  rw [ran, Option.map_some, Option.some.injEq] at stored delivered ended
  obtain ⟨host, final, _, _, archive, decoded, _, written, _⟩ := lossy_transfer_archive 0 0 0 0
    ⟨0, 0, 0, initialGlobals⟩ Counters.zero encoderGlobals (show 1 ≤ 2 by decide) (by decide)
    (show 2 ≤ 4 by decide) (show 2 ≤ [7, 8, 9].length by decide) (by decide)
    (by simp [Network.Action.InOrder]) ran ended (by
      have chunks : fileChunks [9] = [[9]] := by decide +kernel
      rw [stored, chunks]
      intro left inLeft right inRight _
      rw [List.mem_singleton.mp inLeft, List.mem_singleton.mp inRight])
  refine ⟨state, ran, final, archive ▸ decoded, ?_⟩
  rw [written, delivered]
  decide

end

end DedupProof
