import DedupPipeline.Decoder.Lossless

namespace DedupProof

open DedupModel BackReference

section

variable (hash : List UInt8 → SHA256Hash) (globals : EncoderGlobals) {file : List UInt8}
  (short : file.length < 70000000)

include short

theorem decoderMain_first : ∃ final, decoderMain (processPacketWith hash globals file []).outputData = some final ∧
    final.output = ((fileChunks file).map (firstWith hash (fileChunks file))).flatten ∧
    final.successfulChunks = (fileChunks file).length ∧ final.failedChunks = 0 := by
  have count := contentChunks_count file
  have output : (processPacketWith hash globals file []).outputData = recordStream hash (contentChunks file) :=
    (processPacketWith_records hash globals [] (by omega)).2
  obtain ⟨store, replayed⟩ : ∃ store, replay [] (records hash [] (contentChunks file)) =
      some (store, (contentChunks file).map (firstWith hash (contentChunks file))) := replay_records_first [] _
  obtain ⟨final, ran, _, written, _, successful, failed⟩ :=
    decoderMain_stream (contentChunks_valid file) (by omega) replayed
  rw [fileChunks_eq (by omega), output]
  exact ⟨final, ran, written, successful, failed⟩

/-- For each chunk the decoder writes the first chunk of the file with the same digest and counts a success. It
    gives every chunk back exactly if no two different chunks have one digest. -/
theorem decoder_collisions : ∃ final, decoderMain (processPacketWith hash globals file []).outputData = some final ∧
    final.output = ((fileChunks file).map (firstWith hash (fileChunks file))).flatten ∧
    final.successfulChunks = (fileChunks file).length ∧ final.failedChunks = 0 ∧
    ((∀ chunk ∈ fileChunks file, firstWith hash (fileChunks file) chunk = chunk) ↔
      ∀ left ∈ fileChunks file, ∀ right ∈ fileChunks file, hash left = hash right → left = right) := by
  obtain ⟨final, ran, written, successful, failed⟩ := decoderMain_first hash globals short
  exact ⟨final, ran, written, successful, failed, firstWith_self_iff⟩

end

theorem decoder_collisions_constant : ∃ final,
    decoderMain (processPacketWith (fun _ => Vector.replicate 32 0) encoderGlobals [27, 114] []).outputData =
      some final ∧ final.output = [27, 27] ∧ final.failedChunks = 0 := by
  obtain ⟨final, ran, written, _, failed, _⟩ :=
    decoder_collisions (fun _ => Vector.replicate 32 0) encoderGlobals (show [27, 114].length < 70000000 by decide)
  refine ⟨final, ran, written.trans ?_, failed⟩
  have chunks : fileChunks [27, 114] = [[27], [114]] := by decide +kernel
  rw [chunks]
  rfl

end DedupProof
